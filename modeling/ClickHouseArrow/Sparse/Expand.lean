import ClickHouseArrow.Arrow

/-!
# Dense expansion (native/sparse.rs)

`expand_sparse_array(sparse_array, offsets, total_rows)` turns the `k` non-default values
of a sparse column and their rows into a dense array of `total_rows` rows.  It asserts
that there is one offset per value, dispatches on the data type to one of five `expand_*`
functions, and rejects every other type with `Error::Unimplemented`.  The five functions
run one loop: walk the rows with a cursor into `offsets`; at the cursor's row append the
sparse value (or a null) and advance, elsewhere append the type's default.

## Main Definitions

* `expandRow`, `expandWith` — that loop, over a builder of the output type, and `finish`.
* `expandPrimitive`, `expandString`, `expandBinary`, `expandBoolean`,
  `expandFixedSizeBinary` — the members, each with its default and builder;
  `expandSparseArray` — the dispatch.
* `Handled`, `typeDefault` — the handled types and their defaults, as the spec lists them;
  `DenseExpansion` — what a dense expansion of a sparse array is.
* `expandedType`, `KeepsParameters` — the data type each arm's builder gives its result,
  and the types it leaves as they are.

## Main results

* `expandWith_rows` — for offsets in increasing order, the loop builds `total_rows` rows:
  each offset's row holds its sparse value, null or not, and every other row the default.
  Its proof is the loop invariant `Built`, kept by each row (`expandRow_built`).
* `expandSparseArray_dense` — dense expansion, for every handled type, bit for bit into the
  builder's data type, which is the input's exactly when `KeepsParameters` holds.
* `expandSparseArray_decimal_rescaled` — so a `Decimal128(10, 2)` value comes back at scale
  10: `12.34` as `0.0000001234`.

## Design Notes

The builders are typed (`PrimitiveBuilder<T>` only takes `T::Native`), which the model
keeps as the `Builder` invariant: the loop takes, as a proof, that the sparse array's values
fit the output type.  That type is the builder's: arrow-rs gives a `PrimitiveBuilder<T>`
the type `T::DATA_TYPE`, so timestamps come out without their time zone and decimals with
the default precision and scale.
-/

namespace ClickHouseArrow.Sparse

open Arrow

/-- The data type of the array each arm's builder finishes: `T::DATA_TYPE` for the
primitive arms (`Timestamp(unit, None)`, `Decimal128(38, 10)`, `Decimal256(76, 10)`), the
input's type for the others. -/
def expandedType : DataType → DataType
  | .timestamp unit _ => .timestamp unit none
  | .decimal128 _ _ => .decimal128 38 10
  | .decimal256 _ _ => .decimal256 76 10
  | t => t

theorem hasType_expandedType {d : Datum} {t : DataType} (typed : d.HasType t) :
    d.HasType (expandedType t) := by
  cases t <;> first
    | exact typed
    | cases d <;> trivial

/-- The types the builder's type leaves as they are: all but a timestamp with a time zone,
and a decimal of another precision or scale than `T::DATA_TYPE`'s. -/
def KeepsParameters : DataType → Prop
  | .timestamp _ tz => tz = none
  | .decimal128 precision scale => precision = 38 ∧ scale = 10
  | .decimal256 precision scale => precision = 76 ∧ scale = 10
  | _ => True

theorem expandedType_eq_self_iff (t : DataType) : expandedType t = t ↔ KeepsParameters t := by
  cases t <;> simp [expandedType, KeepsParameters, eq_comm]

/-! ### The loop -/

section Loop

variable {outputType : DataType} (sparse : ArrowArray) (offsets : List Nat)
  (compat : ∀ d : Datum, d.HasType sparse.dataType → d.HasType outputType)
  (default : Datum) (defaultTyped : default.HasType outputType)

/-- One row of the loop of the `expand_*` functions, with `offset_idx` and the builder:
the row at the next offset takes the sparse value there, or a null, and moves the cursor
on; any other row takes the default.  `none` is the panic of `value(offset_idx)` out of
bounds. -/
def expandRow (acc : Nat × Builder outputType) (row : Nat) : Option (Nat × Builder outputType) :=
  if acc.1 < offsets.length ∧ offsets[acc.1]? = some row then
    if sparse.isNull acc.1 then some (acc.1 + 1, acc.2.appendNull)
    else match found : sparse.values[acc.1]? with
      | some d => some (acc.1 + 1, acc.2.appendValue d
          (compat d (sparse.typed d (List.mem_iff_getElem?.mpr ⟨_, found⟩))))
      | none => none
  else some (acc.1, acc.2.appendValue default defaultTyped)

/-- `for row in 0..total_rows`, then `builder.finish()`. -/
def expandWith (totalRows : Nat) : Option ArrowArray :=
  ((List.range totalRows).foldlM (expandRow sparse offsets compat default defaultTyped)
    (0, Builder.empty)).map fun acc => acc.2.finish default defaultTyped

end Loop

/-! ### What the loop builds -/

/-- In increasing offsets a later index holds a later row. -/
theorem lt_of_sorted {offsets : List Nat} (sorted : offsets.Pairwise (· < ·)) {i j p q : Nat}
    (atI : offsets[i]? = some p) (atJ : offsets[j]? = some q) (before : i < j) : p < q := by
  obtain ⟨hi, rfl⟩ := List.getElem?_eq_some_iff.mp atI
  obtain ⟨hj, rfl⟩ := List.getElem?_eq_some_iff.mp atJ
  exact List.pairwise_iff_getElem.mp sorted i j hi hj before

/-- Increasing offsets name each row at most once. -/
theorem index_unique {offsets : List Nat} (sorted : offsets.Pairwise (· < ·)) {i j p : Nat}
    (atI : offsets[i]? = some p) (atJ : offsets[j]? = some p) : i = j := by
  rcases Nat.lt_trichotomy i j with before | same | after
  · exact absurd (lt_of_sorted sorted atI atJ before) (lt_irrefl p)
  · exact same
  · exact absurd (lt_of_sorted sorted atJ atI after) (lt_irrefl p)

section Rows

variable (sparse : ArrowArray) (offsets : List Nat) (default : Datum)

/-- The slot the row of offset `j` gets: a null, or the sparse value. -/
def sparseSlot (j : Nat) : Option (Option Datum) :=
  if sparse.isNull j then some none else sparse.values[j]?.map some

/-- **The loop's invariant** after `row` rows, with the cursor at `cursor`: the cursor has
passed exactly the offsets below `row`; the row of each holds its sparse slot, and every
other row below `row` the default. -/
structure Built (row cursor : Nat) (slots : List (Option Datum)) : Prop where
  cursor_le : cursor ≤ offsets.length
  passed : ∀ j p, offsets[j]? = some p → (j < cursor ↔ p < row)
  length : slots.length = row
  at_offset : ∀ j p, offsets[j]? = some p → p < row → slots[p]? = sparseSlot sparse j
  elsewhere : ∀ q < row, q ∉ offsets → slots[q]? = some (some default)

theorem built_zero : Built sparse offsets default 0 0 [] where
  cursor_le := Nat.zero_le _
  passed := fun _ _ _ => by simp
  length := rfl
  at_offset := fun _ _ _ below => absurd below (Nat.not_lt_zero _)
  elsewhere := fun _ below => absurd below (Nat.not_lt_zero _)

variable {sparse offsets default}

/-- The row at the cursor's offset takes its sparse slot, and the cursor moves on. -/
theorem Built.at_cursor (sorted : offsets.Pairwise (· < ·)) {row cursor : Nat}
    {slots : List (Option Datum)} (built : Built sparse offsets default row cursor slots)
    (inRange : cursor < offsets.length) (atCursor : offsets[cursor]? = some row)
    {slot : Option Datum} (slotEq : sparseSlot sparse cursor = some slot) :
    Built sparse offsets default (row + 1) (cursor + 1) (slots ++ [slot]) where
  cursor_le := inRange
  passed := fun j p atJ => by
    constructor
    · intro before
      rcases Nat.lt_or_ge j cursor with earlier | later
      · have := (built.passed j p atJ).mp earlier; omega
      · obtain rfl : j = cursor := by omega
        rw [atCursor] at atJ; cases atJ; omega
    · intro below
      rcases Nat.lt_or_ge p row with earlier | later
      · have := (built.passed j p atJ).mpr earlier; omega
      · obtain rfl : p = row := by omega
        rw [index_unique sorted atJ atCursor]; omega
  length := by rw [List.length_append, built.length]; rfl
  at_offset := fun j p atJ below => by
    rcases Nat.lt_or_ge p row with earlier | later
    · rw [List.getElem?_append_left (by rw [built.length]; exact earlier)]
      exact built.at_offset j p atJ earlier
    · obtain rfl : p = row := by omega
      rw [index_unique sorted atJ atCursor, ← built.length, List.getElem?_concat_length, slotEq]
  elsewhere := fun q below absent => by
    have : q ≠ row := fun same => absent (same ▸ List.mem_iff_getElem?.mpr ⟨cursor, atCursor⟩)
    rw [List.getElem?_append_left (by rw [built.length]; omega)]
    exact built.elsewhere q (by omega) absent

/-- A row at no offset takes the default, and the cursor stays. -/
theorem Built.off_cursor (sorted : offsets.Pairwise (· < ·)) {row cursor : Nat}
    {slots : List (Option Datum)} (built : Built sparse offsets default row cursor slots)
    (notHere : ¬(cursor < offsets.length ∧ offsets[cursor]? = some row)) :
    Built sparse offsets default (row + 1) cursor (slots ++ [some default]) := by
  have absent : row ∉ offsets := by
    intro member
    obtain ⟨j, atJ⟩ := List.mem_iff_getElem?.mp member
    have notBefore : ¬j < cursor := fun before => by
      have := (built.passed j row atJ).mp before; omega
    have jRange : j < offsets.length := (List.getElem?_eq_some_iff.mp atJ).1
    rcases Nat.lt_or_ge cursor j with earlier | same
    · obtain ⟨p, atCursor⟩ : ∃ p, offsets[cursor]? = some p :=
        ⟨offsets[cursor], List.getElem?_eq_getElem (by omega)⟩
      have := (built.passed cursor p atCursor).mpr (lt_of_sorted sorted atCursor atJ earlier)
      omega
    · obtain rfl : j = cursor := by omega
      exact notHere ⟨jRange, atJ⟩
  have other : ∀ j p, offsets[j]? = some p → p ≠ row := fun j p atJ same =>
    absent (same ▸ List.mem_iff_getElem?.mpr ⟨j, atJ⟩)
  exact {
    cursor_le := built.cursor_le
    passed := fun j p atJ => by
      have := other j p atJ
      rw [built.passed j p atJ]; omega
    length := by rw [List.length_append, built.length]; rfl
    at_offset := fun j p atJ below => by
      have := other j p atJ
      rw [List.getElem?_append_left (by rw [built.length]; omega)]
      exact built.at_offset j p atJ (by omega)
    elsewhere := fun q below notMember => by
      rcases Nat.lt_or_ge q row with earlier | later
      · rw [List.getElem?_append_left (by rw [built.length]; exact earlier)]
        exact built.elsewhere q earlier notMember
      · obtain rfl : q = row := by omega
        rw [← built.length, List.getElem?_concat_length] }

end Rows

/-- **A dense expansion** of `sparse` at `offsets` to `n` rows, of type `outputType`, with
`default` in the rows no offset names: the row of each offset holds its sparse value, null
or not. -/
structure DenseExpansion (sparse : ArrowArray) (offsets : List Nat) (n : Nat)
    (outputType : DataType) (default : Datum) (dense : ArrowArray) : Prop where
  dataType : dense.dataType = outputType
  len : dense.len = n
  at_offset : ∀ j p, offsets[j]? = some p → p < n →
    dense.isNull p = sparse.isNull j ∧ (sparse.isNull j = false → dense.value p = sparse.value j)
  elsewhere : ∀ q < n, q ∉ offsets → dense.isNull q = false ∧ dense.value q = some default

section Run

variable {outputType : DataType} {sparse : ArrowArray} {offsets : List Nat}
  (compat : ∀ d : Datum, d.HasType sparse.dataType → d.HasType outputType)
  {default : Datum} (defaultTyped : default.HasType outputType)

/-- One row keeps the invariant, and does not panic while there is a value per offset. -/
theorem expandRow_built (sorted : offsets.Pairwise (· < ·)) (lengths : sparse.len = offsets.length)
    {row cursor : Nat} {builder : Builder outputType}
    (built : Built sparse offsets default row cursor builder.slots) :
    ∃ next, expandRow sparse offsets compat default defaultTyped (cursor, builder) row = some next ∧
      Built sparse offsets default (row + 1) next.1 next.2.slots := by
  unfold expandRow
  by_cases here : cursor < offsets.length ∧ offsets[cursor]? = some row
  · rw [if_pos here]
    by_cases null : sparse.isNull cursor
    · rw [if_pos null]
      exact ⟨_, rfl, built.at_cursor sorted here.1 here.2 (by simp [sparseSlot, null])⟩
    · rw [if_neg null]
      split
      · rename_i d found
        exact ⟨_, rfl, built.at_cursor sorted here.1 here.2 (by simp [sparseSlot, null, found])⟩
      · rename_i missing
        have inRange : cursor < sparse.values.length := by
          show cursor < sparse.len; rw [lengths]; exact here.1
        simp [List.getElem?_eq_getElem inRange] at missing
  · rw [if_neg here]
    exact ⟨_, rfl, built.off_cursor sorted here⟩

/-- **The run**: the first `row` rows build the invariant. -/
theorem foldlM_expandRow_built (sorted : offsets.Pairwise (· < ·))
    (lengths : sparse.len = offsets.length) :
    ∀ row, ∃ acc : Nat × Builder outputType,
      (List.range row).foldlM (expandRow sparse offsets compat default defaultTyped)
        (0, Builder.empty) = some acc ∧ Built sparse offsets default row acc.1 acc.2.slots
  | 0 => ⟨(0, Builder.empty), rfl, built_zero sparse offsets default⟩
  | row + 1 => by
    obtain ⟨acc, ran, built⟩ := foldlM_expandRow_built sorted lengths row
    obtain ⟨next, stepped, built'⟩ := expandRow_built compat defaultTyped sorted lengths built
    refine ⟨next, ?_, built'⟩
    rw [List.range_succ, List.foldlM_append, ran]
    simpa using stepped

/-- **What the loop builds**: for offsets in increasing order and a value per offset, a dense
expansion with the loop's default. -/
theorem expandWith_rows (sorted : offsets.Pairwise (· < ·))
    (lengths : sparse.len = offsets.length) (totalRows : Nat) :
    ∃ dense, expandWith sparse offsets compat default defaultTyped totalRows = some dense ∧
      DenseExpansion sparse offsets totalRows outputType default dense := by
  obtain ⟨acc, ran, built⟩ := foldlM_expandRow_built compat defaultTyped sorted lengths totalRows
  refine ⟨acc.2.finish default defaultTyped, by rw [expandWith, ran]; rfl, rfl,
    by rw [Builder.len_finish, built.length], fun j p atJ below => ?_, fun q below absent => ?_⟩
  · have slotAt := built.at_offset j p atJ below
    have inRange : j < sparse.values.length := by
      show j < sparse.len; rw [lengths]; exact (List.getElem?_eq_some_iff.mp atJ).1
    by_cases null : sparse.isNull j
    · have row := Builder.finish_row acc.2 default defaultTyped
        (slotAt.trans (by simp [sparseSlot, null]) : acc.2.slots[p]? = some none)
      simp [row.1, null]
    · have row := Builder.finish_row acc.2 default defaultTyped
        (slotAt.trans (by simp [sparseSlot, null, List.getElem?_eq_getElem inRange]) :
          acc.2.slots[p]? = some (some sparse.values[j]))
      refine ⟨by simp [row.1, null], fun _ => ?_⟩
      rw [row.2, ArrowArray.value, List.getElem?_eq_getElem inRange]; rfl
  · have row := Builder.finish_row acc.2 default defaultTyped (built.elsewhere q below absent)
    exact ⟨row.1, row.2⟩

/-- Every arm's result, under the names the dispatch gives its type and default. -/
theorem ofOption_expandWith (sorted : offsets.Pairwise (· < ·))
    (lengths : sparse.len = offsets.length) (totalRows : Nat) {t : DataType} {d : Datum}
    (sameType : outputType = t) (sameDefault : default = d) :
    ∃ dense, Outcome.ofOption (expandWith sparse offsets compat default defaultTyped totalRows) =
      .ok dense ∧ DenseExpansion sparse offsets totalRows t d dense := by
  subst sameType sameDefault
  obtain ⟨dense, ran, expands⟩ := expandWith_rows compat defaultTyped sorted lengths totalRows
  exact ⟨dense, by rw [ran]; rfl, expands⟩

end Run

/-! ### The members and the dispatch -/

/-- `expand_primitive::<T>`: default rows get `T::Native::default()`, all-zero bits. -/
def expandPrimitive (sparse : ArrowArray) (offsets : List Nat) (totalRows : Nat)
    (primitive : (Datum.native 0).HasType sparse.dataType) : Option ArrowArray :=
  expandWith sparse offsets (fun _ typed => hasType_expandedType typed) (.native 0)
    (hasType_expandedType primitive) totalRows

/-- `expand_string::<O>`: default rows get `""`. -/
def expandString (sparse : ArrowArray) (offsets : List Nat) (totalRows : Nat)
    (string : (Datum.utf8 "").HasType sparse.dataType) : Option ArrowArray :=
  expandWith sparse offsets (fun d (typed : d.HasType sparse.dataType) => typed) (.utf8 "")
    string totalRows

/-- `expand_binary::<O>`: default rows get `b""`. -/
def expandBinary (sparse : ArrowArray) (offsets : List Nat) (totalRows : Nat)
    (binary : (Datum.binary []).HasType sparse.dataType) : Option ArrowArray :=
  expandWith sparse offsets (fun d (typed : d.HasType sparse.dataType) => typed) (.binary [])
    binary totalRows

/-- `expand_boolean`: default rows get `false`. -/
def expandBoolean (sparse : ArrowArray) (offsets : List Nat) (totalRows : Nat)
    (boolean : (Datum.boolean false).HasType sparse.dataType) : Option ArrowArray :=
  expandWith sparse offsets (fun d (typed : d.HasType sparse.dataType) => typed)
    (.boolean false) boolean totalRows

/-- `expand_fixed_size_binary`: `FixedSizeBinaryBuilder::with_capacity` panics on a negative
width; default rows get `vec![0u8; size as usize]`.  Its `append_value(..).unwrap()` cannot
fail: the array's values and the default have the width. -/
def expandFixedSizeBinary (sparse : ArrowArray) (offsets : List Nat) (totalRows : Nat)
    (size : Int) (isType : sparse.dataType = .fixedSizeBinary size) : Option ArrowArray :=
  if width : 0 ≤ size then
    expandWith sparse offsets (fun d (typed : d.HasType sparse.dataType) => typed)
      (.binary (List.replicate size.toNat 0)) (by rw [isType]; exact ⟨width, by simp⟩) totalRows
  else none

/-- `expand_sparse_array(sparse_array, offsets, total_rows)`, with `debug` the `{:?}` text
of a data type (arrow's `Debug`).  The `assert_eq!` on the lengths panics. -/
def expandSparseArray (debug : DataType → String) (sparse : ArrowArray) (offsets : List Nat)
    (totalRows : Nat) : Outcome ArrowArray :=
  if sparse.len ≠ offsets.length then .panic
  else match isType : sparse.dataType with
    | .int8 | .int16 | .int32 | .int64 | .uInt8 | .uInt16 | .uInt32 | .uInt64
    | .float32 | .float64 | .date32 | .date64 | .timestamp _ _
    | .decimal128 _ _ | .decimal256 _ _ =>
        .ofOption (expandPrimitive sparse offsets totalRows (by rw [isType]; trivial))
    | .utf8 | .largeUtf8 => .ofOption (expandString sparse offsets totalRows (by rw [isType]; trivial))
    | .binary | .largeBinary =>
        .ofOption (expandBinary sparse offsets totalRows (by rw [isType]; trivial))
    | .boolean => .ofOption (expandBoolean sparse offsets totalRows (by rw [isType]; trivial))
    | .fixedSizeBinary size =>
        .ofOption (expandFixedSizeBinary sparse offsets totalRows size isType)
    | _ => .err (.unimplemented ("Sparse expansion not implemented for type: " ++
        debug sparse.dataType))

/-! ### Dense expansion -/

/-- The types `expand_sparse_array` handles, as the spec lists them: the primitive, decimal,
date and timestamp arms, `Utf8`/`LargeUtf8`, `Binary`/`LargeBinary`, `Boolean`, and
`FixedSizeBinary` of a width an Arrow array can have (arrow-rs rejects a negative one). -/
def Handled : DataType → Prop
  | .int8 | .int16 | .int32 | .int64 | .uInt8 | .uInt16 | .uInt32 | .uInt64
  | .float32 | .float64 | .date32 | .date64 | .timestamp _ _
  | .decimal128 _ _ | .decimal256 _ _
  | .utf8 | .largeUtf8 | .binary | .largeBinary | .boolean => True
  | .fixedSizeBinary size => 0 ≤ size
  | _ => False

instance : DecidablePred Handled := fun t => by
  cases t <;> unfold Handled <;> infer_instance

/-- The default of a handled type, as the spec lists them: zero, `false`, the empty string
or bytes, or `size` zero bytes. -/
def typeDefault : DataType → Datum
  | .utf8 | .largeUtf8 => .utf8 ""
  | .binary | .largeBinary => .binary []
  | .boolean => .boolean false
  | .fixedSizeBinary size => .binary (List.replicate size.toNat 0)
  | _ => .native 0

/-- For a handled type, one offset per value and offsets in increasing order,
`expand_sparse_array` returns a dense expansion of the builder's type. -/
theorem expandSparseArray_of_handled (debug : DataType → String) (sparse : ArrowArray)
    (offsets : List Nat) (n : Nat) (handled : Handled sparse.dataType)
    (lengths : sparse.len = offsets.length) (sorted : offsets.Pairwise (· < ·)) :
    ∃ dense, expandSparseArray debug sparse offsets n = .ok dense ∧
      DenseExpansion sparse offsets n (expandedType sparse.dataType) (typeDefault sparse.dataType)
        dense := by
  unfold expandSparseArray
  rw [if_neg (not_not_intro lengths)]
  split <;> rename_i isType
  any_goals
    exact ofOption_expandWith _ _ sorted lengths n (by simp only [isType, expandedType])
      (by simp only [isType, typeDefault])
  · -- FixedSizeBinary, of a width an array can have
    rename_i size
    have width : 0 ≤ size := by rw [isType] at handled; exact handled
    rw [expandFixedSizeBinary, dif_pos width]
    exact ofOption_expandWith _ _ sorted lengths n (by simp only [isType, expandedType])
      (by simp only [isType, typeDefault])
  · -- no other type is handled: the arm's type is one of the others, or not handled
    exfalso
    cases t : sparse.dataType <;> rw [t] at handled <;>
      first | exact handled | contradiction | solve_by_elim

/-- **Dense expansion, bit for bit, into the builder's type.**  For a handled type, one
offset per value and offsets in increasing order, `expand_sparse_array` returns an array of
`n` rows: each offset's row below `n` is null exactly when its sparse value is and otherwise
holds that value's slot, and every other row is non-null and holds the type's default.  The
array has the input's data type exactly when `KeepsParameters` holds: a timestamp loses its
time zone, and a decimal takes the precision and scale `(38, 10)` or `(76, 10)`, its slots
unscaled. -/
theorem expandSparseArray_dense (debug : DataType → String) (sparse : ArrowArray)
    (offsets : List Nat) (n : Nat) (handled : Handled sparse.dataType)
    (lengths : sparse.len = offsets.length) (sorted : offsets.Pairwise (· < ·)) :
    ∃ dense, expandSparseArray debug sparse offsets n = .ok dense ∧
      DenseExpansion sparse offsets n (expandedType sparse.dataType) (typeDefault sparse.dataType)
        dense ∧
      (dense.dataType = sparse.dataType ↔ KeepsParameters sparse.dataType) := by
  obtain ⟨dense, ran, expands⟩ :=
    expandSparseArray_of_handled debug sparse offsets n handled lengths sorted
  exact ⟨dense, ran, expands, by rw [expands.dataType, expandedType_eq_self_iff]⟩

/-- The spec's `Int64` column `[10, 30]`, for rows 1 and 3. -/
def int64TenThirty : ArrowArray where
  dataType := .int64
  values := [.native 10, .native 30]
  nulls := none
  nulls_len := by simp
  typed := by
    simp only [List.mem_cons, List.mem_singleton, List.not_mem_nil, or_false, forall_eq_or_imp,
      forall_eq]
    exact ⟨trivial, trivial⟩

theorem expandSparseArray_dense_int64 :
    (Handled int64TenThirty.dataType ∧ int64TenThirty.len = [1, 3].length ∧
        [1, 3].Pairwise (· < ·)) ∧
      ∃ dense, expandSparseArray reprStr int64TenThirty [1, 3] 5 = .ok dense ∧
        DenseExpansion int64TenThirty [1, 3] 5 (expandedType int64TenThirty.dataType)
          (typeDefault int64TenThirty.dataType) dense ∧
        (dense.dataType = int64TenThirty.dataType ↔ KeepsParameters int64TenThirty.dataType) :=
  ⟨⟨trivial, rfl, by decide⟩, expandSparseArray_dense reprStr int64TenThirty [1, 3] 5 trivial rfl
    (by decide)⟩

/-! ### A decimal column comes back rescaled -/

/-- A `Decimal128(10, 2)` sparse column holding `12.34`, its slot the unscaled `1234`. -/
def decimalTwelveThirtyFour : ArrowArray where
  dataType := .decimal128 10 2
  values := [.native 1234]
  nulls := none
  nulls_len := by simp
  typed := by simp only [List.mem_singleton, forall_eq]; trivial

/-- **A decimal comes back at another scale.**  Expanding the `Decimal128(10, 2)` value
`12.34` to row 1 of 3 returns a `Decimal128(38, 10)` array whose row 1 holds the same
unscaled `1234`, which at that scale is `0.0000001234`. -/
theorem expandSparseArray_decimal_rescaled :
    decimalTwelveThirtyFour.decimalAt 0 = some (1234 / 10 ^ 2) ∧
      ∃ dense, expandSparseArray reprStr decimalTwelveThirtyFour [1] 3 = .ok dense ∧
        dense.dataType = .decimal128 38 10 ∧ dense.decimalAt 1 = some (1234 / 10 ^ 10) := by
  obtain ⟨dense, ran, expands⟩ :=
    expandSparseArray_of_handled reprStr decimalTwelveThirtyFour [1] 3 trivial rfl (by decide)
  have retyped : dense.dataType = .decimal128 38 10 := expands.dataType
  have copied : dense.value 1 = some (.native 1234) :=
    (expands.at_offset 0 1 rfl (by decide)).2 rfl
  refine ⟨by norm_num [ArrowArray.decimalAt, decimalTwelveThirtyFour, ArrowArray.value],
    dense, ran, retyped, ?_⟩
  rw [ArrowArray.decimalAt, retyped, copied]
  norm_num

end ClickHouseArrow.Sparse
