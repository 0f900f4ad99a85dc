import ClickHouseArrow.Simd.Bitmap
import ClickHouseArrow.Arrow

/-!
# Null masks on the write path (arrow/serialize/null.rs)

A nullable ClickHouse column is preceded by its null mask, one byte per row, 1 for null.
`serialize_nulls` (into a byte buffer), `serialize_nulls_async` (into an async writer) and
`write_nullable_vectored` (mask and values in one vectored write) all build the mask the
same way, in `prepare_null_bitmap`: a pooled buffer of `len` zero bytes, overwritten by
`expand_null_bitmap` over `null_buffer.validity()` when the array has a null buffer.
Columns whose type, one `Nullable` stripped, is an `Array` or a `Map` get no mask.

## Main results

* `prepareNullBitmap_eq` — the mask is the expansion of the validity bytes *from bit 0*,
  `len` bytes long, on every target; `serializeNulls_eq`, `serializeNullsAsync_eq` and
  `writeNullableVectored_eq` — what each writer appends, the same mask for all three.
* `serializeNulls_slice_shifted` — a slice's null buffer does not start at bit 0 of
  `validity()`, and there the mask written is not the slice's `is_null` mask.
* `serializeNulls_mask_of_offset_zero` — when the null buffer starts at bit 0 of its bytes,
  the mask is the array's `is_null` mask (`maskFromBitZero_eq_isNullMask`).
* `nullWriters_agree` — the three writers write the same bytes, on every target and to every
  sink, and never panic.

## Design Notes

`serialize_nulls` puts into a `ClickHouseBytesWrite`, a growable buffer that cannot fail.  The
two async writers take a `ClickHouseWrite` sink, the `Writer` the frame writers take, and
return its error: `write_all` takes all its bytes or fails, and `write_vectored_all`
(`crate::io`, not under src/) is taken as one `write_all` of its slices in order.
-/

namespace ClickHouseArrow.Serialize

open Arrow Simd

/-- The crate's column type `Type` (types.rs, not under src/; `Type` is a Lean keyword): the
wrappers the null-mask writers look through, and every other type by its name. -/
inductive ChType where
  | nullable (inner : ChType)
  | array (inner : ChType)
  | map (key value : ChType)
  | lowCardinality (inner : ChType)
  | scalar (name : String)
  deriving DecidableEq, Repr

/-- Modelled from the spec: `Type::strip_null` (types.rs) is not under src/.  The spec's
data model: container columns "carry no mask regardless of their enclosing nullable wrapper",
so `strip_null` removes that one `Nullable` wrapper. -/
def ChType.stripNull : ChType → ChType
  | .nullable inner => inner
  | t => t

/-- `matches!(type_hint.strip_null(), Type::Array(_) | Type::Map(_, _))`. -/
def ChType.isContainer (t : ChType) : Bool :=
  match t.stripNull with
  | .array _ | .map _ _ => true
  | _ => false

section Writers

variable (target : Target)

/-- `prepare_null_bitmap`: `len` zero bytes from the pool, overwritten by the expansion of
`null_buffer.validity()` when the array has a null buffer. -/
def prepareNullBitmap (array : ArrowArray) : Option (List UInt8) :=
  let len := array.len
  let nullMask := List.replicate len 0
  match array.nulls with
  | some nullBuffer => expandNullBitmap target nullBuffer.validity nullMask len
  | none => some nullMask

/-- `serialize_nulls`: nothing for a container type or an empty array; otherwise the mask,
built as in `prepare_null_bitmap` (the source inlines that body), put after the buffer's
bytes. -/
def serializeNulls (typeHint : ChType) (writer : List UInt8) (array : ArrowArray) :
    Option (List UInt8) :=
  if typeHint.isContainer then some writer
  else if array.len = 0 then some writer
  else (prepareNullBitmap target array).map (writer ++ ·)

/-- `serialize_nulls_async` into a `ClickHouseWrite` sink: the same checks and mask, then
`write_all`, whose error it returns. -/
def serializeNullsAsync {σ : Type} (writer : Writer σ) (typeHint : ChType) (s : σ)
    (array : ArrowArray) : Outcome σ :=
  if typeHint.isContainer then .ok s
  else if array.len = 0 then .ok s
  else match prepareNullBitmap target array with
    | some nullMask => .ofExcept (writer.writeAll s nullMask)
    | none => .panic

/-- `write_nullable_vectored`: for a container type only the values, when there are any; for
an empty array nothing; otherwise the mask and the values in one `write_vectored_all`, which
writes both slices in order or fails. -/
def writeNullableVectored {σ : Type} (writer : Writer σ) (typeHint : ChType) (s : σ)
    (array : ArrowArray) (valuesBytes : List UInt8) : Outcome σ :=
  if typeHint.isContainer then writer.writeNonempty s valuesBytes
  else if array.len = 0 then .ok s
  else match prepareNullBitmap target array with
    | some nullMask => .ofExcept (writer.writeAll s (nullMask ++ valuesBytes))
    | none => .panic

end Writers

/-! ### What the writers write -/

/-- The mask the code builds: the validity bytes expanded from bit 0, or all zeros. -/
def maskFromBitZero (array : ArrowArray) : List UInt8 :=
  match array.nulls with
  | some nullBuffer => nullMask nullBuffer.validity array.len
  | none => List.replicate array.len 0

/-- The mask the array's rows call for: 1 for each row `is_null` reports. -/
def isNullMask (array : ArrowArray) : List UInt8 :=
  (List.range array.len).map fun i => if array.isNull i then 1 else 0

/-- The validity bytes always cover the array's rows, from bit 0 as from the offset. -/
theorem validity_long (array : ArrowArray) {nullBuffer : NullBuffer}
    (has : array.nulls = some nullBuffer) :
    (array.len + 7) / 8 ≤ nullBuffer.validity.length := by
  have rows := array.nulls_len nullBuffer has
  have := nullBuffer.fits
  simp only [NullBuffer.validity, ArrowArray.len] at rows ⊢
  omega

theorem prepareNullBitmap_eq (target : Target) (array : ArrowArray) :
    prepareNullBitmap target array = some (maskFromBitZero array) := by
  unfold prepareNullBitmap maskFromBitZero
  split
  case h_1 nullBuffer has =>
    have long := validity_long array has
    rw [expandNullBitmap_eq target _ _ _ long (by simp), expandedOutput_eq_take_append,
      length_nullMask long]
    simp
  case h_2 => rfl

theorem length_maskFromBitZero (array : ArrowArray) :
    (maskFromBitZero array).length = array.len := by
  unfold maskFromBitZero
  split
  case h_1 nullBuffer has => exact length_nullMask (validity_long array has)
  case h_2 => simp

theorem serializeNulls_eq (target : Target) (typeHint : ChType) (writer : List UInt8)
    (array : ArrowArray) :
    serializeNulls target typeHint writer array =
      some (if typeHint.isContainer then writer else writer ++ maskFromBitZero array) := by
  unfold serializeNulls
  by_cases container : typeHint.isContainer
  · simp [container]
  · by_cases empty : array.len = 0
    · have : maskFromBitZero array = [] := by
        rw [← List.length_eq_zero, length_maskFromBitZero, empty]
      simp [container, empty, this]
    · simp [container, empty, prepareNullBitmap_eq]

/-- A non-empty array's mask is not empty. -/
theorem maskFromBitZero_ne_nil {array : ArrowArray} (nonempty : array.len ≠ 0) :
    maskFromBitZero array ≠ [] := by
  rw [← List.length_pos, length_maskFromBitZero]
  omega

theorem serializeNullsAsync_eq (target : Target) {σ : Type} (writer : Writer σ)
    (typeHint : ChType) (s : σ) (array : ArrowArray) :
    serializeNullsAsync target writer typeHint s array =
      writer.writeNonempty s (if typeHint.isContainer then [] else maskFromBitZero array) := by
  unfold serializeNullsAsync Writer.writeNonempty
  by_cases container : typeHint.isContainer
  · simp [container]
  · by_cases empty : array.len = 0
    · have : maskFromBitZero array = [] := by
        rw [← List.length_eq_zero, length_maskFromBitZero, empty]
      simp [container, empty, this]
    · simp [container, empty, prepareNullBitmap_eq, maskFromBitZero_ne_nil empty]

theorem writeNullableVectored_eq (target : Target) {σ : Type} (writer : Writer σ)
    (typeHint : ChType) (s : σ) (array : ArrowArray) (valuesBytes : List UInt8)
    (nonempty : 0 < array.len) :
    writeNullableVectored target writer typeHint s array valuesBytes =
      writer.writeNonempty s
        ((if typeHint.isContainer then [] else maskFromBitZero array) ++ valuesBytes) := by
  unfold writeNullableVectored
  by_cases container : typeHint.isContainer
  · simp [container]
  · simp [container, Nat.pos_iff_ne_zero.mp nonempty, prepareNullBitmap_eq, Writer.writeNonempty,
      maskFromBitZero_ne_nil (Nat.pos_iff_ne_zero.mp nonempty)]

/-- When the null buffer starts at bit 0 of its bytes (or there is none), the mask written
is the array's `is_null` mask. -/
theorem maskFromBitZero_eq_isNullMask (array : ArrowArray)
    (atBitZero : ∀ nb ∈ array.nulls, nb.offset = 0) :
    maskFromBitZero array = isNullMask array := by
  unfold maskFromBitZero isNullMask
  split
  case h_1 nullBuffer has =>
    have long := validity_long array has
    apply List.ext_getElem?
    intro i
    by_cases row : i < array.len
    · rw [getElem?_nullMask _ row long, List.getElem?_map, List.getElem?_range row]
      simp only [ArrowArray.isNull, has, NullBuffer.isValid, NullBuffer.validity,
        atBitZero nullBuffer has, Nat.zero_add, Option.map_some', Option.some.injEq,
        List.getD_eq_getElem?_getD]
      cases (nullBuffer.buffer[i / 8]?.getD 0).toNat.testBit (i % 8) <;> rfl
    · rw [List.getElem?_eq_none (by rw [length_nullMask long]; omega),
        List.getElem?_eq_none (by simp; omega)]
  case h_2 nulls none =>
    apply List.ext_getElem?
    intro i
    by_cases row : i < array.len
    · simp [List.getElem?_range row, ArrowArray.isNull, none, row]
    · rw [List.getElem?_eq_none (by simp; omega), List.getElem?_eq_none (by simp; omega)]

/-! ### A slice whose null buffer starts mid-byte -/

/-- `Int32Array::from(vec![Some(1), None, Some(3)])`: validity bits `0b101`. -/
def int32OneNullThree : ArrowArray where
  dataType := .int32
  values := [.native 1, .native 0, .native 3]
  nulls := some { buffer := [0b101], offset := 0, len := 3, fits := by decide }
  nulls_len := by simp
  typed := by
    simp only [List.mem_cons, List.mem_singleton, List.not_mem_nil, or_false, forall_eq_or_imp,
      forall_eq]
    exact ⟨trivial, trivial, trivial⟩

/-- **The mask of a slice is shifted.**  Rows 1 and 2 of `[1, null, 3]` are `[null, 3]`, so
the mask `serialize_nulls` must write is `[1, 0]`; on every target it writes `[0, 1]`, the
flags of bits 0 and 1 of `validity()` instead of bits 1 and 2. -/
theorem serializeNulls_slice_shifted (target : Target) :
    isNullMask (int32OneNullThree.slice 1 2 (by decide)) = [1, 0] ∧
      serializeNulls target (.scalar "Int32") [] (int32OneNullThree.slice 1 2 (by decide)) =
        some [0, 1] := by
  rw [serializeNulls_eq]
  constructor <;> decide

/-! ### Arrays whose null buffer starts at bit 0 -/

/-- **The mask is right when the null buffer starts at bit 0.**  For an array that was not
sliced, its null buffer at bit 0 of `validity()` or absent, `prepare_null_bitmap` holds the
array's `is_null` mask on every target, and `serialize_nulls` appends it for every type that
is not a container. -/
theorem serializeNulls_mask_of_offset_zero (array : ArrowArray)
    (atBitZero : ∀ nb ∈ array.nulls, nb.offset = 0) (target : Target) :
    prepareNullBitmap target array = some (isNullMask array) ∧
      ∀ typeHint buf, typeHint.isContainer = false →
        serializeNulls target typeHint buf array = some (buf ++ isNullMask array) := by
  rw [prepareNullBitmap_eq, maskFromBitZero_eq_isNullMask array atBitZero]
  refine ⟨rfl, fun typeHint buf notContainer => ?_⟩
  rw [serializeNulls_eq, if_neg (by simp [notContainer]),
    maskFromBitZero_eq_isNullMask array atBitZero]

theorem serializeNulls_mask_of_offset_zero_int32 :
    (∀ nb ∈ int32OneNullThree.nulls, nb.offset = 0) ∧ isNullMask int32OneNullThree = [0, 1, 0] ∧
      ∀ target, prepareNullBitmap target int32OneNullThree = some (isNullMask int32OneNullThree) ∧
        ∀ typeHint buf, typeHint.isContainer = false →
          serializeNulls target typeHint buf int32OneNullThree =
            some (buf ++ isNullMask int32OneNullThree) :=
  have atBitZero : ∀ nb ∈ int32OneNullThree.nulls, nb.offset = 0 := by
    simp [int32OneNullThree]
  ⟨atBitZero, by decide, serializeNulls_mask_of_offset_zero int32OneNullThree atBitZero⟩

/-! ### The three writers agree -/

/-- **The writers write the same bytes on every target and to every sink.**
`serialize_nulls` appends a mask to a buffer; `serialize_nulls_async` writes that mask with
one `write_all`, and for a non-empty array `write_nullable_vectored` writes it ahead of the
values in one write, each to any sink and failing only with the sink's error.  None of them
panics, and a container type gets no mask. -/
theorem nullWriters_agree (typeHint : ChType) (array : ArrowArray) (valuesBytes : List UInt8)
    (nonempty : 0 < array.len) :
    ∃ mask, ∀ target : Target,
      (∀ buf, serializeNulls target typeHint buf array = some (buf ++ mask)) ∧
      ∀ {σ : Type} (writer : Writer σ) (s : σ),
        serializeNullsAsync target writer typeHint s array = writer.writeNonempty s mask ∧
        writeNullableVectored target writer typeHint s array valuesBytes =
          writer.writeNonempty s (mask ++ valuesBytes) := by
  refine ⟨if typeHint.isContainer then [] else maskFromBitZero array, fun target =>
    ⟨fun buf => ?_, fun writer s => ⟨serializeNullsAsync_eq target writer typeHint s array,
      writeNullableVectored_eq target writer typeHint s array valuesBytes nonempty⟩⟩⟩
  rw [serializeNulls_eq]
  split_ifs <;> simp

theorem nullWriters_agree_int32 :
    0 < int32OneNullThree.len ∧ ∃ mask, ∀ target : Target,
      (∀ buf, serializeNulls target (.scalar "Int32") buf int32OneNullThree = some (buf ++ mask)) ∧
      ∀ {σ : Type} (writer : Writer σ) (s : σ),
        serializeNullsAsync target writer (.scalar "Int32") s int32OneNullThree =
          writer.writeNonempty s mask ∧
        writeNullableVectored target writer (.scalar "Int32") s int32OneNullThree [1, 0, 0, 0] =
          writer.writeNonempty s (mask ++ [1, 0, 0, 0]) :=
  ⟨by decide, nullWriters_agree (.scalar "Int32") int32OneNullThree [1, 0, 0, 0] (by decide)⟩

end ClickHouseArrow.Serialize
