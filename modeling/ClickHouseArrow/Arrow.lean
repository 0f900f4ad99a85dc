import ClickHouseArrow.Basic

/-!
# Arrow arrays, as the codec reads them

The codec consumes Arrow arrays (the `arrow` crate) through a handful of accessors:
`len()`, `nulls()` and `NullBuffer::validity()` on the write path, `data_type()`,
`is_null(i)` and `value(i)` on the sparse read path.  This module models those accessors and
nothing else of the library.

## Main Definitions

* `NullBuffer` — packed validity bits with the bit `offset` at which the array's rows start;
  `validity` returns the packed bytes *not including* that offset, as the library documents.
* `ArrowArray` — a data type, one value slot per row and an optional null buffer; `slice`
  shares the null buffer's bytes and moves its offset, as `Array::slice` does.
* `DataType`, `Datum` — the data types the sparse codec tells apart, and the values their
  slots hold; `decimalAt` — the number a decimal slot stands for at its array's scale.

## Design Notes

The invariants the library maintains are fields of the structures: a null buffer's bytes
cover `offset + len` bits, it has one bit per row, and every slot holds a value of the
array's type (a fixed-size binary value has exactly `size` bytes).  An array that breaks
them cannot be built, here as in the library.
-/

namespace ClickHouseArrow.Arrow

/-- Arrow's time units. -/
inductive TimeUnit where
  | second
  | millisecond
  | microsecond
  | nanosecond
  deriving DecidableEq, Repr

/-- Arrow's `DataType`: the arms `expand_sparse_array` matches, and the nested and other
types its `_` arm rejects. -/
inductive DataType where
  | int8 | int16 | int32 | int64
  | uInt8 | uInt16 | uInt32 | uInt64
  | float32 | float64
  | date32 | date64
  | timestamp (unit : TimeUnit) (tz : Option String)
  | decimal128 (precision : Nat) (scale : Int)
  | decimal256 (precision : Nat) (scale : Int)
  | utf8 | largeUtf8
  | binary | largeBinary
  | boolean
  | fixedSizeBinary (size : Int)
  | list (item : DataType)
  | map (entries : DataType)
  | dictionary (key value : DataType)
  /-- Any other Arrow type (`Null`, `Float16`, `Struct`, …), by its name. -/
  | other (name : String)
  deriving DecidableEq, Repr

/-- A value slot.  A primitive's value is its bit pattern: every primitive type's `Default`
(`0`, `0.0`, the epoch) is the all-zero pattern. -/
inductive Datum where
  | native (bits : Nat)
  | utf8 (s : String)
  | binary (bytes : List UInt8)
  | boolean (b : Bool)
  /-- A value of a nested or other type, which the codec never looks inside. -/
  | opaque' (tag : Nat)
  deriving DecidableEq, Repr

/-- The slots an array of a data type holds. -/
def Datum.HasType : Datum → DataType → Prop
  | .native _, .int8 | .native _, .int16 | .native _, .int32 | .native _, .int64
  | .native _, .uInt8 | .native _, .uInt16 | .native _, .uInt32 | .native _, .uInt64
  | .native _, .float32 | .native _, .float64 | .native _, .date32 | .native _, .date64
  | .native _, .timestamp _ _ | .native _, .decimal128 _ _ | .native _, .decimal256 _ _ => True
  | .utf8 _, .utf8 | .utf8 _, .largeUtf8 => True
  | .binary _, .binary | .binary _, .largeBinary => True
  | .binary bytes, .fixedSizeBinary size => 0 ≤ size ∧ bytes.length = size.toNat
  | .boolean _, .boolean => True
  | .opaque' _, .list _ | .opaque' _, .map _ | .opaque' _, .dictionary _ _
  | .opaque' _, .other _ => True
  | _, _ => False

/-- Arrow's `NullBuffer`: a `BooleanBuffer` of `len` validity bits (1 = valid) starting `offset`
bits into the packed bytes `buffer`. -/
structure NullBuffer where
  buffer : List UInt8
  offset : Nat
  len : Nat
  fits : offset + len ≤ 8 * buffer.length

namespace NullBuffer

/-- `NullBuffer::is_valid(i)`: bit `offset + i` of the packed bytes. -/
def isValid (nulls : NullBuffer) (i : Nat) : Bool :=
  (nulls.buffer.getD ((nulls.offset + i) / 8) 0).toNat.testBit ((nulls.offset + i) % 8)

/-- `NullBuffer::validity()`: "the packed validity of this `NullBuffer` not including any
offset" — the bytes, from bit 0. -/
def validity (nulls : NullBuffer) : List UInt8 := nulls.buffer

/-- `NullBuffer::slice(off, len)`: the same bytes, the offset moved on by `off`. -/
def slice (nulls : NullBuffer) (off len : Nat) (within : off + len ≤ nulls.len) : NullBuffer where
  buffer := nulls.buffer
  offset := nulls.offset + off
  len := len
  fits := by have := nulls.fits; omega

end NullBuffer

/-- An Arrow array: its data type, one value slot per row, and its null buffer if it has
one. -/
structure ArrowArray where
  dataType : DataType
  values : List Datum
  nulls : Option NullBuffer
  nulls_len : ∀ nb ∈ nulls, nb.len = values.length
  typed : ∀ d ∈ values, d.HasType dataType

namespace ArrowArray

/-- `Array::len()`. -/
def len (array : ArrowArray) : Nat := array.values.length

/-- `Array::is_null(i)`: the row's validity bit is clear; an array without a null buffer has
no nulls. -/
def isNull (array : ArrowArray) (i : Nat) : Bool :=
  match array.nulls with
  | none => false
  | some nulls => !nulls.isValid i

/-- `value(i)` of the typed array. -/
def value (array : ArrowArray) (i : Nat) : Option Datum := array.values[i]?

/-- The number row `i` of a `Decimal128(_, scale)` array stands for: its slot's 128 bits read
as a two's-complement integer, times `10 ^ -scale`. -/
def decimalAt (array : ArrowArray) (i : Nat) : Option ℚ :=
  match array.dataType, array.value i with
  | .decimal128 _ scale, some (.native bits) =>
      some ((if bits < 2 ^ 127 then (bits : ℚ) else (bits : ℚ) - 2 ^ 128) / 10 ^ scale)
  | _, _ => none

/-- The null buffer of a slice: the parent's, sliced, if it has one. -/
def sliceNulls : (nulls : Option NullBuffer) → (off len : Nat) →
    (∀ nb ∈ nulls, off + len ≤ nb.len) → Option NullBuffer
  | none, _, _, _ => none
  | some nb, off, len, within => some (nb.slice off len (within nb rfl))

theorem sliceNulls_len {nulls : Option NullBuffer} {off len : Nat}
    {within : ∀ nb ∈ nulls, off + len ≤ nb.len} :
    ∀ nb ∈ sliceNulls nulls off len within, nb.len = len := by
  cases nulls <;> simp [sliceNulls, NullBuffer.slice]

/-- `Array::slice(off, len)`: rows `off … off + len - 1`, sharing the parent's buffers. -/
def slice (array : ArrowArray) (off len : Nat) (within : off + len ≤ array.len) : ArrowArray where
  dataType := array.dataType
  values := (array.values.drop off).take len
  nulls := sliceNulls array.nulls off len fun nb member => by
    rw [array.nulls_len nb member]; exact within
  nulls_len := by
    intro nb member
    rw [sliceNulls_len nb member, List.length_take, List.length_drop]
    simp only [ArrowArray.len] at within
    omega
  typed := fun d member => array.typed d (List.mem_of_mem_drop (List.mem_of_mem_take member))

@[simp] theorem len_slice (array : ArrowArray) (off len : Nat) (within : off + len ≤ array.len) :
    (array.slice off len within).len = len := by
  simp only [ArrowArray.len, slice, List.length_take, List.length_drop] at within ⊢
  omega

end ArrowArray

/-! ### Building arrays -/

/-- Validity bits as a number, bit `j` for entry `j`. -/
def bitsValue : List Bool → Nat
  | [] => 0
  | b :: bs => b.toNat + 2 * bitsValue bs

theorem testBit_bitsValue : ∀ (bits : List Bool) (j : Nat),
    (bitsValue bits).testBit j = bits.getD j false
  | [], j => by simp [bitsValue]
  | b :: bs, 0 => by cases b <;> simp [bitsValue, Nat.testBit_zero]
  | b :: bs, j + 1 => by
      have half : (b.toNat + 2 * bitsValue bs) / 2 = bitsValue bs := by
        have := b.toNat_lt; omega
      rw [bitsValue, Nat.testBit_succ, half, testBit_bitsValue bs j]
      simp

theorem bitsValue_lt : ∀ bits : List Bool, bitsValue bits < 2 ^ bits.length
  | [] => by simp [bitsValue]
  | b :: bs => by
      have := bitsValue_lt bs
      have := b.toNat_lt
      rw [bitsValue, List.length_cons, Nat.pow_succ]
      omega

/-- Byte `q` of the little-endian bytes of `n`. -/
theorem toNat_getD_toLE : ∀ (k n q : Nat), n < 2 ^ (8 * k) →
    ((toLE n k).getD q 0).toNat = n / 2 ^ (8 * q) % 256
  | 0, n, q, small => by
      obtain rfl : n = 0 := by simpa using small
      simp [toLE]
  | k + 1, n, 0, _ => by simp [toLE, UInt8.toNat_ofNat']
  | k + 1, n, q + 1, small => by
      have quotient : n / 256 < 2 ^ (8 * k) := by
        rw [Nat.div_lt_iff_lt_mul (by decide)]
        rw [show 8 * (k + 1) = 8 * k + 8 by omega, Nat.pow_add] at small
        exact small
      rw [toLE, List.getD_cons_succ, toNat_getD_toLE k (n / 256) q quotient, Nat.div_div_eq_div_mul,
        show 8 * (q + 1) = 8 + 8 * q by omega, Nat.pow_add]

/-- `NullBufferBuilder::finish`: validity bits packed eight to a byte, bit 0 first, from
bit offset 0. -/
def NullBuffer.ofValidity (validity : List Bool) : NullBuffer where
  buffer := toLE (bitsValue validity) ((validity.length + 7) / 8)
  offset := 0
  len := validity.length
  fits := by rw [length_toLE]; omega

theorem NullBuffer.isValid_ofValidity (validity : List Bool) (i : Nat) :
    (NullBuffer.ofValidity validity).isValid i = validity.getD i false := by
  have small : bitsValue validity < 2 ^ (8 * ((validity.length + 7) / 8)) :=
    lt_of_lt_of_le (bitsValue_lt validity) (Nat.pow_le_pow_right (by decide) (by omega))
  rw [NullBuffer.isValid, NullBuffer.ofValidity]
  simp only [Nat.zero_add]
  rw [toNat_getD_toLE _ _ _ small, show 256 = 2 ^ 8 from rfl, Nat.testBit_mod_two_pow,
    ← Nat.shiftRight_eq_div_pow, Nat.testBit_shiftRight,
    decide_eq_true (Nat.mod_lt i (by decide : 8 > 0)), Bool.true_and, show 8 * (i / 8) + i % 8 = i by omega, testBit_bitsValue]

/-- An array builder (`PrimitiveBuilder`, `GenericStringBuilder`, `BooleanBuilder`,
`FixedSizeBinaryBuilder`) for arrays of `dataType`: the slots appended so far, `none` for
a null, each of the builder's type. -/
structure Builder (dataType : DataType) where
  slots : List (Option Datum)
  typed : ∀ s ∈ slots, ∀ d ∈ s, d.HasType dataType

namespace Builder

variable {t : DataType}

/-- `with_capacity`: no slots yet (the capacity changes no result). -/
def empty : Builder t := ⟨[], by simp⟩

/-- `append_value`. -/
def appendValue (builder : Builder t) (d : Datum) (typed : d.HasType t) : Builder t where
  slots := builder.slots ++ [some d]
  typed := by
    intro s member d' inSlot
    rcases List.mem_append.mp member with old | new
    · exact builder.typed s old d' inSlot
    · obtain rfl : s = some d := by simpa using new
      obtain rfl : d = d' := by simpa using inSlot
      exact typed

/-- `append_null`. -/
def appendNull (builder : Builder t) : Builder t where
  slots := builder.slots ++ [none]
  typed := by
    intro s member d' inSlot
    rcases List.mem_append.mp member with old | new
    · exact builder.typed s old d' inSlot
    · obtain rfl : s = none := by simpa using new
      cases inSlot

/-- `finish`: an array of the slots, with `default` in the value buffer where a null was
appended, and a null buffer only when one was. -/
def finish (builder : Builder t) (default : Datum) (defaultTyped : default.HasType t) :
    ArrowArray where
  dataType := t
  values := builder.slots.map (·.getD default)
  nulls := if builder.slots.all Option.isSome then none
    else some (NullBuffer.ofValidity (builder.slots.map Option.isSome))
  nulls_len := by
    intro nb member
    split at member
    · cases member
    · obtain rfl := Option.some.inj member
      simp [NullBuffer.ofValidity]
  typed := by
    intro d member
    obtain ⟨s, inSlots, rfl⟩ := List.mem_map.mp member
    cases s with
    | none => exact defaultTyped
    | some d => exact builder.typed _ inSlots d rfl

@[simp] theorem slots_appendValue (builder : Builder t) (d : Datum) (typed : d.HasType t) :
    (builder.appendValue d typed).slots = builder.slots ++ [some d] := rfl

@[simp] theorem slots_appendNull (builder : Builder t) :
    builder.appendNull.slots = builder.slots ++ [none] := rfl

@[simp] theorem len_finish (builder : Builder t) (default : Datum) (defaultTyped : default.HasType t) :
    (builder.finish default defaultTyped).len = builder.slots.length := by
  simp [finish, ArrowArray.len]

/-- Row `i` of a finished array is null exactly when a null was appended there, and holds
the value appended there otherwise. -/
theorem finish_row (builder : Builder t) (default : Datum) (defaultTyped : default.HasType t)
    {i : Nat} {slot : Option Datum} (appended : builder.slots[i]? = some slot) :
    (builder.finish default defaultTyped).isNull i = slot.isNone ∧
      (builder.finish default defaultTyped).value i = some (slot.getD default) := by
  refine ⟨?_, by simp [finish, ArrowArray.value, appended]⟩
  simp only [finish, ArrowArray.isNull]
  by_cases allSome : builder.slots.all Option.isSome = true
  · rw [if_pos allSome]
    have := List.all_eq_true.mp allSome slot (List.mem_iff_getElem?.mpr ⟨i, appended⟩)
    cases slot <;> simp_all
  · rw [if_neg allSome]
    simp only
    rw [NullBuffer.isValid_ofValidity, List.getD_eq_getElem?_getD, List.getElem?_map, appended]
    cases slot <;> rfl

end Builder

end ClickHouseArrow.Arrow
