import ClickHouseArrow.Simd.Varint

/-!
# Sparse offsets (native/sparse.rs)

A sparse column stores only its non-default values, preceded by their positions in the
granule as VarUInt group sizes: the number of defaults before each non-default, and last the
number of trailing defaults with `END_OF_GRANULE_FLAG` (bit 62) set.
`read_sparse_offsets_sync` (over a `bytes::Buf`) and `read_sparse_offsets` (over an async
reader) read one granule's group sizes and return the positions below `num_rows`; a
`SparseDeserializeState` carries what lies beyond the window to the next call.

## Main Definitions

* `readGroups` — the `loop` of both readers, with its two branches `placeGroup` (a group
  without the flag) and `closeGranule` (the flagged one); `readSparseOffsetsSync` and
  `readSparseOffsets` — the carried state first (`resumeState`), then the loop.
* `VarUIntReader` — the crate's VarUInt readers (`crate::io`, not under src/) as a
  parameter: a read that succeeds consumes at least one byte.  `LEB128Reader` adds that
  the bytes `encode_varint` writes for a value below `2 ^ 63` read back as that value.
* `scanGroups` — the VarUInts a call reads, without the arithmetic.

## Main results

* `readGroups_eq` — a call is `scanGroups`, then a fold of `placeGroup` and one
  `closeGranule`: what it reads depends neither on the window nor on the state.
* `readSparseOffsets_stays_aligned` — `Ok` exactly when the stream starts with one
  granule's VarUInts, consuming exactly them; otherwise the reader's error.
* `readSparseOffsets_wraps` — `current_position` wraps around in a release build, and
  seven in-range group sizes make the reader return its offsets out of order.

## Design Notes

Both readers have one body and differ only in how a VarUInt is read, so they are one
definition over a `VarUIntReader`.  Neither can panic in a release build (the one
subtraction is guarded, the additions wrap), so a call's result is an `Except`.  The loop
is defined by well-founded recursion on the bytes left, which every successful read
shortens: every call terminates.
-/

namespace ClickHouseArrow.Sparse

open Simd

/-- `END_OF_GRANULE_FLAG = 1 << 62`. -/
def endOfGranuleFlag : UInt64 := (1 : UInt64) <<< 62

/-- `SparseDeserializeState`; its `Default`, `{}`, is the empty state. -/
structure SparseDeserializeState where
  /-- Trailing defaults from previous read that haven't been consumed yet. -/
  numTrailingDefaults : UInt64 := 0
  /-- Non-default value pending after the trailing defaults. -/
  hasValueAfterDefaults : Bool := false
  deriving DecidableEq, Repr

/-- A reader of VarUInts: `try_get_var_uint` on a `bytes::Buf`, or `read_var_uint` on an
async reader (`crate::io`, not under src/).  A read that succeeds consumes at least one
byte. -/
structure VarUIntReader where
  read : List UInt8 → Except Error (UInt64 × List UInt8)
  consumes : ∀ {s : List UInt8} {v : UInt64} {rest : List UInt8},
    read s = .ok (v, rest) → rest.length < s.length

/-- A reader of ClickHouse's VarUInts, which are LEB128: the bytes `encode_varint` writes for
a value below `2 ^ 63` read back as that value, whatever follows them. -/
structure LEB128Reader extends VarUIntReader where
  read_varintBytes : ∀ (v : UInt64) (rest : List UInt8), v.toNat < 2 ^ 63 →
    read (varintBytes v.toNat ++ rest) = .ok (v, rest)

/-- A VarUInt reader over `decode_varint`: it drops the bytes the decoder consumed, and
reports an early end of stream when there is no varint to decode.  It meets the LEB128
contract. -/
def decodeVarintReader : LEB128Reader where
  read s := match decodeVarint s with
    | some (v, n) => if 0 < n ∧ n ≤ s.length then .ok (v, s.drop n) else .error (.io .unexpectedEof)
    | none => .error (.io .unexpectedEof)
  consumes := by
    intro s v rest read
    dsimp only at read
    split at read
    · split at read
      · next consumed _ within =>
          simp only [Except.ok.injEq, Prod.mk.injEq] at read
          rw [← read.2, List.length_drop]
          omega
      · cases read
    · cases read
  read_varintBytes := by
    intro v rest small
    have nonempty : 0 < (varintBytes v.toNat).length := by
      rw [varintBytes]; split <;> simp
    have ofNatEq : UInt64.ofNat v.toNat = v :=
      UInt64.toNat_inj.mp (by rw [UInt64.toNat_ofNat', Nat.mod_eq_of_lt v.toNat_lt])
    simp only [decodeVarint_varintBytes v.toNat_lt rest, ofNatEq, List.length_append]
    rw [if_pos ⟨nonempty, by omega⟩, List.drop_left]

/-! ### The reader -/

/-- The variables of the loop: `offsets`, `current_position` and the state. -/
structure OffsetsLoop where
  offsets : List UInt64
  currentPosition : UInt64
  state : SparseDeserializeState
  deriving DecidableEq, Repr

/-- `(group_size & END_OF_GRANULE_FLAG) != 0`. -/
def isEndOfGranule (groupSize : UInt64) : Bool := groupSize &&& endOfGranuleFlag != 0

/-- `group_size & !END_OF_GRANULE_FLAG`. -/
def actualGroupSize (groupSize : UInt64) : UInt64 := groupSize &&& ~~~endOfGranuleFlag

/-- A group without the flag: move past its defaults; the non-default after them is pushed
when it is inside the window, and remembered otherwise (`current_position` then stays on
it). -/
def placeGroup (numRows : UInt64) (acc : OffsetsLoop) (groupSize : UInt64) : OffsetsLoop :=
  let currentPosition := acc.currentPosition + actualGroupSize groupSize
  if currentPosition < numRows then
    { acc with offsets := acc.offsets ++ [currentPosition], currentPosition := currentPosition + 1 }
  else { acc with currentPosition, state := { acc.state with hasValueAfterDefaults := true } }

/-- The group with the flag: move past its defaults, and store those beyond the window. -/
def closeGranule (numRows : UInt64) (acc : OffsetsLoop) (groupSize : UInt64) :
    SparseDeserializeState :=
  let currentPosition := acc.currentPosition + actualGroupSize groupSize
  if currentPosition > numRows then
    { acc.state with numTrailingDefaults := currentPosition - numRows }
  else acc.state

/-- What a call returns, `Ok(offsets)` with the bytes the reader has left or the reader's
error, and the state it leaves behind. -/
structure SparseRead where
  result : Except Error (List UInt64 × List UInt8)
  state : SparseDeserializeState

/-- The `loop` of `read_sparse_offsets_sync`: read group sizes until one carries the flag. -/
def readGroups (reader : VarUIntReader) (numRows : UInt64) (acc : OffsetsLoop)
    (s : List UInt8) : SparseRead :=
  match _read : reader.read s with
  | .error e => ⟨.error e, acc.state⟩
  | .ok (groupSize, rest) =>
      if isEndOfGranule groupSize then ⟨.ok (acc.offsets, rest), closeGranule numRows acc groupSize⟩
      else readGroups reader numRows (placeGroup numRows acc groupSize) rest
termination_by s.length
decreasing_by exact reader.consumes _read

/-- The start of a call: the trailing defaults carried over move `current_position` on, and
a pending non-default is pushed when it falls inside the window. -/
def resumeState (numRows : UInt64) (state : SparseDeserializeState) : OffsetsLoop :=
  let acc : OffsetsLoop := ⟨[], 0, state⟩
  let acc := if acc.state.numTrailingDefaults > 0 then
      { acc with currentPosition := acc.currentPosition + acc.state.numTrailingDefaults,
                 state := { acc.state with numTrailingDefaults := 0 } }
    else acc
  if acc.state.hasValueAfterDefaults then
    { offsets := if acc.currentPosition < numRows then acc.offsets ++ [acc.currentPosition]
        else acc.offsets
      currentPosition := acc.currentPosition + 1
      state := { acc.state with hasValueAfterDefaults := false } }
  else acc

/-- `read_sparse_offsets_sync(reader, num_rows, state)` over the reader's bytes `s`. -/
def readSparseOffsetsSync (reader : VarUIntReader) (numRows : UInt64)
    (state : SparseDeserializeState) (s : List UInt8) : SparseRead :=
  readGroups reader numRows (resumeState numRows state) s

/-- `read_sparse_offsets`, the async reader: the same body over `read_var_uint().await`. -/
def readSparseOffsets (reader : VarUIntReader) (numRows : UInt64)
    (state : SparseDeserializeState) (s : List UInt8) : SparseRead :=
  readSparseOffsetsSync reader numRows state s

/-! ### What a call reads -/

/-- The group sizes a call reads: those without the flag, then the flagged one and the
bytes after it, or the reader's error. -/
def scanGroups (reader : VarUIntReader) (s : List UInt8) :
    List UInt64 × Except Error (UInt64 × List UInt8) :=
  match _read : reader.read s with
  | .error e => ([], .error e)
  | .ok (groupSize, rest) =>
      if isEndOfGranule groupSize then ([], .ok (groupSize, rest))
      else ((scanGroups reader rest).1.cons groupSize, (scanGroups reader rest).2)
termination_by s.length
decreasing_by exact reader.consumes _read

/-- **A call is a scan, then arithmetic.**  The loop reads what `scanGroups` reads and
folds `placeGroup` over the groups without the flag. -/
theorem readGroups_eq (reader : VarUIntReader) (numRows : UInt64) (acc : OffsetsLoop)
    (s : List UInt8) :
    readGroups reader numRows acc s =
      match (scanGroups reader s).2 with
      | .ok (last, rest) =>
          ⟨.ok (((scanGroups reader s).1.foldl (placeGroup numRows) acc).offsets, rest),
            closeGranule numRows ((scanGroups reader s).1.foldl (placeGroup numRows) acc) last⟩
      | .error e => ⟨.error e, ((scanGroups reader s).1.foldl (placeGroup numRows) acc).state⟩ := by
  induction acc, s using readGroups.induct reader numRows with
  | case1 acc s e failed =>
      rw [readGroups, scanGroups]; split <;> simp_all
  | case2 acc s groupSize rest read flagged =>
      rw [readGroups, scanGroups]; split <;> simp_all
  | case3 acc s groupSize rest read unflagged ih =>
      rw [readGroups, scanGroups]; split
      · simp_all
      · next read' => rw [read] at read'; cases read'; simp only [unflagged, if_false, ih]; rfl

/-- `s` starts with group sizes `groups` without the flag, read one after the other, then a
flagged one, `last`, followed by `rest`. -/
inductive ReadsGranule (reader : VarUIntReader) :
    List UInt8 → List UInt64 → UInt64 → List UInt8 → Prop
  | last {s : List UInt8} {last : UInt64} {rest : List UInt8} :
      reader.read s = .ok (last, rest) → isEndOfGranule last = true →
      ReadsGranule reader s [] last rest
  | group {s s' : List UInt8} {g : UInt64} {groups : List UInt64} {last : UInt64}
      {rest : List UInt8} :
      reader.read s = .ok (g, s') → isEndOfGranule g = false →
      ReadsGranule reader s' groups last rest → ReadsGranule reader s (g :: groups) last rest

/-- `s` starts with group sizes `groups` without the flag, after which the reader fails
with `e`. -/
inductive FailsInGranule (reader : VarUIntReader) : List UInt8 → List UInt64 → Error → Prop
  | fail {s : List UInt8} {e : Error} : reader.read s = .error e → FailsInGranule reader s [] e
  | group {s s' : List UInt8} {g : UInt64} {groups : List UInt64} {e : Error} :
      reader.read s = .ok (g, s') → isEndOfGranule g = false →
      FailsInGranule reader s' groups e → FailsInGranule reader s (g :: groups) e

theorem scanGroups_ok_iff (reader : VarUIntReader) (s : List UInt8) (groups : List UInt64)
    (last : UInt64) (rest : List UInt8) :
    scanGroups reader s = (groups, .ok (last, rest)) ↔ ReadsGranule reader s groups last rest := by
  constructor
  · induction s using scanGroups.induct reader generalizing groups with
    | case1 s e failed => rw [scanGroups]; split <;> simp_all
    | case2 s groupSize s' read flagged =>
        rw [scanGroups]; split
        · simp_all
        · next read' =>
            rw [read] at read'; cases read'
            simp only [flagged, if_true, Prod.mk.injEq, Except.ok.injEq]
            rintro ⟨rfl, rfl, rfl⟩
            exact .last read flagged
    | case3 s groupSize s' read unflagged ih =>
        rw [scanGroups]; split
        · simp_all
        · next read' =>
            rw [read] at read'; cases read'
            have unflagged : isEndOfGranule groupSize = false := by simpa using unflagged
            simp only [unflagged, Bool.false_eq_true, if_false]
            intro scanned
            obtain rfl : groups = groupSize :: (scanGroups reader s').1 :=
              (congrArg Prod.fst scanned).symm
            have tail : (scanGroups reader s').2 = .ok (last, rest) := congrArg Prod.snd scanned
            exact .group read unflagged (ih _ (Prod.ext rfl tail))
  · intro reads
    induction reads with
    | last read flagged => rw [scanGroups]; split <;> simp_all
    | group read unflagged _ ih =>
        rw [scanGroups]; split
        · simp_all
        · next read' =>
            simp only [read, Except.ok.injEq, Prod.mk.injEq] at read'
            obtain ⟨rfl, rfl⟩ := read'
            simp [unflagged, ih]

theorem scanGroups_error_iff (reader : VarUIntReader) (s : List UInt8) (groups : List UInt64)
    (e : Error) :
    scanGroups reader s = (groups, .error e) ↔ FailsInGranule reader s groups e := by
  constructor
  · induction s using scanGroups.induct reader generalizing groups with
    | case1 s e' failed =>
        rw [scanGroups]; split
        · next read' =>
            rw [failed] at read'; cases read'
            simp only [Prod.mk.injEq, Except.error.injEq]
            rintro ⟨rfl, rfl⟩
            exact .fail failed
        · simp_all
    | case2 s groupSize s' read flagged => rw [scanGroups]; split <;> simp_all
    | case3 s groupSize s' read unflagged ih =>
        rw [scanGroups]; split
        · simp_all
        · next read' =>
            rw [read] at read'; cases read'
            have unflagged : isEndOfGranule groupSize = false := by simpa using unflagged
            simp only [unflagged, Bool.false_eq_true, if_false]
            intro scanned
            obtain rfl : groups = groupSize :: (scanGroups reader s').1 :=
              (congrArg Prod.fst scanned).symm
            have tail : (scanGroups reader s').2 = .error e := congrArg Prod.snd scanned
            exact .group read unflagged (ih _ (Prod.ext rfl tail))
  · intro fails
    induction fails with
    | fail failed => rw [scanGroups]; split <;> simp_all
    | group read unflagged _ ih =>
        rw [scanGroups]; split
        · simp_all
        · next read' =>
            simp only [read, Except.ok.injEq, Prod.mk.injEq] at read'
            obtain ⟨rfl, rfl⟩ := read'
            simp [unflagged, ih]

/-- What a call returns: `Ok` with the offsets the fold pushed exactly when the scan ends on
a flagged group size, the reader's error otherwise. -/
theorem readGroups_result (reader : VarUIntReader) (numRows : UInt64) (acc : OffsetsLoop)
    (s : List UInt8) :
    (readGroups reader numRows acc s).result = (scanGroups reader s).2.map fun ending =>
      (((scanGroups reader s).1.foldl (placeGroup numRows) acc).offsets, ending.2) := by
  rw [readGroups_eq]; cases (scanGroups reader s).2 <;> rfl

/-- **The sparse reader stays aligned with the stream.**  For every stream, window and
state, each reader returns `Ok` exactly when the stream starts with group sizes without the
flag followed by one with it, and then leaves exactly the bytes after that one; otherwise
it returns the error the reader met after the unflagged group sizes it read. -/
theorem readSparseOffsets_stays_aligned (reader : VarUIntReader) (numRows : UInt64)
    (state : SparseDeserializeState) (s : List UInt8) :
    ∀ read ∈ [readSparseOffsetsSync, readSparseOffsets],
      (∀ rest, (∃ offsets, (read reader numRows state s).result = .ok (offsets, rest)) ↔
        ∃ groups last, ReadsGranule reader s groups last rest) ∧
      ∀ e, (read reader numRows state s).result = .error e ↔
        ∃ groups, FailsInGranule reader s groups e := by
  have sync : ∀ (rest : List UInt8),
      ((∃ offsets, (readSparseOffsetsSync reader numRows state s).result = .ok (offsets, rest)) ↔
        ∃ groups last, ReadsGranule reader s groups last rest) ∧
      ∀ e, (readSparseOffsetsSync reader numRows state s).result = .error e ↔
        ∃ groups, FailsInGranule reader s groups e := by
    intro rest
    simp only [readSparseOffsetsSync, readGroups_result, ← scanGroups_ok_iff,
      ← scanGroups_error_iff]
    obtain ⟨groups, ending⟩ := scanGroups reader s
    rcases ending with e' | ⟨last, rest'⟩
    · simp [Except.map]
    · simp [Except.map, eq_comm]
  intro read member
  simp only [List.mem_cons, List.mem_singleton, List.not_mem_nil, or_false] at member
  rcases member with rfl | rfl
  · exact ⟨fun rest => (sync rest).1, (sync []).2⟩
  · exact ⟨fun rest => (sync rest).1, (sync []).2⟩

/-- The spec's granule `[d, d, v₁, d, v₂, d, d, d]`, group sizes `2`, `1` and `3` flagged,
followed by a byte of the next column. -/
theorem readSparseOffsets_stays_aligned_spec_granule :
    readSparseOffsetsSync ∈ [readSparseOffsetsSync, readSparseOffsets] ∧
      ((∀ rest, (∃ offsets, (readSparseOffsetsSync decodeVarintReader.toVarUIntReader 8 {}
          [0x02, 0x01, 0x83, 0x80, 0x80, 0x80, 0x80, 0x80, 0x80, 0x80, 0x40, 0x07]).result =
            .ok (offsets, rest)) ↔
          ∃ groups last, ReadsGranule decodeVarintReader.toVarUIntReader
            [0x02, 0x01, 0x83, 0x80, 0x80, 0x80, 0x80, 0x80, 0x80, 0x80, 0x40, 0x07] groups last
            rest) ∧
        ∀ e, (readSparseOffsetsSync decodeVarintReader.toVarUIntReader 8 {}
            [0x02, 0x01, 0x83, 0x80, 0x80, 0x80, 0x80, 0x80, 0x80, 0x80, 0x40, 0x07]).result =
              .error e ↔
          ∃ groups, FailsInGranule decodeVarintReader.toVarUIntReader
            [0x02, 0x01, 0x83, 0x80, 0x80, 0x80, 0x80, 0x80, 0x80, 0x80, 0x40, 0x07] groups e) :=
  ⟨by simp, readSparseOffsets_stays_aligned _ 8 {}
    [0x02, 0x01, 0x83, 0x80, 0x80, 0x80, 0x80, 0x80, 0x80, 0x80, 0x40, 0x07] _ (by simp)⟩

/-! ### Group sizes as numbers -/

theorem endOfGranuleFlag_toNat : endOfGranuleFlag.toNat = 2 ^ 62 := rfl

/-- The flag test reads bit 62. -/
theorem isEndOfGranule_eq_testBit (groupSize : UInt64) :
    isEndOfGranule groupSize = groupSize.toNat.testBit 62 := by
  have masked : (groupSize &&& endOfGranuleFlag).toNat =
      (groupSize.toNat.testBit 62).toNat * 2 ^ 62 := by
    rw [UInt64.and_toNat, endOfGranuleFlag_toNat, Nat.and_two_pow]
  rw [isEndOfGranule]
  cases bit : groupSize.toNat.testBit 62
  · rw [bne_eq_false_iff_eq]
    exact UInt64.toNat_inj.mp (by rw [masked, bit]; rfl)
  · rw [bne_iff_ne]
    intro zero
    have := congrArg UInt64.toNat zero
    rw [masked, bit] at this
    exact absurd this (by decide)

/-- The size without the flag: bit 62 cleared, bit 63 kept. -/
theorem actualGroupSize_toNat (groupSize : UInt64) :
    (actualGroupSize groupSize).toNat =
      2 ^ 63 * (groupSize.toNat / 2 ^ 63) + groupSize.toNat % 2 ^ 62 := by
  rw [actualGroupSize, UInt64.and_toNat, UInt64.toNat_complement, endOfGranuleFlag_toNat]
  exact and_clear_bit groupSize.toNat_lt (by decide)

/-- A group size below `2 ^ 62` has no flag and is its own size. -/
theorem group_of_lt {groupSize : UInt64} (small : groupSize.toNat < 2 ^ 62) :
    isEndOfGranule groupSize = false ∧ actualGroupSize groupSize = groupSize := by
  refine ⟨by rw [isEndOfGranule_eq_testBit, Nat.testBit_eq_false_of_lt small], ?_⟩
  apply UInt64.toNat_inj.mp
  rw [actualGroupSize_toNat, Nat.div_eq_of_lt (by omega), Nat.mod_eq_of_lt small, Nat.mul_zero,
    Nat.zero_add]

/-- `t | END_OF_GRANULE_FLAG`, for `t` below `2 ^ 62`, is flagged and stands for `t`
defaults. -/
theorem flagged_of_lt {trailing : UInt64} (small : trailing.toNat < 2 ^ 62) :
    (trailing ||| endOfGranuleFlag).toNat = 2 ^ 62 + trailing.toNat ∧
      isEndOfGranule (trailing ||| endOfGranuleFlag) = true ∧
      actualGroupSize (trailing ||| endOfGranuleFlag) = trailing := by
  have value : (trailing ||| endOfGranuleFlag).toNat = 2 ^ 62 + trailing.toNat := by
    rw [UInt64.toNat_lor, endOfGranuleFlag_toNat, ← Nat.mul_one (2 ^ 62),
      or_two_pow_mul_of_lt 1 small, Nat.mul_one]
  refine ⟨value, ?_, ?_⟩
  · rw [isEndOfGranule_eq_testBit, value, ← Nat.mul_one (2 ^ 62),
      Nat.testBit_mul_pow_two_add _ small]
    rfl
  · apply UInt64.toNat_inj.mp
    rw [actualGroupSize_toNat, value, Nat.div_eq_of_lt (by omega), Nat.mul_zero, Nat.zero_add,
      Nat.add_mod_left, Nat.mod_eq_of_lt small]

/-! ### Streams of LEB128 group sizes -/

/-- The bytes of a list of group sizes, as `encode_varint` writes them. -/
def groupBytes (groups : List UInt64) : List UInt8 :=
  groups.flatMap fun g => varintBytes g.toNat

/-- Over an LEB128 reader, the bytes of group sizes below `2 ^ 62` and then of a flagged
one are one granule's. -/
theorem readsGranule_groupBytes (reader : LEB128Reader) {last : UInt64}
    (flagged : isEndOfGranule last = true) (lastSmall : last.toNat < 2 ^ 63)
    (rest : List UInt8) : ∀ groups : List UInt64, (∀ g ∈ groups, g.toNat < 2 ^ 62) →
      ReadsGranule reader.toVarUIntReader (groupBytes (groups ++ [last]) ++ rest) groups last rest
  | [], _ => .last (by simpa [groupBytes] using reader.read_varintBytes last rest lastSmall) flagged
  | g :: groups, small => by
      have gSmall := small g (List.mem_cons_self g groups)
      have head : reader.read (groupBytes (g :: groups ++ [last]) ++ rest) =
          .ok (g, groupBytes (groups ++ [last]) ++ rest) := by
        rw [List.cons_append, groupBytes, List.flatMap_cons, List.append_assoc]
        exact reader.read_varintBytes g _ (by omega)
      exact .group head (group_of_lt gSmall).1 (readsGranule_groupBytes reader flagged lastSmall
        rest groups fun g' member => small g' (List.mem_cons_of_mem g member))

theorem scanGroups_groupBytes (reader : LEB128Reader) {last : UInt64}
    (flagged : isEndOfGranule last = true) (lastSmall : last.toNat < 2 ^ 63)
    (rest : List UInt8) (groups : List UInt64) (small : ∀ g ∈ groups, g.toNat < 2 ^ 62) :
    scanGroups reader.toVarUIntReader (groupBytes (groups ++ [last]) ++ rest) =
      (groups, .ok (last, rest)) :=
  (scanGroups_ok_iff _ _ _ _ _).mpr (readsGranule_groupBytes reader flagged lastSmall rest groups small)

/-! ### Wrap-around -/

/-- **`current_position` wraps.**  Group sizes 2, four times `2 ^ 62 - 1`, 1, then the
flag: the first non-default is row 2, inside a window of 5 rows; the next four lie
`2 ^ 62 - 1` rows on each, beyond the window, until the `u64` position reaches
`2 ^ 64 - 1`; the group of size 1 wraps it to 0, inside the window again.  Every reader
meeting the LEB128 contract then reports row 0 after row 2. -/
theorem readSparseOffsets_wraps (reader : LEB128Reader) (suffix : List UInt8) :
    let stream :=
      groupBytes [2, 2 ^ 62 - 1, 2 ^ 62 - 1, 2 ^ 62 - 1, 2 ^ 62 - 1, 1, endOfGranuleFlag] ++ suffix
    (readSparseOffsetsSync reader.toVarUIntReader 5 {} stream).result = .ok ([2, 0], suffix) ∧
      (readSparseOffsets reader.toVarUIntReader 5 {} stream).result = .ok ([2, 0], suffix) := by
  have sync : (readSparseOffsetsSync reader.toVarUIntReader 5 {}
      (groupBytes ([2, 2 ^ 62 - 1, 2 ^ 62 - 1, 2 ^ 62 - 1, 2 ^ 62 - 1, 1] ++ [endOfGranuleFlag]) ++
        suffix)).result = .ok ([2, 0], suffix) := by
    rw [readSparseOffsetsSync, readGroups_result,
      scanGroups_groupBytes reader (by decide) (by decide) suffix _ (by decide)]
    rfl
  exact ⟨sync, sync⟩

end ClickHouseArrow.Sparse
