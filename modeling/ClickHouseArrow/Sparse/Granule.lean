import ClickHouseArrow.Sparse.Offsets

/-!
# Granules and windows (native/sparse.rs)

The offsets stream of a granule, as the module documentation of sparse.rs and ClickHouse
write it, is one group size per non-default (the defaults before it) and last the trailing
defaults with `END_OF_GRANULE_FLAG`.  This module computes what one call of the reader
returns over such a stream, for any window and any starting position, and from that what
consecutive calls return.

## Main Definitions

* `nonDefaultPositions`, `granuleGroups`, `encodeGranule` — a granule's non-default rows and
  its documented offsets stream, as VarUInts and as bytes.
* `granuleState` — the state a call over a granule leaves, by the code's arithmetic.
* `readWindows` — consecutive calls, each on the bytes and with the state the previous one
  left.

## Main results

* `readGroups_encodeGranule` — one call over a granule, from any position: the
  non-defaults inside the window, and `granuleState`.
* `readSparseOffsets_granule_round_trip` — from the empty state a call returns the
  granule's positions below the window, and leaves the empty state when the window covers
  the granule; so one call per granule returns every granule's positions.
* `readSparseOffsets_split_windows` — what the call after a short window returns: the
  carried state skips the non-defaults the first window left behind.

## Design Notes

The reader moves `current_position` on by one after a non-default inside the window, but
not after one beyond it (it only sets `has_value_after_defaults`).  Once a non-default lies
beyond the window all later ones do too, so a fold over the group sizes has two phases:
`foldl_placeGroup_window` pushes while inside, `foldl_placeGroup_past` only counts.
-/

namespace ClickHouseArrow.Sparse

open Simd

/-! ### The documented stream -/

/-- The rows of a granule that hold a non-default value (`true`), in increasing order. -/
def nonDefaultPositions (granule : List Bool) : List Nat :=
  (List.range granule.length).filter fun i => granule.getD i false

/-- The defaults before each non-default at `positions`, counted from row `base`:
`p₀ - base`, `p₁ - p₀ - 1`, … -/
def defaultsBefore : Nat → List Nat → List Nat
  | _, [] => []
  | base, p :: ps => (p - base) :: defaultsBefore (p + 1) ps

/-- The row after the last non-default, `base` when there is none. -/
def rowAfter : Nat → List Nat → Nat
  | base, [] => base
  | _, p :: ps => rowAfter (p + 1) ps

/-- **The documented offsets stream of a granule**: `p₀, p₁ - p₀ - 1, …`, then
`(n - 1 - p_{k-1}) | END_OF_GRANULE_FLAG`, or `n | END_OF_GRANULE_FLAG` when the granule
has no non-default. -/
def granuleGroups (granule : List Bool) : List UInt64 :=
  (defaultsBefore 0 (nonDefaultPositions granule)).map UInt64.ofNat ++
    [UInt64.ofNat (granule.length - rowAfter 0 (nonDefaultPositions granule)) ||| endOfGranuleFlag]

/-- `enc(G)`: the bytes of those VarUInts. -/
def encodeGranule (granule : List Bool) : List UInt8 := groupBytes (granuleGroups granule)

/-- Consecutive calls of a reader, one per window, each on the bytes the previous one left
and with the state it left. -/
def readWindows (read : VarUIntReader → UInt64 → SparseDeserializeState → List UInt8 → SparseRead)
    (reader : VarUIntReader) :
    List UInt64 → SparseDeserializeState → List UInt8 →
      Except Error (List (List UInt64) × List UInt8) × SparseDeserializeState
  | [], state, s => (.ok ([], s), state)
  | numRows :: windows, state, s =>
      match (read reader numRows state s).result with
      | .error e => (.error e, (read reader numRows state s).state)
      | .ok (offsets, rest) =>
          let next := readWindows read reader windows (read reader numRows state s).state rest
          (next.1.map fun more => (offsets :: more.1, more.2), next.2)

theorem sorted_nonDefaultPositions (granule : List Bool) :
    (nonDefaultPositions granule).Pairwise (· < ·) :=
  (List.pairwise_lt_range _).filter _

theorem lt_of_mem_nonDefaultPositions {granule : List Bool} {p : Nat}
    (member : p ∈ nonDefaultPositions granule) : p < granule.length :=
  List.mem_range.mp (List.mem_filter.mp member).1

theorem rowAfter_le {n : Nat} : ∀ (ps : List Nat) (base : Nat), base ≤ n → (∀ p ∈ ps, p < n) →
    rowAfter base ps ≤ n
  | [], _, start, _ => start
  | p :: ps, _, _, below =>
      rowAfter_le ps (p + 1) (below p (List.mem_cons_self p ps))
        fun q member => below q (List.mem_cons_of_mem p member)

theorem add_length_le_rowAfter : ∀ (ps : List Nat) (base : Nat), ps.Pairwise (· < ·) →
    (∀ p ∈ ps, base ≤ p) → base + ps.length ≤ rowAfter base ps
  | [], _, _, _ => le_refl _
  | p :: ps, base, sorted, above => by
      have rest := add_length_le_rowAfter ps (p + 1) (List.pairwise_cons.mp sorted).2
        fun q member => (List.pairwise_cons.mp sorted).1 q member
      have := above p (List.mem_cons_self p ps)
      rw [List.length_cons, rowAfter]
      omega

/-! ### One group size at a time -/

theorem ofNat_add_ofNat (a b : Nat) : UInt64.ofNat a + UInt64.ofNat b = UInt64.ofNat (a + b) :=
  UInt64.toNat_inj.mp (by
    rw [UInt64.toNat_add, UInt64.toNat_ofNat', UInt64.toNat_ofNat', UInt64.toNat_ofNat',
      show UInt64.size = 2 ^ 64 from rfl, ← Nat.add_mod])

theorem ofNat_add_one (a : Nat) : UInt64.ofNat a + 1 = UInt64.ofNat (a + 1) := ofNat_add_ofNat a 1

theorem ofNat_lt_iff {a : Nat} (small : a < 2 ^ 64) (numRows : UInt64) :
    UInt64.ofNat a < numRows ↔ a < numRows.toNat := by
  rw [UInt64.lt_iff_toNat_lt, UInt64.toNat_ofNat', Nat.mod_eq_of_lt small]

/-- A non-default inside the window is pushed, and the position moves past it. -/
theorem placeGroup_inside {numRows : UInt64} {offsets : List UInt64} {state : SparseDeserializeState}
    {c g : Nat} (small : g < 2 ^ 62) (inside : c + g < numRows.toNat) :
    placeGroup numRows ⟨offsets, UInt64.ofNat c, state⟩ (UInt64.ofNat g) =
      ⟨offsets ++ [UInt64.ofNat (c + g)], UInt64.ofNat (c + g + 1), state⟩ := by
  have gSmall : (UInt64.ofNat g).toNat < 2 ^ 62 := by rw [UInt64.toNat_ofNat']; omega
  have := numRows.toNat_lt
  simp only [placeGroup, (group_of_lt gSmall).2, ofNat_add_ofNat,
    (ofNat_lt_iff (by omega) numRows).mpr inside, if_true, ofNat_add_one]

/-- A non-default beyond the window is only remembered: the position stays on it. -/
theorem placeGroup_beyond {numRows : UInt64} {offsets : List UInt64}
    {state : SparseDeserializeState} {c g : Nat} (small : g < 2 ^ 62) (fits : c + g < 2 ^ 64)
    (beyond : numRows.toNat ≤ c + g) :
    placeGroup numRows ⟨offsets, UInt64.ofNat c, state⟩ (UInt64.ofNat g) =
      ⟨offsets, UInt64.ofNat (c + g), { state with hasValueAfterDefaults := true }⟩ := by
  have gSmall : (UInt64.ofNat g).toNat < 2 ^ 62 := by rw [UInt64.toNat_ofNat']; omega
  simp only [placeGroup, (group_of_lt gSmall).2, ofNat_add_ofNat,
    (ofNat_lt_iff fits numRows), Nat.not_lt.mpr beyond, if_false]

/-- **Past the window** nothing more is pushed; the position moves on by the defaults
only. -/
theorem foldl_placeGroup_past (numRows : UInt64) (offsets : List UInt64)
    (state : SparseDeserializeState) (pending : state.hasValueAfterDefaults = true) :
    ∀ (ps : List Nat) (base c : Nat), ps.Pairwise (· < ·) → (∀ p ∈ ps, base ≤ p ∧ p < 2 ^ 62) →
      numRows.toNat ≤ c → c ≤ base + 2 ^ 62 →
      ((defaultsBefore base ps).map UInt64.ofNat).foldl (placeGroup numRows)
          ⟨offsets, UInt64.ofNat c, state⟩ =
        ⟨offsets, UInt64.ofNat (c + rowAfter base ps - base - ps.length), state⟩
  | [], base, c, _, _, _, _ => by simp [defaultsBefore, rowAfter]
  | p :: ps, base, c, sorted, bounds, beyond, near => by
      obtain ⟨above, small⟩ := bounds p (List.mem_cons_self p ps)
      have restBounds : ∀ q ∈ ps, p + 1 ≤ q ∧ q < 2 ^ 62 := fun q member =>
        ⟨(List.pairwise_cons.mp sorted).1 q member, (bounds q (List.mem_cons_of_mem p member)).2⟩
      have length := add_length_le_rowAfter ps (p + 1) (List.pairwise_cons.mp sorted).2
        fun q member => (restBounds q member).1
      have unchanged : { state with hasValueAfterDefaults := true } = state := by
        cases state; simp_all
      rw [defaultsBefore, List.map_cons, List.foldl_cons,
        placeGroup_beyond (by omega) (by omega) (by omega), unchanged,
        foldl_placeGroup_past numRows offsets state pending ps (p + 1) _
          (List.pairwise_cons.mp sorted).2 restBounds (by omega) (by omega)]
      rw [rowAfter, List.length_cons]
      congr 2
      omega

/-- **The fold over a granule's group sizes**, from row `base` and a position `d` rows
ahead of it: the non-defaults inside the window are pushed at their row plus `d`; the
position ends `d` rows past the row after the last non-default, less one row for each
non-default beyond the window; and the flag records whether there was one. -/
theorem foldl_placeGroup_window (numRows : UInt64) {d : Nat} (near : d ≤ 2 ^ 62) :
    ∀ (ps : List Nat) (base : Nat) (offsets : List UInt64) (state : SparseDeserializeState),
      ps.Pairwise (· < ·) → (∀ p ∈ ps, base ≤ p ∧ p < 2 ^ 62) →
      ((defaultsBefore base ps).map UInt64.ofNat).foldl (placeGroup numRows)
          ⟨offsets, UInt64.ofNat (base + d), state⟩ =
        ⟨offsets ++ (ps.filter fun p => p + d < numRows.toNat).map fun p => UInt64.ofNat (p + d),
          UInt64.ofNat (rowAfter base ps + d - (ps.filter fun p => numRows.toNat ≤ p + d).length),
          { state with hasValueAfterDefaults :=
              state.hasValueAfterDefaults || ps.any fun p => numRows.toNat ≤ p + d }⟩
  | [], base, offsets, state, _, _ => by cases state; simp [defaultsBefore, rowAfter]
  | p :: ps, base, offsets, state, sorted, bounds => by
      obtain ⟨above, small⟩ := bounds p (List.mem_cons_self p ps)
      have restBounds : ∀ q ∈ ps, p + 1 ≤ q ∧ q < 2 ^ 62 := fun q member =>
        ⟨(List.pairwise_cons.mp sorted).1 q member, (bounds q (List.mem_cons_of_mem p member)).2⟩
      have restSorted := (List.pairwise_cons.mp sorted).2
      rw [defaultsBefore, List.map_cons, List.foldl_cons, rowAfter]
      by_cases inside : p + d < numRows.toNat
      · rw [placeGroup_inside (by omega) (by omega), show base + d + (p - base) + 1 = p + 1 + d by omega,
          foldl_placeGroup_window numRows near ps (p + 1) _ state restSorted restBounds]
        have notBeyond : ¬numRows.toNat ≤ p + d := by omega
        simp [List.filter_cons, inside, notBeyond, show base + d + (p - base) = p + d by omega]
      · have allBeyond : ∀ q ∈ ps, numRows.toNat ≤ q + d := fun q member => by
          have := (restBounds q member).1; omega
        have length := add_length_le_rowAfter ps (p + 1) restSorted fun q member =>
          (restBounds q member).1
        rw [placeGroup_beyond (by omega) (by omega) (by omega),
          show base + d + (p - base) = p + d by omega,
          foldl_placeGroup_past numRows offsets _ rfl ps (p + 1) (p + d) restSorted restBounds
            (by omega) (by omega),
          List.filter_cons_of_neg (by simpa using inside),
          List.filter_eq_nil_iff.mpr fun q member => by simpa using allBeyond q member,
          List.filter_cons_of_pos (by simpa using inside),
          List.filter_eq_self.mpr fun q member => by simpa using allBeyond q member]
        simp only [List.map_nil, List.append_nil, List.length_cons, List.any_cons,
          decide_eq_true (Nat.le_of_not_lt inside), Bool.true_or, Bool.or_true]
        congr 2
        omega

/-! ### One call over a granule -/

/-- The group sizes before the non-defaults are below any bound the positions are. -/
theorem lt_of_mem_defaultsBefore {bound : Nat} : ∀ (ps : List Nat) (base g : Nat),
    (∀ p ∈ ps, p < bound) → g ∈ defaultsBefore base ps → g < bound
  | [], _, _, _, member => absurd member (List.not_mem_nil _)
  | p :: ps, base, g, below, member => by
      rcases List.mem_cons.mp member with rfl | member
      · have := below p (List.mem_cons_self p ps); omega
      · exact lt_of_mem_defaultsBefore ps (p + 1) g
          (fun q m => below q (List.mem_cons_of_mem p m)) member

/-- The non-defaults of a granule that a window of `numRows` rows, starting `d` rows before
the granule, does not reach. -/
def beyondWindow (numRows : UInt64) (granule : List Bool) (d : Nat) : Nat :=
  ((nonDefaultPositions granule).filter fun p => numRows.toNat ≤ p + d).length

/-- **The state a call over a granule leaves**, by the code's arithmetic: the position ends
at `n + d`, less one row per non-default beyond the window; its excess over the window is
stored; the flag records whether a non-default lay beyond. -/
def granuleState (numRows : UInt64) (granule : List Bool) (d : Nat)
    (state : SparseDeserializeState) : SparseDeserializeState where
  numTrailingDefaults :=
    if numRows.toNat < granule.length + d - beyondWindow numRows granule d then
      UInt64.ofNat (granule.length + d - beyondWindow numRows granule d - numRows.toNat)
    else state.numTrailingDefaults
  hasValueAfterDefaults := state.hasValueAfterDefaults ||
    (nonDefaultPositions granule).any fun p => numRows.toNat ≤ p + d

/-- The flagged group closes the granule: the position moves on by the trailing defaults,
and their excess over the window is stored. -/
theorem closeGranule_ofNat (numRows : UInt64) (acc : OffsetsLoop) {c t : Nat}
    (position : acc.currentPosition = UInt64.ofNat c) (small : t < 2 ^ 62) (fits : c + t < 2 ^ 64) :
    closeGranule numRows acc (UInt64.ofNat t ||| endOfGranuleFlag) =
      if numRows.toNat < c + t then
        { acc.state with numTrailingDefaults := UInt64.ofNat (c + t - numRows.toNat) }
      else acc.state := by
  have tSmall : (UInt64.ofNat t).toNat < 2 ^ 62 := by rw [UInt64.toNat_ofNat']; omega
  have toNatEq : (UInt64.ofNat (c + t)).toNat = c + t := by
    rw [UInt64.toNat_ofNat', Nat.mod_eq_of_lt fits]
  rw [closeGranule, (flagged_of_lt tSmall).2.2, position, ofNat_add_ofNat]
  simp only [gt_iff_lt, UInt64.lt_iff_toNat_lt, toNatEq]
  split_ifs with over
  · congr
    apply UInt64.toNat_inj.mp
    rw [UInt64.toNat_sub_of_le _ _ (UInt64.le_iff_toNat_le.mpr (by rw [toNatEq]; omega)), toNatEq,
      UInt64.toNat_ofNat', Nat.mod_eq_of_lt (by omega)]
  · rfl

/-- **One call over a granule's stream**, from a position `d` rows before the granule:
the non-defaults inside the window, at their row plus `d`, then `granuleState`; the bytes
after the granule are left. -/
theorem readGroups_encodeGranule (reader : LEB128Reader) (numRows : UInt64)
    (granule : List Bool) (suffix : List UInt8) {d : Nat} (offsets : List UInt64)
    (state : SparseDeserializeState) (short : granule.length < 2 ^ 62) (near : d ≤ 2 ^ 62) :
    readGroups reader.toVarUIntReader numRows ⟨offsets, UInt64.ofNat d, state⟩
        (encodeGranule granule ++ suffix) =
      ⟨.ok (offsets ++ ((nonDefaultPositions granule).filter fun p => p + d < numRows.toNat).map
          fun p => UInt64.ofNat (p + d), suffix), granuleState numRows granule d state⟩ := by
  have below : ∀ p ∈ nonDefaultPositions granule, p < 2 ^ 62 := fun p member =>
    (lt_of_mem_nonDefaultPositions member).trans short
  have rowAfterLe : rowAfter 0 (nonDefaultPositions granule) ≤ granule.length :=
    rowAfter_le _ 0 (Nat.zero_le _) fun p member => lt_of_mem_nonDefaultPositions member
  have lengthLe := add_length_le_rowAfter _ 0 (sorted_nonDefaultPositions granule)
    fun p _ => Nat.zero_le p
  have beyondLe : beyondWindow numRows granule d ≤ (nonDefaultPositions granule).length :=
    List.length_filter_le _ _
  have trailingSmall : granule.length - rowAfter 0 (nonDefaultPositions granule) < 2 ^ 62 := by
    omega
  have trailingNat : (UInt64.ofNat (granule.length - rowAfter 0 (nonDefaultPositions granule))).toNat
      < 2 ^ 62 := by rw [UInt64.toNat_ofNat']; omega
  have groupsSmall : ∀ g ∈ (defaultsBefore 0 (nonDefaultPositions granule)).map UInt64.ofNat,
      g.toNat < 2 ^ 62 := by
    intro g member
    obtain ⟨x, inList, rfl⟩ := List.mem_map.mp member
    have := lt_of_mem_defaultsBefore _ 0 x below inList
    rw [UInt64.toNat_ofNat']; omega
  have lastSmall := (flagged_of_lt trailingNat).1
  rw [readGroups_eq, encodeGranule, granuleGroups,
    scanGroups_groupBytes reader (flagged_of_lt trailingNat).2.1 (by omega) suffix _ groupsSmall]
  simp only
  rw [show UInt64.ofNat d = UInt64.ofNat (0 + d) by rw [Nat.zero_add],
    foldl_placeGroup_window numRows near _ 0 offsets state (sorted_nonDefaultPositions granule)
      fun p member => ⟨Nat.zero_le p, below p member⟩,
    closeGranule_ofNat numRows _ rfl trailingSmall (by unfold beyondWindow at beyondLe; omega)]
  simp only [Nat.zero_add]
  have position : rowAfter 0 (nonDefaultPositions granule) + d - beyondWindow numRows granule d +
      (granule.length - rowAfter 0 (nonDefaultPositions granule)) =
      granule.length + d - beyondWindow numRows granule d := by omega
  unfold beyondWindow at position
  rw [position]
  unfold granuleState beyondWindow
  split_ifs <;> rfl

/-! ### Calls from a carried state -/

/-- From the empty state a call starts at row 0 with nothing pushed. -/
theorem resumeState_empty (numRows : UInt64) : resumeState numRows {} = ⟨[], UInt64.ofNat 0, {}⟩ :=
  rfl

/-- From `t` carried trailing defaults, and a pending non-default when `pending`, a call
starts `t` rows on, after pushing the pending non-default at row `t` if the window holds
it; the state is emptied. -/
theorem resumeState_carried (numRows : UInt64) {t : Nat} (small : t < 2 ^ 64) (pending : Bool) :
    resumeState numRows ⟨UInt64.ofNat t, pending⟩ =
      ⟨if pending ∧ t < numRows.toNat then [UInt64.ofNat t] else [],
        UInt64.ofNat (t + if pending then 1 else 0), {}⟩ := by
  have toNatEq : (UInt64.ofNat t).toNat = t := by rw [UInt64.toNat_ofNat', Nat.mod_eq_of_lt small]
  by_cases zero : t = 0
  · subst zero
    cases pending <;> simp [resumeState, UInt64.lt_iff_toNat_lt]
  · have start : (0 : UInt64) + UInt64.ofNat t = UInt64.ofNat t := zero_add _
    cases pending <;>
      simp [resumeState, UInt64.lt_iff_toNat_lt, toNatEq, Nat.pos_of_ne_zero zero, start,
        ofNat_add_one]

/-! ### Reading granules from the empty state -/

/-- From the empty state, a call over a granule returns its non-defaults inside the
window. -/
theorem readSparseOffsetsSync_encodeGranule (reader : LEB128Reader) (numRows : UInt64)
    (granule : List Bool) (suffix : List UInt8) (short : granule.length < 2 ^ 62) :
    readSparseOffsetsSync reader.toVarUIntReader numRows {} (encodeGranule granule ++ suffix) =
      ⟨.ok (((nonDefaultPositions granule).filter (· < numRows.toNat)).map UInt64.ofNat, suffix),
        granuleState numRows granule 0 {}⟩ := by
  rw [readSparseOffsetsSync, resumeState_empty,
    readGroups_encodeGranule reader numRows granule suffix [] {} short (by decide)]
  simp

/-- A window that covers the granule, `d` rows ahead, leaves the empty state. -/
theorem granuleState_covered {numRows : UInt64} {granule : List Bool} {d : Nat}
    (covers : granule.length + d ≤ numRows.toNat) : granuleState numRows granule d {} = {} := by
  have inside : ∀ p ∈ nonDefaultPositions granule, ¬numRows.toNat ≤ p + d := fun p member => by
    have := lt_of_mem_nonDefaultPositions member; omega
  have noneBeyond : beyondWindow numRows granule d = 0 := by
    rw [beyondWindow, List.length_eq_zero, List.filter_eq_nil_iff]
    simpa using inside
  simp only [granuleState, noneBeyond, Nat.sub_zero, Nat.not_lt.mpr covers, if_false,
    Bool.false_or, List.any_eq_false]
  simpa using inside

/-- **One call per granule.**  Reading consecutive granules from the empty state, each with
a window of its own length, returns every granule's non-defaults and leaves the empty
state. -/
theorem readWindows_granules (reader : LEB128Reader) (suffix : List UInt8) :
    ∀ granules : List (List Bool), (∀ g ∈ granules, g.length < 2 ^ 62) →
      readWindows readSparseOffsetsSync reader.toVarUIntReader
          (granules.map fun g => UInt64.ofNat g.length) {} (granules.flatMap encodeGranule ++ suffix) =
        (.ok (granules.map fun g => (nonDefaultPositions g).map UInt64.ofNat, suffix), {})
  | [], _ => rfl
  | g :: granules, short => by
      have gShort := short g (List.mem_cons_self g granules)
      have lengthEq : (UInt64.ofNat g.length).toNat = g.length := by
        rw [UInt64.toNat_ofNat', Nat.mod_eq_of_lt (by omega)]
      have all : (nonDefaultPositions g).filter (· < g.length) = nonDefaultPositions g :=
        List.filter_eq_self.mpr fun p member => by simpa using lt_of_mem_nonDefaultPositions member
      rw [List.map_cons, List.flatMap_cons, List.append_assoc, readWindows,
        readSparseOffsetsSync_encodeGranule reader _ g _ gShort, lengthEq, all,
        granuleState_covered (by rw [lengthEq]; rfl)]
      simp only
      rw [readWindows_granules reader suffix granules fun g' member =>
        short g' (List.mem_cons_of_mem g member)]
      rfl

/-- **Sparse offsets decoding undoes encoding.**  Over any LEB128 reader, from the empty
state, both readers return the non-default rows of a granule of fewer than `2 ^ 62` rows
that lie below the window, in increasing order, whatever bytes follow; a window covering
the granule leaves the empty state; so one call per granule, each with a window of its
length, returns every granule's non-default rows. -/
theorem readSparseOffsets_granule_round_trip (reader : LEB128Reader) :
    ∀ read ∈ [readSparseOffsetsSync, readSparseOffsets],
      (∀ (granule : List Bool) (numRows : UInt64) (suffix : List UInt8), granule.length < 2 ^ 62 →
        (read reader.toVarUIntReader numRows {} (encodeGranule granule ++ suffix)).result =
            .ok (((nonDefaultPositions granule).filter (· < numRows.toNat)).map UInt64.ofNat,
              suffix) ∧
          (granule.length ≤ numRows.toNat →
            (read reader.toVarUIntReader numRows {} (encodeGranule granule ++ suffix)).state = {})) ∧
      ∀ (granules : List (List Bool)) (suffix : List UInt8), (∀ g ∈ granules, g.length < 2 ^ 62) →
        readWindows read reader.toVarUIntReader (granules.map fun g => UInt64.ofNat g.length) {}
            (granules.flatMap encodeGranule ++ suffix) =
          (.ok (granules.map fun g => (nonDefaultPositions g).map UInt64.ofNat, suffix), {}) := by
  intro read member
  obtain rfl : read = readSparseOffsetsSync := by
    simp only [List.mem_cons, List.mem_singleton, List.not_mem_nil, or_false] at member
    rcases member with rfl | rfl <;> rfl
  refine ⟨fun granule numRows suffix short => ?_,
    fun granules suffix short => readWindows_granules reader suffix granules short⟩
  rw [readSparseOffsetsSync_encodeGranule reader numRows granule suffix short]
  exact ⟨rfl, fun covers => granuleState_covered covers⟩

theorem readSparseOffsets_granule_round_trip_decodeVarint :
    readSparseOffsetsSync ∈ [readSparseOffsetsSync, readSparseOffsets] ∧
      ((∀ (granule : List Bool) (numRows : UInt64) (suffix : List UInt8), granule.length < 2 ^ 62 →
        (readSparseOffsetsSync decodeVarintReader.toVarUIntReader numRows {}
            (encodeGranule granule ++ suffix)).result =
          .ok (((nonDefaultPositions granule).filter (· < numRows.toNat)).map UInt64.ofNat,
            suffix) ∧
          (granule.length ≤ numRows.toNat →
            (readSparseOffsetsSync decodeVarintReader.toVarUIntReader numRows {}
              (encodeGranule granule ++ suffix)).state = {})) ∧
      ∀ (granules : List (List Bool)) (suffix : List UInt8), (∀ g ∈ granules, g.length < 2 ^ 62) →
        readWindows readSparseOffsetsSync decodeVarintReader.toVarUIntReader
            (granules.map fun g => UInt64.ofNat g.length) {} (granules.flatMap encodeGranule ++ suffix) =
          (.ok (granules.map fun g => (nonDefaultPositions g).map UInt64.ofNat, suffix), {})) :=
  ⟨by simp, readSparseOffsets_granule_round_trip decodeVarintReader _ (by simp)⟩

/-! ### A window shorter than the granule -/

/-- The rows a window of `w` rows leaves of a granule, less the non-defaults among them:
where `current_position` stands when the granule ends. -/
def carriedDefaults (first : List Bool) (w : Nat) : Nat :=
  first.length - w - ((nonDefaultPositions first).filter (w ≤ ·)).length

/-- **What the call after a window of `w` rows returns**, by the code's arithmetic, over the
rest of `first` and then `second`.  With `m` non-defaults of `first` at rows `w` or later:
for `m = 0`, `second`'s non-defaults `n₁ - w` rows on; otherwise one pending non-default at
row `n₁ - w - m`, then `second`'s non-defaults `n₁ - w - m + 1` rows on. -/
def carriedRead (first second : List Bool) (w : Nat) : List UInt64 :=
  if ((nonDefaultPositions first).filter (w ≤ ·)).length = 0 then
    (nonDefaultPositions second).map fun p => UInt64.ofNat (p + carriedDefaults first w)
  else UInt64.ofNat (carriedDefaults first w) ::
    (nonDefaultPositions second).map fun p => UInt64.ofNat (p + (carriedDefaults first w + 1))

/-- The state a window of `w` rows leaves over a granule read from the empty state: the
rows after it, less its non-defaults beyond the window, as trailing defaults, and a pending
non-default when there was one beyond. -/
theorem granuleState_window (first : List Bool) {w : Nat} (wSmall : w < 2 ^ 64) :
    granuleState (UInt64.ofNat w) first 0 {} =
      ⟨UInt64.ofNat (carriedDefaults first w),
        decide (((nonDefaultPositions first).filter (w ≤ ·)).length ≠ 0)⟩ := by
  have wEq : (UInt64.ofNat w).toNat = w := by rw [UInt64.toNat_ofNat', Nat.mod_eq_of_lt wSmall]
  have flag : ((nonDefaultPositions first).any fun p => decide (w ≤ p)) =
      decide (((nonDefaultPositions first).filter (w ≤ ·)).length ≠ 0) := by
    rw [Bool.eq_iff_iff, List.any_eq_true, decide_eq_true_iff, ne_eq, List.length_eq_zero,
      List.filter_eq_nil_iff]
    simp
  simp only [granuleState, beyondWindow, wEq, Nat.add_zero, Bool.false_or, flag, carriedDefaults]
  congr 1
  split_ifs with over
  · congr 1; omega
  · rw [show first.length - w - ((nonDefaultPositions first).filter (w ≤ ·)).length = 0 by omega]
    rfl

/-- **Two calls over two granules**, the first with a window of `w` rows, the second with
the rest of the first granule and all of the second: the first returns the first
granule's non-defaults below `w`, the second `carriedRead`, and the state ends empty. -/
theorem readWindows_split (reader : LEB128Reader) (first second : List Bool) (w : Nat)
    (suffix : List UInt8) (window : w < first.length) (firstShort : first.length < 2 ^ 62)
    (secondShort : second.length < 2 ^ 62) :
    readWindows readSparseOffsetsSync reader.toVarUIntReader
        [UInt64.ofNat w, UInt64.ofNat (first.length - w + second.length)] {}
        (encodeGranule first ++ encodeGranule second ++ suffix) =
      (.ok ([((nonDefaultPositions first).filter (· < w)).map UInt64.ofNat,
        carriedRead first second w], suffix), {}) := by
  have wEq : (UInt64.ofNat w).toNat = w := by rw [UInt64.toNat_ofNat', Nat.mod_eq_of_lt (by omega)]
  have secondWindow : (UInt64.ofNat (first.length - w + second.length)).toNat =
      first.length - w + second.length := by
    rw [UInt64.toNat_ofNat', Nat.mod_eq_of_lt (by omega)]
  have beyondLe : ((nonDefaultPositions first).filter (w ≤ ·)).length ≤ first.length - w := by
    have := add_length_le_rowAfter ((nonDefaultPositions first).filter (w ≤ ·)) w
      ((sorted_nonDefaultPositions first).filter _)
      fun p member => by simpa using (List.mem_filter.mp member).2
    have := rowAfter_le ((nonDefaultPositions first).filter (w ≤ ·)) w window.le fun p member =>
      lt_of_mem_nonDefaultPositions (List.mem_filter.mp member).1
    omega
  have pendingLe : carriedDefaults first w +
      (if decide (((nonDefaultPositions first).filter (w ≤ ·)).length ≠ 0) = true then 1 else 0) ≤
      first.length - w := by
    unfold carriedDefaults
    split_ifs with pending
    · have := of_decide_eq_true pending; omega
    · omega
  rw [List.append_assoc, readWindows, readSparseOffsetsSync_encodeGranule reader _ first _ firstShort,
    wEq, granuleState_window first (by omega)]
  simp only
  rw [readWindows, readSparseOffsetsSync,
    resumeState_carried _ (by unfold carriedDefaults; omega),
    readGroups_encodeGranule reader _ second suffix _ {} secondShort (by omega),
    granuleState_covered (by rw [secondWindow]; omega), secondWindow]
  have inside : ∀ d ≤ first.length - w, (nonDefaultPositions second).filter
      (fun p => p + d < first.length - w + second.length) = nonDefaultPositions second :=
    fun d near => List.filter_eq_self.mpr fun p member => by
      have := lt_of_mem_nonDefaultPositions member
      simp only [decide_eq_true_eq]; omega
  rw [inside _ pendingLe]
  simp only [readWindows, carriedRead]
  by_cases none : ((nonDefaultPositions first).filter (w ≤ ·)).length = 0
  · simp [none, Except.map]
  · have carriedBelow : carriedDefaults first w < first.length - w + second.length := by
      unfold carriedDefaults; omega
    simp [none, carriedBelow, Except.map]

/-- **Split sparse reads.**  Over any LEB128 reader, two granules read with a window of
`w < n₁` rows and then one of the `n₁ - w` rows left of the first and the `n₂` of the
second: the first call returns the first granule's non-defaults below `w`, the second
`carriedRead`, and the state ends empty. -/
theorem readSparseOffsets_split_windows (reader : LEB128Reader) :
    ∀ read ∈ [readSparseOffsetsSync, readSparseOffsets],
      ∀ (first second : List Bool) (w : Nat) (suffix : List UInt8),
        w < first.length → first.length < 2 ^ 62 → second.length < 2 ^ 62 →
        readWindows read reader.toVarUIntReader
            [UInt64.ofNat w, UInt64.ofNat (first.length - w + second.length)] {}
            (encodeGranule first ++ encodeGranule second ++ suffix) =
          (.ok ([((nonDefaultPositions first).filter (· < w)).map UInt64.ofNat,
            carriedRead first second w], suffix), {}) := by
  intro read member
  obtain rfl : read = readSparseOffsetsSync := by
    simp only [List.mem_cons, List.mem_singleton, List.not_mem_nil, or_false] at member
    rcases member with rfl | rfl <;> rfl
  exact readWindows_split reader

theorem readSparseOffsets_split_windows_one_beyond :
    readSparseOffsetsSync ∈ [readSparseOffsetsSync, readSparseOffsets] ∧
      1 < [true, false, true, false].length ∧ [true, false, true, false].length < 2 ^ 62 ∧
      [false].length < 2 ^ 62 ∧
      readWindows readSparseOffsetsSync decodeVarintReader.toVarUIntReader
          [UInt64.ofNat 1, UInt64.ofNat ([true, false, true, false].length - 1 + [false].length)] {}
          (encodeGranule [true, false, true, false] ++ encodeGranule [false] ++ []) =
        (.ok ([((nonDefaultPositions [true, false, true, false]).filter (· < 1)).map UInt64.ofNat,
          carriedRead [true, false, true, false] [false] 1], []), {}) :=
  ⟨by simp, by decide, by decide, by decide,
    readSparseOffsets_split_windows decodeVarintReader _ (by simp) _ _ 1 [] (by decide) (by decide)
      (by decide)⟩

/-- **The carried state loses a row.**  Granules `[x, ·, x, ·]` and `[·]`, a window of one
row: the first call leaves the non-default at row 2 pending, but with `current_position`
not moved past it, the trailing default after it is counted from row 2 instead of row 3.
The second call returns row 2, where the rows it covers, `[·, x, ·, ·]`, hold their
non-default at row 1. -/
theorem readSparseOffsets_split_windows_shifted :
    (readWindows readSparseOffsetsSync decodeVarintReader.toVarUIntReader [1, 4] {}
        (encodeGranule [true, false, true, false] ++ encodeGranule [false])).1 =
      .ok ([[0], [2]], []) ∧
    nonDefaultPositions ([true, false, true, false].drop 1 ++ [false]) = [1] := by
  refine ⟨?_, by decide⟩
  have split := readWindows_split decodeVarintReader [true, false, true, false] [false] 1 []
    (by decide) (by decide) (by decide)
  rw [List.append_nil] at split
  rw [show ([1, 4] : List UInt64) =
      [UInt64.ofNat 1, UInt64.ofNat ([true, false, true, false].length - 1 + [false].length)] from rfl,
    split]
  rfl

end ClickHouseArrow.Sparse
