import ClickHouseArrow.Basic

/-!
# Varints (simd.rs)

`encode_varint` writes a `u64` as an unsigned LEB128 varint into a buffer of
`MAX_VARINT_LEN = 10` bytes: seven payload bits per byte, the low group first, the
continuation bit `0x80` on every byte but the last.  `decode_varint` reads one back from the
front of a slice, and `encode_varints_batch` appends the varints of a list of values to a
vector, encoding each into one reused buffer.

## Main Definitions

* `encodeVarint`, `decodeVarint`, `encodeVarintsBatch` — the three functions, as written.
* `varintBytes` — the LEB128 bytes of a number, what the encoder is for.
* `decodeVarints` — `decode_varint` called again and again, each call resuming where the
  previous one stopped: how a caller reads a run of varints.
* `groupsValue`, `varintEnd` — the number a run of 7-bit groups stands for, with no bound,
  and the bytes of the varint at the front of a slice.

## Main results

* `encodeVarint_eq` — on a 10-byte buffer the encoder writes `varintBytes` in front, returns
  its length, at most 10, and never indexes past the buffer.
* `decodeVarint_eq_some_iff` — what the decoder accepts: a varint that ends within ten
  bytes, read as the sum of its groups modulo `2 ^ 64`; `decodeVarint_eq_none_iff` — it
  returns `None` exactly when the first ten bytes all carry the continuation bit.
* `decodeVarint_varintBytes` — the decoder reads `varintBytes` back, whatever follows them.
* `encodeVarintsBatch_eq`, `decodeVarints_flatMap` — the batch encoder appends the
  concatenation, and the repeated decoder splits it again.

## Design Notes

The encoder's loop is modelled over the part of the buffer from `pos` on, so that
`buf[pos]` is out of bounds exactly when that part is empty; the model returns `none`
there, the panic.  The decoder's `shift` is a plain counter (the loop stops it at 63), taken
by `<<` as the shift amount.
-/

namespace ClickHouseArrow.Simd

/-- `MAX_VARINT_LEN`. -/
def maxVarintLen : Nat := 10

/-! ### The functions -/

/-- The loop of `encode_varint` from position `pos`, over `rest`, the buffer from `pos` on:
the rewritten `rest` and the length the function returns. -/
def encodeVarintLoop (value : UInt64) (pos : Nat) : List UInt8 → Option (List UInt8 × Nat)
  | [] => none
  | _ :: rest =>
      if value < 0x80 then some (value.toUInt8 :: rest, pos + 1)
      else (encodeVarintLoop (value >>> 7) (pos + 1) rest).map fun written =>
        ((value.toUInt8 ||| 0x80) :: written.1, written.2)

/-- `encode_varint(value, buf)`: the buffer as written and the number of bytes written. -/
def encodeVarint (value : UInt64) (buf : List UInt8) : Option (List UInt8 × Nat) :=
  encodeVarintLoop value 0 buf

/-- The loop `for (i, &byte) in buf.iter().enumerate().skip(1).take(9)` of `decode_varint`,
with the value read so far and the shift of the next group. -/
def decodeVarintLoop (result : UInt64) (shift : Nat) : List (Nat × UInt8) → Option (UInt64 × Nat)
  | [] => none
  | (i, byte) :: rest =>
      let result := result ||| (byte &&& 0x7F).toUInt64 <<< shift.toUInt64
      if byte < 0x80 then some (result, i + 1) else decodeVarintLoop result (shift + 7) rest

/-- `decode_varint(buf)`: the value and the number of bytes consumed; `none` for an empty
slice, or one that ends, or runs past ten bytes, before a byte below `0x80`. -/
def decodeVarint (buf : List UInt8) : Option (UInt64 × Nat) :=
  match buf with
  | [] => none
  | b0 :: _ =>
      if b0 < 0x80 then some (b0.toUInt64, 1)
      else decodeVarintLoop (b0 &&& 0x7F).toUInt64 7 ((buf.enum.drop 1).take 9)

/-- One iteration of the loop of `encode_varints_batch`: encode into the buffer, then append
`&buf[..len]` (a checked slice). -/
def batchStep (acc : List UInt8 × List UInt8) (value : UInt64) :
    Option (List UInt8 × List UInt8) := do
  let (buf, len) ← encodeVarint value acc.2
  if len ≤ buf.length then pure (acc.1 ++ buf.take len, buf) else none

/-- `encode_varints_batch(values, output)`: the `reserve` changes no byte; one zeroed buffer
serves every value. -/
def encodeVarintsBatch (values : List UInt64) (output : List UInt8) : Option (List UInt8) :=
  Prod.fst <$> values.foldlM batchStep (output, List.replicate maxVarintLen 0)

/-- A reader of `count` varints in a row: `decode_varint` on the bytes, then on what follows
the bytes it consumed, and so on.  Each value comes with the count its call consumed. -/
def decodeVarints : Nat → List UInt8 → Option (List (UInt64 × Nat) × List UInt8)
  | 0, bytes => some ([], bytes)
  | count + 1, bytes => do
      let (value, consumed) ← decodeVarint bytes
      let (values, remaining) ← decodeVarints count (bytes.drop consumed)
      pure ((value, consumed) :: values, remaining)

/-! ### The format -/

/-- **The LEB128 bytes of `n`**: its 7-bit groups, low first, `0x80` added to all but the
last. -/
def varintBytes (n : Nat) : List UInt8 :=
  if n < 128 then [UInt8.ofNat n] else UInt8.ofNat (n % 128 + 128) :: varintBytes (n / 128)
termination_by n
decreasing_by omega

/-- The number of bytes `encode_varint` writes for a value. -/
def varintLen (value : UInt64) : Nat := (varintBytes value.toNat).length

theorem varintBytes_of_lt {n : Nat} (small : n < 128) : varintBytes n = [UInt8.ofNat n] := by
  rw [varintBytes, if_pos small]

theorem varintBytes_of_le {n : Nat} (large : 128 ≤ n) :
    varintBytes n = UInt8.ofNat (n % 128 + 128) :: varintBytes (n / 128) := by
  rw [varintBytes, if_neg (by omega)]

/-- A number below `2 ^ (7 * (k + 1))` has at most `k + 1` groups. -/
theorem length_varintBytes_le : ∀ {n : Nat} (k : Nat), n < 2 ^ (7 * (k + 1)) →
    (varintBytes n).length ≤ k + 1
  | n, 0, small => by simp [varintBytes_of_lt (by simpa using small : n < 128)]
  | n, k + 1, small => by
      by_cases large : 128 ≤ n
      · have widen : 2 ^ (7 * (k + 1 + 1)) = 2 ^ (7 * (k + 1)) * 128 := by
          rw [show 7 * (k + 1 + 1) = 7 * (k + 1) + 7 by omega, Nat.pow_add]
        have quotient : n / 128 < 2 ^ (7 * (k + 1)) := by
          rw [Nat.div_lt_iff_lt_mul (by decide)]; omega
        rw [varintBytes_of_le large, List.length_cons]
        have := length_varintBytes_le k quotient
        omega
      · rw [varintBytes_of_lt (by omega)]; simp

theorem varintLen_le (value : UInt64) : varintLen value ≤ maxVarintLen :=
  length_varintBytes_le 9 (lt_trans value.toNat_lt (by decide))

/-! ### Byte arithmetic -/

theorem UInt64.toUInt8_eq_ofNat (value : UInt64) : value.toUInt8 = UInt8.ofNat value.toNat :=
  UInt8.toNat_inj.mp (by rw [UInt64.toNat_toUInt8, UInt8.toNat_ofNat'])

theorem continuation_byte (value : UInt64) :
    value.toUInt8 ||| 0x80 = UInt8.ofNat (value.toNat % 128 + 128) := by
  apply UInt8.toNat_inj.mp
  rw [UInt8.toNat_lor, UInt64.toNat_toUInt8, UInt8.toNat_ofNat',
    show (0x80 : UInt8).toNat = 2 ^ 7 from rfl,
    lor_two_pow_of_lt (Nat.mod_lt _ (by decide) : value.toNat % 256 < 2 ^ (7 + 1))]
  omega

theorem payload_ofNat (m : Nat) : (UInt8.ofNat m &&& 0x7F).toNat = m % 128 := by
  rw [UInt8.and_toNat, UInt8.toNat_ofNat', show (0x7F : UInt8).toNat = 2 ^ 7 - 1 from rfl,
    Nat.and_pow_two_sub_one_eq_mod]
  omega

theorem ofNat_lt_0x80 (m : Nat) : UInt8.ofNat m < 0x80 ↔ m % 256 < 128 := by
  rw [UInt8.lt_iff_toNat_lt, UInt8.toNat_ofNat']; rfl

/-- One group ORed in at `shift < 64`, above bits that fit below it, adds it at its place,
modulo `2 ^ 64`: `<<` drops what passes bit 63. -/
theorem accumulate_toNat_mod (result : UInt64) (byte : UInt8) {shift : Nat}
    (below : result.toNat < 2 ^ shift) (shiftSmall : shift < 64) :
    (result ||| (byte &&& 0x7F).toUInt64 <<< shift.toUInt64).toNat =
      (result.toNat + 2 ^ shift * (byte &&& 0x7F).toNat) % 2 ^ 64 := by
  have shiftEq : shift.toUInt64.toNat % 64 = shift := by
    rw [Nat.toUInt64, UInt64.toNat_ofNat', Nat.mod_eq_of_lt (show shift < 2 ^ 64 by omega),
      Nat.mod_eq_of_lt shiftSmall]
  have widths : 2 ^ 64 = 2 ^ shift * 2 ^ (64 - shift) := by
    rw [← Nat.pow_add, Nat.add_sub_cancel' shiftSmall.le]
  obtain ⟨group, groupDef⟩ : ∃ group, (byte &&& 0x7F).toNat = group := ⟨_, rfl⟩
  have kept : group % 2 ^ (64 - shift) < 2 ^ (64 - shift) := Nat.mod_lt _ (by positivity)
  have fits : 2 ^ shift * (group % 2 ^ (64 - shift)) + result.toNat < 2 ^ 64 :=
    calc 2 ^ shift * (group % 2 ^ (64 - shift)) + result.toNat
        < 2 ^ shift * (group % 2 ^ (64 - shift)) + 2 ^ shift := by omega
      _ = 2 ^ shift * (group % 2 ^ (64 - shift) + 1) := by ring
      _ ≤ 2 ^ 64 := widths ▸ Nat.mul_le_mul_left _ kept
  have whole : result.toNat + 2 ^ shift * group =
      2 ^ shift * (group % 2 ^ (64 - shift)) + result.toNat + 2 ^ 64 * (group / 2 ^ (64 - shift)) := by
    rw [widths]
    nth_rewrite 1 [← Nat.mod_add_div group (2 ^ (64 - shift))]
    ring
  rw [UInt64.toNat_lor, UInt64.toNat_shiftLeft, shiftEq, UInt8.toNat_toUInt64, groupDef,
    Nat.mul_comm group, widths, Nat.mul_mod_mul_left, ← widths, or_two_pow_mul_of_lt _ below, whole,
    Nat.add_mul_mod_self_left, Nat.mod_eq_of_lt fits]

/-! ### The encoder -/

theorem encodeVarintLoop_eq : ∀ (rest : List UInt8) (value : UInt64) (pos : Nat),
    (varintBytes value.toNat).length ≤ rest.length →
    encodeVarintLoop value pos rest =
      some (varintBytes value.toNat ++ rest.drop (varintBytes value.toNat).length,
        pos + (varintBytes value.toNat).length)
  | [], value, _, fits => by
      rw [varintBytes] at fits; split at fits <;> simp at fits
  | _ :: rest, value, pos, fits => by
      by_cases small : value < 0x80
      · have smallNat : value.toNat < 128 := UInt64.lt_iff_toNat_lt.mp small
        rw [encodeVarintLoop, if_pos small, varintBytes_of_lt smallNat,
          UInt64.toUInt8_eq_ofNat]
        rfl
      · have large : 128 ≤ value.toNat := by
          have := mt UInt64.lt_iff_toNat_lt.mpr small; exact Nat.le_of_not_lt this
        have shifted : (value >>> 7).toNat = value.toNat / 128 := by
          rw [UInt64.toNat_shiftRight]; rfl
        rw [varintBytes_of_le large, ← shifted, List.length_cons] at fits ⊢
        rw [encodeVarintLoop, if_neg small,
          encodeVarintLoop_eq rest (value >>> 7) (pos + 1) (by simpa using fits),
          continuation_byte]
        simp only [Option.map_some', List.cons_append, List.drop_succ_cons]
        rw [Nat.add_right_comm, Nat.add_assoc]

/-- **`encode_varint` on its 10-byte buffer** writes the value's LEB128 bytes in front and
returns their number, never indexing past the buffer. -/
theorem encodeVarint_eq (value : UInt64) {buf : List UInt8} (long : maxVarintLen ≤ buf.length) :
    encodeVarint value buf =
      some (varintBytes value.toNat ++ buf.drop (varintLen value), varintLen value) := by
  rw [encodeVarint, encodeVarintLoop_eq buf value 0 (le_trans (varintLen_le value) long),
    Nat.zero_add, varintLen]

/-- The buffer keeps its length. -/
theorem length_encoded (value : UInt64) {buf : List UInt8} (long : maxVarintLen ≤ buf.length) :
    (varintBytes value.toNat ++ buf.drop (varintLen value)).length = buf.length := by
  have := varintLen_le value
  rw [List.length_append, List.length_drop]
  unfold varintLen at this ⊢
  omega

/-! ### What `decode_varint` accepts -/

/-- **The number a varint's bytes stand for**: the sum of their 7-bit groups, the `i`-th at
`2 ^ (7 * i)`, with no bound. -/
def groupsValue : List UInt8 → Nat
  | [] => 0
  | b :: bs => (b &&& 0x7F).toNat + 128 * groupsValue bs

/-- The bytes of a varint at the front of a slice: those with the continuation bit, and the
first byte without it; `none` if every byte has it. -/
def varintEnd : List UInt8 → Option (List UInt8 × UInt8)
  | [] => none
  | b :: bs => if b < 0x80 then some ([], b) else (varintEnd bs).map fun p => (b :: p.1, p.2)

theorem exists_of_varintEnd : ∀ {buf continued : List UInt8} {last : UInt8},
    varintEnd buf = some (continued, last) →
      ∃ rest, buf = continued ++ last :: rest ∧ (∀ b ∈ continued, 0x80 ≤ b) ∧ last < 0x80
  | [], _, _, found => by cases found
  | b :: bs, continued, last, found => by
    unfold varintEnd at found
    split_ifs at found with stops
    · cases found
      exact ⟨bs, rfl, (fun _ member => by cases member), stops⟩
    · obtain ⟨⟨continued', last'⟩, found', same⟩ := Option.map_eq_some'.mp found
      cases same
      obtain ⟨rest, rfl, continues, stopsAt⟩ := exists_of_varintEnd found'
      refine ⟨rest, rfl, fun c member => ?_, stopsAt⟩
      rcases List.mem_cons.mp member with rfl | inner
      exacts [UInt8.not_lt.mp stops, continues c inner]

theorem varintEnd_append : ∀ {continued : List UInt8} {last : UInt8} (rest : List UInt8),
    (∀ b ∈ continued, 0x80 ≤ b) → last < 0x80 →
      varintEnd (continued ++ last :: rest) = some (continued, last)
  | [], last, rest, _, stopsAt => by rw [List.nil_append, varintEnd, if_pos stopsAt]
  | c :: continued, last, rest, continues, stopsAt => by
    rw [List.cons_append, varintEnd, if_neg (UInt8.not_lt.mpr (continues c (List.mem_cons_self _ _))),
      varintEnd_append rest (fun b member => continues b (List.mem_cons_of_mem _ member)) stopsAt]
    rfl

/-- **The loop of `decode_varint`** from byte `i` on, with the groups read so far below
`2 ^ (7 * i)`: it stops at the first byte below `0x80`, if that byte is among the first ten of
the slice, and returns the groups' sum modulo `2 ^ 64`. -/
theorem decodeVarintLoop_eq : ∀ (bytes : List UInt8) (i : Nat) (result : UInt64),
    result.toNat < 2 ^ (7 * i) → i ≤ 10 →
    decodeVarintLoop result (7 * i) ((bytes.enumFrom i).take (10 - i)) =
      (varintEnd bytes).bind fun p =>
        if i + p.1.length + 1 ≤ 10 then
          some (UInt64.ofNat (result.toNat + 2 ^ (7 * i) * groupsValue (p.1 ++ [p.2])),
            i + p.1.length + 1)
        else none
  | [], _, _, _, _ => by simp [decodeVarintLoop, varintEnd]
  | b :: bytes, i, result, below, room => by
    by_cases full : i = 10
    · subst full
      simp only [Nat.sub_self, List.take_zero, decodeVarintLoop]
      cases varintEnd (b :: bytes) with
      | none => rfl
      | some p =>
        rw [Option.some_bind, if_neg]
        omega
    have step := accumulate_toNat_mod result b below (by omega)
    have next : (result ||| (b &&& 0x7F).toUInt64 <<< (7 * i).toUInt64).toNat < 2 ^ (7 * (i + 1)) := by
      rw [step, show 7 * (i + 1) = 7 * i + 7 by ring, Nat.pow_add]
      have group : (b &&& 0x7F).toNat < 128 :=
        lt_of_le_of_lt (Nat.and_le_right) (by decide)
      calc _ ≤ result.toNat + 2 ^ (7 * i) * (b &&& 0x7F).toNat := Nat.mod_le _ _
        _ < 2 ^ (7 * i) + 2 ^ (7 * i) * 127 := by
            have := Nat.mul_le_mul_left (2 ^ (7 * i)) (show (b &&& 0x7F).toNat ≤ 127 by omega)
            omega
        _ = 2 ^ (7 * i) * 2 ^ 7 := by ring
    rw [show 10 - i = (10 - (i + 1)) + 1 by omega, List.enumFrom_cons, List.take_succ_cons,
      decodeVarintLoop]
    by_cases stops : b < 0x80
    · simp only [if_pos stops, varintEnd, Option.some_bind, List.length_nil, List.nil_append,
        groupsValue, Nat.mul_zero, Nat.add_zero, if_pos (show i + 0 + 1 ≤ 10 by omega)]
      congr 2
      exact UInt64.toNat_inj.mp (by rw [step, UInt64.toNat_ofNat'])
    · simp only [if_neg stops, show 7 * i + 7 = 7 * (i + 1) by ring,
        decodeVarintLoop_eq bytes (i + 1) _ next (by omega), varintEnd, Option.map_eq_map,
        Option.bind_map]
      congr 1
      funext p
      simp only [Function.comp_apply, List.length_cons,
        show i + 1 + p.1.length + 1 = i + (p.1.length + 1) + 1 by ring]
      split_ifs
      · congr 2
        apply UInt64.toNat_inj.mp
        rw [UInt64.toNat_ofNat', UInt64.toNat_ofNat', step, Nat.mod_add_mod, List.cons_append,
          groupsValue, show 2 ^ (7 * (i + 1)) = 2 ^ (7 * i) * 128 by rw [Nat.mul_succ, Nat.pow_add]]
        ring_nf
      · rfl

/-- **`decode_varint` as a function of the slice**: the varint at its front, if it ends within
ten bytes, and the sum of its groups modulo `2 ^ 64`. -/
theorem decodeVarint_eq (buf : List UInt8) :
    decodeVarint buf = (varintEnd buf).bind fun p =>
      if p.1.length + 1 ≤ 10 then
        some (UInt64.ofNat (groupsValue (p.1 ++ [p.2])), p.1.length + 1)
      else none := by
  cases buf with
  | nil => rfl
  | cons b bytes =>
    by_cases stops : b < 0x80
    · simp only [decodeVarint, if_pos stops, varintEnd, Option.some_bind, List.length_nil,
        List.nil_append, groupsValue, Nat.mul_zero, Nat.add_zero, if_pos (show 0 + 1 ≤ 10 by omega)]
      congr 2
      apply UInt64.toNat_inj.mp
      have small : b.toNat < 128 := UInt8.lt_iff_toNat_lt.mp stops
      have low : (b &&& 0x7F).toNat = b.toNat := by
        rw [UInt8.and_toNat, show (0x7F : UInt8).toNat = 2 ^ 7 - 1 from rfl,
          Nat.and_pow_two_sub_one_eq_mod, Nat.mod_eq_of_lt small]
      rw [UInt8.toNat_toUInt64, UInt64.toNat_ofNat', low, Nat.mod_eq_of_lt (by omega)]
    · have first : ((b &&& 0x7F).toUInt64).toNat < 2 ^ (7 * 1) :=
        lt_of_le_of_lt Nat.and_le_right (by decide)
      have loop := decodeVarintLoop_eq bytes 1 _ first (by omega)
      rw [show 10 - 1 = 9 from rfl, show 7 * 1 = 7 from rfl] at loop
      simp only [decodeVarint, if_neg stops, List.enum_cons, List.drop_one, List.tail_cons, loop,
        varintEnd, Option.map_eq_map, Option.bind_map]
      congr 1
      funext p
      simp only [Function.comp_apply, List.length_cons, show 1 + p.1.length + 1 = p.1.length + 1 + 1 by ring,
        UInt8.toNat_toUInt64, List.cons_append, groupsValue]
      rfl

/-- **What `decode_varint` returns**: `Some((v, n))` exactly when the slice starts with
`n - 1` bytes carrying the continuation bit and a byte without it, `n` is at most 10, and `v`
is the sum of their 7-bit groups modulo `2 ^ 64`. -/
theorem decodeVarint_eq_some_iff (buf : List UInt8) (v : UInt64) (n : Nat) :
    decodeVarint buf = some (v, n) ↔
      ∃ continued last rest, buf = continued ++ last :: rest ∧ (∀ b ∈ continued, 0x80 ≤ b) ∧
        last < 0x80 ∧ n = continued.length + 1 ∧ n ≤ 10 ∧
        v.toNat = groupsValue (continued ++ [last]) % 2 ^ 64 := by
  rw [decodeVarint_eq, Option.bind_eq_some]
  constructor
  · rintro ⟨⟨continued, last⟩, found, decoded⟩
    obtain ⟨rest, rfl, continues, stopsAt⟩ := exists_of_varintEnd found
    split_ifs at decoded with short
    cases decoded
    exact ⟨continued, last, rest, rfl, continues, stopsAt, rfl, short, UInt64.toNat_ofNat' _⟩
  · rintro ⟨continued, last, rest, rfl, continues, stopsAt, rfl, short, value⟩
    refine ⟨(continued, last), varintEnd_append rest continues stopsAt, ?_⟩
    rw [if_pos short]
    congr 2
    exact UInt64.toNat_inj.mp (by rw [UInt64.toNat_ofNat', value])

/-- A varint found within `k` bytes exists exactly when one of the first `k` bytes has no
continuation bit. -/
theorem varintEnd_within_eq_none_iff {α : Type} :
    ∀ (f : List UInt8 × UInt8 → α) (buf : List UInt8) (k : Nat),
      ((varintEnd buf).bind fun p => if p.1.length + 1 ≤ k then some (f p) else none) = none ↔
        ∀ b ∈ buf.take k, 0x80 ≤ b
  | _, [], _ => by simp [varintEnd]
  | _, b :: bs, 0 => by
    simp only [List.take_zero, List.not_mem_nil, false_implies, implies_true, iff_true,
      Option.bind_eq_none]
    intro p _
    rw [if_neg (by omega)]
  | f, b :: bs, k + 1 => by
    by_cases stops : b < 0x80
    · simp only [varintEnd, if_pos stops, Option.some_bind, List.length_nil,
        if_pos (show 0 + 1 ≤ k + 1 by omega), List.take_succ_cons, List.forall_mem_cons]
      exact iff_of_false nofun fun all => absurd all.1 (by simpa using stops)
    · rw [List.take_succ_cons, List.forall_mem_cons,
        ← varintEnd_within_eq_none_iff (fun p => f (b :: p.1, p.2)) bs k]
      simp only [varintEnd, if_neg stops, Option.map_eq_map, Option.bind_map, Function.comp_def,
        List.length_cons, Nat.add_le_add_iff_right]
      exact (and_iff_right (Nat.le_of_not_lt stops)).symm

/-- **When `decode_varint` gives up**: it returns `None` exactly when each of the first ten
bytes of the slice, or each byte of a shorter one, carries the continuation bit.  It never
looks past the tenth byte. -/
theorem decodeVarint_eq_none_iff (buf : List UInt8) :
    decodeVarint buf = none ↔ ∀ b ∈ buf.take 10, 0x80 ≤ b := by
  rw [decodeVarint_eq]
  exact varintEnd_within_eq_none_iff _ buf 10

example : decodeVarint (List.replicate 10 0x80 ++ [0x01]) = none := by decide

/-- A 10-byte varint of `2 ^ 64`: nine bytes `0x80`, then `0x02`, whose one group `2` lands
at `2 ^ 63`.  `decode_varint` returns `Some((0, 10))`. -/
theorem decodeVarint_drops_bits :
    decodeVarint (List.replicate 9 0x80 ++ [0x02]) = some (0, 10) ∧
      groupsValue (List.replicate 9 0x80 ++ [0x02]) = 2 ^ 64 :=
  ⟨by decide, by decide⟩

/-! ### Reading the format back -/

/-- The LEB128 bytes of `n` are bytes with the continuation bit, then one without it, and their
groups sum to `n`. -/
theorem varintBytes_split (n : Nat) : ∃ continued last, varintBytes n = continued ++ [last] ∧
    (∀ b ∈ continued, 0x80 ≤ b) ∧ last < 0x80 ∧ groupsValue (continued ++ [last]) = n := by
  induction n using varintBytes.induct with
  | case1 n small =>
    refine ⟨[], UInt8.ofNat n, varintBytes_of_lt small, nofun, (ofNat_lt_0x80 n).mpr (by omega), ?_⟩
    simp only [List.nil_append, groupsValue, payload_ofNat]
    omega
  | case2 n large ih =>
    obtain ⟨continued, last, split, continues, stopsAt, value⟩ := ih
    refine ⟨UInt8.ofNat (n % 128 + 128) :: continued, last,
      by rw [varintBytes_of_le (by omega), split]; rfl, fun b member => ?_, stopsAt, ?_⟩
    · rcases List.mem_cons.mp member with rfl | inner
      exacts [UInt8.not_lt.mp (mt (ofNat_lt_0x80 _).mp (by omega)), continues b inner]
    · rw [List.cons_append, groupsValue, value, payload_ofNat]
      omega

/-- **`decode_varint` reads back the LEB128 bytes of any `u64`**, and consumes exactly
them, whatever bytes follow. -/
theorem decodeVarint_varintBytes {n : Nat} (small : n < 2 ^ 64) (rest : List UInt8) :
    decodeVarint (varintBytes n ++ rest) = some (UInt64.ofNat n, (varintBytes n).length) := by
  obtain ⟨continued, last, split, continues, stopsAt, value⟩ := varintBytes_split n
  have room := length_varintBytes_le 9 (lt_trans small (by decide))
  rw [split, List.length_append] at room ⊢
  refine (decodeVarint_eq_some_iff _ _ _).mpr
    ⟨continued, last, rest, by simp, continues, stopsAt, rfl, room, ?_⟩
  rw [value, UInt64.toNat_ofNat']

/-- The repeated decoder splits a run of encoded values, leaving what follows untouched. -/
theorem decodeVarints_flatMap (rest : List UInt8) : ∀ values : List UInt64,
    decodeVarints values.length ((values.flatMap fun v => varintBytes v.toNat) ++ rest) =
      some (values.map fun v => (v, varintLen v), rest)
  | [] => rfl
  | v :: values => by
      have ofNatEq : UInt64.ofNat v.toNat = v :=
        UInt64.toNat_inj.mp (by rw [UInt64.toNat_ofNat', Nat.mod_eq_of_lt v.toNat_lt])
      rw [List.length_cons, List.flatMap_cons, List.append_assoc, decodeVarints,
        decodeVarint_varintBytes v.toNat_lt, ofNatEq]
      simp only [Option.bind_eq_bind, Option.some_bind, List.drop_left,
        decodeVarints_flatMap rest values, List.map_cons]
      rfl

/-- The batch loop appends each value's bytes and keeps a 10-byte buffer. -/
theorem foldlM_batchStep : ∀ (values : List UInt64) (output buf : List UInt8),
    buf.length = maxVarintLen →
    ∃ buf', values.foldlM batchStep (output, buf) =
      some (output ++ values.flatMap fun v => varintBytes v.toNat, buf')
  | [], output, buf, _ => ⟨buf, by simp⟩
  | v :: values, output, buf, sized => by
      have written := (length_encoded v (le_of_eq sized.symm)).trans sized
      obtain ⟨buf', rest⟩ := foldlM_batchStep values
        (output ++ varintBytes v.toNat) _ written
      have lenEq : (varintBytes v.toNat).length = varintLen v := rfl
      refine ⟨buf', ?_⟩
      rw [List.foldlM_cons]
      simp only [batchStep, encodeVarint_eq v (le_of_eq sized.symm), Option.bind_eq_bind,
        Option.some_bind, written, varintLen_le v, if_true, List.take_left' lenEq,
        Option.pure_def]
      rw [rest, List.flatMap_cons, List.append_assoc]

theorem encodeVarintsBatch_eq (values : List UInt64) (output : List UInt8) :
    encodeVarintsBatch values output =
      some (output ++ values.flatMap fun v => varintBytes v.toNat) := by
  obtain ⟨buf', fold⟩ := foldlM_batchStep values output _ (List.length_replicate _ _)
  rw [encodeVarintsBatch, fold]
  rfl

/-! ### The round trip -/

/-- **Varint batch round trip.**  On its 10-byte buffer `encode_varint` writes at most 10
bytes and stays in bounds; and the bytes `encode_varints_batch` appends, followed by any
bytes, are read back by repeated `decode_varint` calls as the values in order, each call
consuming the length `encode_varint` returned for its value, the trailing bytes untouched. -/
theorem varint_batch_round_trip :
    (∀ (value : UInt64) (buf : List UInt8), buf.length = maxVarintLen →
      ∃ written, encodeVarint value buf = some (written, varintLen value) ∧
        written.length = maxVarintLen ∧ varintLen value ≤ maxVarintLen) ∧
    ∀ (values : List UInt64) (output rest : List UInt8),
      ∃ appended, encodeVarintsBatch values output = some (output ++ appended) ∧
        decodeVarints values.length (appended ++ rest) =
          some (values.map fun v => (v, varintLen v), rest) := by
  refine ⟨fun value buf sized => ⟨_, encodeVarint_eq value (le_of_eq sized.symm),
    (length_encoded value (le_of_eq sized.symm)).trans sized, varintLen_le value⟩,
    fun values output rest => ⟨_, encodeVarintsBatch_eq values output,
    decodeVarints_flatMap rest values⟩⟩

end ClickHouseArrow.Simd
