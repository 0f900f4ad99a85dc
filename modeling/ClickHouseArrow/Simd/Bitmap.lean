import ClickHouseArrow.Basic

/-!
# Null bitmap expansion (simd.rs)

Arrow packs validity one bit per row, 1 meaning valid; ClickHouse writes one byte per row,
1 meaning null.  `expand_null_bitmap` turns the first into the second, through one of three
implementations chosen by the build target:

* `expandNullBitmapScalar` — eight unrolled, bounds-checked writes per bitmap byte, then the
  tail of the last byte bit by bit;
* `expandNullBitmapAvx2` — 32 rows per chunk through `expand_byte_to_8_unchecked`, with
  `get_unchecked` reads, then the scalar path on the sub-slices after the last chunk;
* `expandNullBitmapNeon` — the same chunking, each byte turned into eight lanes by
  `vdup_n_u8`, `vand_u8` with the bit masks, `vceqz_u8` and `vand_u8` with ones, and stored
  through a raw pointer.

Every index a path uses is modelled as checked: an `Option`, `none` when it is out of bounds
(a panic behind `[]`, undefined behaviour behind `get_unchecked` and the raw store).

## Main results

`nullMask` states what the expansion is for: the flags of every bitmap byte in order, cut
to `len`.  `expandNullBitmapScalar_eq`, `expandNullBitmapAvx2_eq` and
`expandNullBitmapNeon_eq` show that each path, given a bitmap of at least `⌈len / 8⌉` bytes
and an output of at least `len`, stays in bounds and writes exactly the mask over the first
`len` output bytes; `expandNullBitmap_paths_agree` assembles them, for every target.

## Design Notes

Output writes are described by `writeSlice`, which overwrites a window of a list.  A loop of
single writes, a loop of eight-byte writes and a vector store are all shown to be one
`writeSlice`, and consecutive windows merge (`writeSlice_append`); each path's proof is then
the bookkeeping of where its loops stop.
-/

namespace ClickHouseArrow.Simd

/-! ### Overwriting a window -/

/-- `out` with the bytes from `base` on replaced by `vals`. -/
def writeSlice (out : List UInt8) (base : Nat) (vals : List UInt8) : List UInt8 :=
  out.take base ++ vals ++ out.drop (base + vals.length)

@[simp] theorem writeSlice_nil (out : List UInt8) (base : Nat) : writeSlice out base [] = out := by
  simp [writeSlice]

theorem length_writeSlice {out vals : List UInt8} {base : Nat}
    (fits : base + vals.length ≤ out.length) : (writeSlice out base vals).length = out.length := by
  simp only [writeSlice, List.length_append, List.length_take, List.length_drop]
  omega

/-- Two adjacent windows written one after the other are one window. -/
theorem writeSlice_append {out xs ys : List UInt8} {base : Nat}
    (fits : base + xs.length + ys.length ≤ out.length) :
    writeSlice (writeSlice out base xs) (base + xs.length) ys = writeSlice out base (xs ++ ys) := by
  have headLength : (out.take base ++ xs).length = base + xs.length := by simp; omega
  have tailLength : (out.take base ++ xs).length + ys.length = base + xs.length + ys.length := by
    omega
  simp only [writeSlice]
  rw [List.take_left' headLength, ← tailLength, List.drop_append, List.drop_drop]
  simp only [List.length_append, List.append_assoc, Nat.add_assoc]

/-- A window written into the tail `out.drop k` is a window of `out`. -/
theorem take_append_writeSlice_drop (out vals : List UInt8) (k : Nat) :
    out.take k ++ writeSlice (out.drop k) 0 vals = writeSlice out k vals := by
  simp [writeSlice, List.drop_drop, Nat.add_comm]

/-! ### Checked and unchecked single accesses -/

/-- `output[k] = v`: a write that panics past the end. -/
def writeAt (output : List UInt8) (k : Nat) (v : UInt8) : Option (List UInt8) :=
  if k < output.length then some (output.set k v) else none

theorem writeAt_eq {output : List UInt8} {k : Nat} (v : UInt8) (within : k < output.length) :
    writeAt output k v = some (writeSlice output k [v]) := by
  rw [writeAt, if_pos within, List.set_eq_take_append_cons_drop, if_pos within]
  simp [writeSlice]

/-- A loop `for j in s..s + n { output[base + j] = f(j) }` of in-bounds writes overwrites one
window. -/
theorem foldlM_writeAt (f : Nat → UInt8) (base : Nat) :
    ∀ (n s : Nat) (out : List UInt8), base + s + n ≤ out.length →
      (List.range' s n).foldlM (fun out j => writeAt out (base + j) (f j)) out =
        some (writeSlice out (base + s) ((List.range' s n).map f))
  | 0, _, out, _ => by simp
  | n + 1, s, out, fits => by
      have firstWrite := writeAt_eq (f s) (show base + s < out.length by omega)
      have restFits : base + (s + 1) + n ≤ (writeSlice out (base + s) [f s]).length := by
        rw [length_writeSlice (by simp; omega)]; omega
      simp only [List.range', List.foldlM_cons, firstWrite, Option.bind_eq_bind, Option.some_bind]
      rw [foldlM_writeAt f base n (s + 1) _ restFits, List.map_cons,
        show base + (s + 1) = base + s + [f s].length by simp; omega,
        writeSlice_append (by simp; omega)]
      rfl

/-! ### The expansion, stated -/

/-- The masks the unrolled loops test, bit 0 first: `0x01, 0x02, …, 0x80`. -/
def bitMasks : List UInt8 := [0x01, 0x02, 0x04, 0x08, 0x10, 0x20, 0x40, 0x80]

/-- `u8::from((byte & mask) == 0)`: 1 when the masked bit is clear, the row being null. -/
def nullFlag (byte mask : UInt8) : UInt8 := if byte &&& mask = 0 then 1 else 0

/-- The eight null flags of one bitmap byte, bit 0 first. -/
def expandByte (byte : UInt8) : List UInt8 := bitMasks.map (nullFlag byte)

/-- **What the expansion is for**: the flags of every bitmap byte, in order, cut to `len`. -/
def nullMask (bitmap : List UInt8) (len : Nat) : List UInt8 :=
  (bitmap.flatMap expandByte).take len

@[simp] theorem length_expandByte (byte : UInt8) : (expandByte byte).length = 8 := rfl

theorem length_flatMap_expandByte (bytes : List UInt8) :
    (bytes.flatMap expandByte).length = 8 * bytes.length := by
  induction bytes with
  | nil => rfl
  | cons b bs ih => simp only [List.flatMap_cons, List.length_append, ih]; simp; ring

theorem length_nullMask {bitmap : List UInt8} {len : Nat} (long : (len + 7) / 8 ≤ bitmap.length) :
    (nullMask bitmap len).length = len := by
  rw [nullMask, List.length_take, length_flatMap_expandByte]; omega

/-- Flag `t` of a byte is 1 exactly when bit `t` is clear. -/
theorem getElem?_expandByte (byte : UInt8) {t : Nat} (h : t < 8) :
    (expandByte byte)[t]? = some (if byte.toNat.testBit t then 0 else 1) := by
  have maskAt : ∀ t, t < 8 → bitMasks[t]? = some (UInt8.ofNat (2 ^ t)) := by decide
  have maskBit : ∀ t, t < 8 → (UInt8.ofNat (2 ^ t)).toNat = 2 ^ t := by decide
  have zeroIff : byte &&& UInt8.ofNat (2 ^ t) = 0 ↔ byte.toNat.testBit t = false := by
    rw [← UInt8.toNat_inj, UInt8.and_toNat, maskBit t h, Nat.and_two_pow]
    cases byte.toNat.testBit t <;> simp
  rw [expandByte, List.getElem?_map, maskAt t h, Option.map_some', nullFlag]
  by_cases bit : byte.toNat.testBit t <;> simp [zeroIff, bit]

/-- Flag `t` of byte `q` sits at `8 * q + t` of the expanded bytes. -/
theorem getElem?_flatMap_expandByte {t : Nat} (h : t < 8) :
    ∀ (bytes : List UInt8) (q : Nat),
      (bytes.flatMap expandByte)[8 * q + t]? = bytes[q]?.bind fun b => (expandByte b)[t]?
  | [], _ => by simp
  | b :: bs, 0 => by
      rw [List.flatMap_cons, Nat.mul_zero, Nat.zero_add,
        List.getElem?_append_left (by simpa using h)]
      simp
  | b :: bs, q + 1 => by
      rw [List.flatMap_cons, List.getElem?_append_right (by simp; omega), length_expandByte,
        show 8 * (q + 1) + t - 8 = 8 * q + t by omega, getElem?_flatMap_expandByte h bs q]
      simp

/-- The mask's bytes (claim form): byte `i` is 1 exactly when bit `i % 8` of bitmap byte
`i / 8` is 0. -/
theorem getElem?_nullMask (bitmap : List UInt8) {len i : Nat} (h : i < len)
    (long : (len + 7) / 8 ≤ bitmap.length) :
    (nullMask bitmap len)[i]? =
      some (if (bitmap.getD (i / 8) 0).toNat.testBit (i % 8) then 0 else 1) := by
  have byteIndex : i / 8 < bitmap.length := by omega
  rw [nullMask, List.getElem?_take_of_lt h, ← Nat.div_add_mod i 8,
    getElem?_flatMap_expandByte (Nat.mod_lt i (by decide)), List.getElem?_eq_getElem byteIndex,
    Option.some_bind, getElem?_expandByte _ (Nat.mod_lt i (by decide)), Nat.div_add_mod,
    List.getD_eq_getElem?_getD, List.getElem?_eq_getElem byteIndex, Option.getD_some]

/-- The first `8 * q + r` flags are those of the first `q` bytes and `r` of byte `q`. -/
theorem nullMask_split (bitmap : List UInt8) (q r : Nat) (enough : q ≤ bitmap.length) :
    nullMask bitmap (8 * q + r) =
      (bitmap.take q).flatMap expandByte ++ ((bitmap.drop q).flatMap expandByte).take r := by
  have prefixLength : ((bitmap.take q).flatMap expandByte).length = 8 * q := by
    rw [length_flatMap_expandByte, List.length_take]; omega
  conv_lhs => rw [nullMask, ← List.take_append_drop q bitmap, List.flatMap_append]
  rw [← prefixLength, List.take_append]

/-- **The output every path must leave**: the mask over the first `len` bytes, the rest as
it was. -/
def expandedOutput (bitmap output : List UInt8) (len : Nat) : List UInt8 :=
  writeSlice output 0 (nullMask bitmap len)

theorem expandedOutput_eq_take_append (bitmap output : List UInt8) (len : Nat) :
    expandedOutput bitmap output len =
      nullMask bitmap len ++ output.drop (nullMask bitmap len).length := by
  simp [expandedOutput, writeSlice]

/-! ### The scalar path -/

/-- The eight writes `output[base + j] = u8::from((byte & bitMasks[j]) == 0)`, `j < 8`: the
unrolled body of the scalar loop, and of `expand_byte_to_8_unchecked`. -/
def writeFlags (output : List UInt8) (base : Nat) (byte : UInt8) : Option (List UInt8) :=
  (List.range 8).foldlM
    (fun out j => writeAt out (base + j) (nullFlag byte (bitMasks.getD j 0))) output

/-- `expand_null_bitmap_scalar`: whole bitmap bytes first, eight writes each, then the
remaining `len % 8` rows from the next byte, one bit at a time. -/
def expandNullBitmapScalar (bitmap output : List UInt8) (len : Nat) : Option (List UInt8) := do
  let fullBytes := len / 8
  let remainder := len % 8
  let output ← (bitmap.take fullBytes).enum.foldlM
    (fun out (byteIdx, byte) => writeFlags out (byteIdx * 8) byte) output
  if remainder > 0 then
    let byte ← bitmap[fullBytes]?
    let base := fullBytes * 8
    (List.range remainder).foldlM
      (fun out bit => writeAt out (base + bit) (nullFlag byte ((1 : UInt8) <<< bit.toUInt8))) output
  else
    pure output

theorem expandByte_eq_map_range (byte : UInt8) :
    expandByte byte = (List.range 8).map fun j => nullFlag byte (bitMasks.getD j 0) := rfl

theorem writeFlags_eq (output : List UInt8) (base : Nat) (byte : UInt8)
    (fits : base + 8 ≤ output.length) :
    writeFlags output base byte = some (writeSlice output base (expandByte byte)) := by
  rw [writeFlags, List.range_eq_range', foldlM_writeAt _ base 8 0 output (by omega),
    expandByte_eq_map_range, List.range_eq_range', Nat.add_zero]

/-- The byte loop: bytes `s, s + 1, …` expanded in turn fill one window. -/
theorem foldlM_writeFlags :
    ∀ (bytes : List UInt8) (s : Nat) (out : List UInt8), 8 * (s + bytes.length) ≤ out.length →
      (bytes.enumFrom s).foldlM (fun out x => writeFlags out (x.1 * 8) x.2) out =
        some (writeSlice out (8 * s) (bytes.flatMap expandByte))
  | [], _, out, _ => by simp
  | b :: bs, s, out, fits => by
      rw [List.length_cons] at fits
      have firstByte := writeFlags_eq out (s * 8) b (by omega)
      have firstLength : (writeSlice out (s * 8) (expandByte b)).length = out.length :=
        length_writeSlice (by rw [length_expandByte]; omega)
      have restLength := length_flatMap_expandByte bs
      rw [List.enumFrom_cons, List.foldlM_cons, firstByte, Option.bind_eq_bind, Option.some_bind,
        foldlM_writeFlags bs (s + 1) _ (by omega), List.flatMap_cons,
        show 8 * (s + 1) = s * 8 + (expandByte b).length by rw [length_expandByte]; omega,
        writeSlice_append (by rw [length_expandByte, restLength]; omega), Nat.mul_comm]

/-- The tail loop's mask `1 << bit` is the unrolled loop's `bitMasks[bit]`. -/
theorem shiftMask_eq : ∀ bit < 8, (1 : UInt8) <<< bit.toUInt8 = bitMasks.getD bit 0 := by
  decide

/-- The tail loop writes the first `r` flags of its byte. -/
theorem map_range_tail (byte : UInt8) {r : Nat} (small : r ≤ 8) :
    (List.range r).map (fun bit => nullFlag byte ((1 : UInt8) <<< bit.toUInt8)) =
      (expandByte byte).take r := by
  rw [expandByte_eq_map_range, ← List.map_take, List.take_range, Nat.min_eq_left small]
  apply List.map_congr_left
  intro bit member
  rw [shiftMask_eq bit (by simp at member; omega)]

theorem expandNullBitmapScalar_eq (bitmap output : List UInt8) (len : Nat)
    (bitmapLong : (len + 7) / 8 ≤ bitmap.length) (outputLong : len ≤ output.length) :
    expandNullBitmapScalar bitmap output len = some (expandedOutput bitmap output len) := by
  have bytesFit : 8 * (0 + (bitmap.take (len / 8)).length) ≤ output.length := by simp; omega
  have prefixLength : ((bitmap.take (len / 8)).flatMap expandByte).length = 8 * (len / 8) := by
    rw [length_flatMap_expandByte, List.length_take]; omega
  have firstLength : (writeSlice output 0 ((bitmap.take (len / 8)).flatMap expandByte)).length =
      output.length := length_writeSlice (by omega)
  have maskSplit := nullMask_split bitmap (len / 8) (len % 8) (by omega)
  rw [Nat.div_add_mod] at maskSplit
  simp only [expandNullBitmapScalar, List.enum, Option.bind_eq_bind]
  rw [foldlM_writeFlags _ 0 output bytesFit, Option.some_bind, Nat.mul_zero]
  split
  case isTrue hasTail =>
    have byteIndex : len / 8 < bitmap.length := by omega
    rw [List.getElem?_eq_getElem byteIndex, Option.some_bind, List.range_eq_range',
      foldlM_writeAt _ _ _ 0 _ (by omega), Nat.add_zero, ← List.range_eq_range',
      map_range_tail _ (by omega), Nat.mul_comm, ← prefixLength,
      ← Nat.zero_add (List.length _),
      writeSlice_append (by rw [prefixLength, List.length_take, length_expandByte]; omega),
      expandedOutput,
      maskSplit, List.drop_eq_getElem_cons byteIndex, List.flatMap_cons,
      List.take_append_of_le_length (by simp; omega)]
  case isFalse noTail =>
    rw [expandedOutput, maskSplit, show len % 8 = 0 by omega, List.take_zero, List.append_nil]
    rfl

/-! ### The chunked paths -/

/-- The hand-off after the last 32-row chunk, shared by the AVX2 and NEON paths: the scalar
path on `&bitmap[start..]` and `&mut output[outIdx..]`.  Either slice panics when its start
is past the end. -/
def expandTail (bitmap output : List UInt8) (start outIdx remaining : Nat) : Option (List UInt8) :=
  if start ≤ bitmap.length ∧ outIdx ≤ output.length then
    (expandNullBitmapScalar (bitmap.drop start) (output.drop outIdx) remaining).map
      (output.take outIdx ++ ·)
  else none

/-- The shape both vector paths share: `len / 32` whole chunks, each by `chunkStep` on the
output and the running `out_idx`, then the scalar path on what is left. -/
def expandInChunks (chunkStep : List UInt8 × Nat → Nat → Option (List UInt8 × Nat))
    (bitmap output : List UInt8) (len : Nat) : Option (List UInt8) := do
  let fullChunks := len / 32
  let (output, outIdx) ← (List.range fullChunks).foldlM chunkStep (output, 0)
  let remaining := len - fullChunks * 32
  if remaining > 0 then expandTail bitmap output (fullChunks * 4) outIdx remaining
  else pure output

/-- What one chunk must do: read bitmap bytes `4c … 4c + 3` and write their 32 flags at
`out_idx = 32c`, moving `out_idx` on by 32. -/
def ChunkSpec (bitmap : List UInt8) (chunkStep : List UInt8 × Nat → Nat → Option (List UInt8 × Nat)) :
    Prop :=
  ∀ (out : List UInt8) (c : Nat), 4 * c + 4 ≤ bitmap.length → 32 * c + 32 ≤ out.length →
    chunkStep (out, 32 * c) c =
      some (writeSlice out (32 * c) (((bitmap.drop (4 * c)).take 4).flatMap expandByte), 32 * c + 32)

section Chunks

variable {bitmap : List UInt8} {chunkStep : List UInt8 × Nat → Nat → Option (List UInt8 × Nat)}

/-- The chunk loop: chunks `s, s + 1, …` fill one window with the flags of their bytes. -/
theorem foldlM_chunks (stepSpec : ChunkSpec bitmap chunkStep) :
    ∀ (n s : Nat) (out : List UInt8), 4 * (s + n) ≤ bitmap.length → 32 * (s + n) ≤ out.length →
      (List.range' s n).foldlM chunkStep (out, 32 * s) =
        some (writeSlice out (32 * s) (((bitmap.drop (4 * s)).take (4 * n)).flatMap expandByte),
          32 * (s + n))
  | 0, s, out, _, _ => by simp
  | n + 1, s, out, bitmapFits, outFits => by
      have chunkLength : (((bitmap.drop (4 * s)).take 4).flatMap expandByte).length = 32 := by
        rw [length_flatMap_expandByte, List.length_take, List.length_drop]; omega
      have firstLength :
          (writeSlice out (32 * s) (((bitmap.drop (4 * s)).take 4).flatMap expandByte)).length =
            out.length := length_writeSlice (by omega)
      have restLength :
          (((bitmap.drop (4 * (s + 1))).take (4 * n)).flatMap expandByte).length = 32 * n := by
        rw [length_flatMap_expandByte, List.length_take, List.length_drop]; omega
      rw [List.range'_succ, List.foldlM_cons, stepSpec out s (by omega) (by omega),
        Option.bind_eq_bind, Option.some_bind, show 32 * s + 32 = 32 * (s + 1) by ring,
        foldlM_chunks stepSpec n (s + 1) _ (by omega) (by omega),
        show 32 * (s + 1) = 32 * s + (((bitmap.drop (4 * s)).take 4).flatMap expandByte).length by
          rw [chunkLength]; ring,
        writeSlice_append (by rw [chunkLength, restLength]; omega), ← List.flatMap_append,
        show 4 * (s + 1) = 4 * s + 4 by ring, ← List.drop_drop, ← List.take_add,
        show 4 + 4 * n = 4 * (n + 1) by ring, show s + 1 + n = s + (n + 1) by ring]

/-- Whole chunks then the scalar tail write the null mask, for any chunk body that meets
`ChunkSpec`. -/
theorem expandInChunks_eq (stepSpec : ChunkSpec bitmap chunkStep) (output : List UInt8) (len : Nat)
    (bitmapLong : (len + 7) / 8 ≤ bitmap.length) (outputLong : len ≤ output.length) :
    expandInChunks chunkStep bitmap output len = some (expandedOutput bitmap output len) := by
  have loopEq := foldlM_chunks stepSpec (len / 32) 0 output (by omega) (by omega)
  have chunksLength : ((bitmap.take (4 * (len / 32))).flatMap expandByte).length = 32 * (len / 32) := by
    rw [length_flatMap_expandByte, List.length_take]; omega
  have firstLength :
      (writeSlice output 0 ((bitmap.take (4 * (len / 32))).flatMap expandByte)).length =
        output.length := length_writeSlice (by omega)
  have maskSplit := nullMask_split bitmap (4 * (len / 32)) (len - len / 32 * 32) (by omega)
  rw [show 8 * (4 * (len / 32)) + (len - len / 32 * 32) = len by omega] at maskSplit
  simp only [Nat.mul_zero, Nat.zero_add, List.drop_zero] at loopEq
  simp only [expandInChunks, ← List.range_eq_range'] at loopEq ⊢
  rw [loopEq]
  simp only [Option.bind_eq_bind, Option.some_bind]
  split
  case isTrue hasTail =>
    have tailLength : (nullMask (bitmap.drop (len / 32 * 4)) (len - len / 32 * 32)).length =
        len - len / 32 * 32 := length_nullMask (by simp only [List.length_drop]; omega)
    rw [expandTail, if_pos ⟨by omega, by omega⟩,
      expandNullBitmapScalar_eq _ _ _ (by simp only [List.length_drop]; omega)
        (by simp only [List.length_drop]; omega), Option.map_some',
      expandedOutput, take_append_writeSlice_drop, ← chunksLength, ← Nat.zero_add (List.length _),
      writeSlice_append (by rw [chunksLength, tailLength]; omega), expandedOutput,
      maskSplit, Nat.mul_comm 4, nullMask]
  case isFalse noTail =>
    rw [expandedOutput, maskSplit, show len - len / 32 * 32 = 0 by omega, List.take_zero,
      List.append_nil, Nat.mul_comm 4]
    rfl

end Chunks

/-! ### The AVX2 path -/

/-- `expand_byte_to_8_unchecked`: the eight flag writes of `byte` at `offset`, through
`get_unchecked_mut`. -/
def expandByteTo8Unchecked (byte : UInt8) (output : List UInt8) (offset : Nat) :
    Option (List UInt8) :=
  writeFlags output offset byte

/-- One 32-row chunk of `expand_null_bitmap_avx2`: four bitmap bytes read through
`get_unchecked`, each expanded to eight output bytes, `out_idx` moving on by eight each time. -/
def avx2Chunk (bitmap : List UInt8) (acc : List UInt8 × Nat) (chunk : Nat) :
    Option (List UInt8 × Nat) := do
  let (output, outIdx) := acc
  let bitmapOffset := chunk * 4
  let b0 ← bitmap[bitmapOffset]?
  let b1 ← bitmap[bitmapOffset + 1]?
  let b2 ← bitmap[bitmapOffset + 2]?
  let b3 ← bitmap[bitmapOffset + 3]?
  let output ← expandByteTo8Unchecked b0 output outIdx
  let output ← expandByteTo8Unchecked b1 output (outIdx + 8)
  let output ← expandByteTo8Unchecked b2 output (outIdx + 16)
  let output ← expandByteTo8Unchecked b3 output (outIdx + 24)
  pure (output, outIdx + 32)

/-- `expand_null_bitmap_avx2`. -/
def expandNullBitmapAvx2 (bitmap output : List UInt8) (len : Nat) : Option (List UInt8) :=
  expandInChunks (avx2Chunk bitmap) bitmap output len

/-- Eight flags written right after a window extend it. -/
theorem writeFlags_after {out xs : List UInt8} {base offset : Nat} (byte : UInt8)
    (adjacent : offset = base + xs.length) (fits : base + xs.length + 8 ≤ out.length) :
    writeFlags (writeSlice out base xs) offset byte =
      some (writeSlice out base (xs ++ expandByte byte)) := by
  rw [adjacent, writeFlags_eq _ _ _ (by rw [length_writeSlice (by omega)]; exact fits),
    writeSlice_append (by rw [length_expandByte]; exact fits)]

/-- Four bytes in a row of a list, read one index at a time. -/
theorem take_four_drop {bitmap : List UInt8} {k : Nat} (fits : k + 4 ≤ bitmap.length) :
    (bitmap.drop k).take 4 =
      [bitmap[k], bitmap[k + 1], bitmap[k + 2], bitmap[k + 3]] := by
  rw [List.drop_eq_getElem_cons (by omega), List.drop_eq_getElem_cons (by omega),
    List.drop_eq_getElem_cons (by omega), List.drop_eq_getElem_cons (by omega)]
  rfl

theorem avx2Chunk_spec (bitmap : List UInt8) : ChunkSpec bitmap (avx2Chunk bitmap) := by
  intro out c bitmapFits outFits
  rw [take_four_drop bitmapFits]
  simp only [avx2Chunk, expandByteTo8Unchecked, Nat.mul_comm c 4,
    List.getElem?_eq_getElem (show 4 * c < bitmap.length by omega),
    List.getElem?_eq_getElem (show 4 * c + 1 < bitmap.length by omega),
    List.getElem?_eq_getElem (show 4 * c + 2 < bitmap.length by omega),
    List.getElem?_eq_getElem (show 4 * c + 3 < bitmap.length by omega),
    Option.bind_eq_bind, Option.some_bind]
  rw [writeFlags_eq out _ _ (by omega), Option.some_bind,
    writeFlags_after _ (by simp only [length_expandByte])
      (by simp only [length_expandByte]; omega), Option.some_bind,
    writeFlags_after _ (by simp only [List.length_append, length_expandByte])
      (by simp only [List.length_append, length_expandByte]; omega), Option.some_bind,
    writeFlags_after _ (by simp only [List.length_append, length_expandByte])
      (by simp only [List.length_append, length_expandByte]; omega), Option.some_bind]
  rfl

theorem expandNullBitmapAvx2_eq (bitmap output : List UInt8) (len : Nat)
    (bitmapLong : (len + 7) / 8 ≤ bitmap.length) (outputLong : len ≤ output.length) :
    expandNullBitmapAvx2 bitmap output len = some (expandedOutput bitmap output len) :=
  expandInChunks_eq (avx2Chunk_spec bitmap) output len bitmapLong outputLong

/-! ### The NEON path -/

/-- `vdup_n_u8`: one byte in all eight lanes. -/
def vdupNU8 (value : UInt8) : List UInt8 := List.replicate 8 value

/-- `vand_u8`: lane-wise `&`. -/
def vandU8 (a b : List UInt8) : List UInt8 := List.zipWith (· &&& ·) a b

/-- `vceqz_u8`: `0xFF` in each lane that is zero, `0` in the others. -/
def vceqzU8 (a : List UInt8) : List UInt8 := a.map fun lane => if lane = 0 then 0xFF else 0

/-- `vst1_u8(output.as_mut_ptr().add(idx), v)`: the lanes stored through a raw pointer. -/
def vst1U8 (output : List UInt8) (idx : Nat) (v : List UInt8) : Option (List UInt8) :=
  if idx + v.length ≤ output.length then some (writeSlice output idx v) else none

/-- Iteration `i` of the inner loop of `expand_null_bitmap_neon`: the byte read through
`get_unchecked`, spread over eight lanes, masked with `bit_mask`, compared to zero, masked
with `ones`, and stored at `out_idx`. -/
def neonByte (bitmap : List UInt8) (chunk : Nat) (acc : List UInt8 × Nat) (i : Nat) :
    Option (List UInt8 × Nat) := do
  let (output, outIdx) := acc
  let byte ← bitmap[chunk * 4 + i]?
  let byteVec := vdupNU8 byte
  let bits := vandU8 byteVec bitMasks
  let isZero := vceqzU8 bits
  let result := vandU8 isZero (vdupNU8 0x01)
  let output ← vst1U8 output outIdx result
  pure (output, outIdx + 8)

/-- One 32-row chunk of `expand_null_bitmap_neon`: `for i in 0..4`. -/
def neonChunk (bitmap : List UInt8) (acc : List UInt8 × Nat) (chunk : Nat) :
    Option (List UInt8 × Nat) :=
  (List.range 4).foldlM (neonByte bitmap chunk) acc

/-- `expand_null_bitmap_neon`. -/
def expandNullBitmapNeon (bitmap output : List UInt8) (len : Nat) : Option (List UInt8) :=
  expandInChunks (neonChunk bitmap) bitmap output len

/-- The lane arithmetic computes the eight null flags of the byte. -/
theorem neon_lanes (byte : UInt8) :
    vandU8 (vceqzU8 (vandU8 (vdupNU8 byte) bitMasks)) (vdupNU8 0x01) = expandByte byte := by
  have lane : ∀ x : UInt8, ((if x = 0 then 0xFF else 0) &&& (0x01 : UInt8)) =
      if x = 0 then 1 else 0 := by
    intro x; split <;> rfl
  simp only [vandU8, vceqzU8, vdupNU8, bitMasks, expandByte, nullFlag, List.replicate,
    List.zipWith_cons_cons, List.zipWith_nil_left, List.map_cons, List.map_nil, lane]

theorem neonByte_after (bitmap : List UInt8) {out xs : List UInt8} {base c i : Nat}
    (byteIndex : c * 4 + i < bitmap.length) (fits : base + xs.length + 8 ≤ out.length) :
    neonByte bitmap c (writeSlice out base xs, base + xs.length) i =
      some (writeSlice out base (xs ++ expandByte bitmap[c * 4 + i]),
        base + xs.length + 8) := by
  have sameLength : (writeSlice out base xs).length = out.length := length_writeSlice (by omega)
  simp only [neonByte, List.getElem?_eq_getElem byteIndex, Option.bind_eq_bind, Option.some_bind,
    neon_lanes, vst1U8, length_expandByte, sameLength, if_pos fits]
  rw [writeSlice_append (by rw [length_expandByte]; exact fits)]
  rfl

/-- The first `n ≤ 4` iterations of the inner loop write the flags of bitmap bytes
`4c, …, 4c + n - 1` from `32c` on. -/
theorem foldlM_neonByte (bitmap : List UInt8) {out : List UInt8} {c : Nat}
    (bitmapFits : 4 * c + 4 ≤ bitmap.length) (outFits : 32 * c + 32 ≤ out.length) :
    ∀ n ≤ 4, (List.range n).foldlM (neonByte bitmap c) (out, 32 * c) =
      some (writeSlice out (32 * c) (((bitmap.drop (4 * c)).take n).flatMap expandByte),
        32 * c + 8 * n)
  | 0, _ => by simp [writeSlice_nil]
  | n + 1, small => by
    have written : (((bitmap.drop (4 * c)).take n).flatMap expandByte).length = 8 * n := by
      rw [length_flatMap_expandByte, List.length_take, List.length_drop]; omega
    have nextByte : (bitmap.drop (4 * c)).take (n + 1) =
        (bitmap.drop (4 * c)).take n ++ [bitmap[c * 4 + n]] := by
      rw [List.take_succ, List.getElem?_drop, show 4 * c + n = c * 4 + n by ring,
        List.getElem?_eq_getElem (by omega), Option.toList_some]
    rw [List.range_succ, List.foldlM_append, foldlM_neonByte bitmap bitmapFits outFits n (by omega),
      Option.bind_eq_bind, Option.some_bind, List.foldlM_cons, ← written,
      neonByte_after bitmap (by omega) (by omega), Option.bind_eq_bind, Option.some_bind,
      List.foldlM_nil, nextByte, List.flatMap_append, List.flatMap_singleton, written]
    rfl

theorem neonChunk_spec (bitmap : List UInt8) : ChunkSpec bitmap (neonChunk bitmap) :=
  fun _ _ bitmapFits outFits => foldlM_neonByte bitmap bitmapFits outFits 4 le_rfl

theorem expandNullBitmapNeon_eq (bitmap output : List UInt8) (len : Nat)
    (bitmapLong : (len + 7) / 8 ≤ bitmap.length) (outputLong : len ≤ output.length) :
    expandNullBitmapNeon bitmap output len = some (expandedOutput bitmap output len) :=
  expandInChunks_eq (neonChunk_spec bitmap) output len bitmapLong outputLong

/-! ### Dispatch -/

/-- The build configurations the `cfg` blocks of `expand_null_bitmap` tell apart. -/
inductive Target where
  /-- `x86_64`: `avx2` when the feature is enabled at compile time, `avx2Detected` what
  `is_x86_feature_detected!("avx2")` answers at run time. -/
  | x86_64 (avx2 avx2Detected : Bool)
  /-- `aarch64`, with or without the `neon` target feature. -/
  | aarch64 (neon : Bool)
  /-- Any other architecture. -/
  | other
  deriving DecidableEq, Repr

/-- `expand_null_bitmap`, as a release build compiles it (the `debug_assert!`s on the two
lengths are compiled out): the path the target selects. -/
def expandNullBitmap (target : Target) (bitmap output : List UInt8) (len : Nat) :
    Option (List UInt8) :=
  match target with
  | .x86_64 true _ => expandNullBitmapAvx2 bitmap output len
  | .x86_64 false avx2Detected =>
      if avx2Detected then expandNullBitmapAvx2 bitmap output len
      else expandNullBitmapScalar bitmap output len
  | .aarch64 true => expandNullBitmapNeon bitmap output len
  | .aarch64 false | .other => expandNullBitmapScalar bitmap output len

theorem expandNullBitmap_eq (target : Target) (bitmap output : List UInt8) (len : Nat)
    (bitmapLong : (len + 7) / 8 ≤ bitmap.length) (outputLong : len ≤ output.length) :
    expandNullBitmap target bitmap output len = some (expandedOutput bitmap output len) := by
  have scalar := expandNullBitmapScalar_eq bitmap output len bitmapLong outputLong
  have avx2 := expandNullBitmapAvx2_eq bitmap output len bitmapLong outputLong
  have neon := expandNullBitmapNeon_eq bitmap output len bitmapLong outputLong
  rcases target with ⟨_ | _, _ | _⟩ | ⟨_ | _⟩ | _ <;> simp [expandNullBitmap, scalar, avx2, neon]

/-- The expanded output, byte by byte: the mask below `len`, the old bytes from `len` on. -/
theorem getElem?_expandedOutput (bitmap output : List UInt8) {len : Nat}
    (bitmapLong : (len + 7) / 8 ≤ bitmap.length) (outputLong : len ≤ output.length) :
    (expandedOutput bitmap output len).length = output.length ∧
      (∀ i < len, (expandedOutput bitmap output len)[i]? =
        some (if (bitmap.getD (i / 8) 0).toNat.testBit (i % 8) then 0 else 1)) ∧
      ∀ i, len ≤ i → (expandedOutput bitmap output len)[i]? = output[i]? := by
  have maskLength := length_nullMask bitmapLong
  rw [expandedOutput_eq_take_append, maskLength]
  refine ⟨by simp; omega, fun i below => ?_, fun i above => ?_⟩
  · rw [List.getElem?_append_left (by omega), getElem?_nullMask bitmap below bitmapLong]
  · rw [List.getElem?_append_right (by omega), maskLength, List.getElem?_drop,
      Nat.add_sub_cancel' above]

/-- **Every path of `expand_null_bitmap` computes the same function.**  Given a bitmap of at
least `⌈len / 8⌉` bytes and an output of at least `len`, the scalar, AVX2 and NEON paths each
stay in bounds, set `output[i]` to 1 exactly when bit `i % 8` of `bitmap[i / 8]` is clear for
`i < len`, and leave the rest of `output` as it was; so the path every target selects writes
the same bytes. -/
theorem expandNullBitmap_paths_agree (bitmap output : List UInt8) (len : Nat)
    (bitmapLong : (len + 7) / 8 ≤ bitmap.length) (outputLong : len ≤ output.length) :
    (∀ path ∈ [expandNullBitmapScalar, expandNullBitmapAvx2, expandNullBitmapNeon],
      ∃ out, path bitmap output len = some out ∧ out.length = output.length ∧
        (∀ i < len, out[i]? =
          some (if (bitmap.getD (i / 8) 0).toNat.testBit (i % 8) then 0 else 1)) ∧
        ∀ i, len ≤ i → out[i]? = output[i]?) ∧
    ∀ target, expandNullBitmap target bitmap output len = expandNullBitmapScalar bitmap output len := by
  refine ⟨fun path member => ⟨expandedOutput bitmap output len, ?_,
    getElem?_expandedOutput bitmap output bitmapLong outputLong⟩, fun target => ?_⟩
  · simp only [List.mem_cons, List.not_mem_nil, or_false] at member
    rcases member with rfl | rfl | rfl
    · exact expandNullBitmapScalar_eq bitmap output len bitmapLong outputLong
    · exact expandNullBitmapAvx2_eq bitmap output len bitmapLong outputLong
    · exact expandNullBitmapNeon_eq bitmap output len bitmapLong outputLong
  · rw [expandNullBitmap_eq target bitmap output len bitmapLong outputLong,
      expandNullBitmapScalar_eq bitmap output len bitmapLong outputLong]

/-- The spec's scenario: `bitmap = [0xAA]`, `len = 8`, on an output of eight `0xFF`. -/
theorem expandNullBitmap_paths_agree_0xAA :
    (8 + 7) / 8 ≤ [(0xAA : UInt8)].length ∧ 8 ≤ (List.replicate 8 (0xFF : UInt8)).length ∧
    ((∀ path ∈ [expandNullBitmapScalar, expandNullBitmapAvx2, expandNullBitmapNeon],
      ∃ out, path [0xAA] (List.replicate 8 0xFF) 8 = some out ∧
        out.length = (List.replicate 8 (0xFF : UInt8)).length ∧
        (∀ i < 8, out[i]? =
          some (if ([(0xAA : UInt8)].getD (i / 8) 0).toNat.testBit (i % 8) then 0 else 1)) ∧
        ∀ i, 8 ≤ i → out[i]? = (List.replicate 8 (0xFF : UInt8))[i]?) ∧
    ∀ target, expandNullBitmap target [0xAA] (List.replicate 8 0xFF) 8 =
      expandNullBitmapScalar [0xAA] (List.replicate 8 0xFF) 8) :=
  ⟨by decide, by decide,
    expandNullBitmap_paths_agree [0xAA] (List.replicate 8 0xFF) 8 (by decide) (by decide)⟩

example : expandNullBitmapScalar [0xAA] (List.replicate 8 0xFF) 8 = some [1, 0, 1, 0, 1, 0, 1, 0] := by
  decide

end ClickHouseArrow.Simd
