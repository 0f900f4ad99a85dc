import ClickHouseArrow.Basic

/-!
# The compressed frame (compression.rs)

ClickHouse's native protocol sends a compressed block as one frame: a 16-byte CityHash-128
checksum (high half first), then the 9-byte header (method byte, compressed size including
the header, decompressed size, both little-endian `u32`), then the codec's output.
`compress_data`, `compress_data_sync` and `compress_data_pooled` write one;
`decompress_data_async` reads one back, checking the method byte, the two sizes against
`100_000_000` and `1_000_000_000`, and the checksum.

## Main Definitions

* `CompressionMethod`, `Codecs` — the methods, and the functions the frame codec calls but
  this repository does not define.
* `compressFrame` — the body the three writers share; `compressData`, `compressDataSync`,
  `compressDataPooled` are it.
* `Read`, `readField`, `decompressDataAsync` — reading a frame from a byte stream; a field
  read runs out with `tokio`'s error for the read, `readIntEof` or `readExactEof`.

## Main results

* `reads_decompressDataAsync` — the decoder takes a frame from the front of the stream
  and leaves the rest unread, whatever it is.
* `decompressDataAsync_encodeFrame` — a frame whose sizes pass the decoder's range check
  decodes to its payload.
* `decompressDataAsync_too_large` — any other frame whose sizes fit their `u32` fields is
  rejected as "Chunk size too large".

## Design Notes

`CompressionMethod` is defined in `native/protocol.rs`, which is not among the sources: its
bytes are those of the module documentation of compression.rs and of the spec, and its
`Display` text, which one error message prints, is a parameter (`Codecs.methodText`).
The codecs and CityHash-128 are abstract functions; what the round trip needs of them is
`Codecs.RoundTrip`.  A read from the stream is a `StateT` over the bytes not yet read, so
that `reader.read_u64_le().await` reads as a bind; what every read of the decoder shares —
it takes bytes from the front and would take the same bytes whatever followed — is
`Reads`, proved once per combinator.  `out.len() as u32 + 9` is computed modulo `2 ^ 32`,
as in a release build.
-/

namespace ClickHouseArrow.Compression

/-! ### Methods and codecs -/

/-- `CompressionMethod`. -/
inductive CompressionMethod where
  | none
  | lz4
  | zstd
  deriving DecidableEq, Repr

/-- `CompressionMethod::byte()`: the method byte of the frame header. -/
def CompressionMethod.byte : CompressionMethod → UInt8
  | .none => 0x02
  | .lz4 => 0x82
  | .zstd => 0x90

/-- The functions the frame codec calls and this repository does not define: `lz4_flex`'s
block codec, `zstd::bulk` at level 1, `cityhash_102_128` (a `u128`), and the `Display`
text of a `CompressionMethod`.  A codec's error is its `Display` text. -/
structure Codecs where
  lz4Compress : List UInt8 → List UInt8
  lz4Decompress : List UInt8 → Nat → Except String (List UInt8)
  zstdCompress : List UInt8 → Except String (List UInt8)
  zstdDecompress : List UInt8 → Nat → Except String (List UInt8)
  cityHash128 : List UInt8 → Nat
  cityHash128_lt : ∀ bytes, cityHash128 bytes < 2 ^ 128
  methodText : CompressionMethod → String

/-- **What the round trip assumes of the codecs**: each decompresses its own output, given
the payload's length. -/
structure Codecs.RoundTrip (codecs : Codecs) : Prop where
  lz4 : ∀ raw, codecs.lz4Decompress (codecs.lz4Compress raw) raw.length = .ok raw
  zstd : ∀ raw out, codecs.zstdCompress raw = .ok out →
    codecs.zstdDecompress out raw.length = .ok raw

/-! ### Writing a frame -/

/-- The `match compression` of the writers: the codec's output, or `none` for
`CompressionMethod::None`, which returns `Ok(())` before writing anything. -/
def compressPayload (codecs : Codecs) (raw : List UInt8) :
    CompressionMethod → Except Error (Option (List UInt8))
  | .zstd =>
    match codecs.zstdCompress raw with
    | .ok out => .ok (some out)
    | .error e => .error (.serializeError ("ZSTD compress error: " ++ e))
  | .lz4 => .ok (some (codecs.lz4Compress raw))
  | .none => .ok none

/-- `new_out`: the method byte, `out.len() as u32 + 9` and `decompressed_size as u32`
little-endian, then `out`. -/
def frameBody (compression : CompressionMethod) (out : List UInt8) (decompressedSize : Nat) :
    List UInt8 :=
  compression.byte :: (toLE ((out.length % 2 ^ 32 + 9) % 2 ^ 32) 4 ++
    toLE (decompressedSize % 2 ^ 32) 4 ++ out)

/-- The body `compress_data`, `compress_data_sync` and `compress_data_pooled` share: they
differ only in the type of `raw` (`Vec<u8>`, `Bytes`, `PooledBuffer`, the last dropped
once compressed).  The checksum is written as two `u64`s, high half first. -/
def compressFrame {σ : Type} (codecs : Codecs) (writer : Writer σ) (s : σ) (raw : List UInt8)
    (compression : CompressionMethod) : Except Error σ := do
  let decompressedSize := raw.length
  match ← compressPayload codecs raw compression with
  | none => pure s
  | some out =>
    let newOut := frameBody compression out decompressedSize
    let hash := codecs.cityHash128 newOut
    let s ← writer.writeAll s (toLE ((hash >>> 64) % 2 ^ 64) 8)
    let s ← writer.writeAll s (toLE (hash % 2 ^ 64) 8)
    writer.writeAll s newOut

/-- `compress_data(writer, raw, compression)`. -/
def compressData {σ : Type} (codecs : Codecs) (writer : Writer σ) (s : σ) (raw : List UInt8)
    (compression : CompressionMethod) : Except Error σ :=
  compressFrame codecs writer s raw compression

/-- `compress_data_sync(writer, raw, compression)`. -/
def compressDataSync {σ : Type} (codecs : Codecs) (writer : Writer σ) (s : σ)
    (raw : List UInt8) (compression : CompressionMethod) : Except Error σ :=
  compressFrame codecs writer s raw compression

/-- `compress_data_pooled(writer, raw, compression)`. -/
def compressDataPooled {σ : Type} (codecs : Codecs) (writer : Writer σ) (s : σ)
    (raw : List UInt8) (compression : CompressionMethod) : Except Error σ :=
  compressFrame codecs writer s raw compression

/-- The bytes of the frame the writers write for a codec output `out` of a payload of
`decompressedSize` bytes. -/
def encodeFrame (codecs : Codecs) (compression : CompressionMethod) (out : List UInt8)
    (decompressedSize : Nat) : List UInt8 :=
  let newOut := frameBody compression out decompressedSize
  let hash := codecs.cityHash128 newOut
  toLE ((hash >>> 64) % 2 ^ 64) 8 ++ toLE (hash % 2 ^ 64) 8 ++ newOut

/-- A successful sequence of `?` took a successful first step. -/
theorem Except.bind_eq_ok {ε α β : Type} {x : Except ε α} {f : α → Except ε β} {b : β} :
    x >>= f = .ok b ↔ ∃ a, x = .ok a ∧ f a = .ok b := by
  cases x <;> simp [bind, Except.bind]

@[simp] theorem length_frameBody (compression : CompressionMethod) (out : List UInt8) (n : Nat) :
    (frameBody compression out n).length = 9 + out.length := by
  simp [frameBody]; omega

theorem length_encodeFrame (codecs : Codecs) (compression : CompressionMethod)
    (out : List UInt8) (n : Nat) : (encodeFrame codecs compression out n).length = 25 + out.length := by
  simp [encodeFrame]; omega

/-- **What a writer writes**: a successful call with a codec output writes exactly its
frame, after the bytes written before. -/
theorem compressFrame_written {σ : Type} (codecs : Codecs) (writer : Writer σ) {s s' : σ}
    {raw out : List UInt8} {compression : CompressionMethod}
    (compressed : compressPayload codecs raw compression = .ok (some out))
    (wrote : compressFrame codecs writer s raw compression = .ok s') :
    writer.written s' = writer.written s ++ encodeFrame codecs compression out raw.length := by
  obtain ⟨_, compressed', wrote⟩ := Except.bind_eq_ok.mp wrote
  rw [compressed] at compressed'
  cases compressed'
  obtain ⟨s₁, first, wrote⟩ := Except.bind_eq_ok.mp wrote
  obtain ⟨s₂, second, third⟩ := Except.bind_eq_ok.mp wrote
  rw [writer.appends _ _ _ third, writer.appends _ _ _ second, writer.appends _ _ _ first]
  simp [encodeFrame]

/-- Writing to a `Vec<u8>` never fails once the codec has: the frame is appended. -/
theorem compressFrame_vecWriter (codecs : Codecs) (s : List UInt8) {raw out : List UInt8}
    {compression : CompressionMethod}
    (compressed : compressPayload codecs raw compression = .ok (some out)) :
    compressFrame codecs vecWriter s raw compression =
      .ok (s ++ encodeFrame codecs compression out raw.length) := by
  simp [compressFrame, compressed, vecWriter, bind, Except.bind, encodeFrame]

/-! ### Reading from a stream -/

/-- A computation that reads from a `ClickHouseRead` over a finite byte stream: the state
is the bytes not yet read. -/
abbrev Read (α : Type) := StateT (List UInt8) Outcome α

/-- A read of the next `n` bytes, its error mapped to
`Error::Protocol(format!("{what}: {e}"))`: the bytes, or `eof` if fewer remain. -/
def readField (eof : IoError) (what : String) (n : Nat) : Read (List UInt8) := fun reader =>
  if n ≤ reader.length then .ok (reader.take n, reader.drop n)
  else .err (.protocol (what ++ ": " ++ eof.text))

/-- `reader.read_exact(&mut buf)` into an `n`-byte buffer. -/
def readExact (what : String) (n : Nat) : Read (List UInt8) := readField readExactEof what n

/-- `reader.read_u8()`. -/
def readU8 (what : String) : Read UInt8 := do
  let bytes ← readField readIntEof what 1
  pure (UInt8.ofNat (ofLE bytes))

/-- `reader.read_u32_le()`. -/
def readU32LE (what : String) : Read Nat := do
  let bytes ← readField readIntEof what 4
  pure (ofLE bytes)

/-- `reader.read_u64_le()`. -/
def readU64LE (what : String) : Read Nat := do
  let bytes ← readField readIntEof what 8
  pure (ofLE bytes)

/-- `if !ok { return Err(e) }`. -/
def check (ok : Prop) [Decidable ok] (e : Error) : Read Unit := fun reader =>
  if ok then .ok ((), reader) else .err e

/-- An index out of a slice's bounds: the read panics unless `ok`. -/
def assert (ok : Prop) [Decidable ok] : Read Unit := fun reader =>
  if ok then .ok ((), reader) else .panic

/-- `format!("{n:0width$x}")`: lower-case hexadecimal, padded with zeros to `width` digits. -/
def hexPadded (width n : Nat) : String :=
  let digits := Nat.toDigits 16 n
  String.mk (List.replicate (width - digits.length) '0' ++ digits)

/-- The last `match compression` of `decompress_data_async`. -/
def decompressPayload (codecs : Codecs) (payload : List UInt8) (decompressedSize : Nat) :
    CompressionMethod → Outcome (List UInt8)
  | .lz4 =>
    match codecs.lz4Decompress payload decompressedSize with
    | .ok decompressed => .ok decompressed
    | .error e => .err (.deserializeError ("LZ4 decompress error: " ++ e))
  | .zstd =>
    match codecs.zstdDecompress payload decompressedSize with
    | .ok decompressed => .ok decompressed
    | .error e => .err (.deserializeError ("ZSTD decompress error: " ++ e))
  | .none => .err (.deserializeError "Attempted to decompress uncompressed data")

/-- `decompress_data_async(reader, compression)`: read and check one frame.  A compressed
size below 9 makes `&mut compressed[9..]` panic. -/
def decompressDataAsync (codecs : Codecs) (compression : CompressionMethod) :
    Read (List UInt8) := do
  let checksumHigh ← readU64LE "Failed to read checksum high"
  let checksumLow ← readU64LE "Failed to read checksum low"
  let checksum := checksumHigh <<< 64 ||| checksumLow
  let typeByte ← readU8 "Failed to read compression type"
  check (typeByte = compression.byte) (.protocol ("Unexpected compression algorithm for " ++
    codecs.methodText compression ++ ": " ++ hexPadded 2 typeByte.toNat))
  let compressedSize ← readU32LE "Failed to read compressed size"
  let decompressedSize ← readU32LE "Failed to read decompressed size"
  check (¬(compressedSize > 100000000 ∨ decompressedSize > 1000000000))
    (.protocol "Chunk size too large")
  assert (9 ≤ compressedSize)
  let payload ← readExact "Failed to read compressed payload" (compressedSize - 9)
  let compressed := typeByte :: (toLE compressedSize 4 ++ toLE decompressedSize 4 ++ payload)
  let calcChecksum := codecs.cityHash128 compressed
  check (calcChecksum = checksum) (.protocol ("Checksum mismatch: expected " ++
    hexPadded 32 checksum ++ ", got " ++ hexPadded 32 calcChecksum))
  StateT.lift (decompressPayload codecs payload decompressedSize compression)

/-! ### What a read takes -/

/-- **A read of at least `least` bytes from the front of the stream**: when it succeeds it
has taken some bytes `consumed` off the front, at least `least` of them, and on any
stream that starts with them it gives the same value and leaves what follows. -/
def Reads {α : Type} (least : Nat) (p : Read α) : Prop :=
  ∀ s a s', p.run s = .ok (a, s') → ∃ consumed, s = consumed ++ s' ∧ least ≤ consumed.length ∧
    ∀ rest, p.run (consumed ++ rest) = .ok (a, rest)

namespace Reads

variable {α β : Type} {k m : Nat} {p : Read α}

theorem mono (le : m ≤ k) (reads : Reads k p) : Reads m p := fun s a s' ran => by
  obtain ⟨consumed, split, long, again⟩ := reads s a s' ran
  exact ⟨consumed, split, le.trans long, again⟩

theorem bind {f : α → Read β} (first : Reads k p) (next : ∀ a, Reads m (f a)) :
    Reads (k + m) (p >>= f) := fun s b s'' ran => by
  rw [StateT.run_bind] at ran
  obtain ⟨⟨a, s'⟩, ranFirst, ranNext⟩ := Outcome.bind_eq_ok.mp ran
  obtain ⟨taken, rfl, long, again⟩ := first s a s' ranFirst
  obtain ⟨taken', rfl, long', again'⟩ := next a s' b s'' ranNext
  refine ⟨taken ++ taken', by rw [List.append_assoc], by rw [List.length_append]; omega,
    fun rest => ?_⟩
  rw [StateT.run_bind, List.append_assoc, again, Outcome.ok_bind, again']

/-- A step that reads nothing: its outcome does not depend on the stream. -/
theorem of_run (o : Outcome α) (stays : ∀ s, p.run s = o.bind fun a => .ok (a, s)) :
    Reads 0 p := fun s a s' ran => by
  rw [stays] at ran
  cases o with
  | ok b =>
    cases ran
    exact ⟨[], rfl, Nat.zero_le _, fun rest => stays rest⟩
  | err e => cases ran
  | panic => cases ran

theorem lift (o : Outcome α) : Reads 0 (StateT.lift o : Read α) :=
  of_run o fun _ => rfl

theorem pure (a : α) : Reads 0 (Pure.pure a : Read α) :=
  of_run (.ok a) fun _ => rfl

theorem check (ok : Prop) [Decidable ok] (e : Error) : Reads 0 (Compression.check ok e) :=
  of_run (if ok then .ok () else .err e) fun _ => by
    by_cases holds : ok <;> simp [Compression.check, StateT.run, holds, Outcome.bind]

theorem assert (ok : Prop) [Decidable ok] : Reads 0 (Compression.assert ok) :=
  of_run (if ok then .ok () else .panic) fun _ => by
    by_cases holds : ok <;> simp [Compression.assert, StateT.run, holds, Outcome.bind]

theorem readField (eof : IoError) (what : String) (n : Nat) :
    Reads n (Compression.readField eof what n) :=
  fun s a s' ran => by
    simp only [Compression.readField, StateT.run] at ran
    split at ran
    · cases ran
      refine ⟨s.take n, (List.take_append_drop n s).symm, by simpa, fun rest => ?_⟩
      have taken : (s.take n).length = n := by simpa
      simp [StateT.run, Compression.readField, taken]
    · cases ran

end Reads

theorem reads_readU8 (what : String) : Reads 1 (readU8 what) :=
  (Reads.readField _ what 1).bind fun _ => Reads.pure _

theorem reads_readU32LE (what : String) : Reads 4 (readU32LE what) :=
  (Reads.readField _ what 4).bind fun _ => Reads.pure _

theorem reads_readU64LE (what : String) : Reads 8 (readU64LE what) :=
  (Reads.readField _ what 8).bind fun _ => Reads.pure _

/-- **The decoder reads one frame from the front of the stream**: when it succeeds it has
taken at least the 25 bytes of checksum and header, and on any stream that starts with
those bytes it returns the same payload and leaves the rest unread. -/
theorem reads_decompressDataAsync (codecs : Codecs) (compression : CompressionMethod) :
    Reads 25 (decompressDataAsync codecs compression) := by
  unfold decompressDataAsync
  refine (reads_readU64LE _).bind fun _ => (reads_readU64LE _).bind fun _ =>
    (reads_readU8 _).bind fun _ => (Reads.check _ _).bind fun _ =>
    (reads_readU32LE _).bind fun _ => (reads_readU32LE _).bind fun _ =>
    (Reads.check _ _).bind fun _ => (Reads.assert _).bind fun _ =>
    ((Reads.readField _ _ _).mono (Nat.zero_le _)).bind fun _ =>
    (Reads.check _ _).bind fun _ => Reads.lift _

/-! ### Decoding a frame -/

theorem readField_append (eof : IoError) (what : String) {bytes : List UInt8} {n : Nat}
    (sized : bytes.length = n) (rest : List UInt8) :
    (readField eof what n).run (bytes ++ rest) = .ok (bytes, rest) := by
  subst sized
  simp [readField, StateT.run]

@[simp] theorem check_run (ok : Prop) [Decidable ok] (e : Error) (s : List UInt8) :
    (check ok e).run s = if ok then .ok ((), s) else .err e := rfl

@[simp] theorem assert_run (ok : Prop) [Decidable ok] (s : List UInt8) :
    (assert ok).run s = if ok then .ok ((), s) else .panic := rfl

@[simp] theorem lift_run {α : Type} (o : Outcome α) (s : List UInt8) :
    (StateT.lift o : Read α).run s = (o >>= fun a => .ok (a, s)) := rfl

@[simp] theorem readU8_cons (what : String) (b : UInt8) (rest : List UInt8) :
    (readU8 what).run (b :: rest) = .ok (b, rest) := by
  have byte : b.toNat < 256 := b.toNat_lt_size
  have same : UInt8.ofNat (ofLE [b]) = b :=
    UInt8.toNat_inj.mp (by simp only [ofLE, UInt8.toNat_ofNat']; omega)
  show (readU8 what).run ([b] ++ rest) = _
  rw [readU8, StateT.run_bind, readField_append _ what (show [b].length = 1 from rfl) rest]
  simp [same]

@[simp] theorem readU32LE_toLE (what : String) (x : Nat) (rest : List UInt8) :
    (readU32LE what).run (toLE x 4 ++ rest) = .ok (x % 2 ^ 32, rest) := by
  simp [readU32LE, readField_append _ what (length_toLE x 4) rest, ofLE_toLE]

@[simp] theorem readU64LE_toLE (what : String) (x : Nat) (rest : List UInt8) :
    (readU64LE what).run (toLE x 8 ++ rest) = .ok (x % 2 ^ 64, rest) := by
  simp [readU64LE, readField_append _ what (length_toLE x 8) rest, ofLE_toLE]

/-- The halves the writers split the checksum into make it up again: `(hi << 64) | lo`. -/
theorem checksum_halves {h : Nat} (small : h < 2 ^ 128) :
    ((h >>> 64) % 2 ^ 64 % 2 ^ 64) <<< 64 ||| h % 2 ^ 64 % 2 ^ 64 = h := by
  have high : h >>> 64 < 2 ^ 64 := by rw [Nat.shiftRight_eq_div_pow]; omega
  rw [Nat.mod_mod, Nat.mod_mod, Nat.mod_eq_of_lt high, Nat.shiftLeft_eq, Nat.lor_comm,
    Nat.mul_comm, or_two_pow_mul_of_lt _ (Nat.mod_lt _ (by positivity)),
    Nat.shiftRight_eq_div_pow, Nat.div_add_mod]

/-- The codec's decoder undoes its encoder. -/
theorem decompressPayload_compressPayload {codecs : Codecs} (roundTrip : codecs.RoundTrip)
    {compression : CompressionMethod} {raw out : List UInt8}
    (compressed : compressPayload codecs raw compression = .ok (some out)) :
    decompressPayload codecs out raw.length compression = .ok raw := by
  cases compression with
  | none => cases compressed
  | lz4 =>
    cases compressed
    simp [decompressPayload, roundTrip.lz4]
  | zstd =>
    simp only [compressPayload] at compressed
    split at compressed
    · rename_i out' zstdOk
      cases compressed
      simp [decompressPayload, roundTrip.zstd _ _ zstdOk]
    · cases compressed

/-- **A frame decodes to its payload** when its sizes pass the decoder's range check,
whatever follows it. -/
theorem decompressDataAsync_encodeFrame {codecs : Codecs} (roundTrip : codecs.RoundTrip)
    {compression : CompressionMethod} {raw out : List UInt8}
    (compressed : compressPayload codecs raw compression = .ok (some out))
    (payloadFits : raw.length ≤ 1000000000) (outFits : out.length + 9 ≤ 100000000)
    (rest : List UInt8) :
    (decompressDataAsync codecs compression).run
      (encodeFrame codecs compression out raw.length ++ rest) = .ok (raw, rest) := by
  have compressedSize : (out.length % 2 ^ 32 + 9) % 2 ^ 32 = out.length + 9 := by omega
  have compressedSize' : (out.length + 9) % 2 ^ 32 = out.length + 9 := by omega
  have decompressedSize : raw.length % 2 ^ 32 = raw.length := by omega
  have sizesPass : ¬(out.length + 9 > 100000000 ∨ raw.length > 1000000000) := by omega
  have payload := readField_append readExactEof "Failed to read compressed payload"
    (show out.length = out.length + 9 - 9 by omega) rest
  have hash := codecs.cityHash128_lt
  simp only [encodeFrame, frameBody, compressedSize, decompressedSize, List.append_assoc,
    List.cons_append]
  simp only [decompressDataAsync, StateT.run_bind, readU64LE_toLE, readU8_cons, readU32LE_toLE,
    check_run, assert_run, lift_run, readExact, compressedSize, compressedSize', decompressedSize,
    checksum_halves (hash _),
    if_pos sizesPass, if_pos (Nat.le_add_left 9 out.length), payload, List.append_assoc,
    decompressPayload_compressPayload roundTrip compressed, if_true, Outcome.ok_bind]

/-- **Any other frame is rejected**: when the payload is over `1_000_000_000` bytes or the
compressed size over `100_000_000`, and neither overflows its `u32` field, the decoder
fails with "Chunk size too large", whatever follows the frame. -/
theorem decompressDataAsync_too_large (codecs : Codecs) {compression : CompressionMethod}
    {raw out : List UInt8} (tooLarge : 1000000000 < raw.length ∨ 100000000 < out.length + 9)
    (payloadWidth : raw.length < 2 ^ 32) (outWidth : out.length + 9 < 2 ^ 32) (rest : List UInt8) :
    (decompressDataAsync codecs compression).run
      (encodeFrame codecs compression out raw.length ++ rest) =
        .err (.protocol "Chunk size too large") := by
  have compressedSize : (out.length % 2 ^ 32 + 9) % 2 ^ 32 = out.length + 9 := by omega
  have compressedSize' : (out.length + 9) % 2 ^ 32 = out.length + 9 := by omega
  have decompressedSize : raw.length % 2 ^ 32 = raw.length := by omega
  have sizesFail : ¬¬(out.length + 9 > 100000000 ∨ raw.length > 1000000000) := by omega
  simp only [encodeFrame, frameBody, compressedSize, decompressedSize, List.append_assoc,
    List.cons_append]
  simp only [decompressDataAsync, StateT.run_bind, readU64LE_toLE, readU8_cons, readU32LE_toLE,
    check_run, compressedSize', decompressedSize, if_neg sizesFail, if_true, Outcome.ok_bind,
    Outcome.err_bind]

/-! ### The round trip -/

/-- **The frame round trip**, for each of the three writers.  A call that returns `Ok` with a
codec output `out` has written exactly one frame of `25 + |out|` bytes.  If the payload has
at most `1_000_000_000` bytes and the compressed size `|out| + 9` is at most `100_000_000`,
the decoder returns the payload from the frame followed by any bytes, and leaves those
bytes unread; otherwise, unless a size overflows its `u32` field, it rejects the frame as
"Chunk size too large". -/
theorem compressData_round_trip (codecs : Codecs) (roundTrip : codecs.RoundTrip) {σ : Type}
    (writer : Writer σ) :
    ∀ compress ∈ [@compressData σ, @compressDataSync σ, @compressDataPooled σ],
    ∀ (raw : List UInt8) (compression : CompressionMethod) (out : List UInt8) (s s' : σ),
      compressPayload codecs raw compression = .ok (some out) →
      compress codecs writer s raw compression = .ok s' →
      ∃ frame, writer.written s' = writer.written s ++ frame ∧ frame.length = 25 + out.length ∧
        (raw.length ≤ 1000000000 → out.length + 9 ≤ 100000000 → ∀ rest,
          (decompressDataAsync codecs compression).run (frame ++ rest) = .ok (raw, rest)) ∧
        (1000000000 < raw.length ∨ 100000000 < out.length + 9 → raw.length < 2 ^ 32 →
          out.length + 9 < 2 ^ 32 → ∀ rest,
            (decompressDataAsync codecs compression).run (frame ++ rest) =
              .err (.protocol "Chunk size too large")) := by
  intro compress member raw compression out s s' compressed wrote
  have written : writer.written s' =
      writer.written s ++ encodeFrame codecs compression out raw.length := by
    simp only [List.mem_cons, List.mem_singleton, List.not_mem_nil, or_false] at member
    rcases member with rfl | rfl | rfl <;> exact compressFrame_written codecs writer compressed wrote
  exact ⟨_, written, length_encodeFrame .., decompressDataAsync_encodeFrame roundTrip compressed,
    fun tooLarge => decompressDataAsync_too_large codecs tooLarge⟩

/-- Codecs that store the payload as it is, under a zero checksum. -/
def identityCodecs : Codecs where
  lz4Compress raw := raw
  lz4Decompress out _ := .ok out
  zstdCompress raw := .ok raw
  zstdDecompress out _ := .ok out
  cityHash128 _ := 0
  cityHash128_lt _ := by norm_num
  methodText _ := ""

theorem identityCodecs_roundTrip : identityCodecs.RoundTrip where
  lz4 _ := rfl
  zstd _ _ compressed := by cases compressed; rfl

theorem compressData_round_trip_identity :
    identityCodecs.RoundTrip ∧ compressPayload identityCodecs [7] .lz4 = .ok (some [7]) ∧
      compressData identityCodecs vecWriter [] [7] .lz4 =
        .ok (encodeFrame identityCodecs .lz4 [7] [7].length) ∧
      ∃ frame, vecWriter.written (encodeFrame identityCodecs .lz4 [7] [7].length) =
          vecWriter.written [] ++ frame ∧ frame.length = 25 + [7].length ∧
        ([7].length ≤ 1000000000 → [7].length + 9 ≤ 100000000 → ∀ rest,
          (decompressDataAsync identityCodecs .lz4).run (frame ++ rest) = .ok ([7], rest)) ∧
        (1000000000 < [7].length ∨ 100000000 < [7].length + 9 → [7].length < 2 ^ 32 →
          [7].length + 9 < 2 ^ 32 → ∀ rest,
            (decompressDataAsync identityCodecs .lz4).run (frame ++ rest) =
              .err (.protocol "Chunk size too large")) :=
  ⟨identityCodecs_roundTrip, rfl, compressFrame_vecWriter identityCodecs [] rfl,
    compressData_round_trip identityCodecs identityCodecs_roundTrip vecWriter compressData
      (by simp) [7] .lz4 [7] [] _ rfl (compressFrame_vecWriter identityCodecs [] rfl)⟩

/-- **A payload over the decoder's limit**: for `1_000_000_001` zero bytes `compress_data`
returns `Ok` and writes its frame, and the decoder rejects that frame, since its
decompressed size is over `1_000_000_000` (whatever the codec's output). -/
theorem compressData_oversized_rejected :
    ∃ frame, compressData identityCodecs vecWriter [] (List.replicate 1000000001 0) .lz4 =
        .ok frame ∧
      (decompressDataAsync identityCodecs .lz4).run frame =
        .err (.protocol "Chunk size too large") := by
  have payload : (List.replicate 1000000001 (0 : UInt8)).length = 1000000001 :=
    List.length_replicate _ _
  refine ⟨_, compressFrame_vecWriter identityCodecs [] rfl, ?_⟩
  rw [List.nil_append, ← List.append_nil (encodeFrame _ _ _ _)]
  exact decompressDataAsync_too_large identityCodecs (.inl (by rw [payload]; norm_num))
    (by rw [payload]; norm_num)
    (show (List.replicate 1000000001 (0 : UInt8)).length + 9 < 2 ^ 32 by rw [payload]; norm_num) []

end ClickHouseArrow.Compression
