import ClickHouseArrow.Compression.Frame

/-!
# What the frame decoder checks (compression.rs)

`decompress_data_async` reads the checksum, then the method byte and the two sizes, and
checks the method and the sizes' ranges.  It then allocates `compressed`, a zeroed buffer
of `compressed_size` bytes, reads the payload into `compressed[9..]`, writes the header it
read back into `compressed[..9]`, and compares the CityHash-128 of the whole buffer with
the checksum.  This file says, on the bytes of the stream, what a successful read has
checked, where the decoder panics instead of failing, and what a frame whose checksum was
tampered with decodes to.

## Main Definitions

* `NeverPanics`, `PanicsAfter` — reads that cannot panic, and reads that can only panic
  once a given number of bytes are there.
* `EofWhenCut`, `Takes` — reads that fail with a given end-of-file error on every stream cut
  short of the bytes they take, and reads that take a fixed number of bytes.
* `headerFields`, `frameCutError` — the fields of a frame's header, and the error of a frame
  cut inside each of its fields.
* `decodeBody` — the decoder after the header: the payload, the checksum, the codec.
* `tamperChecksum` — a frame with a mask XOR-ed into its 16 checksum bytes.

## Main results

* `decompressDataAsync_cut_frame_eof` — a stream cut anywhere inside a frame the decoder
  accepts fails with the end-of-file error of the field it runs out in, as `tokio` words it
  for that field's read.
* `decompressDataAsync_header` — the decoder on any stream of at least 25 bytes, in terms
  of its checksum and header bytes.
* `decompressDataAsync_panics_iff` — the decoder panics exactly on a frame whose method
  byte and sizes pass the checks and whose compressed size is below the 9 bytes of the
  header, so that `&mut compressed[9..]` starts past the end of `compressed`.
* `decompressDataAsync_checked` — what a successful read has checked: the method byte, the
  ranges of both sizes, the checksum over exactly the bytes it took, and the codec.
* `tamperChecksum_rejected` — a frame whose compressed size fits its field is rejected once
  any nonzero mask is XOR-ed into its checksum.
* `decompressDataAsync_frame_encoded` — every frame the decoder accepts is, byte for byte, the
  frame the writers write for its payload and decompressed size.

## Design Notes

The decoder rebuilds the header it hashes from the numbers it read, not from the bytes:
`toLE_ofLE` is what makes the two agree.  The checksum is read as two `u64`s, high half
first, and the writers write it in that order, so `checksum_halves` and `ofLE_inj` make the
16 bytes and the 128-bit value determine each other.
-/

namespace ClickHouseArrow.Compression

/-! ### Reads that do not panic -/

/-- A read that never panics: it returns, or fails with an error. -/
def NeverPanics {α : Type} (p : Read α) : Prop :=
  ∀ s, p.run s ≠ .panic

/-- **A read that can only panic once `least` bytes are there**: on a shorter stream it
returns or fails with an error. -/
def PanicsAfter {α : Type} (least : Nat) (p : Read α) : Prop :=
  ∀ s, p.run s = .panic → least ≤ s.length

namespace NeverPanics

variable {α β : Type} {p : Read α}

theorem bind {f : α → Read β} (first : NeverPanics p) (next : ∀ a, NeverPanics (f a)) :
    NeverPanics (p >>= f) := fun s ran => by
  rw [StateT.run_bind] at ran
  rcases h : p.run s with ⟨a, s'⟩ | e | _
  · rw [h, Outcome.ok_bind] at ran
    exact next a s' ran
  · rw [h, Outcome.err_bind] at ran
    cases ran
  · exact first s h

theorem pure (a : α) : NeverPanics (Pure.pure a : Read α) := fun _ ran => by
  cases ran

theorem readField (eof : IoError) (what : String) (n : Nat) :
    NeverPanics (Compression.readField eof what n) :=
  fun s ran => by
    simp only [Compression.readField, StateT.run] at ran
    split at ran <;> cases ran

theorem check (ok : Prop) [Decidable ok] (e : Error) : NeverPanics (Compression.check ok e) :=
  fun s ran => by
    rw [check_run] at ran
    split at ran <;> cases ran

theorem lift {o : Outcome α} (safe : o ≠ .panic) : NeverPanics (StateT.lift o : Read α) :=
  fun s ran => by
    rw [lift_run] at ran
    cases o with
    | ok a => cases ran
    | err e => cases ran
    | panic => exact safe rfl

end NeverPanics

theorem neverPanics_readU8 (what : String) : NeverPanics (readU8 what) :=
  (NeverPanics.readField _ what 1).bind fun _ => NeverPanics.pure _

theorem neverPanics_readU32LE (what : String) : NeverPanics (readU32LE what) :=
  (NeverPanics.readField _ what 4).bind fun _ => NeverPanics.pure _

theorem neverPanics_readU64LE (what : String) : NeverPanics (readU64LE what) :=
  (NeverPanics.readField _ what 8).bind fun _ => NeverPanics.pure _

/-- The codecs return `Ok` or `Err`. -/
theorem decompressPayload_ne_panic (codecs : Codecs) (payload : List UInt8) (size : Nat)
    (compression : CompressionMethod) : decompressPayload codecs payload size compression ≠ .panic := by
  cases compression <;> simp only [decompressPayload] <;> (try split) <;> nofun

namespace PanicsAfter

variable {α β : Type} {p : Read α}

theorem zero (p : Read α) : PanicsAfter 0 p := fun _ _ => Nat.zero_le _

/-- A read that takes at least `k` bytes and never panics, followed by reads that can only
panic after `m` more bytes, can only panic after `k + m`. -/
theorem bind {f : α → Read β} {k m : Nat} (reads : Reads k p) (safe : NeverPanics p)
    (next : ∀ a, PanicsAfter m (f a)) : PanicsAfter (k + m) (p >>= f) := fun s ran => by
  rw [StateT.run_bind] at ran
  rcases h : p.run s with ⟨a, s'⟩ | e | _
  · rw [h, Outcome.ok_bind] at ran
    obtain ⟨taken, rfl, long, -⟩ := reads s a s' h
    have := next a s' ran
    rw [List.length_append]
    omega
  · rw [h, Outcome.err_bind] at ran
    cases ran
  · exact absurd h (safe s)

end PanicsAfter

/-- **The decoder cannot panic before the 25 bytes of checksum and header are there.** -/
theorem panicsAfter_decompressDataAsync (codecs : Codecs) (compression : CompressionMethod) :
    PanicsAfter 25 (decompressDataAsync codecs compression) := by
  unfold decompressDataAsync
  exact PanicsAfter.bind (reads_readU64LE _) (neverPanics_readU64LE _) fun _ =>
    PanicsAfter.bind (reads_readU64LE _) (neverPanics_readU64LE _) fun _ =>
    PanicsAfter.bind (reads_readU8 _) (neverPanics_readU8 _) fun _ =>
    PanicsAfter.bind (Reads.check _ _) (NeverPanics.check _ _) fun _ =>
    PanicsAfter.bind (reads_readU32LE _) (neverPanics_readU32LE _) fun _ =>
    PanicsAfter.bind (reads_readU32LE _) (neverPanics_readU32LE _) fun _ =>
    PanicsAfter.bind (Reads.check _ _) (NeverPanics.check _ _) fun _ => PanicsAfter.zero _

/-! ### A frame cut short -/

/-- **A read that reports a cut stream as end of file**: when it succeeds, the same stream
cut `cut` bytes into what it took makes it fail with `eof cut`. -/
def EofWhenCut {α : Type} (p : Read α) (eof : Nat → Error) : Prop :=
  ∀ s a s', p.run s = .ok (a, s') → ∀ cut < s.length - s'.length,
    p.run (s.take cut) = .err (eof cut)

/-- A read that takes exactly `n` bytes when it succeeds. -/
def Takes {α : Type} (n : Nat) (p : Read α) : Prop :=
  ∀ s a s', p.run s = .ok (a, s') → s.length = n + s'.length

namespace Takes

variable {α β : Type} {p : Read α}

theorem bind {f : α → Read β} {n m : Nat} (first : Takes n p) (next : ∀ a, Takes m (f a)) :
    Takes (n + m) (p >>= f) := fun s b s'' ran => by
  rw [StateT.run_bind] at ran
  obtain ⟨⟨a, s'⟩, ranFirst, ranNext⟩ := Outcome.bind_eq_ok.mp ran
  have := first s a s' ranFirst
  have := next a s' b s'' ranNext
  omega

theorem of_run (o : Outcome α) (stays : ∀ s, p.run s = o.bind fun a => .ok (a, s)) :
    Takes 0 p := fun s a s' ran => by
  rw [stays] at ran
  cases o <;> cases ran
  omega

theorem readField (eof : IoError) (what : String) (n : Nat) :
    Takes n (Compression.readField eof what n) := fun s a s' ran => by
  simp only [Compression.readField, StateT.run] at ran
  split at ran
  · cases ran
    rw [List.length_drop]
    omega
  · cases ran

end Takes

theorem takes_check (ok : Prop) [Decidable ok] (e : Error) : Takes 0 (check ok e) :=
  Takes.of_run (if ok then .ok () else .err e) fun _ => by
    by_cases holds : ok <;> simp [check, StateT.run, holds, Outcome.bind]

theorem takes_assert (ok : Prop) [Decidable ok] : Takes 0 (assert ok) :=
  Takes.of_run (if ok then .ok () else .panic) fun _ => by
    by_cases holds : ok <;> simp [assert, StateT.run, holds, Outcome.bind]

theorem takes_readU8 (what : String) : Takes 1 (readU8 what) :=
  (Takes.readField _ what 1).bind fun _ => Takes.of_run (.ok _) fun _ => rfl

theorem takes_readU32LE (what : String) : Takes 4 (readU32LE what) :=
  (Takes.readField _ what 4).bind fun _ => Takes.of_run (.ok _) fun _ => rfl

theorem takes_readU64LE (what : String) : Takes 8 (readU64LE what) :=
  (Takes.readField _ what 8).bind fun _ => Takes.of_run (.ok _) fun _ => rfl

namespace EofWhenCut

variable {α β : Type} {p : Read α} {f : α → Read β}

/-- A read that takes nothing has no bytes to cut. -/
theorem of_takes_zero (takes : Takes 0 p) (eof : Nat → Error) : EofWhenCut p eof :=
  fun s a s' ran cut short => absurd short (by have := takes s a s' ran; omega)

theorem readField (eof : IoError) (what : String) (n : Nat) :
    EofWhenCut (Compression.readField eof what n) fun _ => .protocol (what ++ ": " ++ eof.text) :=
  fun s a s' ran cut short => by
    simp only [Compression.readField, StateT.run] at ran ⊢
    split at ran
    · cases ran
      have cutShort : ¬n ≤ (s.take cut).length := by
        rw [List.length_drop] at short
        rw [List.length_take]
        omega
      exact if_neg cutShort
    · cases ran

/-- **A read of `n` bytes, then one that reports a cut stream**: a cut within the first `n`
bytes fails in the first read, and a later one in the second, `n` bytes further on. -/
theorem bind {n : Nat} {first next : Nat → Error} (cutFirst : EofWhenCut p first)
    (reads : Reads n p) (takes : Takes n p) (cutNext : ∀ a, EofWhenCut (f a) next) :
    EofWhenCut (p >>= f) fun cut => if cut < n then first cut else next (cut - n) :=
  fun s b s'' ran cut short => by
    rw [StateT.run_bind] at ran ⊢
    obtain ⟨⟨a, s'⟩, ranFirst, ranNext⟩ := Outcome.bind_eq_ok.mp ran
    have width := takes s a s' ranFirst
    obtain ⟨taken, rfl, -, again⟩ := reads s a s' ranFirst
    rw [List.length_append] at short width
    obtain rfl : n = taken.length := by omega
    beta_reduce
    by_cases within : cut < taken.length
    · rw [if_pos within, cutFirst _ a s' ranFirst cut (by rw [List.length_append]; omega),
        Outcome.err_bind]
    · rw [if_neg within, List.take_append_eq_append_take, List.take_of_length_le (by omega),
        again, Outcome.ok_bind]
      exact cutNext a s' b s'' ranNext (cut - taken.length) (by omega)

theorem congr {eof eof' : Nat → Error} (cuts : EofWhenCut p eof)
    (same : ∀ cut, eof cut = eof' cut) : EofWhenCut p eof' := fun s a s' ran cut short =>
  (cuts s a s' ran cut short).trans (congrArg _ (same cut))

/-- A step that takes nothing, then one that reports a cut stream. -/
theorem bind_zero {eof : Nat → Error} (reads : Reads 0 p) (takes : Takes 0 p)
    (cutNext : ∀ a, EofWhenCut (f a) eof) : EofWhenCut (p >>= f) eof :=
  fun s b s'' ran cut short => by
    simpa using (of_takes_zero takes eof).bind reads takes cutNext s b s'' ran cut short

/-- A read that reports a cut stream, then steps that take nothing. -/
theorem bind_last {eof : Nat → Error} (cutFirst : EofWhenCut p eof)
    (rest : ∀ a, Takes 0 (f a)) : EofWhenCut (p >>= f) eof := fun s b s'' ran cut short => by
  rw [StateT.run_bind] at ran ⊢
  obtain ⟨⟨a, s'⟩, ranFirst, ranNext⟩ := Outcome.bind_eq_ok.mp ran
  have := rest a s' b s'' ranNext
  rw [cutFirst s a s' ranFirst cut (by omega), Outcome.err_bind]

end EofWhenCut

theorem eofWhenCut_readU8 (what : String) :
    EofWhenCut (readU8 what) fun _ => .protocol (what ++ ": " ++ readIntEof.text) :=
  (EofWhenCut.readField _ what 1).bind_last fun _ => Takes.of_run (.ok _) fun _ => rfl

theorem eofWhenCut_readU32LE (what : String) :
    EofWhenCut (readU32LE what) fun _ => .protocol (what ++ ": " ++ readIntEof.text) :=
  (EofWhenCut.readField _ what 4).bind_last fun _ => Takes.of_run (.ok _) fun _ => rfl

theorem eofWhenCut_readU64LE (what : String) :
    EofWhenCut (readU64LE what) fun _ => .protocol (what ++ ": " ++ readIntEof.text) :=
  (EofWhenCut.readField _ what 8).bind_last fun _ => Takes.of_run (.ok _) fun _ => rfl

/-- The fields of a frame ahead of its payload, in the order `decompress_data_async` reads
them (spec section 6): each one's width, the context its error names, and the error its read
fails with when the stream ends inside it.  The two checksum halves are read with
`read_u64_le`, the method byte with `read_u8`, the two sizes with `read_u32_le`. -/
def headerFields : List (Nat × String × IoError) :=
  [(8, "Failed to read checksum high", readIntEof), (8, "Failed to read checksum low", readIntEof),
    (1, "Failed to read compression type", readIntEof),
    (4, "Failed to read compressed size", readIntEof),
    (4, "Failed to read decompressed size", readIntEof)]

/-- The error of a read of `fields` and then of the payload, with `read_exact`, cut `cut`
bytes in: that of the field the cut falls in. -/
def cutError : List (Nat × String × IoError) → Nat → Error
  | [], _ => .protocol ("Failed to read compressed payload" ++ ": " ++ readExactEof.text)
  | (width, what, eof) :: fields, cut =>
    if cut < width then .protocol (what ++ ": " ++ eof.text) else cutError fields (cut - width)

/-- The error `decompress_data_async` fails with on a frame cut `cut` bytes in. -/
def frameCutError (cut : Nat) : Error := cutError headerFields cut

example : frameCutError 20 = .protocol "Failed to read compressed size: unexpected end of file" := by
  decide

/-- The decoder, step by step, reports a cut stream with the error of the field it runs out
in. -/
theorem eofWhenCut_decompressDataAsync (codecs : Codecs) (compression : CompressionMethod) :
    EofWhenCut (decompressDataAsync codecs compression) frameCutError := by
  unfold decompressDataAsync
  exact EofWhenCut.congr
    ((eofWhenCut_readU64LE _).bind (reads_readU64LE _) (takes_readU64LE _) fun _ =>
      (eofWhenCut_readU64LE _).bind (reads_readU64LE _) (takes_readU64LE _) fun _ =>
      (eofWhenCut_readU8 _).bind (reads_readU8 _) (takes_readU8 _) fun _ =>
      EofWhenCut.bind_zero (Reads.check _ _) (takes_check _ _) fun _ =>
      (eofWhenCut_readU32LE _).bind (reads_readU32LE _) (takes_readU32LE _) fun _ =>
      (eofWhenCut_readU32LE _).bind (reads_readU32LE _) (takes_readU32LE _) fun _ =>
      EofWhenCut.bind_zero (Reads.check _ _) (takes_check _ _) fun _ =>
      EofWhenCut.bind_zero (Reads.assert _) (takes_assert _) fun _ =>
      (EofWhenCut.readField _ _ _).bind_last fun _ =>
        (takes_check _ _).bind fun _ => Takes.of_run _ fun _ => rfl) fun _ => rfl

/-- **A frame cut short is end of file, in the field the cut falls in.**  Whatever stream
the decoder reads a frame from, the same stream cut anywhere before the end of that frame
fails with the end-of-file error of the field it runs out in, `read_exact`'s for the payload
and the integer reads' for the others: never a panic, a checksum or codec error, or a
payload. -/
theorem decompressDataAsync_cut_frame_eof (codecs : Codecs) (compression : CompressionMethod)
    {stream v rest : List UInt8}
    (decoded : (decompressDataAsync codecs compression).run stream = .ok (v, rest))
    (cut : Nat) (short : cut < stream.length - rest.length) :
    (decompressDataAsync codecs compression).run (stream.take cut) = .err (frameCutError cut) :=
  eofWhenCut_decompressDataAsync codecs compression stream v rest decoded cut short

/-- The frame of `[7]`, cut after its 25 bytes of checksum and header. -/
theorem decompressDataAsync_cut_frame_eof_payload :
    (decompressDataAsync identityCodecs .lz4).run (encodeFrame identityCodecs .lz4 [7] 1) =
        .ok ([7], []) ∧
      25 < (encodeFrame identityCodecs .lz4 [7] 1).length - ([] : List UInt8).length ∧
      (decompressDataAsync identityCodecs .lz4).run
          ((encodeFrame identityCodecs .lz4 [7] 1).take 25) =
        .err (.protocol "Failed to read compressed payload: early eof") :=
  have decoded : (decompressDataAsync identityCodecs .lz4).run
      (encodeFrame identityCodecs .lz4 [7] 1) = .ok ([7], []) := rfl
  ⟨decoded, by decide,
    (decompressDataAsync_cut_frame_eof identityCodecs .lz4 decoded 25 (by decide)).trans rfl⟩

/-! ### The decoder on the bytes of a header -/

/-- What `decompress_data_async` does once the checksum and the header are read and
checked: read the payload into `compressed[9..]`, write the header into `compressed[..9]`,
compare the checksums, and decompress. -/
def decodeBody (codecs : Codecs) (compression : CompressionMethod) (checksum : Nat)
    (typeByte : UInt8) (compressedSize decompressedSize : Nat) : Read (List UInt8) := do
  let payload ← readExact "Failed to read compressed payload" (compressedSize - 9)
  let compressed := typeByte :: (toLE compressedSize 4 ++ toLE decompressedSize 4 ++ payload)
  let calcChecksum := codecs.cityHash128 compressed
  check (calcChecksum = checksum) (.protocol ("Checksum mismatch: expected " ++
    hexPadded 32 checksum ++ ", got " ++ hexPadded 32 calcChecksum))
  StateT.lift (decompressPayload codecs payload decompressedSize compression)

theorem neverPanics_decodeBody (codecs : Codecs) (compression : CompressionMethod)
    (checksum : Nat) (typeByte : UInt8) (compressedSize decompressedSize : Nat) :
    NeverPanics (decodeBody codecs compression checksum typeByte compressedSize decompressedSize) :=
  (NeverPanics.readField _ _ _).bind fun _ => (NeverPanics.check _ _).bind fun _ =>
    NeverPanics.lift (decompressPayload_ne_panic codecs _ _ compression)

/-- A successful body read took the payload its size announces, matched the checksum over
the header and that payload, and decompressed it. -/
theorem decodeBody_eq_ok {codecs : Codecs} {compression : CompressionMethod} {checksum : Nat}
    {typeByte : UInt8} {compressedSize decompressedSize : Nat} {more v rest : List UInt8}
    (decoded : (decodeBody codecs compression checksum typeByte compressedSize
      decompressedSize).run more = .ok (v, rest)) :
    ∃ payload, more = payload ++ rest ∧ payload.length = compressedSize - 9 ∧
      codecs.cityHash128 (typeByte :: (toLE compressedSize 4 ++ toLE decompressedSize 4 ++ payload)) =
        checksum ∧
      decompressPayload codecs payload decompressedSize compression = .ok v := by
  rw [decodeBody, StateT.run_bind] at decoded
  obtain ⟨⟨payload, more'⟩, read, decoded⟩ := Outcome.bind_eq_ok.mp decoded
  simp only [readExact, readField, StateT.run] at read
  split at read
  · rename_i long
    cases read
    rw [StateT.run_bind, check_run] at decoded
    split at decoded
    · rename_i agrees
      rw [Outcome.ok_bind, lift_run] at decoded
      obtain ⟨w, decompressed, ranTail⟩ := Outcome.bind_eq_ok.mp decoded
      cases ranTail
      exact ⟨more.take (compressedSize - 9), (List.take_append_drop _ _).symm,
        List.length_take_of_le long, agrees, decompressed⟩
    · cases decoded
  · cases read

theorem readU32LE_append (what : String) {bytes : List UInt8} (sized : bytes.length = 4)
    (rest : List UInt8) : (readU32LE what).run (bytes ++ rest) = .ok (ofLE bytes, rest) := by
  simp [readU32LE, readField_append _ what sized rest]

theorem readU64LE_append (what : String) {bytes : List UInt8} (sized : bytes.length = 8)
    (rest : List UInt8) : (readU64LE what).run (bytes ++ rest) = .ok (ofLE bytes, rest) := by
  simp [readU64LE, readField_append _ what sized rest]

/-- **The decoder on a stream that starts with 25 bytes**: the method check, the range
check, the `compressed[9..]` slice that panics below 9, then the body. -/
theorem decompressDataAsync_header (codecs : Codecs) (compression : CompressionMethod)
    {high low compressedSize decompressedSize : List UInt8} (typeByte : UInt8)
    (more : List UInt8) (highSized : high.length = 8) (lowSized : low.length = 8)
    (csSized : compressedSize.length = 4) (dsSized : decompressedSize.length = 4) :
    (decompressDataAsync codecs compression).run
        (high ++ low ++ typeByte :: (compressedSize ++ decompressedSize ++ more)) =
      if typeByte = compression.byte then
        if ofLE compressedSize > 100000000 ∨ ofLE decompressedSize > 1000000000 then
          .err (.protocol "Chunk size too large")
        else if 9 ≤ ofLE compressedSize then
          (decodeBody codecs compression (ofLE high <<< 64 ||| ofLE low) typeByte
            (ofLE compressedSize) (ofLE decompressedSize)).run more
        else .panic
      else .err (.protocol ("Unexpected compression algorithm for " ++
        codecs.methodText compression ++ ": " ++ hexPadded 2 typeByte.toNat)) := by
  simp only [decompressDataAsync, StateT.run_bind, List.append_assoc, readU64LE_append _ highSized,
    readU64LE_append _ lowSized, readU8_cons, Outcome.ok_bind, check_run]
  by_cases method : typeByte = compression.byte
  · simp only [if_pos method, Outcome.ok_bind, readU32LE_append _ csSized,
      readU32LE_append _ dsSized, check_run]
    by_cases tooLarge : ofLE compressedSize > 100000000 ∨ ofLE decompressedSize > 1000000000
    · simp only [tooLarge, not_true_eq_false, if_false, if_true, Outcome.err_bind]
    · simp only [tooLarge, not_false_eq_true, if_true, if_false, Outcome.ok_bind, assert_run]
      by_cases large : 9 ≤ ofLE compressedSize
      · simp only [large, if_true, Outcome.ok_bind]
        rfl
      · simp only [large, if_false, Outcome.panic_bind]
  · simp only [if_neg method, Outcome.err_bind]

/-- The ways the decoder's run on a header can go: an error of the method or the range check,
or, both passed, the panic of `compressed[9..]` below 9 or the body. -/
theorem decompressDataAsync_header_cases (codecs : Codecs) (compression : CompressionMethod)
    {high low compressedSize decompressedSize : List UInt8} (typeByte : UInt8)
    (more : List UInt8) (highSized : high.length = 8) (lowSized : low.length = 8)
    (csSized : compressedSize.length = 4) (dsSized : decompressedSize.length = 4) :
    (∃ e, (decompressDataAsync codecs compression).run
        (high ++ low ++ typeByte :: (compressedSize ++ decompressedSize ++ more)) = .err e) ∨
      typeByte = compression.byte ∧ ofLE compressedSize ≤ 100000000 ∧
        ofLE decompressedSize ≤ 1000000000 ∧
        (ofLE compressedSize < 9 ∧ (decompressDataAsync codecs compression).run
            (high ++ low ++ typeByte :: (compressedSize ++ decompressedSize ++ more)) = .panic ∨
          9 ≤ ofLE compressedSize ∧ (decompressDataAsync codecs compression).run
            (high ++ low ++ typeByte :: (compressedSize ++ decompressedSize ++ more)) =
            (decodeBody codecs compression (ofLE high <<< 64 ||| ofLE low) typeByte
              (ofLE compressedSize) (ofLE decompressedSize)).run more) := by
  rw [decompressDataAsync_header codecs compression typeByte more highSized lowSized csSized
    dsSized]
  split_ifs with method tooLarge large
  · exact .inl ⟨_, rfl⟩
  · exact .inr ⟨method, by omega, by omega, .inr ⟨large, rfl⟩⟩
  · exact .inr ⟨method, by omega, by omega, .inl ⟨by omega, rfl⟩⟩
  · exact .inl ⟨_, rfl⟩

/-- A stream of at least 25 bytes starts with two 8-byte halves, a method byte and two
4-byte sizes. -/
theorem exists_header {stream : List UInt8} (long : 25 ≤ stream.length) :
    ∃ high low typeByte compressedSize decompressedSize more,
      stream = high ++ low ++ typeByte :: (compressedSize ++ decompressedSize ++ more) ∧
        high.length = 8 ∧ low.length = 8 ∧ compressedSize.length = 4 ∧ decompressedSize.length = 4 := by
  have split : ∀ (n : Nat) (s : List UInt8), n ≤ s.length → ∃ a b, s = a ++ b ∧ a.length = n :=
    fun n s le => ⟨s.take n, s.drop n, (List.take_append_drop n s).symm, List.length_take_of_le le⟩
  obtain ⟨high, s₁, rfl, highSized⟩ := split 8 stream (by omega)
  rw [List.length_append, highSized] at long
  obtain ⟨low, s₂, rfl, lowSized⟩ := split 8 s₁ (by omega)
  rw [List.length_append, lowSized] at long
  cases s₂ with
  | nil => simp at long
  | cons typeByte s₃ =>
    rw [List.length_cons] at long
    obtain ⟨compressedSize, s₄, rfl, csSized⟩ := split 4 s₃ (by omega)
    rw [List.length_append, csSized] at long
    obtain ⟨decompressedSize, more, rfl, dsSized⟩ := split 4 s₄ (by omega)
    exact ⟨high, low, typeByte, compressedSize, decompressedSize, more, by simp, highSized,
      lowSized, csSized, dsSized⟩

/-- The fields of a header `typeByte :: (compressedSize ++ decompressedSize)`. -/
theorem header_fields (typeByte : UInt8) {compressedSize : List UInt8}
    (decompressedSize : List UInt8) (csSized : compressedSize.length = 4) :
    ((typeByte :: (compressedSize ++ decompressedSize)).drop 1).take 4 = compressedSize ∧
      (typeByte :: (compressedSize ++ decompressedSize)).drop 5 = decompressedSize :=
  ⟨by rw [List.drop_one, List.tail_cons, List.take_left' csSized],
    by rw [List.drop_succ_cons, List.drop_left' csSized]⟩

/-! ### Where the decoder panics -/

/-- **The decoder panics exactly on a frame whose compressed size is below 9**: its method
byte and its sizes pass the checks, and `compressed`, of `compressed_size` bytes, is shorter
than the 9 bytes `&mut compressed[9..]` skips. -/
theorem decompressDataAsync_panics_iff (codecs : Codecs) (compression : CompressionMethod)
    (stream : List UInt8) :
    (decompressDataAsync codecs compression).run stream = .panic ↔
      ∃ checksum header rest, stream = checksum ++ header ++ rest ∧ checksum.length = 16 ∧
        header.length = 9 ∧ header.head? = some compression.byte ∧
        ofLE ((header.drop 1).take 4) < 9 ∧ ofLE (header.drop 5) ≤ 1000000000 := by
  constructor
  · intro panicked
    obtain ⟨high, low, typeByte, cs, ds, more, rfl, highSized, lowSized, csSized, dsSized⟩ :=
      exists_header (panicsAfter_decompressDataAsync codecs compression _ panicked)
    obtain ⟨csField, dsField⟩ := header_fields typeByte ds csSized
    rcases decompressDataAsync_header_cases codecs compression typeByte more highSized lowSized
      csSized dsSized with ⟨e, errs⟩ | ⟨method, -, dsFits, ⟨small, -⟩ | ⟨-, body⟩⟩
    · rw [errs] at panicked
      cases panicked
    · exact ⟨high ++ low, typeByte :: (cs ++ ds), more, by simp, by simp [highSized, lowSized],
        by simp [csSized, dsSized], by rw [method]; rfl, by rwa [csField], by rwa [dsField]⟩
    · rw [body] at panicked
      exact absurd panicked (neverPanics_decodeBody codecs compression _ _ _ _ more)
  · rintro ⟨checksum, header, rest, rfl, sixteen, nine, method, small, dsFits⟩
    cases header with
    | nil => cases nine
    | cons typeByte sizes =>
      rw [List.length_cons] at nine
      have csSized : (sizes.take 4).length = 4 := List.length_take_of_le (by omega)
      have dsSized : (sizes.drop 4).length = 4 := by rw [List.length_drop]; omega
      have highSized : (checksum.take 8).length = 8 := List.length_take_of_le (by omega)
      have lowSized : (checksum.drop 8).length = 8 := by rw [List.length_drop]; omega
      obtain ⟨csField, dsField⟩ := header_fields typeByte (sizes.drop 4) csSized
      rw [List.take_append_drop] at csField dsField
      rw [List.head?_cons, Option.some.injEq] at method
      rw [csField] at small
      rw [dsField] at dsFits
      have whole : checksum ++ typeByte :: sizes ++ rest = checksum.take 8 ++ checksum.drop 8 ++
          typeByte :: (sizes.take 4 ++ sizes.drop 4 ++ rest) := by
        simp only [List.take_append_drop, List.append_assoc, List.cons_append]
      rw [whole, decompressDataAsync_header codecs compression typeByte rest highSized lowSized
        csSized dsSized, if_pos method, if_neg (by omega), if_neg (by omega)]

/-- An LZ4 frame whose header gives a compressed size of 0 and a decompressed size of 0,
under any checksum and followed by any bytes: the decoder panics rather than failing. -/
theorem decompressDataAsync_compressed_size_below_nine (codecs : Codecs) (rest : List UInt8) :
    (decompressDataAsync codecs .lz4).run
      (List.replicate 16 0 ++ [0x82, 0, 0, 0, 0, 0, 0, 0, 0] ++ rest) = .panic :=
  (decompressDataAsync_panics_iff codecs .lz4 _).mpr
    ⟨_, _, rest, rfl, rfl, rfl, rfl, by decide, by decide⟩

/-! ### What a successful read has checked -/

/-- **What a successful read has checked**, on the bytes it took: 16 bytes of checksum, then
a block of `compressed_size` bytes whose first byte is the method's, whose size field gives
the block's own length, between 9 and `100_000_000`, and whose decompressed size is at most
`1_000_000_000`.  The checksum, high `u64` first, is the CityHash-128 of exactly that block,
header bytes as they were on the wire, and the value is the codec's decoding of the rest of
the block at the decompressed size. -/
theorem decompressDataAsync_checked (codecs : Codecs) (compression : CompressionMethod)
    {stream v rest : List UInt8}
    (decoded : (decompressDataAsync codecs compression).run stream = .ok (v, rest)) :
    ∃ checksum block, stream = checksum ++ block ++ rest ∧ checksum.length = 16 ∧
      block.head? = some compression.byte ∧ ofLE ((block.drop 1).take 4) = block.length ∧
      9 ≤ block.length ∧ block.length ≤ 100000000 ∧ ofLE ((block.drop 5).take 4) ≤ 1000000000 ∧
      ofLE (checksum.take 8) <<< 64 ||| ofLE (checksum.drop 8) = codecs.cityHash128 block ∧
      decompressPayload codecs (block.drop 9) (ofLE ((block.drop 5).take 4)) compression =
        .ok v := by
  obtain ⟨consumed, whole, long, -⟩ :=
    reads_decompressDataAsync codecs compression stream v rest decoded
  obtain ⟨high, low, typeByte, cs, ds, more, rfl, highSized, lowSized, csSized, dsSized⟩ :=
    exists_header (show 25 ≤ stream.length by rw [whole, List.length_append]; omega)
  rcases decompressDataAsync_header_cases codecs compression typeByte more highSized lowSized
    csSized dsSized with ⟨e, errs⟩ | ⟨method, csFits, dsFits, ⟨-, panics⟩ | ⟨large, body⟩⟩
  · rw [errs] at decoded
    cases decoded
  · rw [panics] at decoded
    cases decoded
  rw [body] at decoded
  obtain ⟨payload, rfl, payloadSized, agrees, decompressed⟩ := decodeBody_eq_ok decoded
  have csBytes : toLE (ofLE cs) 4 = cs := csSized ▸ toLE_ofLE cs
  have dsBytes : toLE (ofLE ds) 4 = ds := dsSized ▸ toLE_ofLE ds
  rw [csBytes, dsBytes] at agrees
  have afterCs : (cs ++ ds ++ payload).take 4 = cs := by
    rw [List.append_assoc, List.take_left' csSized]
  have afterDs : ((cs ++ ds ++ payload).drop 4).take 4 = ds := by
    rw [List.append_assoc, List.drop_left' csSized, List.take_left' dsSized]
  have afterHeader : (cs ++ ds ++ payload).drop 8 = payload := by
    rw [List.drop_left' (by simp [csSized, dsSized])]
  have blockLength : (typeByte :: (cs ++ ds ++ payload)).length = ofLE cs := by
    simp only [List.length_cons, List.length_append, csSized, dsSized, payloadSized]
    omega
  refine ⟨high ++ low, typeByte :: (cs ++ ds ++ payload), by simp, by simp [highSized, lowSized],
    by rw [method]; rfl, by rw [List.drop_one, List.tail_cons, afterCs, blockLength],
    blockLength ▸ large, blockLength ▸ csFits, by rwa [List.drop_succ_cons, afterDs], ?_, ?_⟩
  · rw [List.take_left' highSized, List.drop_left' highSized, agrees]
  · rw [List.drop_succ_cons, afterHeader, List.drop_succ_cons, afterDs]
    exact decompressed

/-! ### A tampered checksum -/

/-- The bytes of `frame` with `mask` XOR-ed into its first 16, the checksum field. -/
def tamperChecksum (mask frame : List UInt8) : List UInt8 :=
  List.zipWith (· ^^^ ·) mask (frame.take 16) ++ frame.drop 16

/-- A byte XOR-ed into another leaves it unchanged only if it is zero. -/
theorem UInt8.eq_zero_of_xor_eq_self {b x : UInt8} (same : b ^^^ x = x) : b = 0 := by
  apply UInt8.eq_of_toBitVec_eq
  have bits : b.toBitVec ^^^ x.toBitVec = x.toBitVec := UInt8.toBitVec_eq_of_eq same
  calc b.toBitVec = b.toBitVec ^^^ x.toBitVec ^^^ x.toBitVec := by
        rw [BitVec.xor_assoc, BitVec.xor_self, BitVec.xor_zero]
    _ = (0 : UInt8).toBitVec := by rw [bits, BitVec.xor_self]; rfl

/-- A mask XOR-ed into bytes leaves them unchanged only if it is zero. -/
theorem zipWith_xor_eq_self : ∀ {mask bytes : List UInt8}, mask.length = bytes.length →
    List.zipWith (· ^^^ ·) mask bytes = bytes → mask = List.replicate mask.length 0
  | [], [], _, _ => rfl
  | m :: mask, b :: bytes, sized, same => by
    rw [List.zipWith_cons_cons, List.cons.injEq] at same
    rw [UInt8.eq_zero_of_xor_eq_self same.1, zipWith_xor_eq_self (by simpa using sized) same.2,
      List.length_cons, List.length_replicate, List.replicate_succ]
  | [], _ :: _, sized, _ => by cases sized
  | _ :: _, [], sized, _ => by cases sized

/-- The checksum the decoder reads from 16 bytes, high half first, determines the bytes. -/
theorem checksum_bytes_inj {a b : List UInt8} (aSized : a.length = 16) (bSized : b.length = 16)
    (same : ofLE (a.take 8) <<< 64 ||| ofLE (a.drop 8) = ofLE (b.take 8) <<< 64 ||| ofLE (b.drop 8)) :
    a = b := by
  have halves : ∀ c : List UInt8, c.length = 16 → ofLE (c.drop 8) < 2 ^ 64 ∧
      ofLE (c.take 8) <<< 64 ||| ofLE (c.drop 8) = 2 ^ 64 * ofLE (c.take 8) + ofLE (c.drop 8) := by
    intro c sized
    have low : ofLE (c.drop 8) < 2 ^ 64 := by
      have := ofLE_lt (c.drop 8)
      rwa [List.length_drop, sized] at this
    exact ⟨low, by rw [Nat.shiftLeft_eq, Nat.lor_comm, Nat.mul_comm, or_two_pow_mul_of_lt _ low]⟩
  obtain ⟨aLow, aValue⟩ := halves a aSized
  obtain ⟨bLow, bValue⟩ := halves b bSized
  rw [aValue, bValue] at same
  have high : ofLE (a.take 8) = ofLE (b.take 8) := by omega
  have low : ofLE (a.drop 8) = ofLE (b.drop 8) := by omega
  rw [← List.take_append_drop 8 a, ← List.take_append_drop 8 b,
    ofLE_inj high (by simp [aSized, bSized]), ofLE_inj low (by simp [aSized, bSized])]

/-- Tampering touches the 16 checksum bytes in front of a frame and nothing after them. -/
theorem tamperChecksum_append (mask : List UInt8) {checksum : List UInt8}
    (sized : checksum.length = 16) (body : List UInt8) :
    tamperChecksum mask (checksum ++ body) = List.zipWith (· ^^^ ·) mask checksum ++ body := by
  rw [tamperChecksum, List.take_left' sized, List.drop_left' sized]

/-- **A tampered checksum is rejected**: XOR-ing a nonzero 16-byte mask into the checksum of a
frame whose compressed size `|out| + 9` fits its `u32` field makes the decoder fail with an
error, whatever follows the frame. -/
theorem tamperChecksum_rejected (codecs : Codecs) (compression : CompressionMethod)
    (out : List UInt8) (decompressedSize : Nat) (fits : out.length + 9 < 2 ^ 32)
    {mask : List UInt8} (sized : mask.length = 16) (nonzero : mask ≠ List.replicate 16 0)
    (rest : List UInt8) :
    ∃ e, (decompressDataAsync codecs compression).run
      (tamperChecksum mask (encodeFrame codecs compression out decompressedSize) ++ rest) =
        .err e := by
  have compressedSize : (out.length % 2 ^ 32 + 9) % 2 ^ 32 = out.length + 9 := by omega
  obtain ⟨hash, hashDef⟩ : ∃ hash, codecs.cityHash128 (compression.byte ::
      (toLE (out.length + 9) 4 ++ toLE (decompressedSize % 2 ^ 32) 4 ++ out)) = hash := ⟨_, rfl⟩
  obtain ⟨checksum, checksumDef⟩ :
      ∃ checksum, toLE ((hash >>> 64) % 2 ^ 64) 8 ++ toLE (hash % 2 ^ 64) 8 = checksum := ⟨_, rfl⟩
  have checksumSized : checksum.length = 16 := by rw [← checksumDef]; simp
  have hashValue : ofLE (checksum.take 8) <<< 64 ||| ofLE (checksum.drop 8) = hash := by
    rw [← checksumDef, List.take_left' (length_toLE _ 8), List.drop_left' (length_toLE _ 8),
      ofLE_toLE, ofLE_toLE]
    exact checksum_halves (hashDef ▸ codecs.cityHash128_lt _)
  obtain ⟨tampered, tamperedDef⟩ : ∃ t, List.zipWith (· ^^^ ·) mask checksum = t := ⟨_, rfl⟩
  have tamperedSized : tampered.length = 16 := by
    rw [← tamperedDef, List.length_zipWith, sized, checksumSized]; rfl
  have differs : ofLE (tampered.take 8) <<< 64 ||| ofLE (tampered.drop 8) ≠ hash := fun same =>
    nonzero (sized ▸ zipWith_xor_eq_self (sized.trans checksumSized.symm)
      (tamperedDef.trans (checksum_bytes_inj tamperedSized checksumSized (same.trans hashValue.symm))))
  have stream : tamperChecksum mask (encodeFrame codecs compression out decompressedSize) ++ rest =
      tampered.take 8 ++ tampered.drop 8 ++ compression.byte ::
        (toLE (out.length + 9) 4 ++ toLE (decompressedSize % 2 ^ 32) 4 ++ (out ++ rest)) := by
    simp only [encodeFrame, frameBody, compressedSize, hashDef, checksumDef]
    rw [tamperChecksum_append mask checksumSized, tamperedDef, List.take_append_drop]
    simp only [List.append_assoc, List.cons_append]
  have csValue : ofLE (toLE (out.length + 9) 4) = out.length + 9 := by rw [ofLE_toLE]; omega
  have dsValue : ofLE (toLE (decompressedSize % 2 ^ 32) 4) = decompressedSize % 2 ^ 32 := by
    rw [ofLE_toLE]; omega
  rw [stream, decompressDataAsync_header codecs compression _ _ (List.length_take_of_le (by omega))
    (by rw [List.length_drop]; omega) (length_toLE _ 4) (length_toLE _ 4), if_pos rfl, csValue,
    dsValue]
  split_ifs with tooLarge large
  · exact ⟨_, rfl⟩
  · rw [decodeBody, StateT.run_bind, readExact,
      readField_append _ _ (show out.length = out.length + 9 - 9 by omega), Outcome.ok_bind]
    simp only [StateT.run_bind, check_run, hashDef, if_neg (Ne.symm differs), Outcome.err_bind]
    exact ⟨_, rfl⟩
  · omega

/-! ### Every frame the decoder accepts is a frame the writers write -/

/-- The 16 checksum bytes a writer puts in front of a block read back, high half first, as
the block's hash. -/
theorem checksum_of_encoded (codecs : Codecs) (block : List UInt8) :
    ofLE ((toLE ((codecs.cityHash128 block >>> 64) % 2 ^ 64) 8 ++
        toLE (codecs.cityHash128 block % 2 ^ 64) 8).take 8) <<< 64 |||
      ofLE ((toLE ((codecs.cityHash128 block >>> 64) % 2 ^ 64) 8 ++
        toLE (codecs.cityHash128 block % 2 ^ 64) 8).drop 8) = codecs.cityHash128 block := by
  rw [List.take_left' (length_toLE _ 8), List.drop_left' (length_toLE _ 8), ofLE_toLE, ofLE_toLE]
  exact checksum_halves (codecs.cityHash128_lt _)

/-- A block with the method's byte and a size field giving its own length is the body a
writer builds for the rest of the block at the decompressed size its header gives. -/
theorem frameBody_of_header {compression : CompressionMethod} {block : List UInt8}
    (method : block.head? = some compression.byte)
    (csValue : ofLE ((block.drop 1).take 4) = block.length) (long : 9 ≤ block.length)
    (fits : block.length < 2 ^ 32) :
    frameBody compression (block.drop 9) (ofLE ((block.drop 5).take 4)) = block := by
  obtain ⟨b, tail, rfl⟩ : ∃ b tail, block = b :: tail := by
    cases block with
    | nil => cases method
    | cons b tail => exact ⟨b, tail, rfl⟩
  obtain rfl : b = compression.byte := Option.some.inj method
  simp only [List.drop_succ_cons, List.drop_zero, List.length_cons] at csValue long fits ⊢
  have csSized : (tail.take 4).length = 4 := List.length_take_of_le (by omega)
  have dsSized : ((tail.drop 4).take 4).length = 4 := List.length_take_of_le (by simp; omega)
  have csBytes : toLE (((tail.drop 8).length % 2 ^ 32 + 9) % 2 ^ 32) 4 = tail.take 4 := by
    have bytes := toLE_ofLE (tail.take 4)
    rw [csSized, csValue] at bytes
    rwa [List.length_drop, show ((tail.length - 8) % 2 ^ 32 + 9) % 2 ^ 32 = tail.length + 1 by omega]
  have dsBytes : toLE (ofLE ((tail.drop 4).take 4) % 2 ^ 32) 4 = (tail.drop 4).take 4 := by
    have small := ofLE_lt ((tail.drop 4).take 4)
    have bytes := toLE_ofLE ((tail.drop 4).take 4)
    rw [dsSized] at small bytes
    rwa [Nat.mod_eq_of_lt small]
  rw [frameBody, csBytes, dsBytes, List.append_assoc,
    show tail.drop 8 = (tail.drop 4).drop 4 by rw [List.drop_drop], List.take_append_drop,
    List.take_append_drop]

/-- **Only written frames are accepted.**  Every frame the decoder accepts is, byte for byte,
the frame `compress_data` writes for a codec output: the one its payload and its
decompressed size give, within the decoder's size limits, and its value is the codec's
decoding of that payload.  No two byte strings decode as the same frame. -/
theorem decompressDataAsync_frame_encoded (codecs : Codecs) (compression : CompressionMethod)
    {stream v rest : List UInt8}
    (decoded : (decompressDataAsync codecs compression).run stream = .ok (v, rest)) :
    ∃ payload decompressedSize,
      stream = encodeFrame codecs compression payload decompressedSize ++ rest ∧
        payload.length + 9 ≤ 100000000 ∧ decompressedSize ≤ 1000000000 ∧
        decompressPayload codecs payload decompressedSize compression = .ok v := by
  obtain ⟨checksum, block, rfl, checksumSized, method, csValue, long, fits, dsFits, agrees,
    decompressed⟩ := decompressDataAsync_checked codecs compression decoded
  refine ⟨block.drop 9, ofLE ((block.drop 5).take 4), ?_, by rw [List.length_drop]; omega,
    dsFits, decompressed⟩
  have written := checksum_bytes_inj checksumSized (by simp)
    (agrees.trans (checksum_of_encoded codecs block).symm)
  rw [encodeFrame, frameBody_of_header method csValue long (by omega), written]

theorem decompressDataAsync_frame_encoded_identity :
    (decompressDataAsync identityCodecs .lz4).run (encodeFrame identityCodecs .lz4 [7] 1) =
        .ok ([7], []) ∧
      ∃ payload decompressedSize, encodeFrame identityCodecs .lz4 [7] 1 =
          encodeFrame identityCodecs .lz4 payload decompressedSize ++ [] ∧
        payload.length + 9 ≤ 100000000 ∧ decompressedSize ≤ 1000000000 ∧
        decompressPayload identityCodecs payload decompressedSize .lz4 = .ok [7] :=
  have decoded : (decompressDataAsync identityCodecs .lz4).run
      (encodeFrame identityCodecs .lz4 [7] 1) = .ok ([7], []) := rfl
  ⟨decoded, decompressDataAsync_frame_encoded identityCodecs .lz4 decoded⟩

/-! ### The decoder's integrity, and the frames of the writers -/

/-- **Decoder integrity.**  A successful read has checked the method byte, the ranges of both
sizes, and the checksum, high half first, against the CityHash-128 of exactly the block it
took, header as on the wire; its value is the codec's decoding of the block's payload.  And
for each of the three writers, a call that returns `Ok` with a codec output `out` has
written one frame, and if its compressed size `|out| + 9` fits its `u32` field, XOR-ing any
nonzero 16-byte mask into that frame's checksum makes the decoder fail with an error. -/
theorem decompressDataAsync_integrity (codecs : Codecs) (compression : CompressionMethod) :
    (∀ stream v rest, (decompressDataAsync codecs compression).run stream = .ok (v, rest) →
      ∃ checksum block, stream = checksum ++ block ++ rest ∧ checksum.length = 16 ∧
        block.head? = some compression.byte ∧ ofLE ((block.drop 1).take 4) = block.length ∧
        9 ≤ block.length ∧ block.length ≤ 100000000 ∧ ofLE ((block.drop 5).take 4) ≤ 1000000000 ∧
        ofLE (checksum.take 8) <<< 64 ||| ofLE (checksum.drop 8) = codecs.cityHash128 block ∧
        decompressPayload codecs (block.drop 9) (ofLE ((block.drop 5).take 4)) compression =
          .ok v) ∧
    ∀ {σ : Type} (writer : Writer σ),
      ∀ compress ∈ [@compressData σ, @compressDataSync σ, @compressDataPooled σ],
      ∀ (raw out : List UInt8) (s s' : σ), compressPayload codecs raw compression = .ok (some out) →
        compress codecs writer s raw compression = .ok s' →
        ∃ frame, writer.written s' = writer.written s ++ frame ∧
          (out.length + 9 < 2 ^ 32 → ∀ mask, mask.length = 16 → mask ≠ List.replicate 16 0 →
            ∀ rest, ∃ e, (decompressDataAsync codecs compression).run
              (tamperChecksum mask frame ++ rest) = .err e) := by
  refine ⟨fun _ _ _ decoded => decompressDataAsync_checked codecs compression decoded,
    fun writer compress member raw out s s' compressed wrote => ⟨_, ?_,
      fun fits _ sized nonzero => tamperChecksum_rejected codecs compression out raw.length fits
        sized nonzero⟩⟩
  simp only [List.mem_cons, List.mem_singleton, List.not_mem_nil, or_false] at member
  rcases member with rfl | rfl | rfl <;> exact compressFrame_written codecs writer compressed wrote

/-- Codecs whose LZ4 drops the zero bytes the payload starts with and puts them back from the
decompressed size; the checksum is always zero. -/
def zeroRunCodecs : Codecs where
  lz4Compress raw := raw.dropWhile (· == 0)
  lz4Decompress out size := .ok (List.replicate (size - out.length) 0 ++ out)
  zstdCompress raw := .ok raw
  zstdDecompress out _ := .ok out
  cityHash128 _ := 0
  cityHash128_lt _ := by norm_num
  methodText _ := ""

theorem zeroRunCodecs_roundTrip : zeroRunCodecs.RoundTrip where
  lz4 raw := by
    have whole := List.takeWhile_append_dropWhile (· == (0 : UInt8)) raw
    have zeros : raw.takeWhile (· == 0) = List.replicate (raw.takeWhile (· == 0)).length 0 :=
      List.eq_replicate_of_mem fun b member => by simpa using List.mem_takeWhile_imp member
    have count : raw.length - (raw.dropWhile (· == 0)).length = (raw.takeWhile (· == 0)).length := by
      rw [← congrArg List.length whole, List.length_append]; omega
    show Except.ok (List.replicate (raw.length - (raw.dropWhile (· == 0)).length) 0 ++
      raw.dropWhile (· == 0)) = .ok raw
    rw [count, ← zeros, whole]
  zstd _ _ compressed := by cases compressed; rfl

/-- **A frame whose compressed size wraps below 9**: a payload of 9 zero bytes and
`2 ^ 32 - 9` bytes of 1 compresses to the `2 ^ 32 - 9` bytes of 1, so its compressed size
`(2 ^ 32 - 9) as u32 + 9` wraps to 0, and its decompressed size `2 ^ 32 as u32` to 0.
The codecs pass the round trip; `compress_data` writes the frame, and with a mask XOR-ed into
its checksum the decoder panics rather than failing, as it does on the frame itself. -/
theorem compressData_tampered_panics :
    zeroRunCodecs.RoundTrip ∧ ∃ frame, compressData zeroRunCodecs vecWriter []
        (List.replicate 9 0 ++ List.replicate (2 ^ 32 - 9) 1) .lz4 = .ok frame ∧
      (decompressDataAsync zeroRunCodecs .lz4).run
        (tamperChecksum (1 :: List.replicate 15 0) frame) = .panic := by
  have stripped : (List.replicate 9 (0 : UInt8) ++ List.replicate (2 ^ 32 - 9) 1).dropWhile
      (· == 0) = List.replicate (2 ^ 32 - 9) 1 := by
    rw [List.dropWhile_append_of_pos (fun a member => by simp [List.eq_of_mem_replicate member]),
      show List.replicate (2 ^ 32 - 9) (1 : UInt8) = 1 :: List.replicate (2 ^ 32 - 10) 1 from
        List.replicate_succ 1 _]
    exact List.dropWhile_cons_of_neg (by decide)
  have compressed : compressPayload zeroRunCodecs
      (List.replicate 9 0 ++ List.replicate (2 ^ 32 - 9) 1) .lz4 =
        .ok (some (List.replicate (2 ^ 32 - 9) 1)) := by
    rw [compressPayload]
    exact congrArg (fun out => Except.ok (some out)) stripped
  have compressedSize :
      ((List.replicate (2 ^ 32 - 9) (1 : UInt8)).length % 2 ^ 32 + 9) % 2 ^ 32 = 0 := by
    rw [List.length_replicate]; norm_num
  have decompressedSize :
      (List.replicate 9 (0 : UInt8) ++ List.replicate (2 ^ 32 - 9) 1).length % 2 ^ 32 = 0 := by
    rw [List.length_append, List.length_replicate, List.length_replicate]; norm_num
  refine ⟨zeroRunCodecs_roundTrip, _, compressFrame_vecWriter zeroRunCodecs [] compressed, ?_⟩
  rw [List.nil_append, encodeFrame, tamperChecksum_append _
    (by rw [List.length_append, length_toLE, length_toLE]), frameBody, compressedSize,
    decompressedSize]
  exact (decompressDataAsync_panics_iff zeroRunCodecs .lz4 _).mpr ⟨1 :: List.replicate 15 0,
    [0x82, 0, 0, 0, 0, 0, 0, 0, 0], List.replicate (2 ^ 32 - 9) 1, rfl, rfl, rfl, rfl, by decide,
    by decide⟩

end ClickHouseArrow.Compression
