import ClickHouseArrow.Compression.Frame

/-!
# The streaming decompressor (compression.rs)

`DecompressionReader` turns a stream of frames into the stream of their payloads.
`DecompressionReader::new` decodes the first frame; each `poll_read` serves bytes of the
current payload, and once they run out, moves the inner reader into a future that decodes
the next frame, and polls it.  A payload that is empty sends it straight on to the next
frame; a frame that fails to decode ends the stream with an error, after which the reader
has no inner reader left and reports end of file.

## Main Definitions

* `DecompressionReader`, `DecompressionReader.new` — the reader's fields, and the reader
  `new` builds.
* `pollFuture`, `pollRead` — one `poll_read`, under a schedule saying at which of its polls
  the block-reading future is `Pending`.
* `readCalls`, `delivered` — a run of `poll_read` calls and the bytes it puts into the
  buffers.
* `streamOutput`, `undelivered` — what the frames on a stream decode to, and what a reader
  has yet to deliver.

## Main results

* `pollRead_step` — one call keeps the reader's invariant, and what it delivers is the
  front of what the reader had yet to deliver; a `Ready(Ok)` that delivers nothing, an
  error and a panic come only once nothing is left to deliver.
* `readCalls_delivers` — the run lemma: over any run, the delivered bytes are a prefix of
  what the reader had to deliver, and every `Ready(Ok)` before its end fills a byte.
* `decompressionReader_delivers` — the same from `new` on a stream of frames the decoder
  accepts.

## Design Notes

The future `decompress_data_async(inner, mode)` is modelled by the stream it reads: when it
completes, its result is the decoder's on that stream (`Compression.Frame`).  Where a
`Pending` falls inside it changes neither the bytes it takes nor its result, since tokio's
reads keep what they have read across a `Pending`; so a schedule (`true` for `Pending`)
says, poll by poll, whether the future completes, and once the schedule is used up every
poll completes.  `poll_read`'s tail call `self.poll_read(cx, buf)` is a recursion, on the
length of the stream the reader still holds.  A panic, inside the future or of the `usize`
subtraction `self.decompressed.len() - self.position`, is `none`.
-/

namespace ClickHouseArrow.Compression

/-- `DecompressionReader`: the inner reader is the stream it still holds, and the block
reading future the stream it has handed over. -/
structure DecompressionReader where
  mode : CompressionMethod
  inner : Option (List UInt8)
  decompressed : List UInt8
  position : Nat
  blockReadingFuture : Option (List UInt8)

namespace DecompressionReader

/-- `DecompressionReader::new(mode, inner)`: decode the first frame at once. -/
def new (codecs : Codecs) (mode : CompressionMethod) (inner : List UInt8) :
    Outcome DecompressionReader := do
  let (decompressed, inner) ← (decompressDataAsync codecs mode).run inner
  pure { mode, inner := some inner, decompressed, position := 0, blockReadingFuture := none }

/-- How far a reader is from the end of its source, counted so that handing the inner
reader to a new future is progress. -/
def measure (reader : DecompressionReader) : Nat :=
  match reader.blockReadingFuture, reader.inner with
  | some stream, _ => 2 * stream.length + 1
  | none, some inner => 2 * inner.length + 2
  | none, none => 0

end DecompressionReader

/-- What a `poll_read` returns: `Pending`, `Ready(Ok(()))` having put `filled` into the
buffer, or `Ready(Err(io::Error::new(InvalidData, e)))`. -/
inductive ReadPoll where
  | pending
  | ready (filled : List UInt8)
  | failed (e : Error)

/-- What polling the block-reading future leaves `poll_read` with. -/
inductive FuturePoll where
  | pending
  | failed (e : Error)
  | panicked
  | resumed (reader : DecompressionReader)

/-- The decoder's run on a stream shortens it. -/
theorem length_lt_of_decompress {codecs : Codecs} {mode : CompressionMethod}
    {stream decoded rest : List UInt8}
    (ran : (decompressDataAsync codecs mode).run stream = .ok (decoded, rest)) :
    rest.length < stream.length := by
  obtain ⟨consumed, rfl, long, -⟩ := reads_decompressDataAsync codecs mode stream decoded rest ran
  rw [List.length_append]
  omega

/-- `if let Some(future) = self.block_reading_future.as_mut()`: poll the future, if there is
one, under the schedule; when it completes with a payload, the reader takes it and the
inner reader back. -/
def pollFuture (codecs : Codecs) (reader : DecompressionReader) (sched : List Bool) :
    FuturePoll × List Bool :=
  match reader.blockReadingFuture with
  | none => (.resumed reader, sched)
  | some stream =>
    match sched with
    | true :: sched => (.pending, sched)
    | sched =>
      match (decompressDataAsync codecs reader.mode).run stream with
      | .ok (value, inner) =>
        (.resumed { reader with
            blockReadingFuture := none, decompressed := value, position := 0, inner := some inner },
          sched.tail)
      | .err e => (.failed e, sched.tail)
      | .panic => (.panicked, sched.tail)

/-- A reader the future's poll resumes holds, if anything, a shorter stream than the reader
that was polled. -/
theorem pollFuture_resumed_measure {codecs : Codecs} {reader reader' : DecompressionReader}
    {sched sched' : List Bool} (polled : pollFuture codecs reader sched = (.resumed reader', sched'))
    {inner : List UInt8} (holds : reader'.inner = some inner) :
    2 * inner.length + 1 < reader.measure := by
  unfold pollFuture at polled
  split at polled
  · rename_i none
    cases polled
    simp [DecompressionReader.measure, none, holds]
  · rename_i stream some
    split at polled
    · cases polled
    · split at polled
      · rename_i value rest ran
        cases polled
        cases holds
        have := length_lt_of_decompress ran
        simp only [DecompressionReader.measure, some]
        omega
      · cases polled
      · cases polled

/-- `poll_read(cx, buf)` with `cap` bytes of room in `buf`, under the schedule `sched`. -/
def pollRead (codecs : Codecs) (cap : Nat) (reader : DecompressionReader) (sched : List Bool) :
    Option (ReadPoll × DecompressionReader × List Bool) :=
  if cap = 0 then some (.ready [], reader, sched)
  else
    match _polled : pollFuture codecs reader sched with
    | (.pending, sched) => some (.pending, reader, sched)
    | (.failed e, sched) => some (.failed e, { reader with blockReadingFuture := none }, sched)
    | (.panicked, _) => none
    | (.resumed reader', sched) =>
      -- `self.decompressed.len() - self.position` panics on underflow in a debug build; in a
      -- release build it wraps, and the slice `[self.position..]` then panics
      if reader'.decompressed.length < reader'.position then none
      else
      let available := reader'.decompressed.length - reader'.position
      if 0 < available then
        let toServe := min available cap
        some (.ready ((reader'.decompressed.drop reader'.position).take toServe),
          { reader' with position := reader'.position + toServe }, sched)
      else
        match _holds : reader'.inner with
        | some inner =>
          pollRead codecs cap { reader' with inner := none, blockReadingFuture := some inner } sched
        | none => some (.ready [], reader', sched)
termination_by reader.measure
decreasing_by
  simp only [DecompressionReader.measure]
  exact pollFuture_resumed_measure _polled _holds

/-! ### What a reader has yet to deliver -/

/-- **What the frames on a stream decode to**, one after another, up to the first that
fails to decode. -/
def streamOutput (codecs : Codecs) (mode : CompressionMethod) (stream : List UInt8) :
    List UInt8 :=
  match _ran : (decompressDataAsync codecs mode).run stream with
  | .ok (decoded, rest) => decoded ++ streamOutput codecs mode rest
  | .err _ | .panic => []
termination_by stream.length
decreasing_by exact length_lt_of_decompress _ran

theorem streamOutput_of_ok {codecs : Codecs} {mode : CompressionMethod}
    {stream decoded rest : List UInt8}
    (ran : (decompressDataAsync codecs mode).run stream = .ok (decoded, rest)) :
    streamOutput codecs mode stream = decoded ++ streamOutput codecs mode rest := by
  rw [streamOutput]
  split <;> simp_all

theorem streamOutput_of_err {codecs : Codecs} {mode : CompressionMethod} {stream : List UInt8}
    {e : Error} (ran : (decompressDataAsync codecs mode).run stream = .err e) :
    streamOutput codecs mode stream = [] := by
  rw [streamOutput]
  split <;> simp_all

/-- An empty stream holds no frame. -/
@[simp] theorem streamOutput_nil (codecs : Codecs) (mode : CompressionMethod) :
    streamOutput codecs mode [] = [] :=
  streamOutput_of_err (rfl : (decompressDataAsync codecs mode).run [] =
    .err (.protocol ("Failed to read checksum high: " ++ IoErrorKind.unexpectedEof.text)))

/-- **What a reader has yet to deliver**: the rest of its payload, then what the frames of
the stream its future or its inner reader holds decode to. -/
def undelivered (codecs : Codecs) (reader : DecompressionReader) : List UInt8 :=
  reader.decompressed.drop reader.position ++
    match reader.blockReadingFuture, reader.inner with
    | some stream, _ => streamOutput codecs reader.mode stream
    | none, some inner => streamOutput codecs reader.mode inner
    | none, none => []

/-- **The reader's invariant**: a future is only started once the payload has run out, and
it holds the inner reader. -/
structure Valid (reader : DecompressionReader) : Prop where
  handed_over : ∀ stream, reader.blockReadingFuture = some stream →
    reader.inner = none ∧ reader.decompressed.length ≤ reader.position

/-- A reader with no future keeps the invariant. -/
theorem valid_of_idle {reader : DecompressionReader} (idle : reader.blockReadingFuture = none) :
    Valid reader :=
  ⟨fun _ future => by rw [idle] at future; cases future⟩

/-! ### One `poll_read` -/

section Step

variable {codecs : Codecs} {reader reader' : DecompressionReader} {sched sched' : List Bool}

/-- The payload of a reader whose future is running has been served. -/
theorem drop_eq_nil_of_future (valid : Valid reader) {stream : List UInt8}
    (future : reader.blockReadingFuture = some stream) :
    reader.decompressed.drop reader.position = [] :=
  List.drop_eq_nil_of_le (valid.handed_over stream future).2

/-- **A future that fails** leaves nothing undelivered: the frame it reads would have been
the next thing to deliver. -/
theorem pollFuture_failed (valid : Valid reader) {e : Error}
    (polled : pollFuture codecs reader sched = (.failed e, sched')) :
    undelivered codecs reader = [] ∧ reader.inner = none := by
  unfold pollFuture at polled
  split at polled
  · cases polled
  · rename_i stream future
    have served := drop_eq_nil_of_future valid future
    split at polled
    · cases polled
    · split at polled
      · cases polled
      · rename_i e' ran
        refine ⟨?_, (valid.handed_over stream future).1⟩
        simp [undelivered, served, future, streamOutput_of_err ran]
      · cases polled

/-- **A future that completes**, or no future at all: the reader goes on with no future, and
with what it had to deliver. -/
theorem pollFuture_resumed (valid : Valid reader)
    (polled : pollFuture codecs reader sched = (.resumed reader', sched')) :
    reader'.blockReadingFuture = none ∧ undelivered codecs reader' = undelivered codecs reader := by
  unfold pollFuture at polled
  split at polled
  · rename_i idle
    cases polled
    exact ⟨idle, rfl⟩
  · rename_i stream future
    have served := drop_eq_nil_of_future valid future
    split at polled
    · cases polled
    · split at polled
      · rename_i value rest ran
        cases polled
        refine ⟨rfl, ?_⟩
        simp [undelivered, served, future, streamOutput_of_ok ran]
      · cases polled
      · cases polled

/-- **What one `poll_read` does** to the bytes a reader has yet to deliver, `before` it and
`after` it: `Pending` keeps them; `Ready(Ok)` delivers their front, and delivers nothing
only when nothing is left; an error comes only when nothing is left. -/
def Advances (before : List UInt8) : ReadPoll → List UInt8 → Prop
  | .pending, after => after = before
  | .ready filled, after => filled ++ after = before ∧ (filled = [] → before = [])
  | .failed _, after => before = [] ∧ after = []

/-- Serving `toServe ≥ 1` of the `available ≥ 1` bytes left of the payload delivers the front
of what the reader has to deliver. -/
theorem advances_serve (codecs : Codecs) (reader : DecompressionReader) {toServe : Nat}
    (idle : reader.blockReadingFuture = none) (positive : 0 < toServe)
    (available : toServe ≤ reader.decompressed.length - reader.position) :
    Advances (undelivered codecs reader)
      (.ready ((reader.decompressed.drop reader.position).take toServe))
      (undelivered codecs { reader with position := reader.position + toServe }) := by
  refine ⟨?_, fun served => ?_⟩
  · simp only [undelivered, idle, ← List.append_assoc, ← List.drop_drop, List.take_append_drop]
  · rw [List.take_eq_nil_iff] at served
    have : (reader.decompressed.drop reader.position).length = 0 := by rcases served with h | h <;> simp_all
    simp at this
    omega

theorem pollRead_step (codecs : Codecs) {cap : Nat} (positive : 0 < cap) :
    ∀ (reader : DecompressionReader) (sched : List Bool) {poll : ReadPoll}
      {reader' : DecompressionReader} {sched' : List Bool}, Valid reader →
      pollRead codecs cap reader sched = some (poll, reader', sched') →
      Valid reader' ∧ Advances (undelivered codecs reader) poll (undelivered codecs reader') := by
  intro reader
  obtain ⟨n, h⟩ : ∃ n, reader.measure = n := ⟨_, rfl⟩
  induction n using Nat.strong_induction_on generalizing reader with
  | _ n ih =>
  intro sched poll reader' sched' valid ran
  rw [pollRead, if_neg (Nat.pos_iff_ne_zero.mp positive)] at ran
  split at ran
  · -- the future is pending
    cases ran
    exact ⟨valid, rfl⟩
  · -- the future failed
    rename_i e _ polled
    cases ran
    obtain ⟨nothing, noInner⟩ := pollFuture_failed valid polled
    have served := (List.append_eq_nil.mp nothing).1
    exact ⟨valid_of_idle rfl, nothing, by simp [undelivered, served, noInner]⟩
  · cases ran
  · -- the future completed, or there was none
    rename_i resumed _ polled
    obtain ⟨idle, same⟩ := pollFuture_resumed valid polled
    dsimp only at ran
    split at ran
    · cases ran
    split at ran
    · -- serve what is left of the payload
      rename_i available
      cases ran
      rw [← same]
      exact ⟨valid_of_idle idle, advances_serve codecs resumed idle (by omega) (by omega)⟩
    · rename_i exhausted
      split at ran
      · -- start reading the next frame, and poll at once
        rename_i inner holds
        have smaller := pollFuture_resumed_measure polled holds
        have started : Valid { resumed with inner := none, blockReadingFuture := some inner } :=
          ⟨fun _ future => ⟨rfl, by simp only at future ⊢; omega⟩⟩
        rw [h] at smaller
        obtain ⟨valid', advances⟩ := ih _ (by simpa [DecompressionReader.measure] using smaller) _
          rfl _ started ran
        refine ⟨valid', ?_⟩
        have handed : undelivered codecs { resumed with inner := none, blockReadingFuture := some inner } =
            undelivered codecs reader := by
          rw [← same]
          simp [undelivered, idle, holds]
        rwa [handed] at advances
      · -- end of file
        rename_i holds
        have served : resumed.decompressed.drop resumed.position = [] :=
          List.drop_eq_nil_of_le (by omega)
        have nothing : undelivered codecs resumed = [] := by
          simp [undelivered, served, idle, holds]
        cases ran
        exact ⟨valid_of_idle idle, by rw [List.nil_append, same], fun _ => same.symm.trans nothing⟩

end Step

/-! ### Runs of `poll_read` -/

/-- A run of `poll_read` calls with `caps` bytes of room, one schedule across them all; a
panic ends it. -/
def readCalls (codecs : Codecs) : List Nat → DecompressionReader → List Bool → List ReadPoll
  | [], _, _ => []
  | cap :: caps, reader, sched =>
    match pollRead codecs cap reader sched with
    | some (poll, reader, sched) => poll :: readCalls codecs caps reader sched
    | none => []

/-- The bytes a run's `Ready(Ok)` results put into the buffers, in order. -/
def delivered : List ReadPoll → List UInt8
  | [] => []
  | .ready filled :: polls => filled ++ delivered polls
  | _ :: polls => delivered polls

/-- **The run lemma**: from a reader keeping its invariant, with room in every buffer, the
bytes a run delivers are a prefix of what the reader had to deliver, and each `Ready(Ok)`
that comes before all of it is delivered fills at least one byte. -/
theorem readCalls_delivers (codecs : Codecs) :
    ∀ (caps : List Nat) (reader : DecompressionReader) (sched : List Bool), Valid reader →
      (∀ cap ∈ caps, 0 < cap) →
      delivered (readCalls codecs caps reader sched) <+: undelivered codecs reader ∧
        ∀ i filled, (readCalls codecs caps reader sched)[i]? = some (.ready filled) →
          (delivered ((readCalls codecs caps reader sched).take i)).length <
            (undelivered codecs reader).length → filled ≠ []
  | [], _, _, _, _ => ⟨⟨_, rfl⟩, fun _ _ found => by simp [readCalls] at found⟩
  | cap :: caps, reader, sched, valid, room => by
    rw [readCalls]
    split
    · rename_i poll reader' sched' ran
      obtain ⟨valid', advances⟩ := pollRead_step codecs (room cap (List.mem_cons_self _ _)) reader
        sched valid ran
      obtain ⟨leading, live⟩ := readCalls_delivers codecs caps reader' sched' valid'
        fun c member => room c (List.mem_cons_of_mem _ member)
      cases poll with
      | pending =>
        rw [advances] at leading live
        refine ⟨leading, fun i filled found before => ?_⟩
        cases i with
        | zero => simp at found
        | succ i => exact live i filled (by simpa using found) before
      | ready first =>
        obtain ⟨front, nonempty⟩ := advances
        refine ⟨front ▸ (List.prefix_append_right_inj first).mpr leading,
          fun i filled found before => ?_⟩
        cases i with
        | zero =>
          simp only [List.getElem?_cons_zero, Option.some.injEq, ReadPoll.ready.injEq] at found
          subst found
          exact fun empty => by simp [nonempty empty] at before
        | succ i =>
          rw [← front] at before
          simp only [List.take_succ_cons, delivered, List.length_append] at before
          exact live i filled (by simpa using found) (by omega)
      | failed e =>
        obtain ⟨nothing, after⟩ := advances
        rw [after] at leading
        refine ⟨by simpa [delivered, nothing] using leading, fun i filled _ before => ?_⟩
        simp [nothing] at before
    · exact ⟨⟨_, rfl⟩, fun _ _ found => by simp at found⟩

/-! ### A stream of frames -/

/-- A frame the decoder accepts on its own reads the same with anything after it. -/
theorem decompressDataAsync_append {codecs : Codecs} {mode : CompressionMethod}
    {frame decoded : List UInt8}
    (accepted : (decompressDataAsync codecs mode).run frame = .ok (decoded, [])) (rest : List UInt8) :
    (decompressDataAsync codecs mode).run (frame ++ rest) = .ok (decoded, rest) := by
  obtain ⟨consumed, whole, -, again⟩ :=
    reads_decompressDataAsync codecs mode frame decoded [] accepted
  rw [whole, List.append_nil]
  exact again rest

/-- Frames the decoder accepts, followed by any bytes, decode to their payloads, then to what
those bytes decode to. -/
theorem streamOutput_frames (codecs : Codecs) (mode : CompressionMethod) (rest : List UInt8) :
    ∀ frames : List (List UInt8 × List UInt8),
      (∀ f ∈ frames, (decompressDataAsync codecs mode).run f.1 = .ok (f.2, [])) →
      streamOutput codecs mode (frames.flatMap Prod.fst ++ rest) =
        frames.flatMap Prod.snd ++ streamOutput codecs mode rest
  | [], _ => rfl
  | f :: frames, accepted => by
    have head := decompressDataAsync_append (accepted f (List.mem_cons_self _ _))
      (frames.flatMap Prod.fst ++ rest)
    rw [List.flatMap_cons, List.flatMap_cons, List.append_assoc, streamOutput_of_ok head,
      streamOutput_frames codecs mode rest frames
        fun g member => accepted g (List.mem_cons_of_mem _ member), List.append_assoc]

/-- **The streaming decompressor delivers the concatenation of the frames.**  Let the inner
stream hold frames the decoder accepts, `first` and then `frames`, followed by any bytes.
`new` reads the first frame; then, under any schedule of `Pending`s and over any run of
`poll_read` calls with room in the buffer, the bytes the `Ready(Ok)` results deliver are a
prefix of the frames' payloads, followed by what the bytes after them decode to, and every
`Ready(Ok)` before all of that is delivered fills at least one byte. -/
theorem decompressionReader_delivers (codecs : Codecs) (mode : CompressionMethod)
    (first : List UInt8 × List UInt8) (frames : List (List UInt8 × List UInt8))
    (accepted : ∀ f ∈ first :: frames, (decompressDataAsync codecs mode).run f.1 = .ok (f.2, []))
    (rest : List UInt8) :
    ∃ reader, DecompressionReader.new codecs mode ((first :: frames).flatMap Prod.fst ++ rest) =
        .ok reader ∧
      ∀ (caps : List Nat) (sched : List Bool), (∀ cap ∈ caps, 0 < cap) →
        delivered (readCalls codecs caps reader sched) <+:
            (first :: frames).flatMap Prod.snd ++ streamOutput codecs mode rest ∧
          ∀ i filled, (readCalls codecs caps reader sched)[i]? = some (.ready filled) →
            (delivered ((readCalls codecs caps reader sched).take i)).length <
              ((first :: frames).flatMap Prod.snd ++ streamOutput codecs mode rest).length →
            filled ≠ [] := by
  have firstRead := decompressDataAsync_append (accepted first (List.mem_cons_self _ _))
    (frames.flatMap Prod.fst ++ rest)
  refine ⟨⟨mode, some (frames.flatMap Prod.fst ++ rest), first.2, 0, none⟩, ?_,
    fun caps sched room => ?_⟩
  · rw [List.flatMap_cons, List.append_assoc, DecompressionReader.new, firstRead]
    rfl
  · have total : undelivered codecs ⟨mode, some (frames.flatMap Prod.fst ++ rest), first.2, 0, none⟩ =
        (first :: frames).flatMap Prod.snd ++ streamOutput codecs mode rest := by
      simp [undelivered, streamOutput_frames codecs mode rest frames
        fun f member => accepted f (List.mem_cons_of_mem _ member)]
    rw [← total]
    exact readCalls_delivers codecs caps _ sched (valid_of_idle rfl) room

/-- A frame of the identity codecs, with its payload. -/
def identityFrame (payload : List UInt8) : List UInt8 × List UInt8 :=
  (encodeFrame identityCodecs .lz4 payload payload.length, payload)

theorem identityFrame_accepted (payload : List UInt8) (small : payload.length ≤ 100) :
    (decompressDataAsync identityCodecs .lz4).run (identityFrame payload).1 =
      .ok ((identityFrame payload).2, []) := by
  have decoded := decompressDataAsync_encodeFrame identityCodecs_roundTrip
    (rfl : compressPayload identityCodecs payload .lz4 = .ok (some payload)) (by omega)
    (show payload.length + 9 ≤ 100000000 by omega) []
  rwa [List.append_nil] at decoded

theorem decompressionReader_delivers_identity :
    (∀ f ∈ [identityFrame [1, 2], identityFrame [], identityFrame [3]],
        (decompressDataAsync identityCodecs .lz4).run f.1 = .ok (f.2, [])) ∧
      ∃ reader, DecompressionReader.new identityCodecs .lz4
          ([identityFrame [1, 2], identityFrame [], identityFrame [3]].flatMap Prod.fst ++ []) =
          .ok reader ∧
        ∀ (caps : List Nat) (sched : List Bool), (∀ cap ∈ caps, 0 < cap) →
          delivered (readCalls identityCodecs caps reader sched) <+:
              [identityFrame [1, 2], identityFrame [], identityFrame [3]].flatMap Prod.snd ++
                streamOutput identityCodecs .lz4 [] ∧
            ∀ i filled, (readCalls identityCodecs caps reader sched)[i]? = some (.ready filled) →
              (delivered ((readCalls identityCodecs caps reader sched).take i)).length <
                ([identityFrame [1, 2], identityFrame [], identityFrame [3]].flatMap Prod.snd ++
                  streamOutput identityCodecs .lz4 []).length →
              filled ≠ [] := by
  have accepted : ∀ f ∈ [identityFrame [1, 2], identityFrame [], identityFrame [3]],
      (decompressDataAsync identityCodecs .lz4).run f.1 = .ok (f.2, []) := by
    intro f member
    simp only [List.mem_cons, List.mem_singleton, List.not_mem_nil, or_false] at member
    rcases member with rfl | rfl | rfl <;> exact identityFrame_accepted _ (by decide)
  exact ⟨accepted, decompressionReader_delivers identityCodecs .lz4 (identityFrame [1, 2])
    [identityFrame [], identityFrame [3]] accepted []⟩

end ClickHouseArrow.Compression
