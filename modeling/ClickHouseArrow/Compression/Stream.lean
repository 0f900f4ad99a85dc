import ClickHouseArrow.Compression.ReaderState
import ClickHouseArrow.Compression.Integrity

/-!
# The block stream end to end (compression.rs)

`compress_data` writes one frame per block, and `DecompressionReader` reads the frames back
through `poll_read`.  `Compression.Reader` shows that a run only ever delivers the front of
what the reader has yet to deliver.  This module shows that a long enough run delivers all of
it, so that what the writer wrote for a sequence of blocks is read back in full.

## Main Definitions

* `compressBlocks` — a caller writing blocks one after another with `compress_data` into a
  `Vec<u8>`.
* `EndsIn`, `HeldEndsIn` — the frames on a stream, and on the stream a reader holds, end in
  a given error.

## Main results

* `pollRead_progress` — a call with room, on a consistent reader that still has bytes to
  deliver, delivers at least one of them or returns `Pending`, which uses up one `Pending`
  of the schedule; it neither panics, fails nor reports end of file first.
* `readCalls_delivers_all` — the run lemma: `|undelivered| + (Pendings in the schedule)`
  calls with room deliver every byte; `decompressionReader_delivers_all` — the same from
  every reachable state.
* `compressBlocks_round_trip` — what `compress_data` writes for a sequence of blocks, `new`
  and enough calls read back as the blocks' concatenation.
* `decompressionReader_cut_stream` — a stream of frames cut anywhere in the frame after
  them: enough calls deliver the whole frames' payloads, never an empty `Ready(Ok)`, then
  return the end-of-file error of the field the cut falls in, and deliver nothing after it.

## Design Notes

The measure is the length of what the reader has yet to deliver plus the `Pending`s left in
the schedule: a call that does not pend delivers a byte, and a call that pends uses up a
`Pending`.  Each fact about one call is proved about one pass of the body and carried across
the tail calls by `pollRead_induction`.  For a stream cut short, `HeldEndsIn` is the invariant:
every call that does not fail leaves a reader whose stream still ends in the same error.
-/

namespace ClickHouseArrow.Compression

open DecompressionReader

/-! ### The schedule -/

/-- A poll that completes takes an entry other than `Pending` off the schedule. -/
theorem count_tail_of_head_ne {sched : List Bool} (completes : sched.head? ≠ some true) :
    sched.tail.count true = sched.count true := by
  cases sched with
  | nil => rfl
  | cons b rest =>
    cases b
    · simp
    · exact absurd rfl completes

section Sched

variable {codecs : Codecs} {cap : Nat} {reader reader' : DecompressionReader}
  {sched sched' : List Bool}

/-- Polling the future never adds a `Pending` to the schedule, and `Pending` uses one up. -/
theorem pollFuture_count {poll : FuturePoll}
    (polled : pollFuture codecs reader sched = (poll, sched')) :
    sched'.count true ≤ sched.count true ∧ (poll = .pending → sched'.count true < sched.count true) := by
  unfold pollFuture at polled
  split at polled
  · cases polled
    exact ⟨le_rfl, nofun⟩
  · split at polled
    · cases polled
      constructor <;> simp
    · rename_i notPending
      have same := count_tail_of_head_ne (head_ne_true notPending)
      split at polled <;> cases polled <;> exact ⟨same.le, nofun⟩

/-- A tail call keeps the schedule's `Pending`s. -/
theorem pollReadBody_tail_count (ran : pollReadBody codecs cap reader sched = .inr (reader', sched')) :
    sched'.count true = sched.count true := by
  rcases pollReadBody_tail ran with ⟨-, -, -, -, rfl, -⟩ | ⟨-, -, -, completes, -, rfl, -⟩
  · rfl
  · exact count_tail_of_head_ne completes

/-- A pass that returns keeps the `Pending`s, or uses one up to return `Pending`. -/
theorem pollReadBody_count {poll : ReadPoll}
    (ran : pollReadBody codecs cap reader sched = .inl (some (poll, reader', sched'))) :
    sched'.count true ≤ sched.count true ∧ (poll = .pending → sched'.count true < sched.count true) := by
  rcases pollReadBody_returned ran with ⟨-, returned⟩ | ⟨_, polled, returned⟩ |
    ⟨_, _, polled, returned⟩ | ⟨_, -, returned⟩ |
    ⟨_, _, polled, ⟨-, returned⟩ | ⟨-, returned⟩ | ⟨-, -, returned⟩⟩ <;> cases returned
  · exact ⟨le_rfl, nofun⟩
  · exact ⟨(pollFuture_count polled).1, fun _ => (pollFuture_count polled).2 rfl⟩
  all_goals exact ⟨(pollFuture_count polled).1, nofun⟩

end Sched

/-- **A call never adds a `Pending`**, and one that returns `Pending` uses one up. -/
theorem pollRead_count (codecs : Codecs) (cap : Nat) {reader reader' : DecompressionReader}
    {sched sched' : List Bool} {poll : ReadPoll}
    (ran : pollRead codecs cap reader sched = some (poll, reader', sched')) :
    sched'.count true ≤ sched.count true ∧ (poll = .pending → sched'.count true < sched.count true) :=
  pollRead_induction codecs cap
    (fun _ sched result => ∀ poll reader' sched', result = some (poll, reader', sched') →
      sched'.count true ≤ sched.count true ∧
        (poll = .pending → sched'.count true < sched.count true))
    (fun _ _ _ body _ _ _ returned => pollReadBody_count (returned ▸ body))
    (fun _ _ _ _ body ih poll reader' sched' returned => by
      have same := pollReadBody_tail_count body
      obtain ⟨le, lt⟩ := ih poll reader' sched' returned
      exact ⟨same ▸ le, fun pending => same ▸ lt pending⟩)
    reader sched poll reader' sched' ran

/-! ### No panic before the end -/

theorem streamOutput_of_panic {codecs : Codecs} {mode : CompressionMethod} {stream : List UInt8}
    (ran : (decompressDataAsync codecs mode).run stream = .panic) :
    streamOutput codecs mode stream = [] := by
  rw [streamOutput]
  split <;> simp_all

section Panic

variable {codecs : Codecs} {cap : Nat} {reader reader' : DecompressionReader}
  {sched sched' : List Bool}

/-- A tail call hands over what the reader had to deliver. -/
theorem undelivered_tail (valid : Valid reader)
    (ran : pollReadBody codecs cap reader sched = .inr (reader', sched')) :
    undelivered codecs reader' = undelivered codecs reader := by
  rcases pollReadBody_tail ran with
    ⟨inner, idle, holds, -, -, rfl⟩ | ⟨stream, rest, future, -, decoded, -, rfl⟩
  · simp [undelivered, idle, holds]
  · simp [undelivered, future, drop_eq_nil_of_future valid future, streamOutput_of_ok decoded]

/-- A pass on a consistent reader panics only in its future's decoder. -/
theorem pollReadBody_panics (consistent : Consistent reader)
    (ran : pollReadBody codecs cap reader sched = .inl none) :
    ∃ stream, reader.blockReadingFuture = some stream ∧
      (decompressDataAsync codecs reader.mode).run stream = .panic := by
  rcases pollReadBody_returned ran with ⟨-, returned⟩ | ⟨_, -, returned⟩ | ⟨_, _, -, returned⟩ |
    ⟨_, polled, -⟩ | ⟨_, _, polled, ⟨under, -⟩ | ⟨-, returned⟩ | ⟨-, -, returned⟩⟩
  any_goals cases returned
  · exact pollFuture_panicked polled
  · exact absurd (consistent.resumed polled).1.position_le (Nat.not_le.mpr under)

end Panic

/-- **A call panics only once nothing is left to deliver**: the frame its future fails on
would have come after every byte the reader still has. -/
theorem undelivered_eq_nil_of_panic (codecs : Codecs) (cap : Nat) {reader : DecompressionReader}
    (consistent : Consistent reader) {sched : List Bool}
    (panicked : pollRead codecs cap reader sched = none) : undelivered codecs reader = [] :=
  pollRead_induction codecs cap
    (fun reader _ result => Consistent reader → result = none → undelivered codecs reader = [])
    (fun reader _ _ body consistent returned => by
      obtain ⟨stream, future, panics⟩ := pollReadBody_panics consistent (returned ▸ body)
      simp [undelivered, future, drop_eq_nil_of_future consistent.toValid future,
        streamOutput_of_panic panics])
    (fun _ _ _ _ body ih consistent returned => by
      rw [← undelivered_tail consistent.toValid body]
      exact ih (pollReadBody_tail_reader body).1 returned)
    reader sched consistent panicked

/-! ### Progress -/

/-- **One call makes progress.**  On a consistent reader with bytes left to deliver, a call
with room returns `Pending`, using up one of the schedule's `Pending`s and keeping the bytes,
or delivers a non-empty front of them; it leaves a consistent reader. -/
theorem pollRead_progress (codecs : Codecs) {cap : Nat} (positive : 0 < cap)
    {reader : DecompressionReader} (consistent : Consistent reader) (sched : List Bool)
    (left : undelivered codecs reader ≠ []) :
    ∃ poll reader' sched', pollRead codecs cap reader sched = some (poll, reader', sched') ∧
      Consistent reader' ∧ sched'.count true ≤ sched.count true ∧
      ((poll = .pending ∧ undelivered codecs reader' = undelivered codecs reader ∧
          sched'.count true < sched.count true) ∨
        ∃ filled, poll = .ready filled ∧ filled ≠ [] ∧
          filled ++ undelivered codecs reader' = undelivered codecs reader) := by
  cases ran : pollRead codecs cap reader sched with
  | none => exact absurd (undelivered_eq_nil_of_panic codecs cap consistent ran) left
  | some result =>
    obtain ⟨poll, reader', sched'⟩ := result
    have spec := pollRead_callSpec codecs cap consistent sched
    rw [ran] at spec
    obtain ⟨le, lt⟩ := pollRead_count codecs cap ran
    obtain ⟨-, advances⟩ := pollRead_step codecs positive reader sched consistent.toValid ran
    refine ⟨poll, reader', sched', rfl, spec.1, le, ?_⟩
    cases poll with
    | pending => exact .inl ⟨rfl, advances, lt rfl⟩
    | ready filled => exact .inr ⟨filled, rfl, fun empty => left (advances.2 empty), advances.1⟩
    | failed e => exact absurd advances.1 left

/-- **The run lemma**: from a consistent reader, calls with room, as many as the bytes left
to deliver plus the `Pending`s in the schedule, deliver every one of those bytes. -/
theorem readCalls_delivers_all (codecs : Codecs) :
    ∀ (caps : List Nat) (reader : DecompressionReader) (sched : List Bool), Consistent reader →
      (∀ cap ∈ caps, 0 < cap) →
      (undelivered codecs reader).length + sched.count true ≤ caps.length →
      delivered (readCalls codecs caps reader sched) = undelivered codecs reader
  | [], reader, _, _, _, enough => by
    have nothing : undelivered codecs reader = [] :=
      List.eq_nil_of_length_eq_zero (by simp only [List.length_nil] at enough; omega)
    rw [nothing]
    rfl
  | cap :: caps, reader, sched, consistent, room, enough => by
    by_cases left : undelivered codecs reader = []
    · have prefixOf := (readCalls_delivers codecs (cap :: caps) reader sched consistent.toValid
        room).1
      rw [left] at prefixOf ⊢
      exact List.prefix_nil.mp prefixOf
    obtain ⟨poll, reader', sched', ran, consistent', le, made⟩ :=
      pollRead_progress codecs (room cap (List.mem_cons_self _ _)) consistent sched left
    have rest := readCalls_delivers_all codecs caps reader' sched' consistent'
      fun c member => room c (List.mem_cons_of_mem _ member)
    rw [List.length_cons] at enough
    rw [readCalls, ran]
    rcases made with ⟨rfl, same, lt⟩ | ⟨filled, rfl, nonempty, front⟩
    · exact (rest (by rw [same]; omega)).trans same
    · have shorter := congrArg List.length front
      rw [List.length_append] at shorter
      have := List.length_pos.mpr nonempty
      rw [delivered, rest (by omega), front]

/-- **Every byte is delivered.**  From every state `new` and a run of `poll_read` calls can
reach, calls with room in the buffer, at least as many as the bytes the reader has yet to
deliver plus the `Pending`s the future returns, deliver all of those bytes, in order. -/
theorem decompressionReader_delivers_all {codecs : Codecs} {reader : DecompressionReader}
    {polls : List ReadPoll} (reached : Reachable codecs reader polls) (caps : List Nat)
    (sched : List Bool) (room : ∀ cap ∈ caps, 0 < cap)
    (enough : (undelivered codecs reader).length + sched.count true ≤ caps.length) :
    delivered (readCalls codecs caps reader sched) = undelivered codecs reader :=
  readCalls_delivers_all codecs caps reader sched (reachable_consistent reached).1 room enough

/-- The reader `new` makes of one identity frame of `[1, 2]`, as `poll_read` first sees it. -/
def identityReader : DecompressionReader :=
  ⟨.lz4, some [], [1, 2], 0, none⟩

theorem decompressionReader_delivers_all_identity :
    Reachable identityCodecs identityReader [] ∧ (∀ cap ∈ [1, 1, 1], 0 < cap) ∧
      (undelivered identityCodecs identityReader).length + [true].count true ≤ [1, 1, 1].length ∧
      delivered (readCalls identityCodecs [1, 1, 1] identityReader [true]) =
        undelivered identityCodecs identityReader := by
  have created : DecompressionReader.new identityCodecs .lz4 (identityFrame [1, 2]).1 =
      .ok identityReader := rfl
  have length : (undelivered identityCodecs identityReader).length = 2 := by
    simp [undelivered, identityReader]
  exact ⟨.new created, by decide, by rw [length]; decide,
    decompressionReader_delivers_all (.new created) [1, 1, 1] [true] (by decide)
      (by rw [length]; decide)⟩

/-! ### From the writer to the reader -/

/-- A caller writing `blocks` one after another with `compress_data` into a `Vec<u8>` that
already holds `written`, as the crate's round-trip tests do for one block. -/
def compressBlocks (codecs : Codecs) (compression : CompressionMethod) (written : List UInt8)
    (blocks : List (List UInt8)) : Except Error (List UInt8) :=
  blocks.foldlM (fun s raw => compressData codecs vecWriter s raw compression) written

/-- Blocks that the codec compresses, within the reader's size checks, are written as frames
the decoder takes back one by one. -/
theorem compressBlocks_frames {codecs : Codecs} (roundTrip : codecs.RoundTrip)
    {compression : CompressionMethod} :
    ∀ (blocks : List (List UInt8)) (written : List UInt8),
      (∀ raw ∈ blocks, ∃ out, compressPayload codecs raw compression = .ok (some out) ∧
        raw.length ≤ 1000000000 ∧ out.length + 9 ≤ 100000000) →
      ∃ frames : List (List UInt8 × List UInt8),
        compressBlocks codecs compression written blocks = .ok (written ++ frames.flatMap Prod.fst) ∧
        frames.map Prod.snd = blocks ∧
        ∀ f ∈ frames, (decompressDataAsync codecs compression).run f.1 = .ok (f.2, [])
  | [], written, _ => ⟨[], by simp [compressBlocks]; rfl, rfl, nofun⟩
  | raw :: blocks, written, framed => by
    obtain ⟨out, compressed, rawFits, outFits⟩ := framed raw (List.mem_cons_self _ _)
    obtain ⟨frames, wrote, payloads, accepted⟩ :=
      compressBlocks_frames roundTrip blocks (written ++ encodeFrame codecs compression out raw.length)
        fun other member => framed other (List.mem_cons_of_mem _ member)
    have decoded := decompressDataAsync_encodeFrame roundTrip compressed rawFits outFits []
    rw [List.append_nil] at decoded
    refine ⟨(encodeFrame codecs compression out raw.length, raw) :: frames, ?_, by simp [payloads],
      ?_⟩
    · rw [compressBlocks, List.foldlM_cons, compressData, compressFrame_vecWriter codecs written compressed]
      simpa [List.append_assoc] using wrote
    · rintro f (_ | ⟨_, member⟩)
      · exact decoded
      · exact accepted f member

/-- **Blocks written by `compress_data` are read back whole.**  Blocks that the codec
compresses, within the reader's size checks, written one after another into a buffer:
`DecompressionReader::new` opens that buffer, has exactly the blocks' concatenation to
deliver, and calls with room, as many as its bytes plus the `Pending`s, deliver all of it. -/
theorem compressBlocks_round_trip {codecs : Codecs} (roundTrip : codecs.RoundTrip)
    (compression : CompressionMethod) (first : List UInt8) (blocks : List (List UInt8))
    (framed : ∀ raw ∈ first :: blocks, ∃ out, compressPayload codecs raw compression = .ok (some out) ∧
      raw.length ≤ 1000000000 ∧ out.length + 9 ≤ 100000000) :
    ∃ stream reader, compressBlocks codecs compression [] (first :: blocks) = .ok stream ∧
      DecompressionReader.new codecs compression stream = .ok reader ∧
      undelivered codecs reader = (first :: blocks).flatten ∧
      ∀ (caps : List Nat) (sched : List Bool), (∀ cap ∈ caps, 0 < cap) →
        (first :: blocks).flatten.length + sched.count true ≤ caps.length →
        delivered (readCalls codecs caps reader sched) = (first :: blocks).flatten := by
  obtain ⟨frames, wrote, payloads, accepted⟩ :=
    compressBlocks_frames roundTrip (first :: blocks) [] framed
  cases frames with
  | nil => cases payloads
  | cons f frames =>
    have firstRead := decompressDataAsync_append (accepted f (List.mem_cons_self _ _))
      (frames.flatMap Prod.fst)
    have created : DecompressionReader.new codecs compression ((f :: frames).flatMap Prod.fst) =
        .ok ⟨compression, some (frames.flatMap Prod.fst), f.2, 0, none⟩ := by
      rw [List.flatMap_cons, DecompressionReader.new, firstRead]
      rfl
    have total : undelivered codecs ⟨compression, some (frames.flatMap Prod.fst), f.2, 0, none⟩ =
        (first :: blocks).flatten := by
      have rest := streamOutput_frames codecs compression [] frames
        fun g member => accepted g (List.mem_cons_of_mem _ member)
      rw [List.append_nil, streamOutput_nil, List.append_nil] at rest
      rw [← payloads]
      simp only [undelivered, rest, List.drop_zero]
      simp [List.flatMap]
    refine ⟨_, _, wrote, created, total, fun caps sched room enough => ?_⟩
    rw [← total] at enough ⊢
    exact readCalls_delivers_all codecs caps _ sched (consistent_new created).1 room enough

theorem compressBlocks_round_trip_identity :
    (∀ raw ∈ [[1, 2], [], [3]], ∃ out, compressPayload identityCodecs raw .lz4 = .ok (some out) ∧
      raw.length ≤ 1000000000 ∧ out.length + 9 ≤ 100000000) ∧
    ∃ stream reader, compressBlocks identityCodecs .lz4 [] [[1, 2], [], [3]] = .ok stream ∧
      DecompressionReader.new identityCodecs .lz4 stream = .ok reader ∧
      undelivered identityCodecs reader = [[1, 2], [], [3]].flatten ∧
      ∀ (caps : List Nat) (sched : List Bool), (∀ cap ∈ caps, 0 < cap) →
        [[1, 2], [], [3]].flatten.length + sched.count true ≤ caps.length →
        delivered (readCalls identityCodecs caps reader sched) = [[1, 2], [], [3]].flatten := by
  have framed : ∀ raw ∈ [[1, 2], [], [3]], ∃ out,
      compressPayload identityCodecs raw .lz4 = .ok (some out) ∧
        raw.length ≤ 1000000000 ∧ out.length + 9 ≤ 100000000 := by
    intro raw member
    simp only [List.mem_cons, List.mem_singleton, List.not_mem_nil, or_false] at member
    rcases member with rfl | rfl | rfl <;> exact ⟨_, rfl, by decide, by decide⟩
  exact ⟨framed, compressBlocks_round_trip identityCodecs_roundTrip .lz4 [1, 2] [[], [3]] framed⟩

/-! ### A stream cut short -/

/-- **The frames on a stream end in the error `e`**: the decoder reads frames off it, one
after another, until it fails with `e`. -/
inductive EndsIn (codecs : Codecs) (mode : CompressionMethod) : List UInt8 → Error → Prop
  | fail {stream : List UInt8} {e : Error} :
      (decompressDataAsync codecs mode).run stream = .err e → EndsIn codecs mode stream e
  | frame {stream decoded rest : List UInt8} {e : Error} :
      (decompressDataAsync codecs mode).run stream = .ok (decoded, rest) →
      EndsIn codecs mode rest e → EndsIn codecs mode stream e

namespace EndsIn

variable {codecs : Codecs} {mode : CompressionMethod} {stream : List UInt8} {e : Error}

theorem ne_panic (ends : EndsIn codecs mode stream e) :
    (decompressDataAsync codecs mode).run stream ≠ .panic := by
  cases ends with
  | fail failed => rw [failed]; nofun
  | frame decoded _ => rw [decoded]; nofun

theorem eq_of_err (ends : EndsIn codecs mode stream e) {e' : Error}
    (failed : (decompressDataAsync codecs mode).run stream = .err e') : e' = e := by
  cases ends with
  | fail failed' => rw [failed'] at failed; cases failed; rfl
  | frame decoded _ => rw [decoded] at failed; cases failed

theorem rest (ends : EndsIn codecs mode stream e) {decoded rest : List UInt8}
    (ran : (decompressDataAsync codecs mode).run stream = .ok (decoded, rest)) :
    EndsIn codecs mode rest e := by
  cases ends with
  | fail failed => rw [failed] at ran; cases ran
  | frame decoded' next => rw [decoded'] at ran; cases ran; exact next

/-- Frames the decoder accepts, in front of a stream that ends in `e`. -/
theorem append_frames (ends : EndsIn codecs mode stream e) :
    ∀ frames : List (List UInt8 × List UInt8),
      (∀ f ∈ frames, (decompressDataAsync codecs mode).run f.1 = .ok (f.2, [])) →
      EndsIn codecs mode (frames.flatMap Prod.fst ++ stream) e
  | [], _ => ends
  | f :: frames, accepted => by
    rw [List.flatMap_cons, List.append_assoc]
    exact .frame (decompressDataAsync_append (accepted f (List.mem_cons_self _ _)) _)
      (append_frames ends frames fun g member => accepted g (List.mem_cons_of_mem _ member))

end EndsIn

/-- **A reader whose stream ends in `e`**: it has not ended, and the frames on the stream it
holds, in its inner reader or in its future, end in `e`. -/
def HeldEndsIn (codecs : Codecs) (reader : DecompressionReader) (e : Error) : Prop :=
  ¬reader.Ended ∧ EndsIn codecs reader.mode reader.held e

section Held

variable {codecs : Codecs} {cap : Nat} {reader reader' : DecompressionReader}
  {sched sched' : List Bool} {e : Error}

theorem HeldEndsIn.future_failed (ends : HeldEndsIn codecs reader e) {e' : Error}
    (polled : pollFuture codecs reader sched = (.failed e', sched')) : e' = e := by
  unfold pollFuture at polled
  split at polled
  · cases polled
  · rename_i stream future
    have held := ends.2
    rw [held_future future] at held
    split at polled
    · cases polled
    · split at polled
      · cases polled
      · rename_i failed
        cases polled
        exact held.eq_of_err failed
      · cases polled

theorem HeldEndsIn.not_panicked (ends : HeldEndsIn codecs reader e) :
    pollFuture codecs reader sched ≠ (.panicked, sched') := fun polled => by
  obtain ⟨stream, future, panics⟩ := pollFuture_panicked polled
  have held := ends.2
  rw [held_future future] at held
  exact held.ne_panic panics

theorem HeldEndsIn.resumed (ends : HeldEndsIn codecs reader e)
    (polled : pollFuture codecs reader sched = (.resumed reader', sched')) :
    HeldEndsIn codecs reader' e := by
  rcases pollFuture_resumed_cases polled with
    ⟨-, rfl, -⟩ | ⟨stream, value, rest, future, -, decoded, -, rfl⟩
  · exact ends
  · have held := ends.2
    rw [held_future future] at held
    exact ⟨(fun ended => nomatch ended.1), held.rest decoded⟩

theorem HeldEndsIn.tail (ends : HeldEndsIn codecs reader e)
    (ran : pollReadBody codecs cap reader sched = .inr (reader', sched')) :
    HeldEndsIn codecs reader' e := by
  have held := ends.2
  rcases pollReadBody_tail ran with
    ⟨inner, idle, holds, -, -, rfl⟩ | ⟨stream, rest, future, -, decoded, -, rfl⟩
  · rw [held_inner idle holds] at held
    exact ⟨(fun ended => nomatch ended.2), held⟩
  · rw [held_future future] at held
    exact ⟨(fun ended => nomatch ended.2), held.rest decoded⟩

/-- A pass on a consistent reader whose stream ends in `e` returns: with `e`, or with a
reader whose stream still ends in `e`. -/
theorem HeldEndsIn.body (consistent : Consistent reader) (ends : HeldEndsIn codecs reader e)
    {result : Option (ReadPoll × DecompressionReader × List Bool)}
    (ran : pollReadBody codecs cap reader sched = .inl result) :
    ∃ poll reader' sched', result = some (poll, reader', sched') ∧
      (poll = .failed e ∨ (∀ e', poll ≠ .failed e') ∧ HeldEndsIn codecs reader' e) := by
  rcases pollReadBody_returned ran with ⟨-, rfl⟩ | ⟨_, -, rfl⟩ | ⟨_, _, polled, rfl⟩ |
    ⟨_, polled, -⟩ | ⟨_, _, polled, ⟨under, -⟩ | ⟨-, rfl⟩ | ⟨-, noInner, rfl⟩⟩
  · exact ⟨_, _, _, rfl, .inr ⟨nofun, ends⟩⟩
  · exact ⟨_, _, _, rfl, .inr ⟨nofun, ends⟩⟩
  · exact ⟨_, _, _, rfl, .inl (by rw [ends.future_failed polled])⟩
  · exact absurd polled ends.not_panicked
  · exact absurd (consistent.resumed polled).1.position_le (Nat.not_le.mpr under)
  · have ends' := ends.resumed polled
    exact ⟨_, _, _, rfl, .inr ⟨nofun, ends'⟩⟩
  · exact absurd ⟨noInner, (consistent.resumed polled).2.1⟩ (ends.resumed polled).1

end Held

/-- **A call on a reader whose stream ends in `e`** neither panics nor reports end of file:
it returns `e`, or leaves a reader whose stream still ends in `e`. -/
theorem pollRead_heldEndsIn (codecs : Codecs) (cap : Nat) {reader : DecompressionReader}
    (consistent : Consistent reader) {e : Error} (ends : HeldEndsIn codecs reader e)
    (sched : List Bool) :
    ∃ poll reader' sched', pollRead codecs cap reader sched = some (poll, reader', sched') ∧
      (poll = .failed e ∨ (∀ e', poll ≠ .failed e') ∧ HeldEndsIn codecs reader' e) :=
  pollRead_induction codecs cap
    (fun reader _ result => Consistent reader → HeldEndsIn codecs reader e →
      ∃ poll reader' sched', result = some (poll, reader', sched') ∧
        (poll = .failed e ∨ (∀ e', poll ≠ .failed e') ∧ HeldEndsIn codecs reader' e))
    (fun _ _ _ ran consistent ends => ends.body consistent ran)
    (fun _ _ _ _ ran ih _ ends => ih (pollReadBody_tail_reader ran).1 (ends.tail ran))
    reader sched consistent ends

/-- **The run lemma for a stream that ends in an error**: calls with room, more than the
bytes left to deliver plus the `Pending`s in the schedule, return the error once every one of
those bytes is delivered, and before it only `Pending` or a `Ready(Ok)` that fills something;
after it they deliver nothing. -/
theorem readCalls_ends_in (codecs : Codecs) {e : Error} :
    ∀ (caps : List Nat) (reader : DecompressionReader) (sched : List Bool), Consistent reader →
      HeldEndsIn codecs reader e → (∀ cap ∈ caps, 0 < cap) →
      (undelivered codecs reader).length + sched.count true < caps.length →
      ∃ before after, readCalls codecs caps reader sched = before ++ ReadPoll.failed e :: after ∧
        (∀ poll ∈ before, poll ≠ .ready [] ∧ ∀ e', poll ≠ .failed e') ∧
        delivered before = undelivered codecs reader ∧ delivered after = []
  | [], _, _, _, _, _, enough => absurd enough (Nat.not_lt_zero _)
  | cap :: caps, reader, sched, consistent, ends, room, enough => by
    have positive := room cap (List.mem_cons_self _ _)
    have room' : ∀ c ∈ caps, 0 < c := fun c member => room c (List.mem_cons_of_mem _ member)
    obtain ⟨poll, reader', sched', ran, outcome⟩ :=
      pollRead_heldEndsIn codecs cap consistent ends sched
    have spec := pollRead_callSpec codecs cap consistent sched
    rw [ran] at spec
    obtain ⟨-, advances⟩ := pollRead_step codecs positive reader sched consistent.toValid ran
    obtain ⟨le, lt⟩ := pollRead_count codecs cap ran
    rw [List.length_cons] at enough
    rw [readCalls, ran]
    rcases outcome with rfl | ⟨notFailed, ends'⟩
    · -- the call fails, with nothing left to deliver before or after
      have rest := (readCalls_delivers codecs caps reader' sched' spec.1.toValid room').1
      rw [advances.2] at rest
      exact ⟨[], _, rfl, nofun, advances.1.symm, List.prefix_nil.mp rest⟩
    cases poll with
    | pending =>
      have := lt rfl
      obtain ⟨before, after, split, first, rest, later⟩ := readCalls_ends_in codecs caps reader'
        sched' spec.1 ends' room' (by rw [advances]; omega)
      refine ⟨.pending :: before, after, congrArg (List.cons _) split, ?_, rest.trans advances, later⟩
      rintro poll (_ | ⟨_, member⟩)
      · exact ⟨nofun, nofun⟩
      · exact first poll member
    | ready filled =>
      have nonempty : filled ≠ [] := fun empty =>
        (spec.2.2.mp (by rw [empty])).elim ends.1 (Nat.pos_iff_ne_zero.mp positive)
      have shorter := congrArg List.length advances.1
      rw [List.length_append] at shorter
      have := List.length_pos.mpr nonempty
      obtain ⟨before, after, split, first, rest, later⟩ := readCalls_ends_in codecs caps reader'
        sched' spec.1 ends' room' (by omega)
      refine ⟨.ready filled :: before, after, congrArg (List.cons _) split, ?_, ?_, later⟩
      · rintro poll (_ | ⟨_, member⟩)
        · exact ⟨fun same => nonempty (ReadPoll.ready.inj same), nofun⟩
        · exact first poll member
      · rw [delivered, rest, advances.1]
    | failed e' => exact absurd rfl (notFailed e')

/-- **A cut transfer ends in an error, after every whole block.**  A stream of frames the
decoder accepts, cut anywhere in the frame after them, at its first byte included: `new`
opens it, and calls with room, more than the bytes of the whole frames' payloads plus the
`Pending`s, return the end-of-file error of the field the cut falls in.  Before it they
deliver exactly those payloads and return only `Pending` or a `Ready(Ok)` that fills
something, so the cut is never taken for a clean end of the stream; after it they deliver
nothing, so no byte of the cut frame is delivered. -/
theorem decompressionReader_cut_stream (codecs : Codecs) (mode : CompressionMethod)
    (first : List UInt8 × List UInt8) (frames : List (List UInt8 × List UInt8))
    (accepted : ∀ f ∈ first :: frames, (decompressDataAsync codecs mode).run f.1 = .ok (f.2, []))
    {frame v : List UInt8} (whole : (decompressDataAsync codecs mode).run frame = .ok (v, []))
    (cut : Nat) (short : cut < frame.length) :
    ∃ reader,
      DecompressionReader.new codecs mode ((first :: frames).flatMap Prod.fst ++ frame.take cut) =
        .ok reader ∧
      ∀ (caps : List Nat) (sched : List Bool), (∀ cap ∈ caps, 0 < cap) →
        ((first :: frames).flatMap Prod.snd).length + sched.count true < caps.length →
        ∃ before after, readCalls codecs caps reader sched =
            before ++ ReadPoll.failed (frameCutError cut) :: after ∧
          (∀ poll ∈ before, poll ≠ .ready [] ∧ ∀ e, poll ≠ .failed e) ∧
          delivered before = (first :: frames).flatMap Prod.snd ∧ delivered after = [] := by
  have eof := eofWhenCut_decompressDataAsync codecs mode frame v [] whole cut
    (by rw [List.length_nil, Nat.sub_zero]; exact short)
  have later : ∀ f ∈ frames, (decompressDataAsync codecs mode).run f.1 = .ok (f.2, []) :=
    fun f member => accepted f (List.mem_cons_of_mem first member)
  have firstRead := decompressDataAsync_append (accepted first (List.mem_cons_self _ _))
    (frames.flatMap Prod.fst ++ frame.take cut)
  have created : DecompressionReader.new codecs mode
      ((first :: frames).flatMap Prod.fst ++ frame.take cut) =
        .ok ⟨mode, some (frames.flatMap Prod.fst ++ frame.take cut), first.2, 0, none⟩ := by
    rw [List.flatMap_cons, List.append_assoc, DecompressionReader.new, firstRead]
    rfl
  have total : undelivered codecs
      ⟨mode, some (frames.flatMap Prod.fst ++ frame.take cut), first.2, 0, none⟩ =
        (first :: frames).flatMap Prod.snd := by
    simp [undelivered, streamOutput_frames codecs mode _ frames later, streamOutput_of_err eof]
  have ends : HeldEndsIn codecs ⟨mode, some (frames.flatMap Prod.fst ++ frame.take cut), first.2, 0,
      none⟩ (frameCutError cut) :=
    ⟨(fun ended => nomatch ended.1), (EndsIn.fail eof).append_frames frames later⟩
  refine ⟨_, created, fun caps sched room enough => ?_⟩
  rw [← total] at enough ⊢
  exact readCalls_ends_in codecs caps _ sched (consistent_new created).1 ends room enough

/-- The frame of `[1, 2]`, then the frame of `[3]` cut after 20 of its 26 bytes, inside its
compressed size. -/
theorem decompressionReader_cut_stream_identity :
    (∀ f ∈ [identityFrame [1, 2]], (decompressDataAsync identityCodecs .lz4).run f.1 =
        .ok (f.2, [])) ∧
      (decompressDataAsync identityCodecs .lz4).run (identityFrame [3]).1 = .ok ([3], []) ∧
      20 < (identityFrame [3]).1.length ∧
      ∃ reader, DecompressionReader.new identityCodecs .lz4
          ([identityFrame [1, 2]].flatMap Prod.fst ++ (identityFrame [3]).1.take 20) = .ok reader ∧
        ∀ (caps : List Nat) (sched : List Bool), (∀ cap ∈ caps, 0 < cap) →
          ([identityFrame [1, 2]].flatMap Prod.snd).length + sched.count true < caps.length →
          ∃ before after, readCalls identityCodecs caps reader sched =
              before ++ ReadPoll.failed (frameCutError 20) :: after ∧
            (∀ poll ∈ before, poll ≠ .ready [] ∧ ∀ e, poll ≠ .failed e) ∧
            delivered before = [identityFrame [1, 2]].flatMap Prod.snd ∧ delivered after = [] := by
  have accepted : ∀ f ∈ [identityFrame [1, 2]], (decompressDataAsync identityCodecs .lz4).run f.1 =
      .ok (f.2, []) := by
    intro f member
    rw [List.mem_singleton.mp member]
    exact identityFrame_accepted [1, 2] (by decide)
  have whole := identityFrame_accepted [3] (by decide)
  exact ⟨accepted, whole, by decide, decompressionReader_cut_stream identityCodecs .lz4
    (identityFrame [1, 2]) [] accepted whole 20 (by decide)⟩

end ClickHouseArrow.Compression
