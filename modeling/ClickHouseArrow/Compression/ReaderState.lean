import ClickHouseArrow.Compression.Reader

/-!
# The streaming decompressor's states (compression.rs)

`Compression.Reader` follows the bytes a run of `poll_read` calls delivers.  This module
follows the reader itself: how often `poll_read` calls itself before it returns, what holds of
every state that `new` and a run of calls can reach, and when a call returns `Ready(Ok)` with
nothing in the buffer, which an `AsyncRead` caller takes for the end of the stream.

## Main Definitions

* `pollReadBody` — one pass of `poll_read`'s body, handing back the reader that its tail call
  `return self.poll_read(cx, buf)` recurses on.
* `pollReadWithin` — at most `fuel` passes; `tailCallBound` — how many tail calls the stream a
  reader holds leaves room for.
* `Consistent` — the reader's state invariant; `Ended` — a reader with neither an inner
  reader nor a future; `Reachable` — the states that `new` and a run of calls reach, with the
  calls' results.
* `CallSpec` — what a call's result says about the reader it was made on.

## Main results

* `pollRead_eq_body`, `pollRead_induction` — `poll_read` is its body followed by its tail
  call, and a property of its result follows from one for each pass.
* `pollReadBody_tail` — a tail call either starts the first future on the inner reader, or
  follows a future that completed at its first poll with an empty frame, which took at
  least 25 bytes off the stream.
* `pollRead_tail_calls_bounded` — every call returns within `tailCallBound reader + 1`
  passes.
* `pollRead_callSpec`, `reachable_consistent` — one call keeps the invariant, and a reader
  ends only at a call that returns an error; so every reachable state keeps it
  (`decompressionReader_state_invariant`).
* `readCalls_eof_iff_failed` — over a run with room in every buffer, a call fills nothing
  exactly when an earlier call has returned an error.
* `pollRead_clean_end` — at a clean end of the stream a call returns the decoder's error for
  the missing checksum, not the end of the stream.

## Design Notes

`pollRead` recurses on its tail call by well-founded recursion, so it neither unfolds under
`decide` nor splits into its passes by itself.  `pollReadBody` is its body with the tail call
replaced by the reader it recurses on; `pollRead_eq_body` is the equation between the two,
and every result below is proved about one pass and carried across the tail calls by
`pollRead_induction`, with no second unfolding of `pollRead`.  A panic is `none`, as in
`Compression.Reader`; a run ends at it, so `Reachable` has no step for it.
-/

namespace ClickHouseArrow.Compression

/-! ### One pass of `poll_read` -/

/-- One pass of `poll_read`'s body: `.inl` what the call returns, or `.inr` the reader and
schedule that its tail call `return self.poll_read(cx, buf)` recurses on, once the inner
reader has been moved into a new block-reading future. -/
def pollReadBody (codecs : Codecs) (cap : Nat) (reader : DecompressionReader)
    (sched : List Bool) :
    Option (ReadPoll × DecompressionReader × List Bool) ⊕ (DecompressionReader × List Bool) :=
  if cap = 0 then .inl (some (.ready [], reader, sched))
  else
    match pollFuture codecs reader sched with
    | (.pending, sched) => .inl (some (.pending, reader, sched))
    | (.failed e, sched) =>
      .inl (some (.failed e, { reader with blockReadingFuture := none }, sched))
    | (.panicked, _) => .inl none
    | (.resumed reader', sched) =>
      if reader'.decompressed.length < reader'.position then .inl none
      else
      let available := reader'.decompressed.length - reader'.position
      if 0 < available then
        let toServe := min available cap
        .inl (some (.ready ((reader'.decompressed.drop reader'.position).take toServe),
          { reader' with position := reader'.position + toServe }, sched))
      else
        match reader'.inner with
        | some inner =>
          .inr ({ reader' with inner := none, blockReadingFuture := some inner }, sched)
        | none => .inl (some (.ready [], reader', sched))

/-- `poll_read` is one pass of its body, then its tail call. -/
theorem pollRead_eq_body (codecs : Codecs) (cap : Nat) (reader : DecompressionReader)
    (sched : List Bool) :
    pollRead codecs cap reader sched =
      match pollReadBody codecs cap reader sched with
      | .inl result => result
      | .inr (reader', sched') => pollRead codecs cap reader' sched' := by
  rw [pollRead]
  unfold pollReadBody
  by_cases zero : cap = 0
  · simp only [zero, if_true]
  · rw [if_neg zero, if_neg zero]
    split <;> rename_i polled <;> simp only [polled]
    split_ifs <;> try rfl
    split <;> rename_i holds <;> simp only [holds]

/-- The future completes at a poll unless the schedule says `Pending` there. -/
theorem head_ne_true {sched : List Bool} (notPending : ∀ rest, sched = true :: rest → False) :
    sched.head? ≠ some true := by
  intro head
  cases sched with
  | nil => cases head
  | cons b rest =>
    cases Option.some.inj head
    exact notPending rest rfl

/-- The decoder's run on a stream takes at least the 25 bytes of a frame's header off it. -/
theorem length_add_le_of_decompress {codecs : Codecs} {mode : CompressionMethod}
    {stream decoded rest : List UInt8}
    (ran : (decompressDataAsync codecs mode).run stream = .ok (decoded, rest)) :
    rest.length + 25 ≤ stream.length := by
  obtain ⟨consumed, rfl, long, -⟩ := reads_decompressDataAsync codecs mode stream decoded rest ran
  rw [List.length_append]
  omega

/-! ### What polling the future can do -/

section Future

variable {codecs : Codecs} {reader reader' : DecompressionReader} {sched sched' : List Bool}

/-- With no future, nothing is polled and the reader goes on as it is. -/
theorem pollFuture_idle (idle : reader.blockReadingFuture = none) :
    pollFuture codecs reader sched = (.resumed reader, sched) := by
  simp [pollFuture, idle]

/-- **A poll that resumes the reader**: there was no future, or the future completed at this
poll, and the reader takes the frame's payload and the rest of the stream. -/
theorem pollFuture_resumed_cases
    (polled : pollFuture codecs reader sched = (.resumed reader', sched')) :
    (reader.blockReadingFuture = none ∧ reader' = reader ∧ sched' = sched) ∨
      ∃ stream value rest, reader.blockReadingFuture = some stream ∧ sched.head? ≠ some true ∧
        (decompressDataAsync codecs reader.mode).run stream = .ok (value, rest) ∧
        sched' = sched.tail ∧
        reader' = { reader with
          blockReadingFuture := none, decompressed := value, position := 0, inner := some rest } := by
  unfold pollFuture at polled
  split at polled
  · cases polled
    exact .inl ⟨‹_›, rfl, rfl⟩
  · rename_i stream future
    split at polled
    · cases polled
    · rename_i notPending
      split at polled
      · rename_i value rest decoded
        cases polled
        exact .inr ⟨stream, value, rest, future, head_ne_true notPending, decoded, rfl, rfl⟩
      · cases polled
      · cases polled

/-- A poll that panics is the decoder's panic on the stream the future holds. -/
theorem pollFuture_panicked (polled : pollFuture codecs reader sched = (.panicked, sched')) :
    ∃ stream, reader.blockReadingFuture = some stream ∧
      (decompressDataAsync codecs reader.mode).run stream = .panic := by
  unfold pollFuture at polled
  split at polled
  · cases polled
  · rename_i stream future
    refine ⟨stream, future, ?_⟩
    split at polled
    · cases polled
    · split at polled <;> cases polled
      assumption

/-- Only a future can be `Pending` or fail. -/
theorem future_of_pollFuture {poll : FuturePoll}
    (polled : pollFuture codecs reader sched = (poll, sched')) (stopped : ∀ r, poll ≠ .resumed r) :
    reader.blockReadingFuture ≠ none := fun idle => by
  rw [pollFuture_idle idle] at polled
  exact stopped reader (Prod.mk.inj polled).1.symm

end Future

/-! ### The tail call, and how deep it goes -/

section Tail

variable {codecs : Codecs} {cap : Nat} {reader reader' : DecompressionReader}
  {sched sched' : List Bool}

/-- **What a tail call follows.**  Either the reader had no future and had served its payload,
and the tail call moves its inner reader into the first future; or the reader's future
completed at this poll with an empty frame. -/
theorem pollReadBody_tail (ran : pollReadBody codecs cap reader sched = .inr (reader', sched')) :
    (∃ inner, reader.blockReadingFuture = none ∧ reader.inner = some inner ∧
        reader.position = reader.decompressed.length ∧ sched' = sched ∧
        reader' = { reader with inner := none, blockReadingFuture := some inner }) ∨
      ∃ stream rest, reader.blockReadingFuture = some stream ∧ sched.head? ≠ some true ∧
        (decompressDataAsync codecs reader.mode).run stream = .ok ([], rest) ∧
        sched' = sched.tail ∧
        reader' = { reader with
          inner := none, decompressed := [], position := 0, blockReadingFuture := some rest } := by
  unfold pollReadBody at ran
  split at ran
  · cases ran
  split at ran
  · cases ran
  · cases ran
  · cases ran
  rename_i resumed _ polled
  dsimp only at ran
  split at ran
  · cases ran
  split at ran
  · cases ran
  split at ran
  · rename_i fits exhausted inner holds
    cases ran
    rcases pollFuture_resumed_cases polled with
      ⟨idle, rfl, rfl⟩ | ⟨stream, value, rest, future, head, decoded, rfl, rfl⟩
    · exact .inl ⟨inner, idle, holds, by omega, rfl, rfl⟩
    · cases holds
      obtain rfl : value = [] := List.eq_nil_of_length_eq_zero (by dsimp only at fits exhausted; omega)
      exact .inr ⟨stream, inner, future, head, decoded, rfl, rfl⟩
  · cases ran

/-- **What a pass that returns can do**: with no room, `Ready` with nothing; otherwise what
polling the future gave, `Pending`, its error or its panic, or, the reader resumed, the
underflow panic, bytes served, or end of file once no inner reader is left. -/
theorem pollReadBody_returned {result : Option (ReadPoll × DecompressionReader × List Bool)}
    (ran : pollReadBody codecs cap reader sched = .inl result) :
    (cap = 0 ∧ result = some (.ready [], reader, sched)) ∨
      (∃ sched', pollFuture codecs reader sched = (.pending, sched') ∧
        result = some (.pending, reader, sched')) ∨
      (∃ e sched', pollFuture codecs reader sched = (.failed e, sched') ∧
        result = some (.failed e, { reader with blockReadingFuture := none }, sched')) ∨
      (∃ sched', pollFuture codecs reader sched = (.panicked, sched') ∧ result = none) ∨
      ∃ resumed sched', pollFuture codecs reader sched = (.resumed resumed, sched') ∧
        ((resumed.decompressed.length < resumed.position ∧ result = none) ∨
          (resumed.position < resumed.decompressed.length ∧
            result = some (.ready ((resumed.decompressed.drop resumed.position).take
                (min (resumed.decompressed.length - resumed.position) cap)),
              { resumed with
                position := resumed.position +
                  min (resumed.decompressed.length - resumed.position) cap }, sched')) ∨
          (resumed.position = resumed.decompressed.length ∧ resumed.inner = none ∧
            result = some (.ready [], resumed, sched'))) := by
  unfold pollReadBody at ran
  split at ran
  · cases ran
    exact .inl ⟨‹_›, rfl⟩
  split at ran
  · rename_i _ polled
    cases ran
    exact .inr (.inl ⟨_, polled, rfl⟩)
  · rename_i _ _ polled
    cases ran
    exact .inr (.inr (.inl ⟨_, _, polled, rfl⟩))
  · rename_i _ polled
    cases ran
    exact .inr (.inr (.inr (.inl ⟨_, polled, rfl⟩)))
  rename_i _ _ polled
  refine .inr (.inr (.inr (.inr ⟨_, _, polled, ?_⟩)))
  dsimp only at ran
  split at ran
  · cases ran
    exact .inl ⟨‹_›, rfl⟩
  split at ran
  · rename_i available
    cases ran
    exact .inr (.inl ⟨by omega, rfl⟩)
  split at ran
  · cases ran
  · rename_i fits exhausted _ noInner
    cases ran
    exact .inr (.inr ⟨by omega, noInner, rfl⟩)

/-- How many tail calls a `poll_read` on the reader can make: one for each 25 bytes of the
stream its future holds, and with no future, one more, for the tail call that starts it. -/
def tailCallBound (reader : DecompressionReader) : Nat :=
  match reader.blockReadingFuture, reader.inner with
  | some stream, _ => stream.length / 25
  | none, some inner => inner.length / 25 + 1
  | none, none => 0

theorem tailCallBound_lt (ran : pollReadBody codecs cap reader sched = .inr (reader', sched')) :
    tailCallBound reader' < tailCallBound reader := by
  rcases pollReadBody_tail ran with
    ⟨inner, idle, holds, -, -, rfl⟩ | ⟨stream, rest, future, -, decoded, -, rfl⟩
  · simp [tailCallBound, idle, holds]
  · have consumed := length_add_le_of_decompress decoded
    simp only [tailCallBound, future]
    omega

end Tail

/-- **Induction over the passes of `poll_read`**: a property of a call's result holds when it
holds of every result the body returns, and carries back across every tail call. -/
theorem pollRead_induction (codecs : Codecs) (cap : Nat)
    (motive : DecompressionReader → List Bool →
      Option (ReadPoll × DecompressionReader × List Bool) → Prop)
    (done : ∀ reader sched result, pollReadBody codecs cap reader sched = .inl result →
      motive reader sched result)
    (tail : ∀ reader sched reader' sched',
      pollReadBody codecs cap reader sched = .inr (reader', sched') →
      motive reader' sched' (pollRead codecs cap reader' sched') →
      motive reader sched (pollRead codecs cap reader' sched'))
    (reader : DecompressionReader) (sched : List Bool) :
    motive reader sched (pollRead codecs cap reader sched) := by
  obtain ⟨n, bound⟩ : ∃ n, tailCallBound reader = n := ⟨_, rfl⟩
  induction n using Nat.strong_induction_on generalizing reader sched with
  | _ n ih =>
  rw [pollRead_eq_body]
  cases ran : pollReadBody codecs cap reader sched with
  | inl result => exact done reader sched result ran
  | inr next =>
    obtain ⟨reader', sched'⟩ := next
    exact tail reader sched reader' sched' ran
      (ih _ (bound ▸ tailCallBound_lt ran) reader' sched' rfl)

/-- At most `fuel` passes of `poll_read`'s body: `none` when they run out before the call
returns. -/
def pollReadWithin (codecs : Codecs) (cap : Nat) : Nat → DecompressionReader → List Bool →
    Option (Option (ReadPoll × DecompressionReader × List Bool))
  | 0, _, _ => none
  | fuel + 1, reader, sched =>
    match pollReadBody codecs cap reader sched with
    | .inl result => some result
    | .inr (reader', sched') => pollReadWithin codecs cap fuel reader' sched'

/-- More passes than the reader has room for tail calls give the call's result. -/
theorem pollReadWithin_of_lt (codecs : Codecs) (cap : Nat) (reader : DecompressionReader)
    (sched : List Bool) :
    ∀ fuel, tailCallBound reader < fuel →
      pollReadWithin codecs cap fuel reader sched = some (pollRead codecs cap reader sched) := by
  refine pollRead_induction codecs cap
    (fun reader sched result => ∀ fuel, tailCallBound reader < fuel →
      pollReadWithin codecs cap fuel reader sched = some result) ?_ ?_ reader sched
  · intro reader sched result ran fuel enough
    obtain ⟨fuel, rfl⟩ := Nat.exists_eq_add_of_lt enough
    rw [pollReadWithin, ran]
  · intro reader sched reader' sched' ran ih fuel enough
    obtain ⟨fuel, rfl⟩ := Nat.exists_eq_add_of_lt enough
    rw [pollReadWithin, ran]
    exact ih _ (by have := tailCallBound_lt ran; omega)

/-- **`poll_read` terminates, and its tail call goes no deeper than the stream allows.**  A tail
call always hands the recursion a reader whose future has just been made; when the pass it
comes from began with a future (as every pass but a call's first does), that future completed
at its first poll with an empty frame, taking at least 25 bytes off the stream.  So a call on a
reader returns within `tailCallBound reader + 1` passes of its body: `s.length / 25 + 1` when
the reader's future holds `s`, and `s.length / 25 + 2` when it holds the inner reader `s`, the
first tail call taking nothing. -/
theorem pollRead_tail_calls_bounded (codecs : Codecs) (cap : Nat) (reader : DecompressionReader)
    (sched : List Bool) :
    (∀ reader' sched', pollReadBody codecs cap reader sched = .inr (reader', sched') →
      ∃ rest, reader'.blockReadingFuture = some rest ∧
        ∀ stream, reader.blockReadingFuture = some stream → sched.head? ≠ some true ∧
          (decompressDataAsync codecs reader.mode).run stream = .ok ([], rest) ∧
          rest.length + 25 ≤ stream.length) ∧
      pollReadWithin codecs cap (tailCallBound reader + 1) reader sched =
        some (pollRead codecs cap reader sched) := by
  refine ⟨fun reader' sched' ran => ?_, pollReadWithin_of_lt codecs cap reader sched _ (by omega)⟩
  rcases pollReadBody_tail ran with
    ⟨inner, idle, -, -, -, rfl⟩ | ⟨stream, rest, future, head, decoded, -, rfl⟩
  · exact ⟨inner, rfl, fun _ future => by rw [idle] at future; cases future⟩
  · refine ⟨rest, rfl, fun stream' future' => ?_⟩
    cases future.symm.trans future'
    exact ⟨head, decoded, length_add_le_of_decompress decoded⟩

/-! ### The reader's state invariant -/

namespace DecompressionReader

/-- The bytes of the inner stream the reader still holds: in its future, or in its inner
reader. -/
def held (reader : DecompressionReader) : List UInt8 :=
  match reader.blockReadingFuture, reader.inner with
  | some stream, _ => stream
  | none, some inner => inner
  | none, none => []

theorem held_future {reader : DecompressionReader} {stream : List UInt8}
    (future : reader.blockReadingFuture = some stream) : reader.held = stream := by
  simp [held, future]

theorem held_inner {reader : DecompressionReader} {inner : List UInt8}
    (idle : reader.blockReadingFuture = none) (holds : reader.inner = some inner) :
    reader.held = inner := by
  simp [held, idle, holds]

/-- **A reader that has ended** holds neither an inner reader nor a future: `poll_read` reports
end of file on it. -/
def Ended (reader : DecompressionReader) : Prop :=
  reader.inner = none ∧ reader.blockReadingFuture = none

instance : DecidablePred Ended := fun _ => inferInstanceAs (Decidable (_ ∧ _))

end DecompressionReader

open DecompressionReader

/-- **The reader's state invariant**: beyond `Valid`, the position never passes the end of the
payload, and a reader without its inner reader has served its payload. -/
structure Consistent (reader : DecompressionReader) extends Valid reader : Prop where
  position_le : reader.position ≤ reader.decompressed.length
  drained : reader.inner = none → reader.decompressed.length ≤ reader.position

/-- `new` makes a consistent reader that holds its inner reader. -/
theorem consistent_new {codecs : Codecs} {mode : CompressionMethod} {inner : List UInt8}
    {reader : DecompressionReader} (created : DecompressionReader.new codecs mode inner = .ok reader) :
    Consistent reader ∧ ¬reader.Ended := by
  rw [DecompressionReader.new, Outcome.bind_eq_ok] at created
  obtain ⟨⟨decompressed, rest⟩, -, made⟩ := created
  cases made
  exact ⟨⟨valid_of_idle rfl, Nat.zero_le _, nofun⟩, fun ended => nomatch ended.1⟩

/-- **What a call's result says about the reader it was made on**: a panic is the decoder's, on
bytes the reader still holds; any other result leaves a consistent reader, which has ended
exactly when the reader had or the call returned an error, and fills nothing exactly when the
reader had ended or the buffer had no room. -/
def CallSpec (codecs : Codecs) (cap : Nat) (reader : DecompressionReader) :
    Option (ReadPoll × DecompressionReader × List Bool) → Prop
  | none => ∃ stream, stream <:+ reader.held ∧
      (decompressDataAsync codecs reader.mode).run stream = .panic
  | some (poll, reader', _) => Consistent reader' ∧
      (reader'.Ended ↔ reader.Ended ∨ ∃ e, poll = .failed e) ∧
      (poll = .ready [] ↔ reader.Ended ∨ cap = 0)

section Spec

variable {codecs : Codecs} {cap : Nat} {reader reader' : DecompressionReader}
  {sched sched' : List Bool}

/-- A future's completion leaves a consistent reader with no future, which has ended exactly
when the reader had. -/
theorem Consistent.resumed (consistent : Consistent reader)
    (polled : pollFuture codecs reader sched = (.resumed reader', sched')) :
    Consistent reader' ∧ reader'.blockReadingFuture = none ∧ (reader'.Ended ↔ reader.Ended) := by
  rcases pollFuture_resumed_cases polled with
    ⟨idle, rfl, -⟩ | ⟨stream, value, rest, future, -, -, -, rfl⟩
  · exact ⟨consistent, idle, Iff.rfl⟩
  · exact ⟨⟨valid_of_idle rfl, Nat.zero_le _, nofun⟩, rfl, by simp [Ended, future]⟩

/-- **One pass that returns** keeps to `CallSpec`. -/
theorem Consistent.callSpec_body {result : Option (ReadPoll × DecompressionReader × List Bool)}
    (consistent : Consistent reader) (ran : pollReadBody codecs cap reader sched = .inl result) :
    CallSpec codecs cap reader result := by
  unfold pollReadBody at ran
  split at ran
  · -- no room in the buffer
    rename_i noRoom
    cases ran
    exact ⟨consistent, by simp, by simp [noRoom]⟩
  rename_i room
  split at ran
  · -- the future is pending
    rename_i _ polled
    cases ran
    have live : ¬reader.Ended := fun ended => future_of_pollFuture polled nofun ended.2
    exact ⟨consistent, by simp, by simp [live, room]⟩
  · -- the future failed
    rename_i e _ polled
    cases ran
    have live : ¬reader.Ended := fun ended => future_of_pollFuture polled nofun ended.2
    have noInner := (pollFuture_failed consistent.toValid polled).2
    exact ⟨⟨valid_of_idle rfl, consistent.position_le, consistent.drained⟩,
      by simp [Ended, noInner], by simp [live, room]⟩
  · -- the future panicked
    rename_i _ polled
    cases ran
    obtain ⟨stream, future, panicked⟩ := pollFuture_panicked polled
    exact ⟨stream, by rw [held_future future], panicked⟩
  · -- the future completed, or there was none
    rename_i resumed _ polled
    obtain ⟨consistent', idle, sameEnd⟩ := consistent.resumed polled
    dsimp only at ran
    split at ran
    · exact absurd consistent'.position_le (by omega)
    split at ran
    · -- serve what is left of the payload
      rename_i available
      cases ran
      have live : resumed.inner ≠ none := fun noInner => by
        have := consistent'.drained noInner
        omega
      refine ⟨⟨valid_of_idle idle, by simp only; omega, fun noInner => absurd noInner live⟩,
        by rw [← sameEnd]; simp [Ended, live], ?_⟩
      rw [← sameEnd]
      simp [Ended, live, List.take_eq_nil_iff]
      omega
    · split at ran
      · cases ran
      · -- end of file
        rename_i holds
        cases ran
        exact ⟨consistent', by simp [sameEnd], by rw [← sameEnd]; simp [Ended, holds, idle]⟩

/-- The reader a tail call recurses on is consistent and holds a future: neither it nor the
reader before it has ended, and what it holds is the end of what that reader held. -/
theorem pollReadBody_tail_reader
    (ran : pollReadBody codecs cap reader sched = .inr (reader', sched')) :
    Consistent reader' ∧ ¬reader.Ended ∧ ¬reader'.Ended ∧ reader'.mode = reader.mode ∧
      reader'.held <:+ reader.held := by
  rcases pollReadBody_tail ran with
    ⟨inner, idle, holds, atEnd, -, rfl⟩ | ⟨stream, rest, future, -, decoded, -, rfl⟩
  · refine ⟨⟨⟨fun _ _ => ⟨rfl, atEnd.ge⟩⟩, atEnd.le, fun _ => atEnd.ge⟩, ?_, ?_, rfl, ?_⟩
    · simp [Ended, holds]
    · simp [Ended]
    · rw [held_future rfl, held_inner idle holds]
  · obtain ⟨consumed, whole, -, -⟩ :=
      reads_decompressDataAsync codecs reader.mode stream [] rest decoded
    refine ⟨⟨⟨fun _ _ => ⟨rfl, le_refl _⟩⟩, le_refl _, fun _ => le_refl _⟩, ?_, ?_, rfl, ?_⟩
    · simp [Ended, future]
    · simp [Ended]
    · rw [held_future rfl, held_future future, whole]
      exact List.suffix_append _ _

/-- `CallSpec` carries back across a tail call. -/
theorem callSpec_tail (ran : pollReadBody codecs cap reader sched = .inr (reader', sched'))
    {result : Option (ReadPoll × DecompressionReader × List Bool)}
    (spec : CallSpec codecs cap reader' result) : CallSpec codecs cap reader result := by
  obtain ⟨-, live, live', sameMode, suffix⟩ := pollReadBody_tail_reader ran
  match result, spec with
  | none, ⟨stream, within, panicked⟩ => exact ⟨stream, within.trans suffix, sameMode ▸ panicked⟩
  | some (_, _, _), ⟨consistent, ended, empty⟩ =>
    exact ⟨consistent, by rw [ended]; simp [live, live'], by rw [empty]; simp [live, live']⟩

end Spec

/-- **One `poll_read` on a consistent reader keeps to `CallSpec`.** -/
theorem pollRead_callSpec (codecs : Codecs) (cap : Nat) {reader : DecompressionReader}
    (consistent : Consistent reader) (sched : List Bool) :
    CallSpec codecs cap reader (pollRead codecs cap reader sched) :=
  pollRead_induction codecs cap
    (fun reader _ result => Consistent reader → CallSpec codecs cap reader result)
    (fun _ _ _ ran consistent => consistent.callSpec_body ran)
    (fun _ _ _ _ ran ih _ => callSpec_tail ran (ih (pollReadBody_tail_reader ran).1))
    reader sched consistent

/-! ### Reachable states -/

/-- **The states a reader reaches**, with the results of the calls that led there: `new` on any
stream, then any run of `poll_read` calls, each with any room in the buffer and under any
schedule of `Pending`s; a call that panics ends the run. -/
inductive Reachable (codecs : Codecs) : DecompressionReader → List ReadPoll → Prop
  | new {mode : CompressionMethod} {inner : List UInt8} {reader : DecompressionReader} :
      DecompressionReader.new codecs mode inner = .ok reader → Reachable codecs reader []
  | call {reader reader' : DecompressionReader} {polls : List ReadPoll} {cap : Nat}
      {sched sched' : List Bool} {poll : ReadPoll} :
      Reachable codecs reader polls → pollRead codecs cap reader sched = some (poll, reader', sched') →
      Reachable codecs reader' (polls ++ [poll])

/-- **The run lemma**: every reachable state is consistent, and has ended only once a call has
returned an error. -/
theorem reachable_consistent {codecs : Codecs} {reader : DecompressionReader}
    {polls : List ReadPoll} (reached : Reachable codecs reader polls) :
    Consistent reader ∧ (reader.Ended → ∃ e, ReadPoll.failed e ∈ polls) := by
  induction reached with
  | new created =>
    obtain ⟨consistent, live⟩ := consistent_new created
    exact ⟨consistent, fun ended => absurd ended live⟩
  | @call reader reader' polls cap sched sched' poll _ ran ih =>
    have spec := pollRead_callSpec codecs cap ih.1 sched
    rw [ran] at spec
    obtain ⟨consistent, ended, -⟩ := spec
    refine ⟨consistent, fun nowEnded => ?_⟩
    rcases ended.mp nowEnded with wasEnded | ⟨e, rfl⟩
    · obtain ⟨e, member⟩ := ih.2 wasEnded
      exact ⟨e, List.mem_append_left _ member⟩
    · exact ⟨e, List.mem_append_right _ (List.mem_singleton_self _)⟩

/-- **Every state a reader reaches keeps its invariant.**  After `new` and any run of
`poll_read` calls, with any room in the buffers and any `Pending`s of the future: the position
never passes the end of the payload, so `self.decompressed.len() - self.position` does not
underflow, and a call panics only where the decoder panics on bytes the reader still holds;
the reader never holds both an inner reader and a future; and it holds neither only once a
call has returned an error. -/
theorem decompressionReader_state_invariant {codecs : Codecs} {reader : DecompressionReader}
    {polls : List ReadPoll} (reached : Reachable codecs reader polls) :
    reader.position ≤ reader.decompressed.length ∧
      (reader.inner = none ∨ reader.blockReadingFuture = none) ∧
      (reader.inner = none → reader.blockReadingFuture = none → ∃ e, ReadPoll.failed e ∈ polls) ∧
      ∀ cap sched, pollRead codecs cap reader sched = none →
        ∃ stream, stream <:+ reader.held ∧
          (decompressDataAsync codecs reader.mode).run stream = .panic := by
  obtain ⟨consistent, ended⟩ := reachable_consistent reached
  refine ⟨consistent.position_le, ?_, fun noInner idle => ended ⟨noInner, idle⟩,
    fun cap sched panicked => ?_⟩
  · cases future : reader.blockReadingFuture with
    | none => exact .inr rfl
    | some stream => exact .inl (consistent.handed_over stream future).1
  · have spec := pollRead_callSpec codecs cap consistent sched
    rwa [panicked] at spec

/-- The identity codecs' frame of `[1]`: `new`, then a call with one byte of room, which
delivers it. -/
theorem decompressionReader_state_invariant_identity :
    Reachable identityCodecs ⟨.lz4, some [], [1], 1, none⟩ [.ready [1]] ∧
      (1 ≤ [1].length ∧ (some ([] : List UInt8) = none ∨ (none : Option (List UInt8)) = none) ∧
        (some ([] : List UInt8) = none → (none : Option (List UInt8)) = none →
          ∃ e, ReadPoll.failed e ∈ [ReadPoll.ready [1]]) ∧
        ∀ cap sched, pollRead identityCodecs cap ⟨.lz4, some [], [1], 1, none⟩ sched = none →
          ∃ stream, stream <:+ DecompressionReader.held ⟨.lz4, some [], [1], 1, none⟩ ∧
            (decompressDataAsync identityCodecs .lz4).run stream = .panic) :=
  have created : Reachable identityCodecs ⟨.lz4, some [], [1], 0, none⟩ [] :=
    .new (by rw [DecompressionReader.new, identityFrame_accepted [1] (by decide)]; rfl)
  have served : pollRead identityCodecs 1 ⟨.lz4, some [], [1], 0, none⟩ [] =
      some (.ready [1], ⟨.lz4, some [], [1], 1, none⟩, []) := by
    rw [pollRead_eq_body]
    rfl
  have reached : Reachable identityCodecs ⟨.lz4, some [], [1], 1, none⟩ [.ready [1]] :=
    .call created served
  ⟨reached, decompressionReader_state_invariant reached⟩

/-! ### End of file -/

/-- **Over a run, a call fills nothing exactly after an error**: with room in every buffer,
from a consistent reader, a call returns `Ready(Ok)` with nothing in the buffer exactly when
the reader had ended or an earlier call of the run returned an error. -/
theorem readCalls_eof_iff_failed (codecs : Codecs) :
    ∀ (caps : List Nat) (reader : DecompressionReader) (sched : List Bool), Consistent reader →
      (∀ cap ∈ caps, 0 < cap) → ∀ (i : Nat) (poll : ReadPoll),
      (readCalls codecs caps reader sched)[i]? = some poll →
      (poll = .ready [] ↔ reader.Ended ∨
        ∃ j < i, ∃ e, (readCalls codecs caps reader sched)[j]? = some (.failed e))
  | [], _, _, _, _, _, _, found => by simp [readCalls] at found
  | cap :: caps, reader, sched, consistent, room, i, poll, found => by
    have spec := pollRead_callSpec codecs cap consistent sched
    cases ran : pollRead codecs cap reader sched with
    | none => simp [readCalls, ran] at found
    | some result =>
      obtain ⟨first, reader', sched'⟩ := result
      rw [ran] at spec
      obtain ⟨consistent', ended, empty⟩ := spec
      simp only [readCalls, ran] at found ⊢
      cases i with
      | zero =>
        simp only [List.getElem?_cons_zero, Option.some.injEq] at found
        subst found
        simp [empty, (room cap (List.mem_cons_self _ _)).ne']
      | succ i =>
        rw [List.getElem?_cons_succ] at found
        rw [readCalls_eof_iff_failed codecs caps reader' sched' consistent'
          (fun c member => room c (List.mem_cons_of_mem _ member)) i poll found, ended]
        constructor
        · rintro ((wasEnded | ⟨e, rfl⟩) | ⟨j, below, e, failed⟩)
          · exact .inl wasEnded
          · exact .inr ⟨0, Nat.zero_lt_succ _, e, List.getElem?_cons_zero⟩
          · exact .inr ⟨j + 1, Nat.succ_lt_succ below, e, by rwa [List.getElem?_cons_succ]⟩
        · rintro (wasEnded | ⟨j, below, e, failed⟩)
          · exact .inl (.inl wasEnded)
          · cases j with
            | zero => exact .inl (.inr ⟨e, by simpa using failed⟩)
            | succ j =>
              rw [List.getElem?_cons_succ] at failed
              exact .inr ⟨j, Nat.lt_of_succ_lt_succ below, e, failed⟩

/-- **End of file comes exactly after an error.**  Over any run of `poll_read` calls on a reader
`new` made, with room in every buffer, a call returns `Ready(Ok)` with nothing in the buffer
exactly when an earlier call has returned an error. -/
theorem decompressionReader_eof_iff_failed {codecs : Codecs} {mode : CompressionMethod}
    {inner : List UInt8} {reader : DecompressionReader}
    (created : DecompressionReader.new codecs mode inner = .ok reader) (caps : List Nat)
    (sched : List Bool) (room : ∀ cap ∈ caps, 0 < cap) {i : Nat} {poll : ReadPoll}
    (found : (readCalls codecs caps reader sched)[i]? = some poll) :
    poll = .ready [] ↔ ∃ j < i, ∃ e, (readCalls codecs caps reader sched)[j]? = some (.failed e) := by
  obtain ⟨consistent, live⟩ := consistent_new created
  rw [readCalls_eof_iff_failed codecs caps reader sched consistent room i poll found,
    or_iff_right live]

/-- The first call on the reader of one identity frame of `[1]` fills its byte. -/
theorem decompressionReader_eof_iff_failed_identity :
    DecompressionReader.new identityCodecs .lz4 (identityFrame [1]).1 =
        .ok ⟨.lz4, some [], [1], 0, none⟩ ∧ (∀ cap ∈ [1], 0 < cap) ∧
      (readCalls identityCodecs [1] ⟨.lz4, some [], [1], 0, none⟩ [])[0]? = some (.ready [1]) ∧
      (ReadPoll.ready [1] = .ready [] ↔ ∃ j < 0, ∃ e,
        (readCalls identityCodecs [1] ⟨.lz4, some [], [1], 0, none⟩ [])[j]? = some (.failed e)) := by
  have created : DecompressionReader.new identityCodecs .lz4 (identityFrame [1]).1 =
      .ok ⟨.lz4, some [], [1], 0, none⟩ := by
    rw [DecompressionReader.new, identityFrame_accepted [1] (by decide)]
    rfl
  have served : pollRead identityCodecs 1 ⟨.lz4, some [], [1], 0, none⟩ [] =
      some (.ready [1], ⟨.lz4, some [], [1], 1, none⟩, []) := by
    rw [pollRead_eq_body]
    rfl
  have found : (readCalls identityCodecs [1] ⟨.lz4, some [], [1], 0, none⟩ [])[0]? =
      some (.ready [1]) := by
    rw [readCalls, served]
    rfl
  exact ⟨created, by decide, found,
    decompressionReader_eof_iff_failed created [1] [] (by decide) found⟩

/-- **At a clean end of the stream a call returns an error.**  A reader that has served its
payload and holds the inner stream with nothing left on it, every frame decoded, moves it into
a future when a call has room; once the future completes, it has failed to read the next
frame's checksum, and the call returns that error rather than end of file. -/
theorem pollRead_clean_end (codecs : Codecs) {cap : Nat} (positive : 0 < cap)
    (mode : CompressionMethod) (decompressed : List UInt8) {sched : List Bool}
    (completes : sched.head? ≠ some true) :
    pollRead codecs cap ⟨mode, some [], decompressed, decompressed.length, none⟩ sched =
      some (.failed (.protocol ("Failed to read checksum high: " ++ IoErrorKind.unexpectedEof.text)),
        ⟨mode, none, decompressed, decompressed.length, none⟩, sched.tail) := by
  have started : pollReadBody codecs cap ⟨mode, some [], decompressed, decompressed.length, none⟩
      sched = .inr (⟨mode, none, decompressed, decompressed.length, some []⟩, sched) := by
    simp [pollReadBody, positive.ne', pollFuture_idle]
  have failed : pollReadBody codecs cap ⟨mode, none, decompressed, decompressed.length, some []⟩
      sched = .inl (some (.failed (.protocol
        ("Failed to read checksum high: " ++ IoErrorKind.unexpectedEof.text)),
        ⟨mode, none, decompressed, decompressed.length, none⟩, sched.tail)) := by
    match sched, completes with
    | [], _ => simp [pollReadBody, positive.ne', pollFuture]; rfl
    | false :: _, _ => simp [pollReadBody, positive.ne', pollFuture]; rfl
  rw [pollRead_eq_body, started]
  show pollRead codecs cap ⟨mode, none, decompressed, decompressed.length, some []⟩ sched = _
  rw [pollRead_eq_body, failed]

/-- The identity codecs' frame of `[1]`, alone on the stream: `new` decodes it, a first call
delivers its byte, the second, at the clean end of the stream, returns an error, and the third
reports end of file. -/
theorem decompressionReader_clean_end_errors :
    DecompressionReader.new identityCodecs .lz4 (identityFrame [1]).1 =
        .ok ⟨.lz4, some [], [1], 0, none⟩ ∧
      readCalls identityCodecs [1, 1, 1] ⟨.lz4, some [], [1], 0, none⟩ [] =
        [.ready [1], .failed (.protocol
          ("Failed to read checksum high: " ++ IoErrorKind.unexpectedEof.text)), .ready []] := by
  refine ⟨by rw [DecompressionReader.new, identityFrame_accepted [1] (by decide)]; rfl, ?_⟩
  have served : pollRead identityCodecs 1 ⟨.lz4, some [], [1], 0, none⟩ [] =
      some (.ready [1], ⟨.lz4, some [], [1], 1, none⟩, []) := by
    rw [pollRead_eq_body]
    rfl
  have clean : pollRead identityCodecs 1 ⟨.lz4, some [], [1], 1, none⟩ [] =
      some (.failed (.protocol ("Failed to read checksum high: " ++
        IoErrorKind.unexpectedEof.text)), ⟨.lz4, none, [1], 1, none⟩, []) :=
    pollRead_clean_end identityCodecs Nat.one_pos .lz4 [1] (by decide)
  have ended : pollRead identityCodecs 1 ⟨.lz4, none, [1], 1, none⟩ [] =
      some (.ready [], ⟨.lz4, none, [1], 1, none⟩, []) := by
    rw [pollRead_eq_body]
    rfl
  simp only [readCalls, served, clean, ended]

end ClickHouseArrow.Compression
