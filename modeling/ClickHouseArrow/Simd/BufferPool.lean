import ClickHouseArrow.Basic

/-!
# The buffer pool (simd.rs)

`BufferPool` recycles `Vec<u8>` allocations in five tiers by capacity: Tiny (up to 1 KiB),
Small (4 KiB), Medium (64 KiB), Large (1 MiB) and XLarge (beyond), each a queue behind its
own mutex.  `get(capacity)` takes the buffer at the front of the tier of `capacity`, clears
it and returns it if it is large enough, and otherwise allocates a buffer of
`round_up_capacity(capacity)`.  `put(buf)` files a buffer of at least 512 bytes at the back
of the tier of its capacity while that tier holds fewer than `MAX_POOL_SIZE = 32`.
`prewarm` puts four buffers of each of the three smallest tiers, and dropping a
`PooledBuffer` puts its buffer back.

## Main Definitions

* `Buffer`, `BufferPool` — a `Vec<u8>` as the pool sees it, and the five tier queues.
* `BufferPool.bucketForSize`, `BufferPool.roundUpCapacity`, `nextPowerOfTwo`,
  `withCapacity` — the size arithmetic and the allocation.
* `BufferPool.get`, `BufferPool.put`, `BufferPool.prewarm` — the operations.
* `PoolOp`, `BufferPool.run` — operations of any threads, in any interleaving.

## Main results

* `tiersValid_run` — after any sequence of operations from `new`, every tier holds at most
  32 buffers, each of at least 512 bytes and in the tier of its capacity.
* `get_spec` — `get(c)` returns an empty buffer, of capacity at least `c` if `c ≤ 2 ^ 63`,
  and returns one whenever `c ≤ 2 ^ 62`.
* `get_put_get_reuses` — a buffer `get(c)` allocates on an empty tier is filed by `put` in
  that tier (`bucketForSize_roundUpCapacity`), and the next `get` in the tier returns it.
* `get_next_power_of_two_wraps` — past `2 ^ 63`, `round_up_capacity` wraps to 0, and `get`
  returns a buffer of capacity 0.

## Design Notes

`usize` is 64 bits wide.  Every operation locks only the mutex of its tier and holds it to
its end, so any interleaving of the threads is a sequence of whole `get`s and `put`s;
`prewarm` is twelve `put`s, between which other threads may run.  A `get` that panics has
already taken its buffer from the queue, and `parking_lot` mutexes are not poisoned, so the
pool it leaves stays in use.  For bytes, `Vec::with_capacity(n)` gives a buffer of capacity
exactly `n`, and panics (capacity overflow) past `isize::MAX`.  `usize::next_power_of_two`
is taken as in a release build: past `2 ^ 63` it wraps to 0 (a debug build panics).  A
buffer's bytes are not modelled, only its length, which `clear` sets to 0.
-/

namespace ClickHouseArrow.Simd

/-- A `Vec<u8>` as the pool handles it: its length and its capacity. -/
structure Buffer where
  len : Nat
  capacity : Nat
  deriving DecidableEq, Repr

/-- `isize::MAX`: the largest capacity `Vec::with_capacity` accepts for bytes. -/
def isizeMax : Nat := 2 ^ 63 - 1

/-- `Vec::with_capacity(capacity)`: an empty buffer of exactly that capacity; past
`isize::MAX` bytes it panics. -/
def withCapacity (capacity : Nat) : Option Buffer :=
  if capacity ≤ isizeMax then some ⟨0, capacity⟩ else none

/-- `usize::next_power_of_two` in a release build: the least power of two at least `size`,
which past `2 ^ 63` overflows `usize` and wraps to 0. -/
def nextPowerOfTwo (size : Nat) : Nat :=
  if size ≤ 2 ^ 63 then 2 ^ Nat.clog 2 size else 0

/-- `BufferPool`: the queues of its five tiers, Tiny to XLarge. -/
structure BufferPool where
  pools : Fin 5 → List Buffer

namespace BufferPool

/-- `BufferPool::TINY`. -/
def tiny : Nat := 1024

/-- `BufferPool::SMALL`. -/
def small : Nat := 4 * 1024

/-- `BufferPool::MEDIUM`. -/
def medium : Nat := 64 * 1024

/-- `BufferPool::LARGE`. -/
def large : Nat := 1024 * 1024

/-- `BufferPool::MAX_POOL_SIZE`. -/
def maxPoolSize : Nat := 32

/-- `BufferPool::bucket_for_size(size)`. -/
def bucketForSize (size : Nat) : Nat :=
  if size ≤ tiny then 0
  else if size ≤ small then 1
  else if size ≤ medium then 2
  else if size ≤ large then 3
  else 4

theorem bucketForSize_lt (size : Nat) : bucketForSize size < 5 := by
  unfold bucketForSize
  split_ifs <;> decide

/-- The queue `self.pools[bucket_for_size(size)]` locks: the index is below 5, so it never
panics. -/
def tier (size : Nat) : Fin 5 := ⟨bucketForSize size, bucketForSize_lt size⟩

/-- `BufferPool::round_up_capacity(size)`. -/
def roundUpCapacity (size : Nat) : Nat :=
  if size ≤ tiny then tiny
  else if size ≤ small then small
  else if size ≤ medium then medium
  else if size ≤ large then large
  else nextPowerOfTwo size

/-- `BufferPool::new()`. -/
def new : BufferPool := ⟨fun _ => []⟩

/-- `get(capacity)`: the pool it leaves, and the buffer it returns, `none` if it panics.  The
buffer at the front of the queue is cleared, and dropped if it is too small. -/
def get (pool : BufferPool) (capacity : Nat) : BufferPool × Option Buffer :=
  match pool.pools (tier capacity) with
  | buf :: rest =>
    let pool : BufferPool := ⟨Function.update pool.pools (tier capacity) rest⟩
    let buf : Buffer := { buf with len := 0 }
    if buf.capacity ≥ capacity then (pool, some buf)
    else (pool, withCapacity (roundUpCapacity capacity))
  | [] => (pool, withCapacity (roundUpCapacity capacity))

/-- `put(buf)`: a buffer below `TINY / 2` bytes, or one whose tier is full, is dropped. -/
def put (pool : BufferPool) (buf : Buffer) : BufferPool :=
  if buf.capacity < tiny / 2 then pool
  else if (pool.pools (tier buf.capacity)).length < maxPoolSize then
    ⟨Function.update pool.pools (tier buf.capacity) (pool.pools (tier buf.capacity) ++ [buf])⟩
  else pool

/-- `prewarm()`: four rounds of `put(Vec::with_capacity(c))` for `c` = `TINY`, `SMALL`,
`MEDIUM`, none of which is past `isize::MAX`. -/
def prewarm (pool : BufferPool) : BufferPool :=
  (List.range 4).foldl (fun pool _ => ((pool.put ⟨0, tiny⟩).put ⟨0, small⟩).put ⟨0, medium⟩) pool

end BufferPool

/-- An operation of a thread on the pool, whole under the mutex of its tier: `get`, also
through `PooledBuffer::with_capacity`, or `put`, also through the drop of a `PooledBuffer`
that still holds its buffer. -/
inductive PoolOp where
  | get (capacity : Nat)
  | put (buf : Buffer)

namespace BufferPool

/-- One operation; a `get` leaves its pool whether it returns or panics. -/
def step (pool : BufferPool) : PoolOp → BufferPool
  | .get capacity => (pool.get capacity).1
  | .put buf => pool.put buf

/-- A sequence of operations: the threads' operations in the order they took the locks. -/
def run (pool : BufferPool) (ops : List PoolOp) : BufferPool :=
  ops.foldl step pool

/-- The twelve `put`s `prewarm` makes. -/
def prewarmOps : List PoolOp :=
  (List.range 4).flatMap fun _ => [.put ⟨0, tiny⟩, .put ⟨0, small⟩, .put ⟨0, medium⟩]

theorem run_append (pool : BufferPool) (ops ops' : List PoolOp) :
    pool.run (ops ++ ops') = (pool.run ops).run ops' :=
  List.foldl_append ..

/-- `prewarm` on its own is the run of its `put`s. -/
theorem prewarm_eq_run (pool : BufferPool) : pool.prewarm = pool.run prewarmOps := by
  unfold prewarm run prewarmOps
  generalize List.range 4 = rounds
  induction rounds generalizing pool with
  | nil => rfl
  | cons _ rounds ih => rw [List.foldl_cons, List.flatMap_cons, List.foldl_append, ← ih]; rfl

/-! ### The tiers' invariant -/

/-- **The pool's invariant**: every tier holds at most `MAX_POOL_SIZE` buffers, each of at
least `TINY / 2` bytes and filed in the tier of its capacity. -/
structure TiersValid (pool : BufferPool) : Prop where
  bounded : ∀ t, (pool.pools t).length ≤ maxPoolSize
  filed : ∀ t, ∀ buf ∈ pool.pools t, tiny / 2 ≤ buf.capacity ∧ tier buf.capacity = t

theorem tiersValid_new : TiersValid new :=
  ⟨fun _ => Nat.zero_le _, fun _ _ member => by cases member⟩

section Step

variable {pool : BufferPool}

/-- Replacing one tier's queue by a queue that keeps the invariant keeps it. -/
theorem TiersValid.update (valid : TiersValid pool) {t : Fin 5} {queue : List Buffer}
    (bounded : queue.length ≤ maxPoolSize)
    (filed : ∀ buf ∈ queue, tiny / 2 ≤ buf.capacity ∧ tier buf.capacity = t) :
    TiersValid ⟨Function.update pool.pools t queue⟩ := by
  constructor
  · intro u
    dsimp only
    by_cases same : u = t
    · subst same
      rwa [Function.update_same]
    · rw [Function.update_noteq same]
      exact valid.bounded u
  · intro u buf member
    dsimp only at member
    by_cases same : u = t
    · subst same
      rw [Function.update_same] at member
      exact filed buf member
    · rw [Function.update_noteq same] at member
      exact valid.filed u buf member

/-- `get` only takes a buffer off the front of a queue. -/
theorem TiersValid.get (valid : TiersValid pool) (capacity : Nat) :
    TiersValid (pool.get capacity).1 := by
  unfold BufferPool.get
  split
  · rename_i buf rest front
    have kept : TiersValid ⟨Function.update pool.pools (tier capacity) rest⟩ := by
      refine valid.update ?_ fun b member => ?_
      · have := valid.bounded (tier capacity)
        rw [front, List.length_cons] at this
        omega
      · exact valid.filed _ b (by rw [front]; exact List.mem_cons_of_mem _ member)
    dsimp only
    split <;> exact kept
  · exact valid

/-- `put` files a buffer of at least `TINY / 2` bytes in the tier of its capacity, and only
while that tier has room. -/
theorem TiersValid.put (valid : TiersValid pool) (buf : Buffer) : TiersValid (pool.put buf) := by
  unfold BufferPool.put
  split_ifs with tooSmall room
  · exact valid
  · refine valid.update (by rw [List.length_append, List.length_singleton]; omega) fun b member => ?_
    rcases List.mem_append.mp member with queued | added
    · exact valid.filed _ b queued
    · rw [List.mem_singleton.mp added]
      exact ⟨Nat.le_of_not_lt tooSmall, rfl⟩
  · exact valid

theorem TiersValid.step (valid : TiersValid pool) : ∀ op, TiersValid (pool.step op)
  | .get capacity => valid.get capacity
  | .put buf => valid.put buf

end Step

/-- **The run lemma**: a sequence of operations keeps the invariant. -/
theorem TiersValid.run : ∀ (ops : List PoolOp) {pool : BufferPool}, TiersValid pool →
    TiersValid (pool.run ops)
  | [], _, valid => valid
  | op :: ops, _, valid => TiersValid.run ops (valid.step op)

/-- **The buffer pool invariant**: after any sequence of `get`s and `put`s from `new`, in
any interleaving of the threads, `prewarm`s' `put`s included, every tier holds at most
`MAX_POOL_SIZE` buffers, each of at least 512 bytes and in the tier of its capacity. -/
theorem tiersValid_run (ops : List PoolOp) :
    ∀ t, ((new.run ops).pools t).length ≤ 32 ∧
      ∀ buf ∈ (new.run ops).pools t, 512 ≤ buf.capacity ∧ bucketForSize buf.capacity = t := by
  intro t
  have valid := TiersValid.run ops tiersValid_new
  exact ⟨valid.bounded t, fun buf member => ⟨(valid.filed t buf member).1,
    congrArg Fin.val (valid.filed t buf member).2⟩⟩

/-! ### What `get` returns -/

/-- `round_up_capacity` never rounds down, as long as `next_power_of_two` does not wrap. -/
theorem le_roundUpCapacity {size : Nat} (fits : size ≤ 2 ^ 63) : size ≤ roundUpCapacity size := by
  unfold roundUpCapacity nextPowerOfTwo
  split_ifs <;> first | assumption | exact Nat.le_pow_clog (by decide) size

/-- Up to `2 ^ 62`, `round_up_capacity` stays within `isize::MAX`. -/
theorem roundUpCapacity_le {size : Nat} (fits : size ≤ 2 ^ 62) :
    roundUpCapacity size ≤ isizeMax := by
  unfold roundUpCapacity nextPowerOfTwo isizeMax
  split_ifs with tinyFits smallFits mediumFits largeFits
  all_goals first
    | simp only [tiny, small, medium, large]; omega
    | have power : 2 ^ Nat.clog 2 size ≤ 2 ^ 62 :=
        Nat.pow_le_pow_right (by decide) ((Nat.le_pow_iff_clog_le (by decide)).mp fits)
      omega

/-- **What `get(c)` returns**: an empty buffer, with capacity at least `c` unless `c` is past
`2 ^ 63`; and for `c ≤ 2 ^ 62` it does not panic. -/
theorem get_spec (pool : BufferPool) (capacity : Nat) :
    (∀ buf, (pool.get capacity).2 = some buf →
      buf.len = 0 ∧ (capacity ≤ 2 ^ 63 → capacity ≤ buf.capacity)) ∧
      (capacity ≤ 2 ^ 62 → (pool.get capacity).2 ≠ none) := by
  have fresh : ∀ buf, withCapacity (roundUpCapacity capacity) = some buf →
      buf.len = 0 ∧ (capacity ≤ 2 ^ 63 → capacity ≤ buf.capacity) := by
    intro buf allocated
    unfold withCapacity at allocated
    split_ifs at allocated
    cases allocated
    exact ⟨rfl, le_roundUpCapacity⟩
  have allocates : capacity ≤ 2 ^ 62 → withCapacity (roundUpCapacity capacity) ≠ none := by
    intro fits
    rw [withCapacity, if_pos (roundUpCapacity_le fits)]
    exact Option.some_ne_none _
  unfold get
  split
  · dsimp only
    split_ifs with large
    · exact ⟨fun buf returned => by cases returned; exact ⟨rfl, fun _ => large⟩,
        fun _ => Option.some_ne_none _⟩
    · exact ⟨fresh, allocates⟩
  · exact ⟨fresh, allocates⟩

/-- **A fresh buffer goes back to the tier it was asked from**: for `c ≤ 2 ^ 63`, the
tier of `round_up_capacity(c)` is the tier of `c`. -/
theorem bucketForSize_roundUpCapacity {size : Nat} (fits : size ≤ 2 ^ 63) :
    bucketForSize (roundUpCapacity size) = bucketForSize size := by
  have above := le_roundUpCapacity fits
  unfold roundUpCapacity at above ⊢
  by_cases h₀ : size ≤ tiny
  · rw [if_pos h₀, bucketForSize, bucketForSize, if_pos h₀, if_pos le_rfl]
  by_cases h₁ : size ≤ small
  · rw [if_neg h₀, if_pos h₁, bucketForSize, bucketForSize, if_neg h₀, if_pos h₁]
    rfl
  by_cases h₂ : size ≤ medium
  · rw [if_neg h₀, if_neg h₁, if_pos h₂, bucketForSize, bucketForSize, if_neg h₀, if_neg h₁,
      if_pos h₂]
    rfl
  by_cases h₃ : size ≤ large
  · rw [if_neg h₀, if_neg h₁, if_neg h₂, if_pos h₃, bucketForSize, bucketForSize, if_neg h₀,
      if_neg h₁, if_neg h₂, if_pos h₃]
    rfl
  -- XLarge: the power of two is at least the size, so past `LARGE` too
  rw [if_neg h₀, if_neg h₁, if_neg h₂, if_neg h₃] at above ⊢
  have beyond : ¬nextPowerOfTwo size ≤ large := by omega
  have below : ∀ ceiling ≤ large, ¬nextPowerOfTwo size ≤ ceiling := fun _ le h => beyond (h.trans le)
  rw [bucketForSize, bucketForSize, if_neg h₀, if_neg h₁, if_neg h₂, if_neg h₃,
    if_neg (below tiny (by decide)), if_neg (below small (by decide)),
    if_neg (below medium (by decide)), if_neg beyond]

/-- Every buffer `get` allocates is at least `TINY`, so `put` keeps it. -/
theorem tiny_le_roundUpCapacity {size : Nat} (fits : size ≤ 2 ^ 63) :
    tiny ≤ roundUpCapacity size := by
  by_cases below : size ≤ tiny
  · rw [roundUpCapacity, if_pos below]
  · exact (Nat.le_of_not_le below).trans (le_roundUpCapacity fits)

/-- **A released buffer is the next one acquired in its tier.**  On a pool whose tier of `c`
is empty, for `c ≤ 2 ^ 62`: `get(c)` allocates a buffer of at least `c` bytes and leaves the
pool as it is.  Dropped, the buffer is filed by `put` in that tier, and the next `get` of any
request of the tier that it is large enough for returns it, cleared, and leaves the pool as it
was. -/
theorem get_put_get_reuses (pool : BufferPool) {capacity : Nat} (fits : capacity ≤ 2 ^ 62)
    (empty : pool.pools (tier capacity) = []) :
    ∃ buf, pool.get capacity = (pool, some buf) ∧ capacity ≤ buf.capacity ∧
      ∀ capacity', tier capacity' = tier capacity → capacity' ≤ buf.capacity →
        (pool.put buf).get capacity' = (pool, some buf) := by
  have allocated : withCapacity (roundUpCapacity capacity) =
      some ⟨0, roundUpCapacity capacity⟩ := by
    rw [withCapacity, if_pos (roundUpCapacity_le fits)]
  have filed : tier (roundUpCapacity capacity) = tier capacity :=
    Fin.ext (bucketForSize_roundUpCapacity (by omega))
  have kept : ¬roundUpCapacity capacity < tiny / 2 := by
    have := tiny_le_roundUpCapacity (show capacity ≤ 2 ^ 63 by omega)
    simp only [tiny] at this ⊢
    omega
  have restored : Function.update pool.pools (tier capacity) [] = pool.pools :=
    Function.update_eq_self_iff.mpr empty.symm
  refine ⟨⟨0, roundUpCapacity capacity⟩, by simp only [get, empty, allocated],
    le_roundUpCapacity (by omega), fun capacity' sameTier large => ?_⟩
  simp only [put, if_neg kept, filed, empty, List.length_nil, List.nil_append, maxPoolSize,
    show 0 < 32 from by decide, if_true, get, sameTier, Function.update_same,
    Function.update_idem, restored]
  simp only at large
  simp [large]

/-- A request of 100 bytes on a new pool: a 1 KiB buffer, which the next Tiny request gets
back. -/
theorem get_put_get_reuses_new :
    (100 ≤ 2 ^ 62 ∧ new.pools (tier 100) = []) ∧
      ∃ buf, new.get 100 = (new, some buf) ∧ 100 ≤ buf.capacity ∧
        ∀ capacity', tier capacity' = tier 100 → capacity' ≤ buf.capacity →
          (new.put buf).get capacity' = (new, some buf) :=
  ⟨⟨by norm_num, rfl⟩, get_put_get_reuses new (by norm_num) rfl⟩

/-- A request past `2 ^ 63` on a pool with no XLarge buffer: `next_power_of_two` wraps to 0,
`get` returns a buffer of capacity 0, and that tier is Tiny where the request's is XLarge. -/
theorem get_next_power_of_two_wraps :
    (new.get (2 ^ 63 + 1)).2 = some ⟨0, 0⟩ ∧
      bucketForSize (roundUpCapacity (2 ^ 63 + 1)) = 0 ∧ bucketForSize (2 ^ 63 + 1) = 4 := by
  decide

end BufferPool

end ClickHouseArrow.Simd
