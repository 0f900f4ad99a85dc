import Mathlib

/-!
# Shared vocabulary of the codec model

The codec's five components (varints, the buffer pool, the bitmap codec, the frame
codec and the sparse codec) are modelled in the modules under `ClickHouseArrow`.  This
module fixes what they share.

## Main Definitions

* `Error` — the variants of the crate's `Error` (errors.rs) that the codec raises, each
  with the text it carries.
* `Outcome` — what a call of a function returning `Result` does in Rust: it returns
  `Ok`, returns `Err`, or panics.  Functions of the source that return no `Result`
  (`expand_null_bitmap`, `encode_varint`) are modelled with `Option`, `none` being the
  panic (or, behind `get_unchecked`, the undefined behaviour) of an index out of bounds.
* `IoError` — a `std::io::Error` and its `Display` text; `tokio`'s integer reads and its
  `read_exact` fail with different ones when the bytes run out.
* `Writer` — a byte sink the writers `write_all` to, which may fail; `vecWriter`, a
  `Vec<u8>`, never does.
* `toLE` / `ofLE` — little-endian byte strings, the layout of every fixed-width field
  the frame codec writes and reads.

## Design Notes

The source computes on `u8`, `u32`, `u64` and `usize` with `&`, `|`, `!`, `>>`, `<<` and
`as` casts; the model keeps those types (`usize` is `UInt64`, the width of every target
the crate builds for) and the operations as written.  The bridge lemmas at the top of
this file move each operation to arithmetic on `Nat`, so that the codec's arithmetic
goals close by `omega` once the bits are named.  Lean 4.14 ships none of them for the
`UInt` types, only for `BitVec`, which the `UInt` types wrap.
-/

/-! ### Bridges from fixed-width operations to `Nat` -/

theorem UInt64.toNat_lor (a b : UInt64) : (a ||| b).toNat = a.toNat ||| b.toNat :=
  BitVec.toNat_or ..

theorem UInt64.toNat_complement (a : UInt64) : (~~~a).toNat = 2 ^ 64 - 1 - a.toNat :=
  BitVec.toNat_not

theorem UInt64.toNat_shiftRight (a b : UInt64) :
    (a >>> b).toNat = a.toNat / 2 ^ (b.toNat % 64) := by
  show (a.toBitVec >>> (b.toBitVec % 64#64).toNat).toNat = _
  rw [BitVec.toNat_ushiftRight, BitVec.toNat_umod, Nat.shiftRight_eq_div_pow]
  rfl

theorem UInt64.toNat_shiftLeft (a b : UInt64) :
    (a <<< b).toNat = a.toNat * 2 ^ (b.toNat % 64) % 2 ^ 64 := by
  show (a.toBitVec <<< (b.toBitVec % 64#64).toNat).toNat = _
  rw [BitVec.toNat_shiftLeft, BitVec.toNat_umod, Nat.shiftLeft_eq]
  rfl

theorem UInt64.toNat_toUInt8 (a : UInt64) : a.toUInt8.toNat = a.toNat % 256 :=
  BitVec.toNat_ofNat ..

theorem UInt64.toNat_ofNat' (n : Nat) : (UInt64.ofNat n).toNat = n % 2 ^ 64 :=
  BitVec.toNat_ofNat ..

theorem UInt64.lt_iff_toNat_lt {a b : UInt64} : a < b ↔ a.toNat < b.toNat :=
  UInt64.lt_def.trans BitVec.lt_def

theorem UInt64.le_iff_toNat_le {a b : UInt64} : a ≤ b ↔ a.toNat ≤ b.toNat :=
  UInt64.le_def.trans BitVec.le_def

theorem UInt64.toNat_inj {a b : UInt64} : a.toNat = b.toNat ↔ a = b :=
  ⟨UInt64.toNat.inj, congrArg _⟩

theorem UInt8.toNat_toUInt64 (a : UInt8) : a.toUInt64.toNat = a.toNat := rfl

theorem UInt8.toNat_lor (a b : UInt8) : (a ||| b).toNat = a.toNat ||| b.toNat :=
  BitVec.toNat_or ..

theorem UInt8.toNat_ofNat' (n : Nat) : (UInt8.ofNat n).toNat = n % 256 :=
  BitVec.toNat_ofNat ..

theorem UInt8.lt_iff_toNat_lt {a b : UInt8} : a < b ↔ a.toNat < b.toNat :=
  UInt8.lt_def.trans BitVec.lt_def

theorem UInt8.toNat_inj {a b : UInt8} : a.toNat = b.toNat ↔ a = b :=
  ⟨UInt8.toNat.inj, congrArg _⟩

namespace ClickHouseArrow

/-! ### Disjoint bit fields -/

/-- Bits below `2 ^ k` and bits at or above it do not overlap, so `|||` adds them.  Every
place the source assembles a value from fields (`u128::from(hi) << 64 | lo`, a varint's
7-bit groups, `n | END_OF_GRANULE_FLAG`) rests on this. -/
theorem or_two_pow_mul_of_lt {a k : Nat} (b : Nat) (small : a < 2 ^ k) :
    a ||| 2 ^ k * b = 2 ^ k * b + a := by
  apply Nat.eq_of_testBit_eq
  intro j
  rw [Nat.testBit_or, Nat.testBit_mul_pow_two_add b small, Nat.testBit_mul_pow_two]
  by_cases below : j < k
  · simp [below]
  · have aSmall : a < 2 ^ j := lt_of_lt_of_le small (Nat.pow_le_pow_right (by decide) (by omega))
    simp [below, Nat.testBit_eq_false_of_lt aSmall, show k ≤ j by omega]

/-- Setting bit `k` of a value below `2 ^ (k + 1)` keeps its low `k` bits: `byte | 0x80`. -/
theorem lor_two_pow_of_lt {x k : Nat} (lt : x < 2 ^ (k + 1)) : x ||| 2 ^ k = 2 ^ k + x % 2 ^ k := by
  apply Nat.eq_of_testBit_eq
  intro j
  rw [Nat.testBit_or, Nat.testBit_two_pow, show 2 ^ k + x % 2 ^ k = 2 ^ k * 1 + x % 2 ^ k by
    rw [Nat.mul_one], Nat.testBit_mul_pow_two_add 1 (Nat.mod_lt _ (Nat.two_pow_pos k))]
  rcases Nat.lt_trichotomy j k with below | rfl | above
  · simp [below, Nat.testBit_mod_two_pow, show k ≠ j by omega]
  · simp
  · have xBit : x.testBit j = false :=
      Nat.testBit_eq_false_of_lt (lt_of_lt_of_le lt (Nat.pow_le_pow_right (by decide) above))
    have oneBit : (1 : Nat).testBit (j - k) = false :=
      Nat.testBit_eq_false_of_lt (Nat.one_lt_two_pow (by omega))
    simp [xBit, oneBit, show ¬j < k by omega, show k ≠ j by omega]

/-- A value's low `k` bits and the bits from `k + 1` on, with bit `k` cleared, read as the
arithmetic sum of two fields.  This is `x & !(1 << k)` on a `w`-bit value. -/
theorem and_clear_bit {x k w : Nat} (lt : x < 2 ^ w) (below : k < w) :
    x &&& (2 ^ w - 1 - 2 ^ k) = 2 ^ (k + 1) * (x / 2 ^ (k + 1)) + x % 2 ^ k := by
  have splitMask : 2 ^ w - 1 - 2 ^ k = 2 ^ (k + 1) * (2 ^ (w - (k + 1)) - 1) + (2 ^ k - 1) := by
    have powSplit : 2 ^ w = 2 ^ (k + 1) * 2 ^ (w - (k + 1)) := by
      rw [← Nat.pow_add]; congr 1; omega
    have positive : 0 < 2 ^ (w - (k + 1)) := Nat.pos_pow_of_pos _ (by decide)
    rw [powSplit, Nat.mul_sub_one, Nat.pow_succ]
    have : 2 ^ k * 2 ≤ 2 ^ k * 2 * 2 ^ (w - (k + 1)) := Nat.le_mul_of_pos_right _ positive
    have : 0 < 2 ^ k := Nat.pos_pow_of_pos _ (by decide)
    omega
  have lowSmall : 2 ^ k - 1 < 2 ^ (k + 1) := by
    have : 2 ^ k < 2 ^ (k + 1) := Nat.pow_lt_pow_succ (by decide)
    omega
  have modSmall : x % 2 ^ k < 2 ^ (k + 1) :=
    lt_of_lt_of_le (Nat.mod_lt _ (Nat.pos_pow_of_pos _ (by decide)))
      (Nat.pow_le_pow_right (by decide) (by omega))
  apply Nat.eq_of_testBit_eq
  intro j
  rw [splitMask, Nat.testBit_and, Nat.testBit_mul_pow_two_add _ lowSmall,
    Nat.testBit_mul_pow_two_add _ modSmall, Nat.testBit_mod_two_pow,
    Nat.testBit_two_pow_sub_one, Nat.testBit_two_pow_sub_one]
  by_cases low : j < k + 1
  · by_cases strict : j < k <;> simp [low, strict]
  · simp only [low, if_false, decide_eq_true_eq, Nat.testBit_to_div_mod, Nat.div_div_eq_div_mul,
      ← Nat.pow_add, show k + 1 + (j - (k + 1)) = j by omega]
    by_cases high : j - (k + 1) < w - (k + 1)
    · simp [high]
    · have : x / 2 ^ j = 0 :=
        Nat.div_eq_of_lt (lt_of_lt_of_le lt (Nat.pow_le_pow_right (by decide) (by omega)))
      simp [high, this]

/-! ### Little-endian fields -/

/-- The `k` little-endian bytes of `n`, that is of `n mod 2 ^ (8 * k)`: Rust's
`to_le_bytes` on a `k`-byte integer. -/
def toLE (n : Nat) : Nat → List UInt8
  | 0 => []
  | k + 1 => UInt8.ofNat n :: toLE (n / 256) k

/-- The number a little-endian byte string encodes: Rust's `from_le_bytes`. -/
def ofLE : List UInt8 → Nat
  | [] => 0
  | b :: bs => b.toNat + 256 * ofLE bs

@[simp] theorem length_toLE (n k : Nat) : (toLE n k).length = k := by
  induction k generalizing n with
  | zero => rfl
  | succ k ih => simp [toLE, ih]

theorem ofLE_toLE (n k : Nat) : ofLE (toLE n k) = n % 2 ^ (8 * k) := by
  induction k generalizing n with
  | zero => simp [toLE, ofLE, Nat.mod_one]
  | succ k ih =>
      have widen : 2 ^ (8 * (k + 1)) = 256 * 2 ^ (8 * k) := by rw [Nat.mul_succ, Nat.pow_add]; ring
      rw [toLE, ofLE, ih, UInt8.toNat_ofNat', widen, Nat.mod_mul]

theorem ofLE_lt (bs : List UInt8) : ofLE bs < 2 ^ (8 * bs.length) := by
  induction bs with
  | nil => simp [ofLE]
  | cons b bs ih =>
      have byteSmall : b.toNat < 256 := b.toNat_lt_size
      have widen : 2 ^ (8 * (bs.length + 1)) = 256 * 2 ^ (8 * bs.length) := by
        rw [Nat.mul_succ, Nat.pow_add]; ring
      rw [ofLE, List.length_cons, widen]
      omega

/-- Bytes read as a number and written back at their width are the same bytes. -/
theorem toLE_ofLE : ∀ bs : List UInt8, toLE (ofLE bs) bs.length = bs
  | [] => rfl
  | b :: bs => by
      have byteSmall : b.toNat < 256 := b.toNat_lt_size
      have low : UInt8.ofNat (b.toNat + 256 * ofLE bs) = b :=
        UInt8.toNat_inj.mp (by rw [UInt8.toNat_ofNat']; omega)
      have high : (b.toNat + 256 * ofLE bs) / 256 = ofLE bs := by omega
      rw [List.length_cons, ofLE, toLE, low, high, toLE_ofLE bs]

theorem ofLE_inj {bs cs : List UInt8} (same : ofLE bs = ofLE cs) (sized : bs.length = cs.length) :
    bs = cs := by
  rw [← toLE_ofLE bs, ← toLE_ofLE cs, same, sized]

/-! ### Errors and outcomes -/

/-- The kinds of `std::io::Error` a codec read can fail with.  A read from a finite
source fails only when the bytes run out. -/
inductive IoErrorKind where
  | unexpectedEof
  deriving DecidableEq, Repr

/-- `ErrorKind::as_str`: the `Display` text of an `io::Error` made from its kind alone. -/
def IoErrorKind.text : IoErrorKind → String
  | .unexpectedEof => "unexpected end of file"

/-- A `std::io::Error`: its kind, and the message `io::Error::new(kind, message)` gave it;
an error made from a kind alone (`kind.into()`) has none. -/
structure IoError where
  kind : IoErrorKind
  message : Option String
  deriving DecidableEq, Repr

/-- `Display for io::Error`: the message it was made with, or else the kind's text. -/
def IoError.text (e : IoError) : String := e.message.getD e.kind.text

/-- The error `tokio`'s `read_u8`, `read_u32_le` and `read_u64_le` return when the bytes run
out: `UnexpectedEof.into()`. -/
def readIntEof : IoError := ⟨.unexpectedEof, none⟩

/-- The error `tokio`'s `read_exact` returns when the bytes run out:
`io::Error::new(UnexpectedEof, "early eof")`. -/
def readExactEof : IoError := ⟨.unexpectedEof, some "early eof"⟩

/-- The variants of the crate's `Error` (errors.rs) that the codec raises, each with the
text it carries. -/
inductive Error where
  | io (kind : IoErrorKind)
  | protocol (msg : String)
  | deserializeError (msg : String)
  | serializeError (msg : String)
  | unimplemented (msg : String)
  deriving DecidableEq, Repr

/-- What a call of a function returning `Result` does: it returns `Ok`, returns `Err`,
or panics. -/
inductive Outcome (α : Type) where
  | ok (a : α)
  | err (e : Error)
  | panic
  deriving DecidableEq, Repr

namespace Outcome

variable {α β : Type}

/-- Sequencing with `?`: an `Err` or a panic ends the call. -/
def bind : Outcome α → (α → Outcome β) → Outcome β
  | ok a, f => f a
  | err e, _ => err e
  | panic, _ => panic

instance : Monad Outcome where
  pure := ok
  bind := bind

/-- A call of a function that returns no `Result` inside one that does: its panic, `none`,
panics the caller. -/
def ofOption : Option α → Outcome α
  | some a => ok a
  | none => panic

@[simp] theorem ok_bind (a : α) (f : α → Outcome β) : (ok a >>= f) = f a := rfl

@[simp] theorem err_bind (e : Error) (f : α → Outcome β) : (err e >>= f) = err e := rfl

@[simp] theorem panic_bind (f : α → Outcome β) : ((panic : Outcome α) >>= f) = panic := rfl

@[simp] theorem pure_eq (a : α) : (pure a : Outcome α) = ok a := rfl

/-- A successful sequence took a successful first step. -/
theorem bind_eq_ok {x : Outcome α} {f : α → Outcome β} {b : β} :
    (x >>= f) = ok b ↔ ∃ a, x = ok a ∧ f a = ok b := by
  cases x <;> simp

/-- A call of a function that returns a `Result` but never panics. -/
def ofExcept : Except Error α → Outcome α
  | .ok a => ok a
  | .error e => err e

end Outcome

/-! ### Byte sinks -/

/-- A `ClickHouseWrite` sink as the writers use it: `write_all` (and `write_u64_le`, which
writes eight bytes) either fails or takes all its bytes, after those written before. -/
structure Writer (σ : Type) where
  written : σ → List UInt8
  writeAll : σ → List UInt8 → Except Error σ
  appends : ∀ s bytes s', writeAll s bytes = .ok s' → written s' = written s ++ bytes

/-- `Vec<u8>` as a sink: it never fails. -/
def vecWriter : Writer (List UInt8) where
  written := id
  writeAll s bytes := .ok (s ++ bytes)
  appends := by
    intro s bytes s' wrote
    cases wrote
    rfl

/-- `if !bytes.is_empty() { writer.write_all(bytes).await?; }`. -/
def Writer.writeNonempty {σ : Type} (writer : Writer σ) (s : σ) (bytes : List UInt8) :
    Outcome σ :=
  if bytes.isEmpty then .ok s else .ofExcept (writer.writeAll s bytes)

@[simp] theorem vecWriter_writeNonempty (s bytes : List UInt8) :
    vecWriter.writeNonempty s bytes = .ok (s ++ bytes) := by
  cases bytes <;> simp [Writer.writeNonempty, vecWriter, Outcome.ofExcept]

end ClickHouseArrow
