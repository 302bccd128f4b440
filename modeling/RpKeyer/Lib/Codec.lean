/-
# Codecs of a byte stream

A codec writes a value as bytes and reads it back from the front of a stream,
handing on the rest; that it reads what it wrote, whatever follows, is a field
of the codec. Codecs compose: a pair is written left to right (`Codec.pair`),
and a type is written as another it is recovered from, the values that nothing
is written as being rejected (`Codec.retract`). The basic ones are a byte and
a natural number in groups of seven bits; `Codec.atMost` rejects what takes
too many bytes.
-/
import Mathlib.Algebra.Order.Ring.Nat
import Mathlib.Data.Prod.Basic
import Mathlib.Tactic.Ring

namespace Codecs

/-- An encoder and a decoder of the front of a stream, with their law. -/
structure Codec (α : Type*) where
  encode : α → List UInt8
  decode : List UInt8 → Option (α × List UInt8)
  decode_encode : ∀ x rest, decode (encode x ++ rest) = some (x, rest)

variable {α β : Type*}

/-- A pair, left to right. -/
def Codec.pair (a : Codec α) (b : Codec β) : Codec (α × β) where
  encode x := a.encode x.1 ++ b.encode x.2
  decode bytes := (a.decode bytes).bind fun r => (b.decode r.2).map fun s => ((r.1, s.1), s.2)
  decode_encode x rest := by
    rw [List.append_assoc, a.decode_encode, Option.bind_some, b.decode_encode]
    rfl

/-- A pair read from a stream that starts with an encoded first component has
that component first, if it is read at all. -/
theorem Codec.pair_decode_fst (a : Codec α) (b : Codec β) (x : α) (rest : List UInt8) {p : α × β}
    {rest' : List UInt8} (h : (a.pair b).decode (a.encode x ++ rest) = some (p, rest')) : p.1 = x := by
  unfold Codec.pair at h
  simp only [a.decode_encode, Option.bind_some] at h
  obtain ⟨s, -, hs⟩ := Option.map_eq_some_iff.mp h
  rw [← (Prod.mk.inj hs).1]

/-- The pair itself comes back from its own encoding. -/
theorem Codec.pair_decode (a : Codec α) (b : Codec β) (x : α) (y : β) :
    (a.pair b).decode ((a.pair b).encode (x, y)) = some ((x, y), []) := by
  have h := (a.pair b).decode_encode (x, y) []
  rwa [List.append_nil] at h

/-- Write `y` as `f y`, from which `g` recovers it; what `g` does not take is
rejected. -/
def Codec.retract (a : Codec α) (f : β → α) (g : α → Option β) (h : ∀ y, g (f y) = some y) : Codec β where
  encode y := a.encode (f y)
  decode bytes := (a.decode bytes).bind fun r => (g r.1).map fun y => (y, r.2)
  decode_encode y rest := by
    rw [a.decode_encode, Option.bind_some, h, Option.map_some]

/-- Reject a value read from more than `n` bytes. -/
def Codec.atMost (a : Codec α) (n : ℕ) (h : ∀ x, (a.encode x).length ≤ n) : Codec α where
  encode := a.encode
  decode bytes := (a.decode bytes).filter fun r => bytes.length ≤ n + r.2.length
  decode_encode x rest := by
    have hlen : (a.encode x ++ rest).length ≤ n + rest.length := by
      rw [List.length_append]
      exact Nat.add_le_add_right (h x) _
    rw [a.decode_encode, Option.filter_some, decide_eq_true hlen, if_pos rfl]

/-- A byte as itself. -/
def byte : Codec UInt8 where
  encode b := [b]
  decode
    | [] => none
    | b :: rest => some (b, rest)
  decode_encode _ _ := rfl

/-- Groups of seven bits, the lowest first, at most `fuel + 1` of them; every
byte but the last has its top bit set. -/
def groups : ℕ → ℕ → List UInt8
  | 0, n => [.ofNat n]
  | fuel + 1, n => if n < 128 then [.ofNat n] else .ofNat (n % 128 + 128) :: groups fuel (n / 128)

/-- Groups up to the first byte without a top bit. -/
def ungroup : List UInt8 → Option (ℕ × List UInt8)
  | [] => none
  | b :: rest =>
    if b.toNat < 128 then some (b.toNat, rest)
    else (ungroup rest).map fun r => (b.toNat - 128 + 128 * r.1, r.2)

theorem ungroup_groups : ∀ (fuel n : ℕ), n < 128 ^ (fuel + 1) → ∀ rest,
    ungroup (groups fuel n ++ rest) = some (n, rest)
  | 0, n, hn, rest => by
    have hb : (UInt8.ofNat n).toNat = n := by
      rw [UInt8.toNat_ofNat']
      omega
    simp only [groups, List.cons_append, List.nil_append, ungroup, hb]
    rw [if_pos (by omega)]
  | fuel + 1, n, hn, rest => by
    unfold groups
    by_cases hlt : n < 128
    · have hb : (UInt8.ofNat n).toNat = n := by
        rw [UInt8.toNat_ofNat']
        omega
      simp only [hlt, ↓reduceIte, List.cons_append, List.nil_append, ungroup, hb]
    · have hb : (UInt8.ofNat (n % 128 + 128)).toNat = n % 128 + 128 := by
        rw [UInt8.toNat_ofNat']
        omega
      have hdiv : n / 128 < 128 ^ (fuel + 1) := by
        rw [Nat.div_lt_iff_lt_mul (by norm_num), ← pow_succ]
        exact hn
      simp only [hlt, ↓reduceIte, List.cons_append, ungroup, hb, ungroup_groups fuel (n / 128) hdiv rest,
        Option.map_some]
      rw [if_neg (by omega), show n % 128 + 128 - 128 + 128 * (n / 128) = n by omega]

/-- `k + 1` groups hold any number below `128 ^ (k + 1)`. -/
theorem groups_length : ∀ (fuel k n : ℕ), n < 128 ^ (k + 1) → (groups fuel n).length ≤ k + 1
  | 0, _, _, _ => by simp [groups]
  | fuel + 1, k, n, hn => by
    unfold groups
    by_cases hlt : n < 128
    · simp [hlt]
    · cases k with
      | zero => exact absurd hn hlt
      | succ k =>
        have hdiv : n / 128 < 128 ^ (k + 1) := by
          rw [Nat.div_lt_iff_lt_mul (by norm_num), ← pow_succ]
          exact hn
        simpa [hlt] using groups_length fuel k (n / 128) hdiv

/-- A natural number in groups of seven bits. -/
def nat : Codec ℕ where
  encode n := groups n n
  decode := ungroup
  decode_encode n rest := by
    refine ungroup_groups n n ?_ rest
    calc n < 128 ^ n := Nat.lt_pow_self (by norm_num)
      _ ≤ 128 ^ (n + 1) := Nat.pow_le_pow_right (by norm_num) (Nat.le_succ n)

end Codecs
