/-
# A wire format

Postcard's varint of a `u16`, and a codec of the config's fields in order, as
postcard writes them and reads them back: a byte as itself, a `u32` as a
varint of at most five bytes, an enumeration as the varint of its index, a
`bool` as 0 or 1, and any other bytes rejected. Only the volume is written
differently, because an `F32` here is an exact number: as its sign, its
numerator and its denominator.

The results about storage hold for any codecs; these are the ones they are
applied to.
-/
import RpKeyer.Lib.Codec
import RpKeyer.Config

namespace RpKeyer
namespace Postcard

open Codecs

/-! ### The version tag -/

/-- A `u16` in groups of seven bits, the lowest first; every byte but the last
has its top bit set. -/
def varint16Encode (n : UInt16) : List UInt8 :=
  let n := n.toNat
  if n < 128 then [.ofNat n]
  else if n < 16384 then [.ofNat (n % 128 + 128), .ofNat (n / 128)]
  else [.ofNat (n % 128 + 128), .ofNat (n / 128 % 128 + 128), .ofNat (n / 16384)]

/-- At most three bytes are read, and the third holds two bits. -/
def varint16Decode : List UInt8 → Option (UInt16 × List UInt8)
  | [] => none
  | b₀ :: rest =>
    if b₀.toNat < 128 then some (.ofNat b₀.toNat, rest)
    else
      match rest with
      | [] => none
      | b₁ :: rest =>
        if b₁.toNat < 128 then some (.ofNat (b₀.toNat % 128 + b₁.toNat * 128), rest)
        else
          match rest with
          | [] => none
          | b₂ :: rest =>
            if b₂.toNat ≤ 3 then
              some (.ofNat (b₀.toNat % 128 + b₁.toNat % 128 * 128 + b₂.toNat * 16384), rest)
            else none

/-- Postcard's varint is a codec of the version tag. -/
def varint16 : Codec UInt16 where
  encode := varint16Encode
  decode := varint16Decode
  decode_encode n rest := by
    have hn := n.toNat_lt
    have hback : ∀ m : ℕ, m = n.toNat → UInt16.ofNat m = n := by
      rintro m rfl
      exact UInt16.ofNat_toNat
    unfold varint16Encode
    simp only
    by_cases h1 : n.toNat < 128
    · have hb : (UInt8.ofNat n.toNat).toNat = n.toNat := by rw [UInt8.toNat_ofNat']; omega
      simp only [h1, ↓reduceIte, List.cons_append, List.nil_append, varint16Decode, hb]
      rw [hback _ rfl]
    · have hb0 : (UInt8.ofNat (n.toNat % 128 + 128)).toNat = n.toNat % 128 + 128 := by
        rw [UInt8.toNat_ofNat']
        omega
      have hlt0 : ¬ n.toNat % 128 + 128 < 128 := by omega
      by_cases h2 : n.toNat < 16384
      · have hb1 : (UInt8.ofNat (n.toNat / 128)).toNat = n.toNat / 128 := by rw [UInt8.toNat_ofNat']; omega
        have hlt1 : n.toNat / 128 < 128 := by omega
        simp only [h1, h2, ↓reduceIte, List.cons_append, List.nil_append, varint16Decode, hb0, hlt0, hb1, hlt1]
        rw [hback _ (by omega)]
      · have hb1 : (UInt8.ofNat (n.toNat / 128 % 128 + 128)).toNat = n.toNat / 128 % 128 + 128 := by
          rw [UInt8.toNat_ofNat']
          omega
        have hb2 : (UInt8.ofNat (n.toNat / 16384)).toNat = n.toNat / 16384 := by rw [UInt8.toNat_ofNat']; omega
        have hlt1 : ¬ n.toNat / 128 % 128 + 128 < 128 := by omega
        have hle2 : n.toNat / 16384 ≤ 3 := by omega
        simp only [h1, h2, ↓reduceIte, List.cons_append, List.nil_append, varint16Decode, hb0, hlt0, hb1, hlt1,
          hb2, hle2]
        rw [hback _ (by omega)]

/-! ### The config -/

/-- Five groups hold every `u32`. -/
def uint32 : Codec UInt32 :=
  (nat.retract UInt32.toNat (fun n => if n < 2 ^ 32 then some (.ofNat n) else none) fun n => by
    rw [if_pos n.toNat_lt, UInt32.ofNat_toNat]).atMost 5 fun n =>
      groups_length n.toNat 4 n.toNat (by have := n.toNat_lt; omega)

def bool : Codec Bool :=
  byte.retract (fun b => if b then 1 else 0)
    (fun n => if n = 0 then some false else if n = 1 then some true else none) fun b => by
      cases b <;> rfl

def modes : List KeyerMode := [.straight, .iambicA, .iambicB, .bug, .ultimatic, .singlePaddle]

def mode : Codec KeyerMode :=
  uint32.retract (fun m => .ofNat (modes.findIdx (· == m))) (fun n => modes[n.toNat]?) fun m => by
    cases m <;> rfl

def emitStyle : Codec UsbEmitStyle :=
  uint32.retract (fun s => match s with | .paddle => 0 | .keyed => 1)
    (fun n => if n = 0 then some .paddle else if n = 1 then some .keyed else none) fun s => by
      cases s <;> rfl

/-- A byte that is no `bool`, an index past the modes and a varint of six
bytes. -/
example : bool.decode [2] = none ∧ mode.decode [6] = none ∧
    uint32.decode [0x80, 0x80, 0x80, 0x80, 0x80, 0] = none := by
  decide

/-- A number as its sign, numerator and denominator. -/
def parts : F32 → ℕ × ℕ × ℕ
  | .nan => (0, 0, 0)
  | .num q => (if 0 ≤ q then 1 else 2, q.num.natAbs, q.den)

def ofParts : ℕ × ℕ × ℕ → Option F32
  | (0, _, _) => some .nan
  | (1, n, d) => some (.num (n / d))
  | (2, n, d) => some (.num (-(n / d)))
  | _ => none

theorem ofParts_parts (x : F32) : ofParts (parts x) = some x := by
  cases x with
  | nan => rfl
  | num q =>
    have hnum : (q.num : ℚ) / q.den = q := q.num_div_den
    by_cases hq : 0 ≤ q
    · have hparts : parts (.num q) = (1, q.num.natAbs, q.den) := by simp only [parts, hq, ↓reduceIte]
      have habs : ((q.num.natAbs : ℤ) : ℚ) = q.num := by
        rw [Int.natAbs_of_nonneg (Rat.num_nonneg.mpr hq)]
      rw [hparts]
      show some (F32.num ((q.num.natAbs : ℚ) / q.den)) = _
      rw [← Int.cast_natCast, habs, hnum]
    · have hparts : parts (.num q) = (2, q.num.natAbs, q.den) := by simp only [parts, hq, ↓reduceIte]
      have habs : ((q.num.natAbs : ℤ) : ℚ) = -q.num := by
        have hneg : q.num ≤ 0 := Rat.num_nonpos.mpr (le_of_not_ge hq)
        rw [Int.ofNat_natAbs_of_nonpos hneg, Int.cast_neg]
      rw [hparts]
      show some (F32.num (-((q.num.natAbs : ℚ) / q.den))) = _
      rw [← Int.cast_natCast, habs, neg_div, neg_neg, hnum]

def f32 : Codec F32 := (nat.pair (nat.pair nat)).retract parts ofParts ofParts_parts

/-- The fields in order. -/
def config : Codec KeyerConfig :=
  (mode.pair (byte.pair (byte.pair (uint32.pair (f32.pair (uint32.pair (bool.pair (byte.pair (byte.pair
    (byte.pair (emitStyle.pair bool))))))))))).retract
    (fun c => (c.mode, c.speedWpm, c.weight, c.sidetoneFreq, c.sidetoneVolume, c.hangTimeMs, c.keysReversed,
      c.iambicBTimingPercent, c.farnsworthWpm, c.keyingCompensationMs, c.usbEmitStyle, c.decoderEnabled))
    (fun ⟨a, b, c, d, e, f, g, h, i, j, k, l⟩ => some ⟨a, b, c, d, e, f, g, h, i, j, k, l⟩)
    fun _ => rfl

end Postcard
end RpKeyer
