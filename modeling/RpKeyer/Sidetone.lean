/-
# The arithmetic of the sidetone

`Buzzer::program` picks a divider for a slice clock of 4096 times the tone,
clamped to [1, 255], and divides twice to get the counter's top. Whatever the
clock and the tone, every value fits its register (`divInt_bounds`,
`top_bounds`, `compareA_le`); for a tone of 50 Hz or more and a clock of at
least 1000 times the tone and at most 637.5 MHz, no clamp of the top is in
effect (`Regular.top_eq_quotient`), so the tone is less than a 4096th off once
the clock is 4096 times the tone (`pitch_error`).
-/
import Mathlib.Algebra.Order.Field.Basic
import Mathlib.Algebra.Order.Floor.Semiring
import Mathlib.Data.Nat.Cast.Order.Field
import Mathlib.Tactic.Linarith
import RpKeyer.Buzzer

namespace RpKeyer
namespace Buzzer

/-! ### Registers -/

theorem clamp_bounds {lo hi : ℕ} (h : lo ≤ hi) (x : ℕ) : lo ≤ clamp lo hi x ∧ clamp lo hi x ≤ hi := by
  unfold clamp
  omega

theorem targetSliceClk_pos (b : Buzzer) : 0 < b.targetSliceClk := by
  unfold targetSliceClk
  omega

/-- The divider fits a `u8`. -/
theorem divInt_eq (b : Buzzer) : b.divInt = clamp 1 255 (b.sysClkHz.toNat / b.targetSliceClk) := by
  have hfits := (clamp_bounds (by omega : 1 ≤ 255) (b.sysClkHz.toNat / b.targetSliceClk)).2
  exact Nat.mod_eq_of_lt (by omega)

theorem divInt_bounds (b : Buzzer) : 1 ≤ b.divInt ∧ b.divInt ≤ 255 := by
  rw [divInt_eq]
  exact clamp_bounds (by omega) _

/-- The top fits a `u16`. -/
theorem top_eq (b : Buzzer) : b.top = clamp 2 65535 (b.sliceClk / max b.currentFreqHz.toNat 1) := by
  have hfits : clamp 2 (2 ^ 16 - 1) (b.sliceClk / max b.currentFreqHz.toNat 1) ≤ 65535 :=
    (clamp_bounds (by omega) _).2
  exact Nat.mod_eq_of_lt (by omega)

theorem top_bounds (b : Buzzer) : 2 ≤ b.top ∧ b.top ≤ 65535 := by
  rw [top_eq]
  exact clamp_bounds (by omega) _

/-- A cast of a rational that the register can hold truncates and no more. -/
theorem toU16_eq {q : ℚ} (hq : 0 ≤ q) (hmax : q ≤ 65535) : (F32.num q).toU16 = ⌊q⌋₊ := by
  have hfloor : ⌊q⌋ ≤ 65535 := by
    have hle : (⌊q⌋ : ℚ) ≤ 65535 := (Int.floor_le q).trans hmax
    exact_mod_cast hle
  have hnonneg : 0 ≤ ⌊q⌋ := Int.floor_nonneg.mpr hq
  have htrunc : trunc q = ⌊q⌋ := by rw [trunc, if_pos hq]
  have hsaturate : saturate 0 (2 ^ 16 - 1) ⌊q⌋ = ⌊q⌋ := by
    unfold saturate
    omega
  show (saturate 0 (2 ^ 16 - 1) (trunc q)).toNat = ⌊q⌋₊
  rw [htrunc, hsaturate]
  exact Int.floor_toNat q

/-- The duty scaled by a volume in [0, 1]. -/
theorem duty_bounds {v : ℚ} (h0 : 0 ≤ v) (h1 : v ≤ 1) (duty : ℕ) : 0 ≤ duty * v ∧ duty * v ≤ duty :=
  ⟨mul_nonneg (Nat.cast_nonneg duty) h0, mul_le_of_le_one_right (Nat.cast_nonneg duty) h1⟩

theorem compareA_eq (b : Buzzer) (h0 : 0 ≤ b.currentVolume) (h1 : b.currentVolume ≤ 1) :
    b.compareA = if b.keying then ⌊(b.top / 2 : ℕ) * b.currentVolume⌋₊ else 0 := by
  obtain ⟨hlo, hhi⟩ := duty_bounds h0 h1 (b.top / 2)
  have hduty : ((b.top / 2 : ℕ) : ℚ) ≤ 65535 := by
    have htop := b.top_bounds.2
    have hle : b.top / 2 ≤ 65535 := by omega
    exact_mod_cast hle
  unfold compareA
  split
  · exact toU16_eq hlo (hhi.trans hduty)
  · rfl

theorem compareA_le (b : Buzzer) (h0 : 0 ≤ b.currentVolume) (h1 : b.currentVolume ≤ 1) :
    b.compareA ≤ b.top / 2 := by
  rw [compareA_eq b h0 h1]
  split
  · exact Nat.floor_le_of_le (duty_bounds h0 h1 (b.top / 2)).2
  · exact Nat.zero_le _

/-! ### Tones the clock can make -/

/-- A tone of at least 50 Hz on a clock of at least 1000 times that, and at
most 637.5 MHz. -/
structure Regular (b : Buzzer) : Prop where
  freq : 50 ≤ b.currentFreqHz.toNat
  slow : 1000 * b.currentFreqHz.toNat ≤ b.sysClkHz.toNat
  fast : b.sysClkHz.toNat ≤ 637500000

theorem Regular.saturatingMul_eq {b : Buzzer} (h : Regular b) :
    saturatingMul b.currentFreqHz.toNat 4096 = b.currentFreqHz.toNat * 4096 := by
  have hslow := h.slow
  have hfast := h.fast
  unfold saturatingMul
  omega

/-- Which clamp of the divider is active: the lower, none, or the upper. -/
theorem Regular.divInt_cases {b : Buzzer} (h : Regular b) :
    (b.divInt = 1 ∧ b.sysClkHz.toNat < b.currentFreqHz.toNat * 4096) ∨
    (b.divInt * (b.currentFreqHz.toNat * 4096) ≤ b.sysClkHz.toNat ∧
      b.sysClkHz.toNat < (b.divInt + 1) * (b.currentFreqHz.toNat * 4096)) ∨
    (b.divInt = 255 ∧ b.divInt * (b.currentFreqHz.toNat * 4096) ≤ b.sysClkHz.toNat) := by
  have hfreq := h.freq
  have htarget : b.targetSliceClk = b.currentFreqHz.toNat * 4096 := by
    unfold targetSliceClk
    rw [h.saturatingMul_eq]
    omega
  have hpos : 0 < b.currentFreqHz.toNat * 4096 := by omega
  have hdiv := b.divInt_eq
  rw [htarget] at hdiv
  have hle := Nat.div_mul_le_self b.sysClkHz.toNat (b.currentFreqHz.toNat * 4096)
  have hlt := Nat.lt_div_mul_add (a := b.sysClkHz.toNat) hpos
  generalize b.sysClkHz.toNat / (b.currentFreqHz.toNat * 4096) = q at hdiv hle hlt
  unfold clamp at hdiv
  rcases Nat.lt_or_ge q 1 with hzero | hone
  · obtain rfl : q = 0 := by omega
    exact .inl ⟨by omega, by omega⟩
  · rcases Nat.lt_or_ge 255 q with hbig | hsmall
    · have h255 : b.divInt = 255 := by omega
      refine .inr (.inr ⟨h255, ?_⟩)
      rw [h255]
      exact (Nat.mul_le_mul_right _ hbig.le).trans hle
    · have hq : b.divInt = q := by omega
      rw [hq]
      exact .inr (.inl ⟨hle, by rw [Nat.succ_mul]; exact hlt⟩)

/-- The quotient before the clamp of the top. -/
theorem Regular.quotient_bounds {b : Buzzer} (h : Regular b) :
    1000 ≤ b.sysClkHz.toNat / (b.divInt * b.currentFreqHz.toNat) ∧
    b.sysClkHz.toNat / (b.divInt * b.currentFreqHz.toNat) ≤ 50000 ∧
    (4096 * b.currentFreqHz.toNat ≤ b.sysClkHz.toNat →
      4096 ≤ b.sysClkHz.toNat / (b.divInt * b.currentFreqHz.toNat)) := by
  have hfreq := h.freq
  have hslow := h.slow
  have hfast := h.fast
  have hdiv := b.divInt_bounds.1
  have hpos : 0 < b.divInt * b.currentFreqHz.toNat := Nat.mul_pos hdiv (by omega)
  rw [Nat.le_div_iff_mul_le hpos, Nat.le_div_iff_mul_le hpos]
  rcases h.divInt_cases with ⟨hone, hlt⟩ | ⟨hle, hlt⟩ | ⟨h255, hle⟩
  · rw [hone, Nat.one_mul]
    refine ⟨hslow, ?_, fun h4096 => h4096⟩
    exact Nat.div_le_of_le_mul (by omega)
  · have hbig : 4096 * (b.divInt * b.currentFreqHz.toNat) ≤ b.sysClkHz.toNat := by
      calc 4096 * (b.divInt * b.currentFreqHz.toNat) = b.divInt * (b.currentFreqHz.toNat * 4096) := by ring
        _ ≤ b.sysClkHz.toNat := hle
    refine ⟨by omega, ?_, fun _ => hbig⟩
    have hupper : b.sysClkHz.toNat ≤ b.divInt * b.currentFreqHz.toNat * 50000 := by
      have hsucc : (b.divInt + 1) * (b.currentFreqHz.toNat * 4096) ≤
          2 * b.divInt * (b.currentFreqHz.toNat * 4096) := Nat.mul_le_mul_right _ (by omega)
      calc b.sysClkHz.toNat ≤ 2 * b.divInt * (b.currentFreqHz.toNat * 4096) := hlt.le.trans hsucc
        _ = b.divInt * b.currentFreqHz.toNat * 8192 := by ring
        _ ≤ b.divInt * b.currentFreqHz.toNat * 50000 := Nat.mul_le_mul_left _ (by omega)
    exact Nat.div_le_of_le_mul hupper
  · rw [h255] at hle ⊢
    refine ⟨by omega, Nat.div_le_of_le_mul (by omega), fun _ => by omega⟩

/-- No clamp of the top is in effect. -/
theorem Regular.top_eq_quotient {b : Buzzer} (h : Regular b) :
    b.top = b.sliceClk / b.currentFreqHz.toNat ∧
    b.top = b.sysClkHz.toNat / (b.divInt * b.currentFreqHz.toNat) := by
  have hfreq := h.freq
  obtain ⟨hlo, hhi, -⟩ := h.quotient_bounds
  have hnested : b.sliceClk / b.currentFreqHz.toNat = b.sysClkHz.toNat / (b.divInt * b.currentFreqHz.toNat) :=
    Nat.div_div_eq_div_mul _ _ _
  have hmax : max b.currentFreqHz.toNat 1 = b.currentFreqHz.toNat := by omega
  have htop : b.top = b.sliceClk / b.currentFreqHz.toNat := by
    rw [b.top_eq, hmax, hnested]
    unfold clamp
    omega
  exact ⟨htop, htop.trans hnested⟩

/-- A truncated quotient `t` of `c` by `d * f` makes a tone less than a `t`-th
of `f` off. -/
theorem pitch_error {c d f t : ℕ} (hd : 0 < d) (hf : 0 < f) (ht : 4096 ≤ t) (hle : t * d * f ≤ c)
    (hlt : c < (t + 1) * d * f) : |(c : ℚ) / (d * t) - f| / f < 1 / 4096 := by
  have hdt : (0 : ℚ) < d * t := by
    have hpos : 0 < d * t := Nat.mul_pos hd (by omega)
    exact_mod_cast hpos
  have hf' : (0 : ℚ) < f := by exact_mod_cast hf
  have hlow : (f : ℚ) * (d * t) ≤ c := by
    have hle' : f * (d * t) ≤ c := by
      calc f * (d * t) = t * d * f := by ring
        _ ≤ c := hle
    exact_mod_cast hle'
  -- the error is below `d * f`, and `4096 * d * f` is at most `f * (d * t)`
  have hhigh : 4096 * ((c : ℚ) - f * (d * t)) < f * (d * t) := by
    have herr : (c : ℚ) < f * (d * t) + f * d := by
      have hlt' : c < f * (d * t) + f * d := by
        calc c < (t + 1) * d * f := hlt
          _ = f * (d * t) + f * d := by ring
      exact_mod_cast hlt'
    have hscale : 4096 * ((f : ℚ) * d) ≤ f * (d * t) := by
      have hscale' : 4096 * (f * d) ≤ f * (d * t) := by
        calc 4096 * (f * d) ≤ t * (f * d) := Nat.mul_le_mul_right _ ht
          _ = f * (d * t) := by ring
      exact_mod_cast hscale'
    linarith
  have hpos : 0 ≤ (c : ℚ) / (d * t) - f := by
    rw [sub_nonneg, le_div_iff₀ hdt]
    exact hlow
  have hquot : (c : ℚ) / (d * t) - f < f / 4096 := by
    rw [sub_lt_iff_lt_add, div_lt_iff₀ hdt]
    linarith
  rw [abs_of_nonneg hpos, div_lt_iff₀ hf']
  linarith

theorem Regular.top_exact {b : Buzzer} (h : Regular b) :
    b.top * b.divInt * b.currentFreqHz.toNat ≤ b.sysClkHz.toNat ∧
    b.sysClkHz.toNat < (b.top + 1) * b.divInt * b.currentFreqHz.toNat := by
  have hfreq := h.freq
  have hpos : 0 < b.divInt * b.currentFreqHz.toNat := Nat.mul_pos b.divInt_bounds.1 (by omega)
  rw [h.top_eq_quotient.2, Nat.mul_assoc, Nat.mul_assoc]
  refine ⟨Nat.div_mul_le_self _ _, ?_⟩
  rw [Nat.succ_mul]
  exact Nat.lt_div_mul_add hpos

/-! ### The arithmetic of `program` -/

theorem updateSettings_freq_ge (b : Buzzer) (f : UInt32) (v : F32) :
    50 ≤ (b.updateSettings f v).currentFreqHz.toNat := by
  rw [updateSettings_freq]
  show 50 ≤ (if f ≤ 50 then 50 else f).toNat
  split
  · exact le_rfl
  · rename_i hgt
    have hlt : 50 < f.toNat := UInt32.lt_iff_toNat_lt.mp (UInt32.not_le.mp hgt)
    omega

/-- **Safe and accurate.** Whatever the clock and the tone, no divisor of
`program` is zero, the casts of its divider and top lose nothing, that of the
compare value only the fraction, and all three are within their bounds. For
a tone and a clock that are `Regular` nothing saturates, and the top is the
one truncated quotient of the clock by divider times tone. -/
theorem program_arithmetic (b : Buzzer) (h0 : 0 ≤ b.currentVolume) (h1 : b.currentVolume ≤ 1) :
    b.program.pwm.config = ⟨b.divInt, b.top, b.compareA⟩ ∧
    (b.targetSliceClk ≠ 0 ∧ b.divInt ≠ 0 ∧ max b.currentFreqHz.toNat 1 ≠ 0) ∧
    (b.divInt = clamp 1 255 (b.sysClkHz.toNat / b.targetSliceClk) ∧
      b.top = clamp 2 65535 (b.sliceClk / max b.currentFreqHz.toNat 1) ∧
      b.compareA = if b.keying then ⌊(b.top / 2 : ℕ) * b.currentVolume⌋₊ else 0) ∧
    (1 ≤ b.divInt ∧ b.divInt ≤ 255) ∧ (2 ≤ b.top ∧ b.top ≤ 65535) ∧ b.compareA ≤ b.top / 2 ∧
    (∀ f v, 50 ≤ (b.updateSettings f v).currentFreqHz.toNat) ∧
    (Regular b →
      saturatingMul b.currentFreqHz.toNat 4096 = b.currentFreqHz.toNat * 4096 ∧
      b.top = b.sliceClk / b.currentFreqHz.toNat ∧ (1000 ≤ b.top ∧ b.top ≤ 50000) ∧
      b.top = b.sysClkHz.toNat / (b.divInt * b.currentFreqHz.toNat) ∧
      b.top * b.divInt * b.currentFreqHz.toNat ≤ b.sysClkHz.toNat ∧
      b.sysClkHz.toNat < (b.top + 1) * b.divInt * b.currentFreqHz.toNat ∧
      (4096 * b.currentFreqHz.toNat ≤ b.sysClkHz.toNat → 4096 ≤ b.top ∧
        |(b.sysClkHz.toNat : ℚ) / (b.divInt * b.top) - b.currentFreqHz.toNat| / b.currentFreqHz.toNat <
          1 / 4096)) := by
  have hdiv := b.divInt_bounds
  have hmax : max b.currentFreqHz.toNat 1 ≠ 0 := by omega
  refine ⟨rfl, ⟨b.targetSliceClk_pos.ne', Nat.ne_of_gt hdiv.1, hmax⟩,
    ⟨b.divInt_eq, b.top_eq, b.compareA_eq h0 h1⟩, hdiv, b.top_bounds, b.compareA_le h0 h1,
    b.updateSettings_freq_ge, fun h => ?_⟩
  obtain ⟨hlo, hhi, hfine⟩ := h.quotient_bounds
  obtain ⟨hslice, hquot⟩ := h.top_eq_quotient
  obtain ⟨hle, hlt⟩ := h.top_exact
  rw [← hquot] at hlo hhi hfine
  refine ⟨h.saturatingMul_eq, hslice, ⟨hlo, hhi⟩, hquot, hle, hlt, fun h4096 => ⟨hfine h4096, ?_⟩⟩
  have hfreq := h.freq
  exact pitch_error hdiv.1 (by omega) (hfine h4096) hle hlt

/-- 600 Hz at half volume on a 125 MHz clock: a divider of 50 and a top of 4166. -/
theorem program_arithmetic_600 :
    let b : Buzzer := ⟨⟨⟨1, 65535, 0⟩, 0⟩, ⟨1, 65535, 0⟩, 125000000, 600, 1 / 2, true⟩
    b.top = 4166 ∧ b.compareA ≤ b.top / 2 ∧
      |(125000000 : ℚ) / (50 * 4166) - 600| / 600 < 1 / 4096 := by
  intro b
  have htop : b.top = 4166 := by decide
  have hdiv : b.divInt = 50 := by decide
  have harith := program_arithmetic b (by norm_num [b]) (by norm_num [b])
  obtain ⟨-, -, -, -, -, hcompare, -, hregular⟩ := harith
  obtain ⟨-, -, -, -, -, -, hpitch⟩ := hregular ⟨by decide, by decide, by decide⟩
  have herr := (hpitch (by decide)).2
  rw [htop, hdiv] at herr
  exact ⟨htop, hcompare, by simpa [b] using herr⟩

end Buzzer
end RpKeyer
