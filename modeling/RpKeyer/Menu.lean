/-
# The settings menu

`MenuItem`, its labels, `adjust` and the step functions of `ui.rs`. `adjust`
changes one field (`adjust_setFrom`), keeps every field in its range
(`adjust_inRange`), and moves a numeric field the way it is asked
(`adjust_mono`).

The arithmetic wraps where it can overflow, as in both build profiles.
-/
import RpKeyer.Config

namespace RpKeyer

inductive MenuItem
  | mode | wpm | weight | sidetoneFreq | sidetoneVolume | hangTimeMs
  | keysReversed | iambicBPercent | farnsworthWpm | keyingCompMs | usbEmit | decoder
  deriving DecidableEq, Repr

namespace MenuItem

/-- Display order. -/
def all : List MenuItem :=
  [.mode, .wpm, .weight, .sidetoneFreq, .sidetoneVolume, .hangTimeMs,
    .keysReversed, .iambicBPercent, .farnsworthWpm, .keyingCompMs, .usbEmit, .decoder]

def label : MenuItem → String
  | .mode => "Mode"
  | .wpm => "WPM"
  | .weight => "Weight"
  | .sidetoneFreq => "Tone Hz"
  | .sidetoneVolume => "Volume"
  | .hangTimeMs => "Hang ms"
  | .keysReversed => "Reverse"
  | .iambicBPercent => "B Time %"
  | .farnsworthWpm => "Farns WPM"
  | .keyingCompMs => "Comp ms"
  | .usbEmit => "USB emit"
  | .decoder => "Decoder"

/-- Items whose value OK cycles in place. -/
def cyclesOnOk : MenuItem → Bool
  | .mode | .keysReversed | .usbEmit | .decoder => true
  | _ => false

end MenuItem

namespace Menu

/-! ### Steps -/

def modeOrder : List KeyerMode := [.straight, .iambicA, .iambicB, .bug, .ultimatic, .singlePaddle]

/-- The neighbour in `modeOrder`, around the ends. -/
def nextMode (m : KeyerMode) (up : Bool) : KeyerMode :=
  let idx := (modeOrder.findIdx? (· == m)).getD 2
  let n := modeOrder.length
  modeOrder.getD (if up then (idx + 1) % n else (idx + n - 1) % n) .straight

/-- `a.saturating_add(b)` on `u8`. -/
def satAdd8 (a b : UInt8) : UInt8 := if a.toNat + b.toNat < 2 ^ 8 then a + b else 255

/-- `a.saturating_sub(b)` on `u8`. -/
def satSub8 (a b : UInt8) : UInt8 := if b ≤ a then a - b else 0

def satAdd32 (a b : UInt32) : UInt32 := if a.toNat + b.toNat < 2 ^ 32 then a + b else 4294967295

def satSub32 (a b : UInt32) : UInt32 := if b ≤ a then a - b else 0

def stepU8 (v step lo hi : UInt8) (up : Bool) : UInt8 :=
  if up then min (satAdd8 v step) hi else max (satSub8 v step) lo

def stepU32 (v step lo hi : UInt32) (up : Bool) : UInt32 :=
  if up then min (satAdd32 v step) hi else max (satSub32 v step) lo

/-- `(pct + if up { 5 } else { -5 }).clamp(0, 100) as f32 / 100.0`. -/
def stepVolume (v : F32) (up : Bool) : F32 :=
  let pct := (v.scale 100).toI32
  let next := Int.bmod (pct + if up then 5 else -5) (2 ^ 32)
  .num ((max 0 (min 100 next) : ℤ) / 100)

/-- One increment or decrement of the item's field. -/
def adjust (cfg : KeyerConfig) (item : MenuItem) (up : Bool) : KeyerConfig :=
  match item with
  | .mode => { cfg with mode := nextMode cfg.mode up }
  | .wpm => { cfg with speedWpm := stepU8 cfg.speedWpm 1 5 60 up }
  | .weight => { cfg with weight := stepU8 cfg.weight 1 25 75 up }
  | .sidetoneFreq => { cfg with sidetoneFreq := stepU32 cfg.sidetoneFreq 25 300 1200 up }
  | .sidetoneVolume => { cfg with sidetoneVolume := stepVolume cfg.sidetoneVolume up }
  | .hangTimeMs => { cfg with hangTimeMs := stepU32 cfg.hangTimeMs 50 0 2000 up }
  | .keysReversed => { cfg with keysReversed := !cfg.keysReversed }
  | .iambicBPercent => { cfg with iambicBTimingPercent := stepU8 cfg.iambicBTimingPercent 5 0 100 up }
  | .farnsworthWpm => { cfg with farnsworthWpm := stepU8 cfg.farnsworthWpm 1 0 60 up }
  | .keyingCompMs => { cfg with keyingCompensationMs := stepU8 cfg.keyingCompensationMs 1 0 50 up }
  | .usbEmit =>
    { cfg with usbEmitStyle := match cfg.usbEmitStyle with | .paddle => .keyed | .keyed => .paddle }
  | .decoder => { cfg with decoderEnabled := !cfg.decoderEnabled }

/-! ### Ranges -/

def Unit01 : F32 → Prop
  | .nan => False
  | .num q => 0 ≤ q ∧ q ≤ 1

/-- The menu's ranges of the numeric fields. -/
structure InRange (c : KeyerConfig) : Prop where
  speedWpm : 5 ≤ c.speedWpm ∧ c.speedWpm ≤ 60
  weight : 25 ≤ c.weight ∧ c.weight ≤ 75
  sidetoneFreq : 300 ≤ c.sidetoneFreq ∧ c.sidetoneFreq ≤ 1200
  sidetoneVolume : Unit01 c.sidetoneVolume
  hangTimeMs : c.hangTimeMs ≤ 2000
  iambicBTimingPercent : c.iambicBTimingPercent ≤ 100
  farnsworthWpm : c.farnsworthWpm ≤ 60
  keyingCompensationMs : c.keyingCompensationMs ≤ 50

/-- The step functions on naturals; `top` is the type's largest value. -/
def stepNat (top v step lo hi : ℕ) (up : Bool) : ℕ :=
  if up then min (min (v + step) top) hi else max (v - step) lo

theorem stepU8_toNat (v step lo hi : UInt8) (up : Bool) :
    (stepU8 v step lo hi up).toNat = stepNat 255 v.toNat step.toNat lo.toNat hi.toNat up := by
  have hv := v.toNat_lt
  have hadd : (satAdd8 v step).toNat = min (v.toNat + step.toNat) 255 := by
    unfold satAdd8
    split
    · rw [UInt8.toNat_add]
      omega
    · show 255 = _
      omega
  have hsub : (satSub8 v step).toNat = v.toNat - step.toNat := by
    unfold satSub8
    split
    · rename_i h
      exact UInt8.toNat_sub_of_le _ _ h
    · rename_i h
      rw [UInt8.le_iff_toNat_le] at h
      show 0 = _
      omega
  unfold stepU8 stepNat
  cases up with
  | true =>
    show (if satAdd8 v step ≤ hi then satAdd8 v step else hi).toNat = min (min _ _) _
    split <;> rename_i h <;> rw [UInt8.le_iff_toNat_le] at h <;> omega
  | false =>
    show (if satSub8 v step ≤ lo then lo else satSub8 v step).toNat = max _ _
    split <;> rename_i h <;> rw [UInt8.le_iff_toNat_le] at h <;> omega

theorem stepU32_toNat (v step lo hi : UInt32) (up : Bool) :
    (stepU32 v step lo hi up).toNat =
      stepNat 4294967295 v.toNat step.toNat lo.toNat hi.toNat up := by
  have hv := v.toNat_lt
  have hadd : (satAdd32 v step).toNat = min (v.toNat + step.toNat) 4294967295 := by
    unfold satAdd32
    split
    · rw [UInt32.toNat_add]
      omega
    · show 4294967295 = _
      omega
  have hsub : (satSub32 v step).toNat = v.toNat - step.toNat := by
    unfold satSub32
    split
    · rename_i h
      exact UInt32.toNat_sub_of_le _ _ h
    · rename_i h
      rw [UInt32.le_iff_toNat_le] at h
      show 0 = _
      omega
  unfold stepU32 stepNat
  cases up with
  | true =>
    show (if satAdd32 v step ≤ hi then satAdd32 v step else hi).toNat = min (min _ _) _
    split <;> rename_i h <;> rw [UInt32.le_iff_toNat_le] at h <;> omega
  | false =>
    show (if satSub32 v step ≤ lo then lo else satSub32 v step).toNat = max _ _
    split <;> rename_i h <;> rw [UInt32.le_iff_toNat_le] at h <;> omega

/-- A step stays between bounds the value lies between. -/
theorem stepNat_bounds {top v lo hi : ℕ} (step : ℕ) (hlo : lo ≤ v) (hhi : v ≤ hi) (hv : v ≤ top) (up : Bool) :
    lo ≤ stepNat top v step lo hi up ∧ stepNat top v step lo hi up ≤ hi := by
  unfold stepNat
  cases up <;> simp only [Bool.false_eq_true, ↓reduceIte] <;> omega

/-- A step up does not decrease, a step down does not increase. -/
theorem stepNat_mono {top v lo hi : ℕ} (step : ℕ) (hlo : lo ≤ v) (hhi : v ≤ hi) (hv : v ≤ top) :
    v ≤ stepNat top v step lo hi true ∧ stepNat top v step lo hi false ≤ v := by
  unfold stepNat
  simp only [Bool.false_eq_true, ↓reduceIte]
  omega

theorem stepU8_bounds {v lo hi : UInt8} (step : UInt8) (h : lo ≤ v ∧ v ≤ hi) (up : Bool) :
    lo ≤ stepU8 v step lo hi up ∧ stepU8 v step lo hi up ≤ hi := by
  simp only [UInt8.le_iff_toNat_le, stepU8_toNat] at h ⊢
  exact stepNat_bounds step.toNat h.1 h.2 (Nat.le_of_lt_succ v.toNat_lt) up

theorem stepU32_bounds {v lo hi : UInt32} (step : UInt32) (h : lo ≤ v ∧ v ≤ hi) (up : Bool) :
    lo ≤ stepU32 v step lo hi up ∧ stepU32 v step lo hi up ≤ hi := by
  simp only [UInt32.le_iff_toNat_le, stepU32_toNat] at h ⊢
  exact stepNat_bounds step.toNat h.1 h.2 (Nat.le_of_lt_succ v.toNat_lt) up

theorem stepU8_mono {v lo hi : UInt8} (step : UInt8) (h : lo ≤ v ∧ v ≤ hi) :
    v ≤ stepU8 v step lo hi true ∧ stepU8 v step lo hi false ≤ v := by
  simp only [UInt8.le_iff_toNat_le, stepU8_toNat] at h ⊢
  exact stepNat_mono step.toNat h.1 h.2 (Nat.le_of_lt_succ v.toNat_lt)

theorem stepU32_mono {v lo hi : UInt32} (step : UInt32) (h : lo ≤ v ∧ v ≤ hi) :
    v ≤ stepU32 v step lo hi true ∧ stepU32 v step lo hi false ≤ v := by
  simp only [UInt32.le_iff_toNat_le, stepU32_toNat] at h ⊢
  exact stepNat_mono step.toNat h.1 h.2 (Nat.le_of_lt_succ v.toNat_lt)

/-! ### The volume -/

/-- A volume in range as whole percents: its integer part, without wrapping. -/
theorem stepVolume_num {q : ℚ} (h : 0 ≤ q ∧ q ≤ 1) (up : Bool) :
    stepVolume (.num q) up =
      .num ((max 0 (min 100 (⌊q * 100⌋ + if up then 5 else -5)) : ℤ) / 100) := by
  have hnn : 0 ≤ q * 100 := by linarith
  have hlo : 0 ≤ ⌊q * 100⌋ := Int.floor_nonneg.mpr hnn
  have hhi : ⌊q * 100⌋ ≤ 100 := by
    have hle : (⌊q * 100⌋ : ℚ) ≤ 100 := (Int.floor_le _).trans (by linarith)
    exact_mod_cast hle
  have hpct : ((F32.num q).scale 100).toI32 = ⌊q * 100⌋ := by
    show saturate (-2 ^ 31) (2 ^ 31 - 1) (trunc (q * 100)) = _
    unfold saturate trunc
    rw [if_pos hnn]
    omega
  have hbmod : Int.bmod (⌊q * 100⌋ + if up then 5 else -5) (2 ^ 32) = ⌊q * 100⌋ + if up then 5 else -5 := by
    cases up
    · exact Int.bmod_eq_of_le (by simp only [Bool.false_eq_true, ↓reduceIte]; omega)
        (by simp only [Bool.false_eq_true, ↓reduceIte]; omega)
    · exact Int.bmod_eq_of_le (by simp only [↓reduceIte]; omega) (by simp only [↓reduceIte]; omega)
  unfold stepVolume
  simp only [hpct, hbmod]

theorem stepVolume_unit {v : F32} (h : Unit01 v) (up : Bool) : Unit01 (stepVolume v up) := by
  cases v with
  | nan => exact h.elim
  | num q =>
    rw [stepVolume_num h up]
    have hlo : (0 : ℤ) ≤ max 0 (min 100 (⌊q * 100⌋ + if up then 5 else -5)) := le_max_left _ _
    have hhi : max 0 (min 100 (⌊q * 100⌋ + if up then 5 else -5)) ≤ (100 : ℤ) :=
      max_le (by norm_num) (min_le_left _ _)
    generalize max 0 (min 100 (⌊q * 100⌋ + if up then 5 else -5)) = n at hlo hhi ⊢
    have hlo' : (0 : ℚ) ≤ n := by exact_mod_cast hlo
    have hhi' : (n : ℚ) ≤ 100 := by exact_mod_cast hhi
    exact ⟨by positivity, by rw [div_le_one (by norm_num)]; exact hhi'⟩

/-- The order of two volumes that are numbers. -/
def VolLe : F32 → F32 → Prop
  | .num p, .num q => p ≤ q
  | _, _ => False

theorem volLe_refl {v : F32} (h : Unit01 v) : VolLe v v := by
  cases v with
  | nan => exact h
  | num q => exact le_refl q

theorem stepVolume_mono {v : F32} (h : Unit01 v) :
    VolLe v (stepVolume v true) ∧ VolLe (stepVolume v false) v := by
  cases v with
  | nan => exact h.elim
  | num q =>
    obtain ⟨h0, h1⟩ := h
    rw [stepVolume_num ⟨h0, h1⟩, stepVolume_num ⟨h0, h1⟩]
    have hfl : (⌊q * 100⌋ : ℚ) ≤ q * 100 := Int.floor_le _
    have hfr : q * 100 < ⌊q * 100⌋ + 1 := Int.lt_floor_add_one _
    constructor
    · show q ≤ _ / 100
      rw [le_div_iff₀ (by norm_num)]
      push_cast
      refine le_max_of_le_right (le_min (by linarith) ?_)
      simp only [↓reduceIte]
      linarith
    · show _ / 100 ≤ q
      rw [div_le_iff₀ (by norm_num)]
      push_cast
      exact max_le (by linarith) (min_le_of_right_le (by linarith))

/-! ### `adjust` -/

/-- `c` with the item's field taken from `c'`. -/
def setFrom (item : MenuItem) (c c' : KeyerConfig) : KeyerConfig :=
  match item with
  | .mode => { c with mode := c'.mode }
  | .wpm => { c with speedWpm := c'.speedWpm }
  | .weight => { c with weight := c'.weight }
  | .sidetoneFreq => { c with sidetoneFreq := c'.sidetoneFreq }
  | .sidetoneVolume => { c with sidetoneVolume := c'.sidetoneVolume }
  | .hangTimeMs => { c with hangTimeMs := c'.hangTimeMs }
  | .keysReversed => { c with keysReversed := c'.keysReversed }
  | .iambicBPercent => { c with iambicBTimingPercent := c'.iambicBTimingPercent }
  | .farnsworthWpm => { c with farnsworthWpm := c'.farnsworthWpm }
  | .keyingCompMs => { c with keyingCompensationMs := c'.keyingCompensationMs }
  | .usbEmit => { c with usbEmitStyle := c'.usbEmitStyle }
  | .decoder => { c with decoderEnabled := c'.decoderEnabled }

/-- No numeric field of `c` is above that of `c'`. -/
structure NumLe (c c' : KeyerConfig) : Prop where
  speedWpm : c.speedWpm ≤ c'.speedWpm
  weight : c.weight ≤ c'.weight
  sidetoneFreq : c.sidetoneFreq ≤ c'.sidetoneFreq
  sidetoneVolume : VolLe c.sidetoneVolume c'.sidetoneVolume
  hangTimeMs : c.hangTimeMs ≤ c'.hangTimeMs
  iambicBTimingPercent : c.iambicBTimingPercent ≤ c'.iambicBTimingPercent
  farnsworthWpm : c.farnsworthWpm ≤ c'.farnsworthWpm
  keyingCompensationMs : c.keyingCompensationMs ≤ c'.keyingCompensationMs

theorem numLe_refl {c : KeyerConfig} (h : InRange c) : NumLe c c :=
  ⟨UInt8.le_refl _, UInt8.le_refl _, UInt32.le_refl _, volLe_refl h.sidetoneVolume, UInt32.le_refl _,
    UInt8.le_refl _, UInt8.le_refl _, UInt8.le_refl _⟩

/-- `adjust` changes at most the item's field. -/
theorem adjust_setFrom (c : KeyerConfig) (item : MenuItem) (up : Bool) :
    adjust c item up = setFrom item c (adjust c item up) := by
  cases item <;> rfl

/-- `adjust` keeps the ranges. -/
theorem adjust_inRange {c : KeyerConfig} (h : InRange c) (item : MenuItem) (up : Bool) :
    InRange (adjust c item up) := by
  cases item with
  | wpm => exact { h with speedWpm := stepU8_bounds 1 h.speedWpm up }
  | weight => exact { h with weight := stepU8_bounds 1 h.weight up }
  | sidetoneFreq => exact { h with sidetoneFreq := stepU32_bounds 25 h.sidetoneFreq up }
  | sidetoneVolume => exact { h with sidetoneVolume := stepVolume_unit h.sidetoneVolume up }
  | hangTimeMs => exact { h with hangTimeMs := (stepU32_bounds 50 ⟨UInt32.zero_le, h.hangTimeMs⟩ up).2 }
  | iambicBPercent =>
    exact { h with iambicBTimingPercent := (stepU8_bounds 5 ⟨UInt8.zero_le, h.iambicBTimingPercent⟩ up).2 }
  | farnsworthWpm => exact { h with farnsworthWpm := (stepU8_bounds 1 ⟨UInt8.zero_le, h.farnsworthWpm⟩ up).2 }
  | keyingCompMs =>
    exact { h with keyingCompensationMs := (stepU8_bounds 1 ⟨UInt8.zero_le, h.keyingCompensationMs⟩ up).2 }
  | mode | keysReversed | usbEmit | decoder => exact { h with }

/-- A step up decreases no numeric field, a step down increases none. -/
theorem adjust_mono {c : KeyerConfig} (h : InRange c) (item : MenuItem) :
    NumLe c (adjust c item true) ∧ NumLe (adjust c item false) c := by
  have hrefl := numLe_refl h
  cases item with
  | wpm =>
    have hs := stepU8_mono 1 h.speedWpm
    exact ⟨{ hrefl with speedWpm := hs.1 }, { hrefl with speedWpm := hs.2 }⟩
  | weight =>
    have hs := stepU8_mono 1 h.weight
    exact ⟨{ hrefl with weight := hs.1 }, { hrefl with weight := hs.2 }⟩
  | sidetoneFreq =>
    have hs := stepU32_mono 25 h.sidetoneFreq
    exact ⟨{ hrefl with sidetoneFreq := hs.1 }, { hrefl with sidetoneFreq := hs.2 }⟩
  | sidetoneVolume =>
    have hs := stepVolume_mono h.sidetoneVolume
    exact ⟨{ hrefl with sidetoneVolume := hs.1 }, { hrefl with sidetoneVolume := hs.2 }⟩
  | hangTimeMs =>
    have hs := stepU32_mono 50 ⟨UInt32.zero_le, h.hangTimeMs⟩
    exact ⟨{ hrefl with hangTimeMs := hs.1 }, { hrefl with hangTimeMs := hs.2 }⟩
  | iambicBPercent =>
    have hs := stepU8_mono 5 ⟨UInt8.zero_le, h.iambicBTimingPercent⟩
    exact ⟨{ hrefl with iambicBTimingPercent := hs.1 }, { hrefl with iambicBTimingPercent := hs.2 }⟩
  | farnsworthWpm =>
    have hs := stepU8_mono 1 ⟨UInt8.zero_le, h.farnsworthWpm⟩
    exact ⟨{ hrefl with farnsworthWpm := hs.1 }, { hrefl with farnsworthWpm := hs.2 }⟩
  | keyingCompMs =>
    have hs := stepU8_mono 1 ⟨UInt8.zero_le, h.keyingCompensationMs⟩
    exact ⟨{ hrefl with keyingCompensationMs := hs.1 }, { hrefl with keyingCompensationMs := hs.2 }⟩
  | mode | keysReversed | usbEmit | decoder => exact ⟨{ hrefl with }, { hrefl with }⟩

end Menu
end RpKeyer
