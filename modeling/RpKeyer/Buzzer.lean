/-
# The sidetone buzzer

`buzzer.rs`: the PWM slice that drives the piezo, reprogrammed on a change of
frequency, volume or keying (`Buzzer.program`), with two early returns when
nothing changes. The slice is its last written config and its live counter.

Registers are naturals; the casts to `u8` and `u16` wrap explicitly, and the
product of a duty and a volume is exact.
-/
import RpKeyer.Config

namespace RpKeyer

/-- The PWM config fields the firmware sets. `divider` is the fixed-point
divider's integer part; its fraction is always 0 (`from_num` of a `u8`). -/
structure PwmConfig where
  divider : ℕ
  top : ℕ
  compareA : ℕ
  deriving DecidableEq, Repr

/-- The slice: what `set_config` last wrote, and the counter. -/
structure Pwm where
  config : PwmConfig
  ctr : ℕ
  deriving DecidableEq, Repr

structure Buzzer where
  pwm : Pwm
  cfg : PwmConfig
  sysClkHz : UInt32
  currentFreqHz : UInt32
  currentVolume : ℚ
  keying : Bool

namespace Buzzer

/-- `x.clamp(lo, hi)`. -/
def clamp (lo hi x : ℕ) : ℕ := max lo (min hi x)

/-- `a.saturating_mul(b)` on `u32`. -/
def saturatingMul (a b : ℕ) : ℕ := min (a * b) (2 ^ 32 - 1)

/-- Construct from a slice at the default config `dflt`. -/
def new (pwm : Pwm) (dflt : PwmConfig) (clkSysFreq : UInt32) : Buzzer where
  pwm := pwm
  cfg := dflt
  sysClkHz := clkSysFreq
  currentFreqHz := 0
  currentVolume := 0
  keying := false

/-- The frequency the slice clock aims for, `freq * 4096`. -/
def targetSliceClk (b : Buzzer) : ℕ := max (saturatingMul b.currentFreqHz.toNat 4096) 1

/-- The divider, cast to `u8`. -/
def divInt (b : Buzzer) : ℕ := clamp 1 255 (b.sysClkHz.toNat / b.targetSliceClk) % 2 ^ 8

/-- `sys_clk / div`, the clock of the slice. -/
def sliceClk (b : Buzzer) : ℕ := b.sysClkHz.toNat / b.divInt

/-- The counter's top, cast to `u16`. -/
def top (b : Buzzer) : ℕ :=
  clamp 2 (2 ^ 16 - 1) (b.sliceClk / max b.currentFreqHz.toNat 1) % 2 ^ 16

/-- The compare value: half of `top` scaled by the volume, or 0 when silent. -/
def compareA (b : Buzzer) : ℕ :=
  if b.keying then (F32.num ((b.top / 2 : ℕ) * b.currentVolume)).toU16 else 0

/-- What `program` writes to the slice. -/
def programmed (b : Buzzer) : PwmConfig := ⟨b.divInt, b.top, b.compareA⟩

/-- Write the slice; a top that shrinks resets the counter, which would
otherwise run past it to `0xFFFF`. -/
def program (b : Buzzer) : Buzzer :=
  { b with
    cfg := b.programmed
    pwm := ⟨b.programmed, if b.top < b.cfg.top then 0 else b.pwm.ctr⟩ }

/-- Program a new frequency and volume, if either changed. -/
def updateSettings (b : Buzzer) (freqHz : UInt32) (volume : F32) : Buzzer :=
  let v := volume.clampUnit
  let freq := max freqHz 50
  if freq = b.currentFreqHz ∧ |v - b.currentVolume| < F32.epsilon then b
  else program { b with currentFreqHz := freq, currentVolume := v }

/-- Gate the tone. -/
def setKeyed (b : Buzzer) (on : Bool) : Buzzer :=
  if b.keying = on then b else program { b with keying := on }

/-- Reprogramming the tone does not gate it. -/
theorem updateSettings_keying (b : Buzzer) (f : UInt32) (v : F32) :
    (b.updateSettings f v).keying = b.keying := by
  unfold updateSettings
  simp only
  split
  · rfl
  · rfl

/-- The early return leaves `keying` at the value asked for. -/
theorem setKeyed_keying (b : Buzzer) (on : Bool) : (b.setKeyed on).keying = on := by
  unfold setKeyed
  split
  · assumption
  · rfl

theorem setKeyed_currentFreqHz (b : Buzzer) (on : Bool) :
    (b.setKeyed on).currentFreqHz = b.currentFreqHz := by
  unfold setKeyed
  split <;> rfl

theorem setKeyed_currentVolume (b : Buzzer) (on : Bool) :
    (b.setKeyed on).currentVolume = b.currentVolume := by
  unfold setKeyed
  split <;> rfl

/-- The frequency is the one asked for, floored at 50 Hz. -/
theorem updateSettings_freq (b : Buzzer) (f : UInt32) (v : F32) :
    (b.updateSettings f v).currentFreqHz = max f 50 := by
  unfold updateSettings
  simp only
  split
  · rename_i h
    exact h.1.symm
  · rfl

/-- The volume is the one asked for, up to the skip of a change below `EPSILON`. -/
theorem updateSettings_volume (b : Buzzer) (f : UInt32) (v : F32) :
    |v.clampUnit - (b.updateSettings f v).currentVolume| < F32.epsilon := by
  unfold updateSettings
  simp only
  split
  · rename_i h
    exact h.2
  · show |v.clampUnit - v.clampUnit| < F32.epsilon
    rw [sub_self, abs_zero]
    exact F32.epsilon_pos

end Buzzer
end RpKeyer
