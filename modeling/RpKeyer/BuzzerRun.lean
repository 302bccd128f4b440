/-
# The buzzer's registers never go stale

Every sequence of calls on a `Buzzer`, with the slice's counter anywhere
below its top in between (`step`). Both calls return early on cached values;
still, from the first call that programs the slice on, the registers are
what `program` computes from the current settings (`step_fresh`), and the
counter is never past the top, since a top that shrinks is compared with the
config written before it (`step_sound`).
-/
import RpKeyer.Lib.StepRun
import RpKeyer.Sidetone
import RpKeyer.StraightKey

namespace RpKeyer
namespace BuzzerRun

open Buzzer

/-! ### Calls -/

/-- A call, or the counter observed at `n`. -/
inductive Call
  | updateSettings (freqHz : UInt32) (volume : F32)
  | setKeyed (on : Bool)
  | count (n : ℕ)

/-- The counter stays within the top last written. -/
def step (b : Buzzer) : Call → Option Buzzer
  | .updateSettings f v => some (b.updateSettings f v)
  | .setKeyed on => some (b.setKeyed on)
  | .count n => if n ≤ b.pwm.config.top then some { b with pwm.ctr := n } else none

/-- The call does not take its early return. -/
def Programs (b : Buzzer) : Call → Prop
  | .updateSettings f v => ¬(max f 50 = b.currentFreqHz ∧ |v.clampUnit - b.currentVolume| < F32.epsilon)
  | .setKeyed on => b.keying ≠ on
  | .count _ => False

/-- Some call of `ls` has programmed the slice. -/
def Written (boot : Buzzer) (ls : List Call) : Prop :=
  ∃ past c rest b, ls = past ++ c :: rest ∧ StepRun.run step boot past = some b ∧ Programs b c

/-- The arguments of an `updateSettings` call. -/
def Call.settings? : Call → Option (UInt32 × F32)
  | .updateSettings f v => some (f, v)
  | _ => none

/-- The argument of a `setKeyed` call. -/
def Call.keyed? : Call → Option Bool
  | .setKeyed on => some on
  | _ => none

/-- The arguments of the last `updateSettings` call. -/
def lastSettings (ls : List Call) : Option (UInt32 × F32) := (ls.filterMap Call.settings?).getLast?

/-- The argument of the last `setKeyed` call. -/
def lastKeyed (ls : List Call) : Option Bool := (ls.filterMap Call.keyed?).getLast?

theorem lastSettings_concat (ls : List Call) (c : Call) :
    lastSettings (ls ++ [c]) = c.settings?.or (lastSettings ls) := by
  unfold lastSettings
  rw [List.filterMap_append, List.getLast?_append]
  cases c <;> rfl

theorem lastKeyed_concat (ls : List Call) (c : Call) :
    lastKeyed (ls ++ [c]) = c.keyed?.or (lastKeyed ls) := by
  unfold lastKeyed
  rw [List.filterMap_append, List.getLast?_append]
  cases c <;> rfl

/-! ### One step -/

/-- A step is an early return, a `program` of new settings, or the counter
moving; in the first case the settings asked for are in effect already. -/
theorem step_cases {b b' : Buzzer} {c : Call} (h : step b c = some b') :
    (b' = b ∧ ¬Programs b c) ∨
    (∃ f v on, b' = program { b with currentFreqHz := f, currentVolume := v, keying := on }) ∨
    (∃ n, n ≤ b.pwm.config.top ∧ b' = { b with pwm.ctr := n } ∧ ¬Programs b c) := by
  cases c with
  | updateSettings f v =>
    obtain rfl := Option.some.inj h
    by_cases hskip : max f 50 = b.currentFreqHz ∧ |v.clampUnit - b.currentVolume| < F32.epsilon
    · exact .inl ⟨if_pos hskip, fun hp => hp hskip⟩
    · exact .inr (.inl ⟨max f 50, v.clampUnit, b.keying, if_neg hskip⟩)
  | setKeyed on =>
    obtain rfl := Option.some.inj h
    by_cases hskip : b.keying = on
    · exact .inl ⟨if_pos hskip, fun hp => hp hskip⟩
    · exact .inr (.inl ⟨b.currentFreqHz, b.currentVolume, on, if_neg hskip⟩)
  | count n =>
    obtain ⟨hn, rfl⟩ := StepRun.guard_some h
    exact .inr (.inr ⟨n, hn, rfl, fun hp => hp⟩)

/-- The registers are what `program` computes from the current settings. -/
def Fresh (b : Buzzer) : Prop := b.pwm.config = b.programmed

theorem program_fresh (b : Buzzer) : Fresh b.program := rfl

theorem step_fresh {b b' : Buzzer} {c : Call} (hf : Fresh b ∨ Programs b c) (h : step b c = some b') :
    Fresh b' := by
  obtain ⟨rfl, hnot⟩ | ⟨f, v, on, rfl⟩ | ⟨n, -, rfl, hnot⟩ := step_cases h
  · exact hf.resolve_right hnot
  · exact program_fresh _
  · exact hf.resolve_right hnot

/-- What holds of the registers from boot on. -/
structure Sound (b : Buzzer) : Prop where
  cfg : b.cfg = b.pwm.config
  silent : b.keying = false → b.pwm.config.compareA = 0
  ctr : b.pwm.ctr ≤ b.pwm.config.top

/-- The counter is reset if it could be past the new top. -/
theorem program_sound {b : Buzzer} (hcfg : b.cfg = b.pwm.config) (hctr : b.pwm.ctr ≤ b.pwm.config.top) :
    Sound b.program where
  cfg := rfl
  silent hkeying := by
    have hoff : b.keying = false := hkeying
    show b.compareA = 0
    unfold compareA
    rw [hoff]
    rfl
  ctr := by
    show (if b.top < b.cfg.top then 0 else b.pwm.ctr) ≤ b.top
    rw [hcfg]
    split <;> omega

theorem step_sound {b b' : Buzzer} {c : Call} (hs : Sound b) (h : step b c = some b') : Sound b' := by
  obtain ⟨rfl, -⟩ | ⟨f, v, on, rfl⟩ | ⟨n, hn, rfl, -⟩ := step_cases h
  · exact hs
  · exact program_sound hs.cfg hs.ctr
  · exact ⟨hs.cfg, hs.silent, hn⟩

/-- The settings in effect are those last asked for. -/
structure Follows (ls : List Call) (b : Buzzer) : Prop where
  settings : ∀ f v, lastSettings ls = some (f, v) →
    b.currentFreqHz = max f 50 ∧ |v.clampUnit - b.currentVolume| < F32.epsilon
  keying : b.keying = (lastKeyed ls).getD false

theorem step_follows {ls : List Call} {b b' : Buzzer} {c : Call} (hf : Follows ls b)
    (h : step b c = some b') : Follows (ls ++ [c]) b' := by
  cases c with
  | updateSettings f v =>
    obtain rfl := Option.some.inj h
    refine ⟨fun f' v' hlast => ?_, ?_⟩
    · rw [lastSettings_concat] at hlast
      obtain ⟨rfl, rfl⟩ := Prod.mk.inj (Option.some.inj hlast)
      exact ⟨updateSettings_freq b f v, updateSettings_volume b f v⟩
    · rw [updateSettings_keying, lastKeyed_concat]
      exact hf.keying
  | setKeyed on =>
    obtain rfl := Option.some.inj h
    refine ⟨fun f' v' hlast => ?_, ?_⟩
    · rw [lastSettings_concat] at hlast
      rw [setKeyed_currentFreqHz, setKeyed_currentVolume]
      exact hf.settings f' v' hlast
    · rw [setKeyed_keying, lastKeyed_concat]
      rfl
  | count n =>
    obtain ⟨-, rfl⟩ := StepRun.guard_some h
    refine ⟨fun f' v' hlast => ?_, ?_⟩
    · rw [lastSettings_concat] at hlast
      exact hf.settings f' v' hlast
    · rw [lastKeyed_concat]
      exact hf.keying

/-- The volume in effect is one that the arithmetic of `program` is safe for. -/
theorem step_volume {b b' : Buzzer} {c : Call} (hv : 0 ≤ b.currentVolume ∧ b.currentVolume ≤ 1)
    (h : step b c = some b') : 0 ≤ b'.currentVolume ∧ b'.currentVolume ≤ 1 := by
  cases c with
  | updateSettings f v =>
    obtain rfl := Option.some.inj h
    unfold updateSettings
    simp only
    split
    · exact hv
    · exact ⟨F32.clampUnit_nonneg v, F32.clampUnit_le_one v⟩
  | setKeyed on =>
    obtain rfl := Option.some.inj h
    rw [setKeyed_currentVolume]
    exact hv
  | count n =>
    obtain ⟨-, rfl⟩ := StepRun.guard_some h
    exact hv

/-! ### Runs -/

section Runs

variable (dflt : PwmConfig) (ctr : ℕ) (clkSysFreq : UInt32)

/-- A buzzer over a slice at its default config. -/
def boot : Buzzer := Buzzer.new ⟨dflt, ctr⟩ dflt clkSysFreq

theorem boot_sound (hsilent : dflt.compareA = 0) (hctr : ctr ≤ dflt.top) :
    Sound (boot dflt ctr clkSysFreq) :=
  ⟨rfl, fun _ => hsilent, hctr⟩

theorem boot_follows : Follows [] (boot dflt ctr clkSysFreq) :=
  ⟨fun _ _ hlast => (nomatch hlast), rfl⟩

/-- Fresh from the first call that programs the slice on. -/
theorem run_fresh {b₀ b : Buzzer} {ls : List Call} (hw : Written b₀ ls)
    (h : StepRun.run step b₀ ls = some b) : Fresh b := by
  obtain ⟨past, c, rest, b₁, rfl, hpast, hprograms⟩ := hw
  obtain ⟨b₁', hpast', hrest⟩ := (StepRun.run_append_some step).mp h
  obtain rfl : b₁ = b₁' := Option.some.inj (hpast.symm.trans hpast')
  obtain ⟨b₂, hc, hrun⟩ := (StepRun.run_cons_some step).mp hrest
  exact StepRun.run_inv step (fun s a s' hs => step_fresh (.inl hs)) (step_fresh (.inr hprograms) hc) hrun

/-- **Never stale.** After every run: if some call has programmed the slice,
the registers are those `program` computes from the current settings; these
are the ones last asked for; the tone is off while not keying; and the
counter is within the top. -/
theorem registers_fresh (hsilent : dflt.compareA = 0) (hctr : ctr ≤ dflt.top) (ls : List Call) (b : Buzzer)
    (h : StepRun.run step (boot dflt ctr clkSysFreq) ls = some b) :
    (Written (boot dflt ctr clkSysFreq) ls → b.pwm.config = ⟨b.divInt, b.top, b.compareA⟩) ∧
    (∀ f v, lastSettings ls = some (f, v) →
      b.currentFreqHz = max f 50 ∧ |v.clampUnit - b.currentVolume| < F32.epsilon) ∧
    b.keying = (lastKeyed ls).getD false ∧
    (b.keying = false → b.pwm.config.compareA = 0) ∧
    b.pwm.ctr ≤ b.pwm.config.top := by
  have hsound : Sound b :=
    StepRun.run_inv step (fun s a s' hs => step_sound hs) (boot_sound dflt ctr clkSysFreq hsilent hctr) h
  have hfollows : Follows ([] ++ ls) b :=
    StepRun.run_inv_hist step (fun past s a s' hs => step_follows hs) ls [] _ b
      (boot_follows dflt ctr clkSysFreq) h
  exact ⟨fun hw => run_fresh hw h, hfollows.settings, hfollows.keying, hsound.silent, hsound.ctr⟩

end Runs

/-- A tone of 50 Hz keyed, then 2 kHz at a NaN volume with the counter past
the new top. -/
theorem registers_fresh_shrink :
    ∃ b, StepRun.run step (boot StraightKey.pwm.config StraightKey.pwm.ctr StraightKey.clkSysFreq)
        [.updateSettings 50 (.num (1 / 2)), .setKeyed true, .count 9000, .updateSettings 2000 .nan] = some b ∧
      b.pwm.config = ⟨b.divInt, b.top, b.compareA⟩ ∧ b.currentFreqHz = 2000 ∧ b.pwm.config.top < 9000 ∧
      b.pwm.ctr ≤ b.pwm.config.top := by
  have hseen : (StepRun.run step (boot StraightKey.pwm.config StraightKey.pwm.ctr StraightKey.clkSysFreq)
      [.updateSettings 50 (.num (1 / 2)), .setKeyed true, .count 9000, .updateSettings 2000 .nan]).map
        (fun b => decide (b.pwm.config.top < 9000)) = some true := by
    decide
  obtain ⟨b, hrun, hshrunk⟩ := Option.map_eq_some_iff.mp hseen
  have hfirst : Written (boot StraightKey.pwm.config StraightKey.pwm.ctr StraightKey.clkSysFreq)
      [.updateSettings 50 (.num (1 / 2)), .setKeyed true, .count 9000, .updateSettings 2000 .nan] :=
    ⟨[], _, _, _, rfl, rfl, fun hskip => absurd hskip.1 (by decide)⟩
  obtain ⟨hfresh, hsettings, -, -, hctr⟩ := registers_fresh StraightKey.pwm.config StraightKey.pwm.ctr
    StraightKey.clkSysFreq rfl (by decide) _ b hrun
  exact ⟨b, hrun, hfresh hfirst, (hsettings 2000 .nan rfl).1, of_decide_eq_true hshrunk, hctr⟩

end BuzzerRun
end RpKeyer
