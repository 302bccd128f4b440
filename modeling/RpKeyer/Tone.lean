/-
# What the radio and the piezo are given

The keyer drives two outputs, the pin that keys the radio and the PWM slice of
the piezo. Here its loop runs with the slice's counter moving between any two
sections (`toneStep`). To the buzzer such a run is a sequence of calls
(`calls_step`), so at every section the slice is programmed for the config of
the last refresh and the last key event, whatever came before, and the pitch is
less than a 4096th flat (`outputs_follow`).

A panic calls `safe_stop`, which writes the same two outputs past their
drivers: it leaves them as a key-up would, and no other pin moves
(`safeStop_eq_keyUp`).
-/
import RpKeyer.BuzzerRun
import RpKeyer.Snapshots

namespace RpKeyer
namespace Tone

open Buzzer KeyLine Loop

variable {ε : Type} (E : Engine ε)

/-! ### The loop with the counter moving -/

/-- A section of the loop or a change by another task, or the counter observed
at `n`. -/
inductive Label
  | task (a : Loop.Label)
  | count (n : ℕ)

def toneStep (s : State ε) : Label → Option (State ε)
  | .task a => loopStep E s a
  | .count n => (BuzzerRun.step s.k.buzzer (.count n)).map fun b => { s with k := { s.k with buzzer := b } }

/-- What a step finds and puts out. -/
def events (s : State ε) : Label → List Snapshots.Event
  | .task a => Snapshots.events E s a
  | .count _ => []

/-- The calls on the buzzer that a step makes. -/
def calls (s : State ε) : Label → List BuzzerRun.Call
  | .task .refresh => [.updateSettings s.st.sharedConfig.sidetoneFreq s.st.sharedConfig.sidetoneVolume]
  | .task (.tick _) => ((E.tick s.k.engine).2.bind keyEvent).toList.map .setKeyed
  | .task _ => []
  | .count n => [.count n]

/-! ### The outputs -/

/-- Channel A of the slice is high while the counter is below the compare value. -/
def high (p : Pwm) : Bool := p.ctr < p.config.compareA

/-- What `program` writes for a clock, a tone, a volume and a key line. -/
def registers (clkSysFreq freq : UInt32) (volume : ℚ) (on : Bool) : PwmConfig :=
  programmed ⟨⟨⟨0, 0, 0⟩, 0⟩, ⟨0, 0, 0⟩, clkSysFreq, freq, volume, on⟩

/-- The pitch: the counter takes `top + 1` values, each for `divider` clocks. -/
def pitch (clkSysFreq : UInt32) (cfg : PwmConfig) : ℚ := clkSysFreq.toNat / (cfg.divider * (cfg.top + 1) : ℕ)

/-- The GPIO the radio is keyed from. -/
def radioKeyPin : ℕ := 11

/-- `safe_stop`, on the `GPIO_OUT` word and the slice: the key's bit cleared,
the compare value zeroed. -/
def safeStop (gpioOut : BitVec 32) (pwm : Pwm) : BitVec 32 × Pwm :=
  (gpioOut &&& ~~~(1#32 <<< radioKeyPin), { pwm with config.compareA := 0 })

/-- What the keyer drives: the pin as the key line is, the slice as for the
config `c`, with its counter within the period. -/
structure Drives (clkSysFreq : UInt32) (c : KeyerConfig) (on : Bool) (k : Keyer ε) : Prop where
  pin : k.radioKey.pin = on
  slice : ∃ v, |c.sidetoneVolume.clampUnit - v| < F32.epsilon ∧
    k.buzzer.pwm.config = registers clkSysFreq (max c.sidetoneFreq 50) v on
  counter : k.buzzer.pwm.ctr ≤ k.buzzer.pwm.config.top
  silent : on = false → high k.buzzer.pwm = false

theorem programmed_eq (b : Buzzer) :
    b.programmed = registers b.sysClkHz b.currentFreqHz b.currentVolume b.keying :=
  rfl

/-! ### The buzzer's part of a step -/

theorem calls_act (k : Keyer ε) (st : Statics) (n : ℕ) (o : Option KeyerOutput) :
    StepRun.run BuzzerRun.step k.buzzer ((o.bind keyEvent).toList.map .setKeyed) = some (k.act st n o).1.buzzer :=
  match o with
  | none => rfl
  | some .keyDown => rfl
  | some .keyUp => rfl
  | some (.pttRequest true) => rfl
  | some (.pttRequest false) => rfl

theorem calls_step {s s' : State ε} {a : Label} (h : toneStep E s a = some s') :
    StepRun.run BuzzerRun.step s.k.buzzer (calls E s a) = some s'.k.buzzer := by
  cases a with
  | count n =>
    obtain ⟨b, hb, rfl⟩ := Option.map_eq_some_iff.mp h
    exact (StepRun.run_cons_some _).mpr ⟨b, hb, rfl⟩
  | task a =>
    have hc := loopStep_cases E h
    cases a with
    | edit c =>
      obtain rfl : s' = _ := hc
      rfl
    | saveLock b =>
      obtain rfl : s' = _ := hc
      rfl
    | park =>
      obtain ⟨-, rfl⟩ := hc
      rfl
    | poll a b =>
      obtain ⟨-, rfl⟩ := hc
      rfl
    | count =>
      obtain ⟨-, rfl⟩ := hc
      show some _ = some s.k.count.1.buzzer
      unfold Keyer.count
      simp only
      split <;> rfl
    | refresh =>
      obtain ⟨-, rfl⟩ := hc
      rfl
    | tick n =>
      obtain ⟨-, rfl⟩ := hc
      exact calls_act { s.k with engine := (E.tick s.k.engine).1 } s.st n _

/-- What holds of the buzzer from the loop's start on. -/
structure Tuned (clkSysFreq : UInt32) (b : Buzzer) : Prop where
  clk : b.sysClkHz = clkSysFreq
  fresh : BuzzerRun.Fresh b
  sound : BuzzerRun.Sound b
  volume : 0 ≤ b.currentVolume ∧ b.currentVolume ≤ 1

theorem Tuned.call {clkSysFreq : UInt32} {b b' : Buzzer} {c : BuzzerRun.Call} (h : Tuned clkSysFreq b)
    (hs : BuzzerRun.step b c = some b') : Tuned clkSysFreq b' := by
  refine ⟨?_, BuzzerRun.step_fresh (.inl h.fresh) hs, BuzzerRun.step_sound h.sound hs,
    BuzzerRun.step_volume h.volume hs⟩
  obtain ⟨rfl, -⟩ | ⟨f, v, on, rfl⟩ | ⟨n, -, rfl, -⟩ := BuzzerRun.step_cases hs
  · exact h.clk
  · exact h.clk
  · exact h.clk

/-- The first settings always program the slice: no tone is 0 Hz. -/
theorem tuned_start {dflt : PwmConfig} {ctr : ℕ} (clkSysFreq : UInt32) (hsilent : dflt.compareA = 0)
    (hctr : ctr ≤ dflt.top) (f : UInt32) (v : F32) :
    Tuned clkSysFreq ((Buzzer.new ⟨dflt, ctr⟩ dflt clkSysFreq).updateSettings f v) := by
  have hboot := BuzzerRun.boot_sound dflt ctr clkSysFreq hsilent hctr
  have hstep : BuzzerRun.step (BuzzerRun.boot dflt ctr clkSysFreq) (.updateSettings f v) =
      some ((Buzzer.new ⟨dflt, ctr⟩ dflt clkSysFreq).updateSettings f v) := rfl
  have hprograms : BuzzerRun.Programs (BuzzerRun.boot dflt ctr clkSysFreq) (.updateSettings f v) := by
    rintro ⟨hfreq, -⟩
    have h50 := updateSettings_freq_ge (BuzzerRun.boot dflt ctr clkSysFreq) f v
    rw [updateSettings_freq, hfreq] at h50
    have h0 : (BuzzerRun.boot dflt ctr clkSysFreq).currentFreqHz.toNat = 0 := rfl
    omega
  refine ⟨?_, BuzzerRun.step_fresh (.inr hprograms) hstep, BuzzerRun.step_sound hboot hstep,
    BuzzerRun.step_volume ⟨le_rfl, zero_le_one⟩ hstep⟩
  unfold Buzzer.updateSettings
  simp only
  split <;> rfl

/-! ### The invariant -/

/-- The tone and the volume are those of `c`. -/
def Heard (c : KeyerConfig) (b : Buzzer) : Prop :=
  b.currentFreqHz = max c.sidetoneFreq 50 ∧ |c.sidetoneVolume.clampUnit - b.currentVolume| < F32.epsilon

theorem heard_updateSettings (b : Buzzer) (c : KeyerConfig) :
    Heard c (b.updateSettings c.sidetoneFreq c.sidetoneVolume) :=
  ⟨updateSettings_freq _ _ _, updateSettings_volume _ _ _⟩

/-- Gating the tone leaves its settings alone. -/
theorem Heard.act {c : KeyerConfig} {k : Keyer ε} (h : Heard c k.buzzer) (st : Statics) (n : ℕ)
    (o : Option KeyerOutput) : Heard c (k.act st n o).1.buzzer := by
  refine Keyer.act_rule (P := fun r => Heard c r.1.buzzer) h (fun on => ?_) o
  refine ⟨(setKeyed_currentFreqHz k.buzzer on).trans h.1, ?_⟩
  show |_ - (k.buzzer.setKeyed on).currentVolume| < _
  rw [setKeyed_currentVolume]
  exact h.2

/-- The slice is programmed, for the config in use, and the key line is the
engine's. -/
structure Inv (c₀ : KeyerConfig) (clkSysFreq : UInt32) (log : List Snapshots.Event) (s : State ε) : Prop where
  tuned : Tuned clkSysFreq s.k.buzzer
  heard : Heard (Snapshots.config c₀ log) s.k.buzzer
  keyer : Snapshots.Inv c₀ log s

theorem heard_step {s s' : State ε} {a : Loop.Label} {c₀ : KeyerConfig} {log : List Snapshots.Event}
    (hh : Heard (Snapshots.config c₀ log) s.k.buzzer) (h : loopStep E s a = some s') :
    Heard (Snapshots.config c₀ (log ++ Snapshots.events E s a)) s'.k.buzzer := by
  have hc := loopStep_cases E h
  cases a with
  | edit c =>
    obtain rfl : s' = _ := hc
    exact (List.append_nil log).symm ▸ hh
  | saveLock b =>
    obtain rfl : s' = _ := hc
    exact (List.append_nil log).symm ▸ hh
  | park =>
    obtain ⟨-, rfl⟩ := hc
    exact (List.append_nil log).symm ▸ hh
  | poll a b =>
    obtain ⟨-, rfl⟩ := hc
    show Heard (Snapshots.config c₀ (log ++ [.sample a b])) _
    rw [Snapshots.config_concat]
    exact hh
  | count =>
    obtain ⟨-, rfl⟩ := hc
    show Heard (Snapshots.config c₀ (log ++ [])) s.k.count.1.buzzer
    rw [List.append_nil]
    unfold Keyer.count
    simp only
    split <;> exact hh
  | refresh =>
    obtain ⟨-, rfl⟩ := hc
    show Heard (Snapshots.config c₀ (log ++ [.refresh s.st.sharedConfig])) _
    rw [Snapshots.config_concat]
    exact heard_updateSettings s.k.buzzer s.st.sharedConfig
  | tick n =>
    obtain ⟨-, rfl⟩ := hc
    have hact := Heard.act (k := { s.k with engine := (E.tick s.k.engine).1 }) hh s.st n (E.tick s.k.engine).2
    show Heard (Snapshots.config c₀ (log ++ (E.tick s.k.engine).2.toList.map .output)) _
    cases (E.tick s.k.engine).2 with
    | none => exact (List.append_nil log).symm ▸ hact
    | some o =>
      show Heard (Snapshots.config c₀ (log ++ [.output o])) _
      rw [Snapshots.config_concat]
      exact hact

theorem inv_step {c₀ : KeyerConfig} {clkSysFreq : UInt32} (log : List Snapshots.Event) (s : State ε) (a : Label)
    (s' : State ε) (hI : Inv c₀ clkSysFreq log s) (h : toneStep E s a = some s') :
    Inv c₀ clkSysFreq (log ++ events E s a) s' := by
  have htuned : Tuned clkSysFreq s'.k.buzzer :=
    StepRun.run_inv BuzzerRun.step (fun b c b' hb => hb.call) hI.tuned (calls_step E h)
  cases a with
  | task a => exact ⟨htuned, heard_step E hI.heard h, Snapshots.inv_step E log s a s' hI.keyer h⟩
  | count n =>
    obtain ⟨b, hb, rfl⟩ := Option.map_eq_some_iff.mp h
    obtain ⟨-, rfl⟩ := StepRun.guard_some hb
    refine ⟨htuned, ?_, hI.keyer.quiet rfl rfl rfl rfl rfl rfl rfl⟩
    show Heard (Snapshots.config c₀ (log ++ [])) _
    rw [List.append_nil]
    exact hI.heard

/-- The loop at boot, over a slice at its default config. -/
def boot (c₀ : KeyerConfig) (dflt : PwmConfig) (ctr : ℕ) (clkSysFreq : UInt32) : State ε :=
  Loop.boot E c₀ (.new ⟨dflt, ctr⟩ dflt clkSysFreq)

theorem inv_run {c₀ : KeyerConfig} {dflt : PwmConfig} {ctr : ℕ} {clkSysFreq : UInt32}
    (hsilent : dflt.compareA = 0) (hctr : ctr ≤ dflt.top) {ls : List Label} {s : State ε}
    (h : StepRun.run (toneStep E) (boot E c₀ dflt ctr clkSysFreq) ls = some s) :
    Inv c₀ clkSysFreq (StepRun.trace (toneStep E) (events E) (boot E c₀ dflt ctr clkSysFreq) ls) s := by
  have hboot : Inv c₀ clkSysFreq [] (boot E c₀ dflt ctr clkSysFreq) :=
    ⟨tuned_start clkSysFreq hsilent hctr _ _, heard_updateSettings _ c₀, Snapshots.inv_boot E c₀ rfl⟩
  exact StepRun.run_inv_trace (I := Inv c₀ clkSysFreq) (toneStep E) (inv_step E) ls [] _ s hboot h

/-! ### Pitch -/

/-- A period of `t + 1` for a truncated quotient `t` makes a tone less than a
`t`-th flat, and never sharp. -/
theorem pitch_flat {c d f t : ℕ} (hd : 0 < d) (hf : 0 < f) (ht : 4096 ≤ t) (hle : t * d * f ≤ c)
    (hlt : c < (t + 1) * d * f) :
    (f : ℚ) - f / 4096 < c / (d * (t + 1) : ℕ) ∧ (c : ℚ) / (d * (t + 1) : ℕ) < f := by
  have hpos : (0 : ℚ) < (d * (t + 1) : ℕ) := by
    have hnat : 0 < d * (t + 1) := Nat.mul_pos hd t.succ_pos
    exact_mod_cast hnat
  have hflat : c < f * (d * (t + 1)) := by
    calc c < (t + 1) * d * f := hlt
      _ = f * (d * (t + 1)) := by ring
  -- what the last count takes off is `d * f`, less than a 4096th of the whole
  have hnear : 4096 * (f * (d * (t + 1))) < 4096 * c + f * (d * (t + 1)) := by
    have hwhole : 4096 * (d * f) < (t + 1) * (d * f) := Nat.mul_lt_mul_of_pos_right (by omega) (Nat.mul_pos hd hf)
    have hquot : t * (d * f) ≤ c := by
      calc t * (d * f) = t * d * f := by ring
        _ ≤ c := hle
    calc 4096 * (f * (d * (t + 1))) = 4096 * (t * (d * f)) + 4096 * (d * f) := by ring
      _ < 4096 * c + (t + 1) * (d * f) := by omega
      _ = 4096 * c + f * (d * (t + 1)) := by ring
  refine ⟨?_, ?_⟩
  · have hnear' : (4096 : ℚ) * (f * (d * (t + 1) : ℕ)) < 4096 * c + f * (d * (t + 1) : ℕ) := by
      exact_mod_cast hnear
    rw [lt_div_iff₀ hpos]
    linarith
  · rw [div_lt_iff₀ hpos]
    exact_mod_cast hflat

theorem Tuned.pitch {clkSysFreq : UInt32} {b : Buzzer} (h : Tuned clkSysFreq b) (h50 : 50 ≤ b.currentFreqHz.toNat)
    (hslow : 4096 * b.currentFreqHz.toNat ≤ clkSysFreq.toNat) (hfast : clkSysFreq.toNat ≤ 637500000) :
    (b.currentFreqHz.toNat : ℚ) - b.currentFreqHz.toNat / 4096 < pitch clkSysFreq b.pwm.config ∧
      pitch clkSysFreq b.pwm.config < b.currentFreqHz.toNat := by
  have hclk := h.clk
  have hregular : Regular b := by
    refine ⟨h50, ?_, ?_⟩ <;> rw [hclk] <;> omega
  have hfine : 4096 ≤ b.top := by
    have hquot := hregular.quotient_bounds.2.2 (by rw [hclk]; exact hslow)
    rwa [← hregular.top_eq_quotient.2] at hquot
  obtain ⟨hle, hlt⟩ := hregular.top_exact
  rw [hclk] at hle hlt
  have hconfig : b.pwm.config = ⟨b.divInt, b.top, b.compareA⟩ := h.fresh
  rw [hconfig]
  exact pitch_flat b.divInt_bounds.1 (by omega) hfine hle hlt

/-! ### A panic -/

/-- One bit is cleared, the others stay. -/
theorem getLsbD_safeStop (w : BitVec 32) (pwm : Pwm) {i : ℕ} (hi : i < 32) :
    (safeStop w pwm).1.getLsbD i = (w.getLsbD i && i != radioKeyPin) := by
  unfold safeStop
  rw [BitVec.getLsbD_and, BitVec.getLsbD_not, BitVec.getLsbD_shiftLeft, BitVec.getLsbD_one]
  by_cases hkey : i = radioKeyPin
  · subst hkey
    rfl
  · have hother : ¬(i < radioKeyPin) → ¬(i - radioKeyPin = 0) := by omega
    by_cases hlow : i < radioKeyPin
    · simp [hi, hlow, hkey]
    · simp [hi, hlow, hkey, hother hlow]

/-- `safe_stop` leaves the registers of a key-up. -/
theorem Tuned.safeStop {clkSysFreq : UInt32} {b : Buzzer} (h : Tuned clkSysFreq b) (w : BitVec 32) :
    (safeStop w b.pwm).2.config = (b.setKeyed false).pwm.config := by
  show { b.pwm.config with compareA := 0 } = _
  unfold setKeyed
  by_cases hoff : b.keying = false
  · rw [if_pos hoff, ← h.sound.silent hoff]
  · rw [if_neg hoff, h.fresh]
    rfl

/-! ### The theorem -/

theorem Inv.drives {c₀ : KeyerConfig} {clkSysFreq : UInt32} {log : List Snapshots.Event} {s : State ε}
    (hI : Inv c₀ clkSysFreq log s) :
    Drives clkSysFreq (Snapshots.config c₀ log) (lineOf (Snapshots.outs log)) s.k := by
  have hkeying : s.k.buzzer.keying = lineOf (Snapshots.outs log) := congrArg (fun l => l.2.1) hI.keyer.coherent
  refine ⟨congrArg Prod.fst hI.keyer.coherent, ⟨s.k.buzzer.currentVolume, hI.heard.2, ?_⟩, hI.tuned.sound.ctr,
    fun hoff => ?_⟩
  · rw [hI.tuned.fresh, programmed_eq, hI.tuned.clk, hI.heard.1, hkeying]
  · unfold high
    rw [hI.tuned.sound.silent (hkeying.trans hoff)]
    rfl

/-- **The outputs follow the settings.** In every state of every run, wherever
edits, parking and the slice's counter come between: the radio's pin is the
engine's last key event, the slice has the registers of the config of the last
refresh (of its volume to within `EPSILON`) and of that key event, whatever was
programmed before, with the counter inside the period and no sound between
elements. On a clock of 4096
times the tone or more, and of 637.5 MHz or less, the pitch is flat by less
than a 4096th and never sharp. And a panic there silences the piezo as a key-up
would, and takes the key's bit of `GPIO_OUT` and no other. -/
theorem outputs_follow (c₀ : KeyerConfig) (dflt : PwmConfig) (ctr : ℕ) (clkSysFreq : UInt32)
    (hsilent : dflt.compareA = 0) (hctr : ctr ≤ dflt.top) (ls : List Label) (s : State ε)
    (h : StepRun.run (toneStep E) (boot E c₀ dflt ctr clkSysFreq) ls = some s) :
    let log := StepRun.trace (toneStep E) (events E) (boot E c₀ dflt ctr clkSysFreq) ls
    let freq := max (Snapshots.config c₀ log).sidetoneFreq 50
    Drives clkSysFreq (Snapshots.config c₀ log) (lineOf (Snapshots.outs log)) s.k ∧
    (4096 * freq.toNat ≤ clkSysFreq.toNat → clkSysFreq.toNat ≤ 637500000 →
      (freq.toNat : ℚ) - freq.toNat / 4096 < pitch clkSysFreq s.k.buzzer.pwm.config ∧
      pitch clkSysFreq s.k.buzzer.pwm.config < freq.toNat) ∧
    ∀ w : BitVec 32, (safeStop w s.k.buzzer.pwm).2.config = (s.k.buzzer.setKeyed false).pwm.config ∧
      ∀ i < 32, (safeStop w s.k.buzzer.pwm).1.getLsbD i = (w.getLsbD i && i != radioKeyPin) := by
  intro log freq
  have hI := inv_run E hsilent hctr h
  refine ⟨hI.drives, fun hslow hfast => ?_, fun w => ⟨hI.tuned.safeStop w, fun i hi => getLsbD_safeStop w _ hi⟩⟩
  have hfreq : s.k.buzzer.currentFreqHz = freq := hI.heard.1
  have h50 : 50 ≤ s.k.buzzer.currentFreqHz.toNat := by
    have hset := updateSettings_freq_ge s.k.buzzer (Snapshots.config c₀ log).sidetoneFreq .nan
    rw [updateSettings_freq] at hset
    rwa [hfreq]
  rw [← hfreq] at hslow ⊢
  exact hI.tuned.pitch h50 hslow hfast

/-- A dit on a straight key, with the counter running: the sidetone sounds,
and its pitch is within a hertz of the 600 Hz set. -/
theorem outputs_follow_dit :
    let ls := (List.replicate 9 [Label.task (.poll true false), .task .count, .count 1000, .task (.tick 0)]).flatten
    ∃ s, StepRun.run (toneStep StraightKey.engine) (boot StraightKey.engine StraightKey.config
        StraightKey.pwm.config StraightKey.pwm.ctr StraightKey.clkSysFreq) ls = some s ∧
      s.k.radioKey.pin = true ∧ high s.k.buzzer.pwm = true ∧
      599 < pitch StraightKey.clkSysFreq s.k.buzzer.pwm.config ∧
      pitch StraightKey.clkSysFreq s.k.buzzer.pwm.config < 600 := by
  intro ls
  have hrun : (StepRun.run (toneStep StraightKey.engine) (boot StraightKey.engine StraightKey.config
      StraightKey.pwm.config StraightKey.pwm.ctr StraightKey.clkSysFreq) ls).map
        (fun s => high s.k.buzzer.pwm) = some true := by
    decide +kernel
  obtain ⟨s, hs, hhigh⟩ := Option.map_eq_some_iff.mp hrun
  obtain ⟨hdrives, hpitch, -⟩ := outputs_follow StraightKey.engine StraightKey.config StraightKey.pwm.config
    StraightKey.pwm.ctr StraightKey.clkSysFreq rfl (by decide) ls s hs
  have hlog : lineOf (Snapshots.outs (StepRun.trace (toneStep StraightKey.engine) (events StraightKey.engine)
        (boot StraightKey.engine StraightKey.config StraightKey.pwm.config StraightKey.pwm.ctr
          StraightKey.clkSysFreq) ls)) = true ∧
      Snapshots.config StraightKey.config (StepRun.trace (toneStep StraightKey.engine) (events StraightKey.engine)
        (boot StraightKey.engine StraightKey.config StraightKey.pwm.config StraightKey.pwm.ctr
          StraightKey.clkSysFreq) ls) = StraightKey.config := by
    decide +kernel
  rw [hlog.2] at hpitch
  obtain ⟨hflat, hsharp⟩ := hpitch (by decide) (by decide)
  have h600 : ((max StraightKey.config.sidetoneFreq 50).toNat : ℚ) = 600 := rfl
  rw [h600] at hflat hsharp
  exact ⟨s, hs, hdrives.pin.trans hlog.1, hhigh, by linarith, hsharp⟩

end Tone
end RpKeyer
