/-
# The save window

The keyer loop and the persistence task over `ENGINE_ACTIVE` and `SAVE_LOCK`.
The keyer preempts the task, so one of its iterations is one step; the task is
taken one access at a time; any engine, any paddle samples, any edits.

The recheck is to catch a press that lands between the load of `ENGINE_ACTIVE`
and the store of `SAVE_LOCK`. It cannot: a parked iteration stores
`ENGINE_ACTIVE = false` whatever the engine is doing, and one runs before the
recheck, so the recheck always passes and the retry is never taken. A save is
safe exactly when nothing was there to be caught: when at the store of the lock
the engine is idle and no iteration since the load has left it active
(`save_window_iff`).
-/
import RpKeyer.KeyLine
import RpKeyer.Persist

namespace RpKeyer
namespace SaveWindow

open Codecs KeyLine

variable {ε : Type} (E : Engine ε)

/-! ### Engines that report their keying -/

/-- An engine state with its last key event, down for `true`. -/
inductive Keyed : ε → Bool → Prop
  | start (config : KeyerConfig) (tickUs : UInt32) : Keyed (E.newWithTick config tickUs) false
  | setPaddle {e : ε} {b : Bool} (dit dah : Bool) (h : Keyed e b) : Keyed (E.setPaddle e dit dah) b
  | updateConfig {e : ε} {b : Bool} (config : KeyerConfig) (h : Keyed e b) : Keyed (E.updateConfig e config) b
  | tick {e : ε} {b : Bool} (h : Keyed e b) : Keyed (E.tick e).1 (((E.tick e).2.bind keyEvent).getD b)

/-- An engine that has keyed down and not up says it is active. -/
def ReportsKeying : Prop := ∀ e, Keyed E e true → E.isActive e = true

theorem pin_act (k : Keyer ε) (st : Statics) (n : ℕ) :
    ∀ o : Option KeyerOutput, (k.act st n o).1.radioKey.pin = (o.bind keyEvent).getD k.radioKey.pin
  | none => rfl
  | some .keyDown => rfl
  | some .keyUp => rfl
  | some (.pttRequest true) => rfl
  | some (.pttRequest false) => rfl

theorem engine_act (k : Keyer ε) (st : Statics) (n : ℕ) (o : Option KeyerOutput) :
    (k.act st n o).1.engine = k.engine :=
  Keyer.act_rule (P := fun r => r.1.engine = k.engine) rfl (fun _ => rfl) o

theorem keyed_beforeTick {k : Keyer ε} {b : Bool} (h : Keyed E k.engine b) (st : Statics)
    (rawDit rawDah : Bool) :
    Keyed E (k.beforeTick E st rawDit rawDah).1.engine b := by
  have hpoll : Keyed E (k.poll E st rawDit rawDah).1.engine b := h.setPaddle _ _
  unfold Keyer.beforeTick Keyer.section4
  have hcount : ∀ k : Keyer ε, k.count.1.engine = k.engine := by
    intro k
    unfold Keyer.count
    simp only
    split <;> rfl
  split
  · refine Keyed.updateConfig _ ?_
    rw [hcount]
    exact hpoll
  · rw [hcount]
    exact hpoll

/-- The pin is the engine's last key event. -/
theorem keyed_iteration {k : Keyer ε} (h : Keyed E k.engine k.radioKey.pin) (st : Statics) (a b : Bool)
    (n : ℕ) :
    Keyed E (k.iteration E st a b n).1.engine (k.iteration E st a b n).1.radioKey.pin := by
  by_cases hlock : st.saveLock = true
  · rw [Keyer.iteration_parked E k hlock]
    exact h
  · rw [Keyer.iteration_unparked E k (by simpa using hlock)]
    have hpin : (k.beforeTick E st a b).1.radioKey.pin = k.radioKey.pin :=
      congrArg Prod.fst (lines_beforeTick E k st a b)
    have hbefore := keyed_beforeTick E h st a b
    unfold Keyer.tick
    simp only [pin_act, engine_act, hpin]
    exact hbefore.tick

/-! ### The system -/

variable (tag : Codec UInt16) (codec : Codec KeyerConfig)

/-- The keyer, the statics and the task. On the side: whether the keyer has
iterated since the lock was stored, and whether an iteration between the load
and the store left the engine active. -/
structure Sys (ε : Type) where
  k : Keyer ε
  st : Statics
  p : Persist.State
  observed : Bool
  raced : Bool

/-- An iteration of the keyer, an edit with its signal, or a step of the task
with the result of its store. -/
inductive Label
  | keyer (rawDit rawDah : Bool) (nowUs : ℕ)
  | edit (config : KeyerConfig)
  | persist (ok : Bool)

/-- The sleep `PARK_OBSERVE` is over once the keyer has iterated. -/
def sysStep (s : Sys ε) : Label → Option (Sys ε)
  | .keyer a b n =>
    let r := s.k.iteration E s.st a b n
    some { s with
      k := r.1
      st := r.2
      observed := true
      raced := s.raced || (s.p.pc == .storeLock && E.isActive r.1.engine) }
  | .edit c => some { s with st := { s.st with sharedConfig := c, configDirty := s.st.configDirty.post () } }
  | .persist ok =>
    if s.p.pc = .parkObserve ∧ s.observed = false then none
    else
      (Persist.step tag codec s.p s.st ok).map fun r => { s with
        p := r.1
        st := r.2
        observed := s.observed && s.p.pc != .storeLock
        raced := s.raced && s.p.pc != .loadActive }

/-- Boot: the config restored from the flash, the pin low. -/
def boot (dflt : KeyerConfig) (bz : Buzzer) (flash : Storage.Flash) : Sys ε :=
  let st := Statics.boot (Persist.restore tag codec dflt flash)
  ⟨.start E st ⟨false⟩ bz, st, Persist.start flash, false, false⟩

/-! ### What is claimed, and when -/

/-- In the window the engine is not active, the key line is low, and no press
went undetected. -/
structure Safe (s : Sys ε) : Prop where
  inactive : s.p.pc.window = true → E.isActive s.k.engine = false
  low : s.p.pc.window = true → s.k.radioKey.pin = false
  detected : s.p.pc.window = true → s.raced = false

/-- Nothing for the recheck to catch. -/
def Idle (s : Sys ε) : Prop := E.isActive s.k.engine = false ∧ s.raced = false

instance (s : Sys ε) : Decidable (Idle E s) := inferInstanceAs (Decidable (_ ∧ _))

/-- A store of the lock finds nothing to catch. -/
def Quiet (s : Sys ε) : Label → Prop
  | .persist _ => s.p.pc = .storeLock → Idle E s
  | _ => True

instance (s : Sys ε) : ∀ a, Decidable (Quiet E s a)
  | .persist _ => inferInstanceAs (Decidable (_ → _))
  | .keyer .. => .isTrue trivial
  | .edit _ => .isTrue trivial

/-! ### The invariant -/

structure Inv (s : Sys ε) : Prop where
  keyed : Keyed E s.k.engine s.k.radioKey.pin
  lock : s.st.saveLock = s.p.pc.locked
  parked : s.p.pc = .parkObserve ∧ s.observed = true ∨ s.p.pc = .recheck → s.st.engineActive = false
  noRetry : s.p.pc ≠ .release ∧ s.p.pc ≠ .retrySleep

/-- While the lock is held, what the store of it found. -/
def Held (s : Sys ε) : Prop := s.p.pc.locked = true → Idle E s

theorem inv_keyer {s : Sys ε} (hI : Inv E s) (a b : Bool) (n : ℕ) {s' : Sys ε}
    (h : sysStep E tag codec s (.keyer a b n) = some s') : Inv E s' := by
  obtain rfl := Option.some.inj h
  have hkept := Keyer.kept_iteration E s.k s.st a b n
  refine { keyed := keyed_iteration E hI.keyed s.st a b n, lock := hkept.saveLock.trans hI.lock,
           parked := ?_, noRetry := hI.noRetry }
  intro hpc
  -- the lock is held at both points, and a parked iteration clears the flag
  have hheld : s.st.saveLock = true := by
    rw [hI.lock]
    rcases hpc with ⟨hpc, -⟩ | hpc
    · have hpc' : s.p.pc = .parkObserve := hpc
      rw [hpc']
      rfl
    · have hpc' : s.p.pc = .recheck := hpc
      rw [hpc']
      rfl
  show (s.k.iteration E s.st a b n).2.engineActive = false
  rw [Keyer.iteration_parked E s.k hheld]

/-- A step of the task: its sleep is over, and it goes its way. -/
theorem persist_some {s s' : Sys ε} {ok : Bool} (h : sysStep E tag codec s (.persist ok) = some s')
    (hI : Inv E s) :
    ¬(s.p.pc = .parkObserve ∧ s.observed = false) ∧ s'.k = s.k ∧
      s'.st.engineActive = s.st.engineActive ∧ s'.st.saveLock = s'.p.pc.locked ∧
      s'.observed = (s.observed && s.p.pc != .storeLock) ∧ s'.raced = (s.raced && s.p.pc != .loadActive) ∧
      Persist.Goes s.st.engineActive s.p.pc s'.p.pc := by
  simp only [sysStep] at h
  by_cases hsleep : s.p.pc = .parkObserve ∧ s.observed = false
  · rw [if_pos hsleep] at h
    cases h
  · rw [if_neg hsleep] at h
    obtain ⟨r, hr, rfl⟩ := Option.map_eq_some_iff.mp h
    have hstepped := Persist.step_stepped tag codec hr
    exact ⟨hsleep, rfl, hstepped.engineActive, hstepped.saveLock hI.lock, rfl, rfl, hstepped.goes⟩

theorem inv_persist {s s' : Sys ε} {ok : Bool} (hI : Inv E s)
    (h : sysStep E tag codec s (.persist ok) = some s') : Inv E s' := by
  obtain ⟨hsleep, hk, hactive, hlock, hobs, -, hgoes⟩ := persist_some E tag codec h hI
  refine { keyed := hk ▸ hI.keyed, lock := hlock, parked := ?_, noRetry := ⟨?_, ?_⟩ }
  · rintro (⟨hpc', hobs'⟩ | hpc')
    · -- the sleep has just begun
      have hpc : s.p.pc = .storeLock := by
        generalize s.p.pc = pc at hgoes
        rw [hpc'] at hgoes
        cases hgoes
        rfl
      rw [hobs, hpc] at hobs'
      simp at hobs'
    · -- the sleep is over, and the keyer has iterated in it
      have hpc : s.p.pc = .parkObserve := by
        generalize s.p.pc = pc at hgoes
        rw [hpc'] at hgoes
        cases hgoes
        rfl
      rw [hactive]
      exact hI.parked (.inl ⟨hpc, by simpa [hpc] using hsleep⟩)
  · intro hpc'
    rw [hpc'] at hgoes
    generalize hpc : s.p.pc = pc at hgoes
    cases hgoes with
    | raced hbusy =>
      have hidle := hI.parked (.inr hpc)
      rw [hbusy] at hidle
      cases hidle
  · intro hpc'
    rw [hpc'] at hgoes
    generalize hpc : s.p.pc = pc at hgoes
    cases hgoes
    exact hI.noRetry.1 hpc

theorem inv_step (s : Sys ε) (a : Label) (s' : Sys ε) (hI : Inv E s)
    (h : sysStep E tag codec s a = some s') : Inv E s' := by
  cases a with
  | keyer a b n => exact inv_keyer E tag codec hI a b n h
  | edit c =>
    obtain rfl := Option.some.inj h
    exact { keyed := hI.keyed, lock := hI.lock, parked := hI.parked, noRetry := hI.noRetry }
  | persist ok => exact inv_persist E tag codec hI h

theorem inv_boot (dflt : KeyerConfig) (bz : Buzzer) (flash : Storage.Flash) :
    Inv E (boot E tag codec dflt bz flash) where
  keyed := .start _ _
  lock := rfl
  parked := fun _ => rfl
  noRetry := by
    refine ⟨fun h => ?_, fun h => ?_⟩ <;> cases h

/-! ### Quiet runs -/

/-- A parked keyer keeps the engine, so what the store found still holds. -/
theorem held_step {s s' : Sys ε} {a : Label} (hI : Inv E s) (hH : Held E s) (hq : Quiet E s a)
    (h : sysStep E tag codec s a = some s') : Held E s' := by
  cases a with
  | keyer a b n =>
    obtain rfl := Option.some.inj h
    intro hlocked
    have hlocked' : s.p.pc.locked = true := hlocked
    have hstore : (s.p.pc == .storeLock) = false := by
      rw [beq_eq_false_iff_ne]
      intro hpc
      rw [hpc] at hlocked'
      cases hlocked'
    unfold Idle
    simp only [Keyer.iteration_parked E s.k (hI.lock.trans hlocked'), hstore, Bool.false_and, Bool.or_false]
    exact hH hlocked'
  | edit c =>
    obtain rfl := Option.some.inj h
    exact hH
  | persist ok =>
    obtain ⟨-, hk, -, -, -, hraced, hgoes⟩ := persist_some E tag codec h hI
    intro hlocked
    have hidle : Idle E s := by
      by_cases hpc : s.p.pc = .storeLock
      · exact hq hpc
      · refine hH ?_
        generalize hp : s.p.pc = pc at hgoes hpc ⊢
        generalize hp' : s'.p.pc = pc' at hgoes hlocked
        cases hgoes <;> first | exact absurd rfl hpc | rfl | cases hlocked
    refine ⟨hk ▸ hidle.1, ?_⟩
    rw [hraced, hidle.2, Bool.false_and]

theorem held_run {ls : List Label} {s s' : Sys ε} (hI : Inv E s) (hH : Held E s)
    (hq : StepRun.AllSteps (sysStep E tag codec) (Quiet E) s ls)
    (h : StepRun.run (sysStep E tag codec) s ls = some s') : Inv E s' ∧ Held E s' :=
  StepRun.run_inv_of (I := fun s => Inv E s ∧ Held E s) (sysStep E tag codec)
    (fun s a s' hs hq h => ⟨inv_step E tag codec s a s' hs.1 h, held_step E tag codec hs.1 hs.2 hq h⟩)
    ls s s' ⟨hI, hH⟩ hq h

/-- A line that is high is the line of an engine that says so. -/
theorem safe_of_held (hE : ReportsKeying E) {s : Sys ε} (hI : Inv E s) (hH : Held E s) : Safe E s where
  inactive hw := (hH (Persist.locked_of_window hw)).1
  low hw := by
    have hidle := (hH (Persist.locked_of_window hw)).1
    have hkeyed := hI.keyed
    cases hpin : s.k.radioKey.pin with
    | false => rfl
    | true =>
      rw [hpin] at hkeyed
      rw [hE _ hkeyed] at hidle
      cases hidle
  detected hw := (hH (Persist.locked_of_window hw)).2

/-! ### What the recheck misses -/

/-- From any store of the lock the task can be in the window four steps on,
with the engine as it was and a race undetected. -/
theorem reaches_window {s : Sys ε} (hpc : s.p.pc = .storeLock) :
    ∃ s₁ s', sysStep E tag codec s (.persist true) = some s₁ ∧
      StepRun.AllSteps (sysStep E tag codec) (fun s _ => s.p.pc ≠ .storeLock) s₁
        [.keyer false false 0, .persist true, .persist true] ∧
      StepRun.run (sysStep E tag codec) s₁ [.keyer false false 0, .persist true, .persist true] = some s' ∧
      s'.p.pc = .clone ∧ s'.k.engine = s.k.engine ∧ s'.raced = s.raced := by
  obtain ⟨k, st, ⟨pc, flash, results⟩, observed, raced⟩ := s
  obtain rfl : pc = .storeLock := hpc
  let p (pc : Persist.Pc) : Persist.State := ⟨pc, flash, results⟩
  let locked : Statics := { st with saveLock := true }
  let parked : Statics := { locked with engineActive := false }
  have hstore : sysStep E tag codec ⟨k, st, p .storeLock, observed, raced⟩ (.persist true) =
      some ⟨k, locked, p .parkObserve, false, raced⟩ := by
    simp [sysStep, Persist.step, p, locked]
  have hpark : sysStep E tag codec ⟨k, locked, p .parkObserve, false, raced⟩ (.keyer false false 0) =
      some ⟨k, parked, p .parkObserve, true, raced⟩ := by
    simp [sysStep, Keyer.iteration, p, locked, parked]
  have hsleep : sysStep E tag codec ⟨k, parked, p .parkObserve, true, raced⟩ (.persist true) =
      some ⟨k, parked, p .recheck, true, raced⟩ := by
    simp [sysStep, Persist.step, p]
  have hrecheck : sysStep E tag codec ⟨k, parked, p .recheck, true, raced⟩ (.persist true) =
      some ⟨k, parked, p .clone, true, raced⟩ := by
    simp [sysStep, Persist.step, p, parked]
  refine ⟨_, ⟨k, parked, p .clone, true, raced⟩, hstore, ?_, ?_, rfl, rfl, rfl⟩
  · rw [StepRun.allSteps_cons_some _ hpark, StepRun.allSteps_cons_some _ hsleep,
      StepRun.allSteps_cons_some _ hrecheck]
    exact ⟨by simp [p], by simp [p], by simp [p], trivial⟩
  · rw [StepRun.run_cons, hpark, Option.bind_some, StepRun.run_cons, hsleep, Option.bind_some,
      StepRun.run_cons, hrecheck, Option.bind_some, StepRun.run_nil]

/-- The store of the lock finds the engine idle and no race if and only if
everything up to the next store of it is safe. -/
theorem round_safe_iff (hE : ReportsKeying E) {s : Sys ε} (hI : Inv E s) (hpc : s.p.pc = .storeLock) :
    Idle E s ↔ ∀ ok ls s₁ s', sysStep E tag codec s (.persist ok) = some s₁ →
      StepRun.AllSteps (sysStep E tag codec) (fun s _ => s.p.pc ≠ .storeLock) s₁ ls →
      StepRun.run (sysStep E tag codec) s₁ ls = some s' → Safe E s' := by
  constructor
  · intro hidle ok ls s₁ s' hstore hround hrun
    have hH : Held E s := by
      intro hlocked
      rw [hpc] at hlocked
      cases hlocked
    have hI₁ := inv_step E tag codec s (.persist ok) s₁ hI hstore
    have hq : Quiet E s (.persist ok) := fun _ => hidle
    have hH₁ := held_step E tag codec hI hH hq hstore
    have hquiet : StepRun.AllSteps (sysStep E tag codec) (Quiet E) s₁ ls := by
      refine StepRun.allSteps_mono _ (fun s a hne => ?_) ls s₁ hround
      cases a with
      | persist ok => exact fun heq => absurd heq hne
      | keyer a b n => trivial
      | edit c => trivial
    obtain ⟨hI', hH'⟩ := held_run E tag codec hI₁ hH₁ hquiet hrun
    exact safe_of_held E hE hI' hH'
  · intro hsafe
    obtain ⟨s₁, s', hstore, hround, hrun, hpc', hengine, hraced⟩ := reaches_window E tag codec hpc
    have hs' := hsafe true _ s₁ s' hstore hround hrun
    have hw : s'.p.pc.window = true := by
      rw [hpc']
      rfl
    exact ⟨hengine ▸ hs'.inactive hw, hraced ▸ hs'.detected hw⟩

/-! ### The theorem -/

/-- **The save window.** A run in which every store of `SAVE_LOCK` finds the
engine idle and no race is safe in every state it reaches; in any run, the
states from one store of the lock up to the next are all safe if and only if
that store finds so; and no run ever takes the retry. -/
theorem save_window_iff (hE : ReportsKeying E) (dflt : KeyerConfig) (bz : Buzzer) (flash : Storage.Flash)
    (ls : List Label) (s : Sys ε)
    (h : StepRun.run (sysStep E tag codec) (boot E tag codec dflt bz flash) ls = some s) :
    (StepRun.AllSteps (sysStep E tag codec) (Quiet E) (boot E tag codec dflt bz flash) ls → Safe E s) ∧
    (s.p.pc = .storeLock → (Idle E s ↔ ∀ ok ls' s₁ s', sysStep E tag codec s (.persist ok) = some s₁ →
      StepRun.AllSteps (sysStep E tag codec) (fun s _ => s.p.pc ≠ .storeLock) s₁ ls' →
      StepRun.run (sysStep E tag codec) s₁ ls' = some s' → Safe E s')) ∧
    s.p.pc ≠ .release := by
  have hboot := inv_boot E tag codec dflt bz flash
  have hI := StepRun.run_inv (sysStep E tag codec) (inv_step E tag codec) hboot h
  refine ⟨fun hq => ?_, round_safe_iff E tag codec hE hI, hI.noRetry.1⟩
  have hH : Held E (boot E tag codec dflt bz flash) := fun hlocked => by cases hlocked
  obtain ⟨hI', hH'⟩ := held_run E tag codec hboot hH hq h
  exact safe_of_held E hE hI' hH'

/-! ### A straight key -/

theorem straightKey_keyed {e : StraightKey.State} {b : Bool} (h : Keyed StraightKey.engine e b) :
    b = true ↔ StraightKey.keying e := by
  induction h with
  | start config tickUs => simp [StraightKey.keying, StraightKey.engine]
  | setPaddle dit dah _ ih => exact ih
  | updateConfig config _ ih => exact ih
  | @tick e b _ ih =>
    obtain ⟨config, held, phase⟩ := e
    cases phase <;> cases held <;>
      simp_all [StraightKey.engine, StraightKey.tick, StraightKey.keying, keyEvent]

theorem straightKey_reportsKeying : ReportsKeying StraightKey.engine := by
  intro e hkeyed
  rcases (straightKey_keyed hkeyed).mp rfl with hphase | hphase
  · simp [StraightKey.engine, hphase]
  · simp [StraightKey.engine, hphase]

/-- The key is pressed long enough to be debounced between the load and the
store: the task saves with the key down. -/
theorem press_in_gap_saved :
    let bz := Buzzer.new StraightKey.pwm StraightKey.pwm.config StraightKey.clkSysFreq
    let press : Label := .keyer true false 0
    let ls : List Label := [.edit StraightKey.config, .persist true, .persist true] ++ List.replicate 7 press ++
      [.persist true, press, .persist true, press, .persist true, .persist true, .persist true]
    ReportsKeying StraightKey.engine ∧
    ∃ s, StepRun.run (sysStep StraightKey.engine Postcard.varint16 Postcard.config)
        (boot StraightKey.engine Postcard.varint16 Postcard.config StraightKey.config bz .empty) ls = some s ∧
      (∃ cfg, s.p.pc = .save cfg) ∧ s.k.radioKey.pin = true ∧
      StraightKey.engine.isActive s.k.engine = true ∧ s.raced = true ∧ ¬Safe StraightKey.engine s := by
  intro bz press ls
  have hseen : (StepRun.run (sysStep StraightKey.engine Postcard.varint16 Postcard.config)
      (boot StraightKey.engine Postcard.varint16 Postcard.config StraightKey.config bz .empty) ls).map
        (fun s => (s.p.pc, s.k.radioKey.pin, StraightKey.engine.isActive s.k.engine, s.raced)) =
      some (.save StraightKey.config, true, true, true) := by
    decide +kernel
  obtain ⟨s, hs, hs'⟩ := Option.map_eq_some_iff.mp hseen
  simp only [Prod.mk.injEq] at hs'
  obtain ⟨hpc, hpin, hactive, hraced⟩ := hs'
  refine ⟨straightKey_reportsKeying, s, hs, ⟨_, hpc⟩, hpin, hactive, hraced, fun hsafe => ?_⟩
  have hlow := hsafe.low (by rw [hpc]; rfl)
  rw [hpin] at hlow
  cases hlow

/-- The press comes before the load instead, and is over before the store. -/
theorem save_window_iff_tap :
    let bz := Buzzer.new StraightKey.pwm StraightKey.pwm.config StraightKey.clkSysFreq
    let press : Label := .keyer true false 0
    let idle : Label := .keyer false false 0
    let ls : List Label := [.edit StraightKey.config, .persist true] ++ List.replicate 10 press ++
      [.persist true, .persist true] ++ List.replicate 10 idle ++
      [.persist true, .persist true, .persist true, idle, .persist true, .persist true, .persist true]
    ∃ s, StepRun.run (sysStep StraightKey.engine Postcard.varint16 Postcard.config)
        (boot StraightKey.engine Postcard.varint16 Postcard.config StraightKey.config bz .empty) ls = some s ∧
      s.p.pc = .save StraightKey.config ∧ s.k.radioKey.pin = false := by
  intro bz press idle ls
  have hseen : (StepRun.run (sysStep StraightKey.engine Postcard.varint16 Postcard.config)
      (boot StraightKey.engine Postcard.varint16 Postcard.config StraightKey.config bz .empty) ls).map
        (fun s => s.p.pc) = some (.save StraightKey.config) := by
    decide +kernel
  obtain ⟨s, hs, hpc⟩ := Option.map_eq_some_iff.mp hseen
  have hquiet : StepRun.AllSteps (sysStep StraightKey.engine Postcard.varint16 Postcard.config)
      (Quiet StraightKey.engine)
      (boot StraightKey.engine Postcard.varint16 Postcard.config StraightKey.config bz .empty) ls := by
    decide +kernel
  have hsafe := (save_window_iff StraightKey.engine Postcard.varint16 Postcard.config straightKey_reportsKeying
    StraightKey.config bz .empty ls s hs).1 hquiet
  exact ⟨s, hs, hpc, hsafe.low (by rw [hpc]; rfl)⟩

end SaveWindow
end RpKeyer
