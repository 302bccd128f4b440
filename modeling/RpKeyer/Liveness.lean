/-
# What gets done

Three parties of the firmware with a bounded amount of work, whatever the
others do in between: the persistence task with an edit to save
(`edits_get_saved`), the same task while it holds `SAVE_LOCK` and so parks the
keyer (`keyer_unparked`), and the emit task with a snapshot to write
(`emit_drains`). In each case the party is not blocked while it has work, and
the number of its own steps is bounded, so a scheduler that runs it often
enough gets it done.
-/
import RpKeyer.Lib.Progress
import RpKeyer.PowerCycle

namespace RpKeyer
namespace Liveness

open Codecs Firmware StepRun UsbEmit
open PowerCycle (persist_kept stored_run stored_when_quiet)

variable {ε : Type} (E : Engine ε) (app : App) (tag : Codec UInt16) (codec : Codec KeyerConfig)

/-- A step of the persistence task. -/
def isPersist : Label → Bool
  | .persist _ => true
  | .keyer _ | .take | .wrote _ _ | .ui _ _ => false

theorem isPersist_of_ne {a : Label} (h : ∀ ok, a ≠ .persist ok) : isPersist a = false := by
  cases a with
  | persist ok => exact absurd rfl (h ok)
  | keyer | take | wrote | ui => rfl

/-- The task waits with nothing pending. -/
def Idle (s : Sys ε) : Prop := s.persist.pc = .wait ∧ s.st.configDirty.slot = none

/-- It is blocked only then. -/
theorem persist_unblocked {s : Sys ε} (h : ¬Idle s) (ok : Bool) :
    ∃ s', sysStep E app tag codec s (.persist ok) = some s' := by
  obtain ⟨r, hr⟩ : ∃ r, Persist.step tag codec s.persist s.st ok = some r := by
    refine Option.isSome_iff_exists.mp ?_
    rcases hp : s.persist with ⟨pc, flash, results⟩
    cases pc with
    | wait =>
      rcases hslot : s.st.configDirty.slot with _ | u
      · exact absurd ⟨congrArg Persist.State.pc hp, hslot⟩ h
      · simp only [Persist.step, LatestWins.Chan.take, hslot, Option.map_some, Option.isSome_some]
    | debounce =>
      rcases ht : s.st.configDirty.take with _ | r <;> simp only [Persist.step, ht, Option.isSome_some]
    | loadActive | idleRecheck | storeLock | parkObserve | recheck | release | retrySleep | clone | save |
      unlock => rfl
  exact ⟨_, Option.map_eq_some_iff.mpr ⟨r, hr, rfl⟩⟩

/-! ### Saving an edit -/

/-- The steps to the wait, with the engine found idle and no further signal. -/
def cost : Persist.Pc → ℕ
  | .wait => 0
  | .unlock => 1
  | .save _ => 2
  | .clone => 3
  | .recheck => 4
  | .parkObserve => 5
  | .storeLock => 6
  | .loadActive => 7
  | .debounce | .idleRecheck | .retrySleep => 8
  | .release => 9

/-- A pending signal costs a round. -/
def pending (c : Signal Unit) : ℕ := if c.slot.isSome then 9 else 0

def saveWork (s : Sys ε) : ℕ := cost s.persist.pc + pending s.st.configDirty

theorem saveWork_le (s : Sys ε) : saveWork s ≤ 18 := by
  have hcost : cost s.persist.pc ≤ 9 := by
    cases s.persist.pc <;> simp [cost]
  have hpending : pending s.st.configDirty ≤ 9 := by
    unfold pending
    split <;> omega
  unfold saveWork
  omega

/-- Where the task looks at `ENGINE_ACTIVE`. -/
def looks : Persist.Pc → Bool
  | .loadActive | .recheck => true
  | _ => false

/-- A step of the task, with the engine idle if it looks. -/
theorem persist_work {p p' : Persist.State} {st st' : Statics} {ok : Bool}
    (h : Persist.step tag codec p st ok = some (p', st'))
    (hidle : looks p.pc = true → st.engineActive = false) :
    cost p'.pc + pending st'.configDirty + 1 ≤ cost p.pc + pending st.configDirty := by
  have htaken : ∀ {r : Unit × Signal Unit}, st.configDirty.take = some r →
      pending r.2 = 0 ∧ pending st.configDirty = 9 := by
    intro r ht
    obtain ⟨hslot, hr⟩ := LatestWins.Chan.take_some ht
    unfold pending
    rw [hr, hslot]
    exact ⟨rfl, rfl⟩
  obtain ⟨pc, flash, results⟩ := p
  cases pc with
  | wait =>
    obtain ⟨r, ht, hr⟩ := Option.map_eq_some_iff.mp h
    obtain ⟨rfl, rfl⟩ := Prod.mk.inj hr
    obtain ⟨hafter, hbefore⟩ := htaken ht
    show 8 + pending r.2 + 1 ≤ 0 + pending st.configDirty
    omega
  | debounce =>
    rcases ht : st.configDirty.take with _ | r <;> simp only [Persist.step, ht] at h
    · obtain ⟨rfl, rfl⟩ := Prod.mk.inj (Option.some.inj h)
      show 7 + pending st.configDirty + 1 ≤ 8 + pending st.configDirty
      omega
    · obtain ⟨rfl, rfl⟩ := Prod.mk.inj (Option.some.inj h)
      obtain ⟨hafter, hbefore⟩ := htaken ht
      show 8 + pending r.2 + 1 ≤ 8 + pending st.configDirty
      omega
  | loadActive =>
    simp only [Persist.step, hidle rfl] at h
    obtain ⟨rfl, rfl⟩ := Prod.mk.inj (Option.some.inj h)
    show 6 + pending st.configDirty + 1 ≤ 7 + pending st.configDirty
    omega
  | recheck =>
    simp only [Persist.step, hidle rfl] at h
    obtain ⟨rfl, rfl⟩ := Prod.mk.inj (Option.some.inj h)
    show 3 + pending st.configDirty + 1 ≤ 4 + pending st.configDirty
    omega
  | idleRecheck | storeLock | parkObserve | release | retrySleep | clone | save | unlock =>
    obtain ⟨rfl, rfl⟩ := Prod.mk.inj (Option.some.inj h)
    simp only [cost]
    omega

/-- An iteration of the UI task without a press leaves the statics alone. -/
theorem iteration_nil {t t' : UiTask} {st st' : Statics} {inp : UiTask.Input} (hnil : inp.events = [])
    (h : t.iteration st inp = some (t', st')) : st' = st := by
  obtain ⟨r, hbatch, hr⟩ := Option.map_eq_some_iff.mp h
  obtain ⟨-, rfl⟩ := Prod.mk.inj hr
  unfold UiTask.batch at hbatch
  rw [hnil] at hbatch
  exact congrArg Prod.snd (Option.some.inj hbatch).symm

/-- No button is pressed, and the persistence task finds the engine idle where
it looks, and its stores succeed. -/
def Quiet (s : Sys ε) : Label → Prop
  | .ui pins _ => (s.poll pins).2.2 = []
  | .persist ok => ok = true ∧ (looks s.persist.pc = true → s.st.engineActive = false)
  | .keyer _ | .take | .wrote _ _ => True

instance (s : Sys ε) (a : Label) : Decidable (Quiet s a) := by
  cases a <;> unfold Quiet <;> infer_instance

/-- The shared config is `c`, and it is saved or it will be. -/
structure Saving (c : KeyerConfig) (s : Sys ε) : Prop where
  config : s.st.sharedConfig = c
  hope : s.st.configDirty.slot ≠ none ∨ s.persist.pc.working = true ∨ s.persist.pc = .save c ∨
    (s.persist.pc = .wait ∨ s.persist.pc = .unlock) ∧ s.persist.results.getLast? ≠ some false

/-- The encoding of the config fits the scratch buffer. -/
def Fits (c : KeyerConfig) : Prop :=
  ((tag.pair codec).encode (Storage.schemaVersion, c)).length ≤ Storage.scratchSize

instance (c : KeyerConfig) : Decidable (Fits tag codec c) := inferInstanceAs (Decidable (_ ≤ _))

theorem saveConfig_fits {c : KeyerConfig} (hfits : Fits tag codec c) (flash : Storage.Flash) :
    (Storage.saveConfig tag Storage.schemaVersion codec flash c true).2 = true := by
  have hlen : ((tag.pair codec).encode (Storage.schemaVersion, c)).length ≤ Storage.scratchSize := hfits
  unfold Storage.saveConfig Storage.toSlice
  rw [if_pos hlen]
  rfl

/-- A step of the task with an edit to save. -/
theorem saving_persist {c : KeyerConfig} (hfits : Fits tag codec c) {s s' : Sys ε} (hS : Saving c s)
    (h : sysStep E app tag codec s (.persist true) = some s') : Saving c s' := by
  obtain ⟨⟨p', st'⟩, hstep, rfl⟩ := Option.map_eq_some_iff.mp h
  have hstepped := Persist.step_stepped tag codec hstep
  refine ⟨hstepped.sharedConfig.trans hS.config, ?_⟩
  rcases hstepped.effect with ⟨-, hp⟩ | ⟨-, -, hw', hp⟩ | ⟨-, -, hp⟩ | ⟨cfg, hd, hpc, hp⟩ | ⟨hd, hpc, hp⟩
  · exact .inr (.inl (by rw [hp]; rfl))
  · exact .inr (.inl hw')
  · exact .inr (.inr (.inl (by rw [hp, hS.config])))
  · rcases hS.hope with hslot | hwork | hsave | ⟨hidle, -⟩
    · exact .inl (hd ▸ hslot)
    · rw [hpc] at hwork
      cases hwork
    · obtain rfl : cfg = c := by
        rw [hpc] at hsave
        injection hsave
      refine .inr (.inr (.inr ?_))
      rw [hp, saveConfig_fits tag codec hfits]
      exact ⟨.inr rfl, by simp⟩
    · rw [hpc] at hidle
      rcases hidle with hidle | hidle <;> cases hidle
  · rcases hS.hope with hslot | hwork | hsave | ⟨-, hlast⟩
    · exact .inl (hd ▸ hslot)
    · rw [hpc] at hwork
      cases hwork
    · rw [hpc] at hsave
      cases hsave
    · exact .inr (.inr (.inr (by rw [hp]; exact ⟨.inl rfl, hlast⟩)))

/-- Any other quiet step leaves the config, the signal and the task alone. -/
theorem quiet_kept {s s' : Sys ε} {a : Label} (hq : Quiet s a) (hp : ∀ ok, a ≠ .persist ok)
    (h : sysStep E app tag codec s a = some s') :
    s'.st.sharedConfig = s.st.sharedConfig ∧ s'.st.configDirty = s.st.configDirty ∧ s'.persist = s.persist := by
  cases sysStep_moved E app tag codec h with
  | keyer a k hk =>
    have hkept := section_kept E hk
    exact ⟨hkept.sharedConfig, hkept.configDirty, rfl⟩
  | take => exact ⟨rfl, rfl, rfl⟩
  | wrote => exact ⟨rfl, rfl, rfl⟩
  | ui pins decoded t' st' hiter =>
    have hnil : (⟨(s.poll pins).2.2, decoded⟩ : UiTask.Input).events = [] := hq
    have hst := iteration_nil hnil hiter
    exact ⟨congrArg Statics.sharedConfig hst, congrArg Statics.configDirty hst, rfl⟩
  | persist ok => exact absurd rfl (hp ok)

/-- The persistence task works off its saving. -/
theorem saving_works {c : KeyerConfig} (hfits : Fits tag codec c) :
    Works (sysStep E app tag codec) Quiet isPersist saveWork (Saving c) := by
  intro s a s' hS hq h
  by_cases hp : ∃ ok, a = .persist ok
  · obtain ⟨ok, rfl⟩ := hp
    obtain ⟨rfl, hidle⟩ := hq
    refine ⟨saving_persist E app tag codec hfits hS h, ?_⟩
    obtain ⟨⟨p', st'⟩, hstep, rfl⟩ := Option.map_eq_some_iff.mp h
    exact persist_work tag codec hstep hidle
  · have hne : ∀ ok, a ≠ .persist ok := fun ok heq => hp ⟨ok, heq⟩
    obtain ⟨hconfig, hdirty, hpersist⟩ := quiet_kept E app tag codec hq hne h
    refine ⟨⟨hconfig.trans hS.config, ?_⟩, ?_⟩
    · rw [hdirty, hpersist]
      exact hS.hope
    · unfold saveWork
      rw [isPersist_of_ne hne, hdirty, hpersist]
      exact Nat.le_refl _

/-- **Edits get saved.** In any reachable state with a signal pending, or no
failed save behind it, whose shared config fits the scratch buffer: while no
button is pressed, stores succeed, and the engine is idle at the two loads of
`ENGINE_ACTIVE` (elsewhere it may key), the task takes at most 18 steps,
wherever those of the other tasks land; it is not blocked until it waits with
nothing pending; and then what the next boot restores is the shared config as
it was, and still is. -/
theorem edits_get_saved (dflt : KeyerConfig) (bz : Buzzer) (display : Display) (flash : Storage.Flash)
    {ls ls' : List Label} {s s' : Sys ε}
    (h : StepRun.run (sysStep E app tag codec) (boot E tag codec dflt bz display flash) ls = some s)
    (hfits : Fits tag codec s.st.sharedConfig)
    (hope : s.st.configDirty.slot ≠ none ∨ s.persist.results.getLast? ≠ some false)
    (hquiet : AllSteps (sysStep E app tag codec) Quiet s ls')
    (h' : StepRun.run (sysStep E app tag codec) s ls' = some s') :
    ls'.countP isPersist ≤ 18 ∧
    s'.st.sharedConfig = s.st.sharedConfig ∧
    (¬Idle s' → ∀ ok, ∃ s'', sysStep E app tag codec s' (.persist ok) = some s'') ∧
    (Idle s' → Persist.restore tag codec dflt s'.persist.flash = s.st.sharedConfig) := by
  have hS : Saving s.st.sharedConfig s := by
    refine ⟨rfl, ?_⟩
    rcases hope with hslot | hlast
    · exact .inl hslot
    · rcases stored_run h with hslot | hwork | hsave | ⟨hpc, -⟩
      · exact .inl hslot
      · exact .inr (.inl hwork)
      · exact .inr (.inr (.inl hsave))
      · exact .inr (.inr (.inr ⟨hpc, hlast⟩))
  obtain ⟨hS', hwork⟩ := run_work (saving_works E app tag codec hfits) hS hquiet h'
  have hbound := saveWork_le s
  refine ⟨by omega, hS'.config, persist_unblocked E app tag codec, fun hidle => ?_⟩
  have hrun := (StepRun.run_append_some (sysStep E app tag codec)).mpr ⟨s, h, h'⟩
  have hlast : s'.persist.results.getLast? ≠ some false := by
    rcases hS'.hope with hslot | hw | hsave | ⟨-, hlast⟩
    · exact absurd hidle.2 hslot
    · rw [hidle.1] at hw
      cases hw
    · rw [hidle.1] at hsave
      cases hsave
    · exact hlast
  exact (stored_when_quiet hrun hidle.1 hidle.2 hlast).trans hS'.config

/-- A speed step and a dit: the engine is active when the debounce ends, idle
when the task looks, and the keyer parked while it saves. -/
theorem edits_get_saved_speed_step :
    let app : App := ⟨.present 0, .present ()⟩
    let bz := Buzzer.new StraightKey.pwm StraightKey.pwm.config StraightKey.clkSysFreq
    let boot := boot StraightKey.engine Postcard.varint16 Postcard.config StraightKey.config bz ⟨[], []⟩ .empty
    let step := sysStep StraightKey.engine app Postcard.varint16 Postcard.config
    let up : Label := .ui ⟨true, false, false, false⟩ fun _ => []
    let sample (dit : Bool) : List Label := [.keyer (.poll dit false), .keyer .count, .keyer (.tick 0)]
    let held : List Label := .persist true :: (List.replicate 9 (sample true)).flatten
    let ls' : List Label := held ++ .persist true :: (List.replicate 10 (sample false)).flatten ++
      .replicate 3 (.persist true) ++ [.keyer .park] ++ .replicate 4 (.persist true)
    (StepRun.run step boot ([up, up] ++ held)).map (·.st.engineActive) = some true ∧
    ∃ s', StepRun.run step boot ([up, up] ++ ls') = some s' ∧ s'.st.sharedConfig.speedWpm = 19 ∧
      Persist.restore Postcard.varint16 Postcard.config StraightKey.config s'.persist.flash = s'.st.sharedConfig := by
  intro app bz boot step up sample held ls'
  refine ⟨by decide +kernel, ?_⟩
  have hsome : (StepRun.run step boot [up, up]).isSome = true := by
    decide +kernel
  obtain ⟨s, hs⟩ := Option.isSome_iff_exists.mp hsome
  have hseen : (StepRun.run step s ls').map
      (fun s => (s.st.sharedConfig.speedWpm, s.persist.pc, s.st.configDirty.slot)) = some (19, .wait, none) := by
    have hrun : (StepRun.run step boot ([up, up] ++ ls')).map
        (fun s => (s.st.sharedConfig.speedWpm, s.persist.pc, s.st.configDirty.slot)) = some (19, .wait, none) := by
      decide +kernel
    rwa [StepRun.run_append, hs, Option.bind_some] at hrun
  obtain ⟨s', hs', hend⟩ := Option.map_eq_some_iff.mp hseen
  simp only [Prod.mk.injEq] at hend
  obtain ⟨hwpm, hpc, hslot⟩ := hend
  have hok : ((StepRun.run step boot [up, up]).all fun s => decide (AllSteps step Quiet s ls' ∧
      Fits Postcard.varint16 Postcard.config s.st.sharedConfig ∧ s.st.configDirty.slot ≠ none)) = true := by
    decide +kernel
  rw [hs] at hok
  obtain ⟨hquiet, hfits, hpending⟩ := of_decide_eq_true hok
  obtain ⟨-, hconfig, -, hrestore⟩ := edits_get_saved StraightKey.engine app Postcard.varint16 Postcard.config
    StraightKey.config bz ⟨[], []⟩ .empty hs hfits (.inl hpending) hquiet hs'
  exact ⟨s', (StepRun.run_append_some _).mpr ⟨s, hs, hs'⟩, hwpm, (hrestore ⟨hpc, hslot⟩).trans hconfig.symm⟩

/-! ### Releasing the lock -/

/-- The steps to the release of the lock, where the task holds it. -/
def lockCost : Persist.Pc → ℕ
  | .parkObserve => 5
  | .recheck => 4
  | .clone => 3
  | .save _ => 2
  | .unlock | .release => 1
  | .wait | .debounce | .loadActive | .idleRecheck | .storeLock | .retrySleep => 0

def lockWork (s : Sys ε) : ℕ := lockCost s.persist.pc

/-- The lock is set where the task holds it. -/
def LockHeld (s : Sys ε) : Prop := s.st.saveLock = s.persist.pc.locked

/-- The keyer finds the lock set. -/
def Locked (s : Sys ε) (_ : Label) : Prop := s.st.saveLock = true

theorem lockCost_pos {pc : Persist.Pc} : 0 < lockCost pc ↔ pc.locked = true := by
  cases pc <;> simp [lockCost, Persist.Pc.locked]

/-- A step of the task with the lock held brings the release closer, whatever
the engine does. -/
theorem lockCost_goes {active : Bool} {pc pc' : Persist.Pc} (h : Persist.Goes active pc pc')
    (hlocked : pc.locked = true) : lockCost pc' + 1 ≤ lockCost pc := by
  cases h <;> first | exact absurd hlocked Bool.noConfusion | decide | exact Nat.le_refl _

/-- The other tasks only read the lock. -/
theorem lock_kept {s s' : Sys ε} {a : Label} (hp : ∀ ok, a ≠ .persist ok)
    (h : sysStep E app tag codec s a = some s') : s'.st.saveLock = s.st.saveLock := by
  cases sysStep_moved E app tag codec h with
  | keyer a k hk =>
    exact (section_kept E hk).saveLock
  | take =>
    rfl
  | wrote =>
    rfl
  | ui pins decoded t' st' hiter =>
    have hst := congrArg Statics.saveLock (iteration_statics hiter)
    exact hst
  | persist ok => exact absurd rfl (hp ok)

theorem lockHeld_step {s s' : Sys ε} {a : Label} (hI : LockHeld s) (h : sysStep E app tag codec s a = some s') :
    LockHeld s' := by
  by_cases hp : ∃ ok, a = .persist ok
  · obtain ⟨ok, rfl⟩ := hp
    obtain ⟨⟨p', st'⟩, hstep, rfl⟩ := Option.map_eq_some_iff.mp h
    exact (Persist.step_stepped tag codec hstep).saveLock hI
  · have hne : ∀ ok, a ≠ .persist ok := fun ok heq => hp ⟨ok, heq⟩
    unfold LockHeld
    rw [lock_kept E app tag codec hne h, persist_kept h hne]
    exact hI

theorem lock_works : Works (sysStep E app tag codec) Locked isPersist lockWork LockHeld := by
  intro s a s' hI hlocked h
  have hpc : s.persist.pc.locked = true := hI.symm.trans hlocked
  refine ⟨lockHeld_step E app tag codec hI h, ?_⟩
  by_cases hp : ∃ ok, a = .persist ok
  · obtain ⟨ok, rfl⟩ := hp
    obtain ⟨⟨p', st'⟩, hstep, rfl⟩ := Option.map_eq_some_iff.mp h
    exact lockCost_goes (Persist.step_stepped tag codec hstep).goes hpc
  · have hne : ∀ ok, a ≠ .persist ok := fun ok heq => hp ⟨ok, heq⟩
    unfold lockWork
    rw [isPersist_of_ne hne, persist_kept h hne]
    exact Nat.le_refl _

theorem lock_unblocked : Unblocked (sysStep E app tag codec) Locked isPersist lockWork LockHeld := by
  intro s hI hwork
  have hpc : s.persist.pc.locked = true := lockCost_pos.mp hwork
  have hbusy : ¬Idle s := by
    rintro ⟨hwait, -⟩
    rw [hwait] at hpc
    cases hpc
  obtain ⟨s', hs'⟩ := persist_unblocked E app tag codec hbusy true
  exact ⟨.persist true, s', rfl, hI.trans hpc, hs'⟩

/-- **The keyer is not parked for long.** In every reachable state `SAVE_LOCK`
is set exactly where the persistence task holds it. There the task is never
blocked, and as long as the lock stays set it takes at most five steps,
whatever the engine and the other tasks do; so alone it gives the lock back
in five. -/
theorem keyer_unparked (dflt : KeyerConfig) (bz : Buzzer) (display : Display) (flash : Storage.Flash)
    {ls : List Label} {s : Sys ε}
    (h : StepRun.run (sysStep E app tag codec) (boot E tag codec dflt bz display flash) ls = some s) :
    s.st.saveLock = s.persist.pc.locked ∧
    (s.st.saveLock = true → ∀ ok, ∃ s', sysStep E app tag codec s (.persist ok) = some s') ∧
    (∀ ls' s', AllSteps (sysStep E app tag codec) Locked s ls' → StepRun.run (sysStep E app tag codec) s ls' =
      some s' → ls'.countP isPersist ≤ 5) ∧
    ∃ ls' s', ls'.length ≤ 5 ∧ (∀ a ∈ ls', isPersist a = true) ∧
      StepRun.run (sysStep E app tag codec) s ls' = some s' ∧ s'.st.saveLock = false := by
  have hI : LockHeld s := by
    have hboot : LockHeld (boot E tag codec dflt bz display flash) := rfl
    exact StepRun.run_inv (I := LockHeld) (sysStep E app tag codec)
      (fun _ _ _ hI hs => lockHeld_step E app tag codec hI hs) hboot h
  have hbound : lockWork s ≤ 5 := by
    unfold lockWork
    cases s.persist.pc <;> simp [lockCost]
  refine ⟨hI, fun hlocked => persist_unblocked E app tag codec ?_, fun ls' s' hall h' => ?_, ?_⟩
  · rintro ⟨hwait, -⟩
    rw [hI, hwait] at hlocked
    cases hlocked
  · have hwork := (run_work (lock_works E app tag codec) hI hall h').2
    omega
  · obtain ⟨ls', s', hlen, hown, -, hrun, hI', hdone⟩ :=
      run_off (lock_works E app tag codec) (lock_unblocked E app tag codec) 5 hI hbound
    refine ⟨ls', s', hlen, hown, hrun, hI'.trans ?_⟩
    by_contra hne
    have hpos : 0 < lockWork s' := lockCost_pos.mpr (by simpa using hne)
    omega

/-- The lock just set, on the way to saving a speed step. -/
theorem keyer_unparked_saving :
    let app : App := ⟨.present 0, .present ()⟩
    let bz := Buzzer.new StraightKey.pwm StraightKey.pwm.config StraightKey.clkSysFreq
    let ls : List Label := .replicate 2 (.ui ⟨true, false, false, false⟩ fun _ => []) ++
      .replicate 4 (.persist true)
    ∃ s, StepRun.run (sysStep StraightKey.engine app Postcard.varint16 Postcard.config)
        (boot StraightKey.engine Postcard.varint16 Postcard.config StraightKey.config bz ⟨[], []⟩ .empty) ls =
          some s ∧
      s.st.saveLock = true ∧
      ∃ ls' s', StepRun.run (sysStep StraightKey.engine app Postcard.varint16 Postcard.config) s ls' = some s' ∧
        s'.st.saveLock = false := by
  intro app bz ls
  have hseen : (StepRun.run (sysStep StraightKey.engine app Postcard.varint16 Postcard.config)
      (boot StraightKey.engine Postcard.varint16 Postcard.config StraightKey.config bz ⟨[], []⟩ .empty) ls).map
        (·.persist.pc) = some .parkObserve := by
    decide +kernel
  obtain ⟨s, hs, hpc⟩ := Option.map_eq_some_iff.mp hseen
  obtain ⟨hlock, -, -, ls', s', -, -, hrun, hgiven⟩ := keyer_unparked StraightKey.engine app Postcard.varint16
    Postcard.config StraightKey.config bz ⟨[], []⟩ .empty hs
  exact ⟨s, hs, by rw [hlock, hpc]; rfl, ls', s', hrun, hgiven⟩

/-! ### Draining the channel -/

/-- A step of the emit task. -/
def isEmit : Label → Bool
  | .take | .wrote _ _ => true
  | .keyer _ | .ui _ _ | .persist _ => false

/-- The writes to the wait. -/
def emitCost : UsbChannel.Pc → ℕ
  | .wait => 0
  | .serRelease _ => 4
  | .midiRelease _ => 3
  | .join _ ser midi => (if ser then 1 else 0) + if midi then 1 else 0

/-- An unread snapshot costs an iteration. -/
def unread (c : Signal UsbSnapshot) : ℕ := if c.slot.isSome then 5 else 0

def emitWork (s : Sys ε) : ℕ := emitCost s.emit.pc + unread s.chan

/-- In the join some write is pending. -/
def Pending (s : Sys ε) : Prop := ∀ snap, s.emit.pc ≠ .join snap false false

/-- The keyer posts nothing. -/
def Still (s : Sys ε) : Label → Prop
  | .keyer a => ∀ k, Loop.loopStep E s.keyer a.label = some k → k.st.usbSignal.posted = s.chan.posted
  | .take | .wrote _ _ | .ui _ _ | .persist _ => True

/-- The task waits on an empty slot. -/
def Drained (s : Sys ε) : Prop := s.emit.pc = .wait ∧ s.chan.slot = none

theorem drained_of_work {s : Sys ε} (hI : Pending s) (h : emitWork s = 0) : Drained s := by
  have hcost : emitCost s.emit.pc = 0 := Nat.eq_zero_of_add_eq_zero_right h
  have hunread : unread s.chan = 0 := Nat.eq_zero_of_add_eq_zero_left h
  refine ⟨?_, ?_⟩
  · cases hpc : s.emit.pc with
    | wait => rfl
    | serRelease snap =>
      rw [hpc] at hcost
      cases hcost
    | midiRelease snap =>
      rw [hpc] at hcost
      cases hcost
    | join snap ser midi =>
      rw [hpc] at hcost
      have hnone := hI snap
      rw [hpc] at hnone
      cases ser <;> cases midi <;> first | exact absurd rfl hnone | cases hcost
  · unfold unread at hunread
    rcases hslot : s.chan.slot with _ | u
    · rfl
    · rw [hslot] at hunread
      cases hunread

theorem emitCost_joined (snap : UsbSnapshot) (a b : Bool) :
    emitCost (UsbChannel.joined snap a b) = (if a then 1 else 0) + (if b then 1 else 0) ∧
      ∀ snap', UsbChannel.joined snap a b ≠ .join snap' false false := by
  cases a <;> cases b <;> exact ⟨rfl, fun _ h => by cases h⟩

/-- A write brings the task closer to its wait. -/
theorem emitCost_wrote {e e' : UsbIndependence.State} {w : Await} {ok : Bool}
    (h : UsbIndependence.emitStep app e (w.label ok) = some e') :
    emitCost e'.pc + 1 ≤ emitCost e.pc ∧ ∀ snap, e'.pc ≠ .join snap false false := by
  obtain ⟨pc, l, ser, midi⟩ := e
  cases w with
  | serRelease =>
    simp only [Await.label, UsbIndependence.emitStep] at h
    split at h
    · obtain rfl := Option.some.inj h
      exact ⟨Nat.le_refl _, fun _ hpc => by cases hpc⟩
    · cases h
  | midiRelease =>
    simp only [Await.label, UsbIndependence.emitStep] at h
    split at h
    · obtain rfl := Option.some.inj h
      exact ⟨Nat.le_refl _, fun _ hpc => by cases hpc⟩
    · cases h
  | ser =>
    simp only [Await.label, UsbIndependence.emitStep] at h
    split at h
    · rename_i snap m
      obtain rfl := Option.some.inj h
      obtain ⟨hcost, hpending⟩ := emitCost_joined snap false m
      refine ⟨?_, hpending⟩
      show emitCost (UsbChannel.joined snap false m) + 1 ≤ 1 + _
      rw [hcost]
      cases m <;> decide
    · cases h
  | midi =>
    simp only [Await.label, UsbIndependence.emitStep] at h
    split at h
    · rename_i snap r
      obtain rfl := Option.some.inj h
      obtain ⟨hcost, hpending⟩ := emitCost_joined snap r false
      refine ⟨?_, hpending⟩
      show emitCost (UsbChannel.joined snap r false) + 1 ≤ _ + 1
      rw [hcost]
      cases r <;> decide
    · cases h

/-- A snapshot taken costs less than one unread. -/
theorem emitCost_take {e e' : UsbIndependence.State} {snap : UsbSnapshot}
    (h : UsbIndependence.emitStep app e (.take snap) = some e') :
    emitCost e.pc = 0 ∧ emitCost e'.pc ≤ 4 ∧ ∀ snap, e'.pc ≠ .join snap false false := by
  obtain ⟨pc, l, ser, midi⟩ := e
  simp only [UsbIndependence.emitStep] at h
  split at h
  · obtain rfl := Option.some.inj h
    refine ⟨rfl, ?_, fun snap' => ?_⟩
    · show emitCost (if _ then _ else _) ≤ 4
      split <;> simp [emitCost]
    · show (if _ then _ else _) ≠ _
      split <;> simp
  · cases h

theorem emit_works : Works (sysStep E app tag codec) (Still E) isEmit emitWork Pending := by
  intro s a s' hI hstill h
  cases sysStep_moved E app tag codec h with
  | keyer a k hk =>
    have hsame := hstill k hk
    have hchan : k.st.usbSignal = s.chan := by
      rcases UsbChannel.loop_signal E hk with ⟨-, hsig⟩ | ⟨snap, -, hsig⟩
      · exact hsig
      · rw [hsig] at hsame
        have hlen := congrArg List.length hsame
        simp [LatestWins.Chan.post, Sys.chan, Sys.st] at hlen
    refine ⟨hI, ?_⟩
    show emitCost s.emit.pc + unread k.st.usbSignal + 0 ≤ _
    rw [hchan]
    exact Nat.le_refl _
  | take snap c e htake he =>
    obtain ⟨hbefore, hafter, hpending⟩ := emitCost_take app he
    obtain ⟨hslot, rfl⟩ := LatestWins.Chan.take_some htake
    refine ⟨hpending, ?_⟩
    have hfull : unread s.chan = 5 := by
      unfold unread
      rw [hslot]
      rfl
    show emitCost e.pc + 0 + 1 ≤ emitCost s.emit.pc + unread s.chan
    omega
  | wrote w ok e he =>
    obtain ⟨hcost, hpending⟩ := emitCost_wrote app he
    refine ⟨hpending, ?_⟩
    show emitCost e.pc + unread s.chan + 1 ≤ emitCost s.emit.pc + unread s.chan
    omega
  | ui pins decoded t' st' hiter =>
    have hst := congrArg Statics.usbSignal (iteration_statics hiter)
    exact ⟨hI, Nat.le_of_eq (congrArg (fun c => emitCost s.emit.pc + unread c) hst)⟩
  | persist ok p' st' hstep =>
    have hst := congrArg Statics.usbSignal (persist_statics tag codec hstep)
    exact ⟨hI, Nat.le_of_eq (congrArg (fun c => emitCost s.emit.pc + unread c) hst)⟩

theorem pending_step {s s' : Sys ε} {a : Label} (hI : Pending s) (h : sysStep E app tag codec s a = some s') :
    Pending s' := by
  cases sysStep_moved E app tag codec h with
  | keyer =>
    exact hI
  | take snap c e htake he =>
    exact (emitCost_take app he).2.2
  | wrote w ok e he =>
    exact (emitCost_wrote app he).2
  | ui =>
    exact hI
  | persist =>
    exact hI

/-- The task is blocked only when it waits on an empty slot. -/
theorem emit_unblocked : Unblocked (sysStep E app tag codec) (Still E) isEmit emitWork Pending := by
  intro s hI hwork
  have hwrote : ∀ w e, UsbIndependence.emitStep app s.emit (Await.label true w) = some e →
      ∃ a s', isEmit a = true ∧ Still E s a ∧ sysStep E app tag codec s a = some s' := fun w e he =>
    ⟨.wrote w true, { s with emit := e }, rfl, trivial, Option.map_eq_some_iff.mpr ⟨e, he, rfl⟩⟩
  obtain ⟨keyer, ⟨pc, l, ser, midi⟩, panel, btnBuf, ui, persist⟩ := s
  cases pc with
  | wait =>
    rcases hslot : keyer.st.usbSignal.slot with _ | snap
    · have hnone : unread keyer.st.usbSignal = 0 := by
        unfold unread
        rw [hslot]
        rfl
      exact absurd hwork (by show ¬0 < 0 + unread keyer.st.usbSignal; omega)
    · refine ⟨.take, _, rfl, trivial, Option.bind_eq_some_iff.mpr
        ⟨(snap, ⟨none, keyer.st.usbSignal.posted, keyer.st.usbSignal.taken ++ [snap]⟩), ?_, rfl⟩⟩
      show keyer.st.usbSignal.take = _
      unfold LatestWins.Chan.take
      rw [hslot]
      rfl
  | serRelease snap => exact hwrote .serRelease _ rfl
  | midiRelease snap => exact hwrote .midiRelease _ rfl
  | join snap ser midi =>
    cases ser with
    | true => exact hwrote .ser _ rfl
    | false =>
      cases midi with
      | true => exact hwrote .midi _ rfl
      | false => exact absurd rfl (hI snap)

/-- **The emit task drains the channel.** From any reachable state, as long as
the keyer posts nothing, the emit task takes at most nine steps, whatever its
writes result in and wherever the steps of the others land; it is blocked only
when it waits on an empty slot; and alone it gets there in nine. -/
theorem emit_drains (dflt : KeyerConfig) (bz : Buzzer) (display : Display) (flash : Storage.Flash)
    {ls : List Label} {s : Sys ε}
    (h : StepRun.run (sysStep E app tag codec) (boot E tag codec dflt bz display flash) ls = some s) :
    (∀ ls' s', AllSteps (sysStep E app tag codec) (Still E) s ls' →
      StepRun.run (sysStep E app tag codec) s ls' = some s' →
        ls'.countP isEmit ≤ 9 ∧
        (¬Drained s' → ∃ a s'', isEmit a = true ∧ sysStep E app tag codec s' a = some s'')) ∧
    ∃ ls' s', ls'.length ≤ 9 ∧ (∀ a ∈ ls', isEmit a = true) ∧
      StepRun.run (sysStep E app tag codec) s ls' = some s' ∧ Drained s' := by
  have hI : Pending s := by
    have hboot : Pending (boot E tag codec dflt bz display flash) := fun _ hpc => by cases hpc
    exact StepRun.run_inv (I := Pending) (sysStep E app tag codec)
      (fun _ _ _ hI hs => pending_step E app tag codec hI hs) hboot h
  have hbound : emitWork s ≤ 9 := by
    have hcost : emitCost s.emit.pc ≤ 4 := by
      rcases s.emit.pc with _ | snap | snap | ⟨snap, ser, midi⟩
      · decide
      · exact Nat.le_refl 4
      · exact (by decide : 3 ≤ 4)
      · cases ser <;> cases midi <;> simp [emitCost]
    have hunread : unread s.chan ≤ 5 := by
      unfold unread
      split <;> omega
    unfold emitWork
    omega
  refine ⟨fun ls' s' hstill h' => ?_, ?_⟩
  · obtain ⟨hI', hwork⟩ := run_work (emit_works E app tag codec) hI hstill h'
    refine ⟨by omega, fun hbusy => ?_⟩
    have hleft : 0 < emitWork s' := Nat.pos_of_ne_zero fun hzero => hbusy (drained_of_work hI' hzero)
    obtain ⟨a, s'', hown, -, hs⟩ := emit_unblocked E app tag codec s' hI' hleft
    exact ⟨a, s'', hown, hs⟩
  · obtain ⟨ls', s', hlen, hown, -, hrun, hI', hdone⟩ :=
      run_off (emit_works E app tag codec) (emit_unblocked E app tag codec) 9 hI hbound
    exact ⟨ls', s', hlen, hown, hrun, drained_of_work hI' hdone⟩

/-- A dit posted while the idle line is being written. -/
theorem emit_drains_dit :
    let app : App := ⟨.present 0, .present ()⟩
    let bz := Buzzer.new StraightKey.pwm StraightKey.pwm.config StraightKey.clkSysFreq
    let loop : List Label := [.keyer (.poll true false), .keyer .count, .keyer (.tick 0)]
    let ls : List Label := loop ++ [.take] ++ (List.replicate 7 loop).flatten
    ∃ s, StepRun.run (sysStep StraightKey.engine app Postcard.varint16 Postcard.config)
        (boot StraightKey.engine Postcard.varint16 Postcard.config StraightKey.config bz ⟨[], []⟩ .empty) ls =
          some s ∧
      s.chan.slot = some ⟨true, false, false, .paddle⟩ ∧
      ∃ ls' s', ls'.length ≤ 9 ∧
        StepRun.run (sysStep StraightKey.engine app Postcard.varint16 Postcard.config) s ls' = some s' ∧
        Drained s' := by
  intro app bz loop ls
  have hseen : (StepRun.run (sysStep StraightKey.engine app Postcard.varint16 Postcard.config)
      (boot StraightKey.engine Postcard.varint16 Postcard.config StraightKey.config bz ⟨[], []⟩ .empty) ls).map
        (·.chan.slot) = some (some ⟨true, false, false, .paddle⟩) := by
    decide +kernel
  obtain ⟨s, hs, hslot⟩ := Option.map_eq_some_iff.mp hseen
  obtain ⟨-, ls', s', hlen, -, hrun, hdrained⟩ := emit_drains StraightKey.engine app Postcard.varint16
    Postcard.config StraightKey.config bz ⟨[], []⟩ .empty hs
  exact ⟨s, hs, hslot, ls', s', hlen, hrun, hdrained⟩

end Liveness
end RpKeyer
