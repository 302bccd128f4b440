/-
# Settings from an edit to the flash

The UI task and the persistence task over the shared config and the one-slot
`CONFIG_DIRTY`, with `ENGINE_ACTIVE` changing as it likes. Whatever the order
of their steps, an edit that the task has not saved yet is known to it
(`Inv.stored`): its signal is unread, or the task is between that signal and
the clone, or the clone it is about to save is the shared config. So a task
that waits with no signal pending and no failed save behind it has stored the
shared config, and it makes no save without a signal of its own, which an
iteration with an edit in it has posted (`no_edit_lost`).
-/
import RpKeyer.Lib.StepRun
import RpKeyer.Persist
import RpKeyer.StraightKey
import RpKeyer.UiTask

namespace RpKeyer
namespace Settings

open Codecs

variable (tag : Codec UInt16) (codec : Codec KeyerConfig) (dflt : KeyerConfig)

/-! ### The system -/

structure Sys where
  t : UiTask
  st : Statics
  p : Persist.State

/-- An iteration of the UI task with the indicator it finds, a change of
`ENGINE_ACTIVE` by the keyer, or a step of the persistence task with the
result of its store. -/
inductive Label
  | ui (keyIndicator : Bool) (inp : UiTask.Input)
  | engine (active : Bool)
  | persist (ok : Bool)

def sysStep (s : Sys) : Label → Option Sys
  | .ui b inp => (s.t.iteration { s.st with keyIndicator := b } inp).map fun r => ⟨r.1, r.2, s.p⟩
  | .engine b => some { s with st := { s.st with engineActive := b } }
  | .persist ok => (Persist.step tag codec s.p s.st ok).map fun r => ⟨s.t, r.2, r.1⟩

/-- Boot: the shared config is the one restored from the flash. -/
def boot (display : Display) (flash : Storage.Flash) : Sys :=
  let st := Statics.boot (Persist.restore tag codec dflt flash)
  ⟨.start display st, st, Persist.start flash⟩

/-- Is the step a UI iteration whose `take_config_changed` is true? -/
def latches (s : Sys) : Label → Bool
  | .ui b inp => UiTask.latches (s.t.ui.noteKeyState b) s.st.sharedConfig inp.events
  | .engine _ | .persist _ => false

/-- Does a button of the step's batch adjust a setting? -/
def adjusts (s : Sys) : Label → Bool
  | .ui b inp => UiTask.adjusts (s.t.ui.noteKeyState b) s.st.sharedConfig inp.events
  | .engine _ | .persist _ => false

/-- The step, if it is an edit batch. -/
def edit (s : Sys) (a : Label) : List Label := if latches s a then [a] else []

/-- The edit batches of a run. -/
def editBatches (s : Sys) (ls : List Label) : List Label := StepRun.trace (sysStep tag codec) edit s ls

/-! ### The invariant -/

/-- Signals a save in progress has taken and not yet used. -/
def owed : Persist.Pc → ℕ
  | .wait | .unlock => 0
  | _ => 1

/-- The task has not lost an edit. -/
def Stored (s : Sys) : Prop :=
  s.st.configDirty.slot ≠ none ∨ s.p.pc.working = true ∨ s.p.pc = .save s.st.sharedConfig ∨
    (s.p.pc = .wait ∨ s.p.pc = .unlock) ∧
      (s.p.results.getLast? = some false ∨ Persist.restore tag codec dflt s.p.flash = s.st.sharedConfig)

/-- What holds after the edit batches `edits`. -/
structure Inv (edits : List Label) (s : Sys) : Prop where
  screen : Ui.ScreenOk s.t.ui.screen
  latch : s.t.ui.configChanged = false
  chan : s.st.configDirty.Ok
  counted : s.p.results.length + owed s.p.pc ≤ s.st.configDirty.taken.length
  posted : s.st.configDirty.posted.length = edits.length
  stored : Stored tag codec dflt s

theorem owed_working {pc : Persist.Pc} (h : pc.working = true) : owed pc = 1 := by
  cases pc <;> first | rfl | cases h

/-- A step of the UI task posts exactly if it is an edit batch, and then some
button of it adjusts a setting; otherwise it leaves the config alone. -/
theorem ui_effect {s s' : Sys} {b : Bool} {inp : UiTask.Input} (hok : Ui.ScreenOk s.t.ui.screen)
    (hclear : s.t.ui.configChanged = false) (h : sysStep tag codec s (.ui b inp) = some s') :
    Ui.ScreenOk s'.t.ui.screen ∧ s'.t.ui.configChanged = false ∧ s'.p = s.p ∧
      latches s (.ui b inp) = adjusts s (.ui b inp) ∧
      if latches s (.ui b inp) then s'.st.configDirty = s.st.configDirty.post ()
      else s'.st.configDirty = s.st.configDirty ∧ s'.st.sharedConfig = s.st.sharedConfig := by
  obtain ⟨t', st', hrun, hscreen, hlatch, heffect⟩ :=
    UiTask.iteration_effect { s.st with keyIndicator := b } hok hclear inp
  obtain ⟨r, hr, rfl⟩ := Option.map_eq_some_iff.mp h
  obtain rfl : (t', st') = r := Option.some.inj (hrun.symm.trans hr)
  exact ⟨hscreen, hlatch, rfl, heffect⟩

/-- A UI iteration: an edit leaves a signal behind. -/
theorem inv_ui {edits : List Label} {s s' : Sys} {b : Bool} {inp : UiTask.Input}
    (hI : Inv tag codec dflt edits s) (h : sysStep tag codec s (.ui b inp) = some s') :
    Inv tag codec dflt (edits ++ edit s (.ui b inp)) s' := by
  obtain ⟨hscreen, hlatch, hp, -, heffect⟩ := ui_effect tag codec hI.screen hI.latch h
  have hcounted := hI.counted
  have hposted := hI.posted
  unfold edit
  cases hedit : latches s (.ui b inp) with
  | true =>
    rw [hedit, if_pos rfl] at heffect
    rw [if_pos rfl]
    refine ⟨hscreen, hlatch, heffect ▸ hI.chan.post (), ?_, ?_, .inl ?_⟩
    · rw [heffect, hp]
      exact hcounted
    · rw [heffect, List.length_append, List.length_singleton, ← hposted]
      exact List.length_append
    · rw [heffect]
      exact Option.some_ne_none ()
  | false =>
    rw [hedit, if_neg Bool.false_ne_true] at heffect
    obtain ⟨hdirty, hconfig⟩ := heffect
    rw [if_neg Bool.false_ne_true, List.append_nil]
    refine ⟨hscreen, hlatch, hdirty ▸ hI.chan, ?_, ?_, ?_⟩
    · rw [hdirty, hp]
      exact hcounted
    · rw [hdirty]
      exact hposted
    · unfold Stored
      rw [hdirty, hconfig, hp]
      exact hI.stored

/-- A step of the persistence task. -/
theorem inv_persist {edits : List Label} {s s' : Sys} {ok : Bool} (hI : Inv tag codec dflt edits s)
    (h : sysStep tag codec s (.persist ok) = some s') : Inv tag codec dflt edits s' := by
  obtain ⟨⟨p', st'⟩, hstep, rfl⟩ := Option.map_eq_some_iff.mp h
  have hstepped := Persist.step_stepped tag codec hstep
  have hshared := hstepped.sharedConfig
  have hcounted := hI.counted
  have hposted := hI.posted
  rcases hstepped.effect with ⟨ht, hp⟩ | ⟨hd, hw, hw', hp⟩ | ⟨hd, hpc, hp⟩ | ⟨cfg, hd, hpc, hp⟩ | ⟨hd, hpc, hp⟩
  · have hok := hI.chan.take ht
    obtain ⟨-, hc⟩ := LatestWins.Chan.take_some ht
    have htaken : st'.configDirty.taken.length = s.st.configDirty.taken.length + 1 := by
      rw [hc]
      simp
    have hpost : st'.configDirty.posted = s.st.configDirty.posted := by rw [hc]
    subst hp
    refine ⟨hI.screen, hI.latch, hok, ?_, ?_, .inr (.inl rfl)⟩
    · show s.p.results.length + 1 ≤ st'.configDirty.taken.length
      omega
    · rw [hpost]
      exact hposted
  · have hresults : p'.results = s.p.results := by rw [hp]
    have howed : owed p'.pc = owed s.p.pc := (owed_working hw').trans (owed_working hw).symm
    refine ⟨hI.screen, hI.latch, hd ▸ hI.chan, ?_, ?_, .inr (.inl hw')⟩
    · rw [hd, hresults, howed]
      exact hcounted
    · rw [hd]
      exact hposted
  · subst hp
    rw [hpc] at hcounted
    refine ⟨hI.screen, hI.latch, hd ▸ hI.chan, ?_, ?_, .inr (.inr (.inl ?_))⟩
    · rw [hd]
      exact hcounted
    · rw [hd]
      exact hposted
    · rw [hshared]
  · subst hp
    rw [hpc] at hcounted
    refine ⟨hI.screen, hI.latch, hd ▸ hI.chan, ?_, ?_, ?_⟩
    · rw [hd, List.length_append, List.length_singleton]
      exact hcounted
    · rw [hd]
      exact hposted
    · rcases hI.stored with hslot | hwork | hsave | ⟨hidle, -⟩
      · exact .inl (hd ▸ hslot)
      · rw [hpc] at hwork
        cases hwork
      · -- the clone is still the shared config: the save stores it, or fails
        obtain rfl : cfg = s.st.sharedConfig := by
          rw [hpc] at hsave
          injection hsave
        refine .inr (.inr (.inr ⟨.inr rfl, ?_⟩))
        cases hr : (Storage.saveConfig tag Storage.schemaVersion codec s.p.flash s.st.sharedConfig ok).2 with
        | true =>
          refine .inr ?_
          rw [hshared]
          exact Persist.restore_saved tag codec hr
        | false => exact .inl (by simp)
      · rw [hpc] at hidle
        rcases hidle with hidle | hidle <;> cases hidle
  · subst hp
    rw [hpc] at hcounted
    refine ⟨hI.screen, hI.latch, hd ▸ hI.chan, ?_, ?_, ?_⟩
    · rw [hd]
      exact hcounted
    · rw [hd]
      exact hposted
    · rcases hI.stored with hslot | hwork | hsave | ⟨-, hlast⟩
      · exact .inl (hd ▸ hslot)
      · rw [hpc] at hwork
        cases hwork
      · rw [hpc] at hsave
        cases hsave
      · refine .inr (.inr (.inr ⟨.inl rfl, ?_⟩))
        rw [hshared]
        exact hlast

theorem inv_step (edits : List Label) (s : Sys) (a : Label) (s' : Sys) (hI : Inv tag codec dflt edits s)
    (h : sysStep tag codec s a = some s') : Inv tag codec dflt (edits ++ edit s a) s' := by
  cases a with
  | ui b inp => exact inv_ui tag codec dflt hI h
  | engine b =>
    obtain rfl := Option.some.inj h
    rw [show edit s (.engine b) = [] from rfl, List.append_nil]
    exact ⟨hI.screen, hI.latch, hI.chan, hI.counted, hI.posted, hI.stored⟩
  | persist ok =>
    rw [show edit s (.persist ok) = [] from rfl, List.append_nil]
    exact inv_persist tag codec dflt hI h

theorem inv_boot (display : Display) (flash : Storage.Flash) :
    Inv tag codec dflt [] (boot tag codec dflt display flash) where
  screen := trivial
  latch := rfl
  chan := LatestWins.Chan.ok_empty
  counted := le_refl 0
  posted := rfl
  stored := .inr (.inr (.inr ⟨.inl rfl, .inr rfl⟩))

/-! ### The theorem -/

theorem inv_run {display : Display} {flash : Storage.Flash} {ls : List Label} {s : Sys}
    (h : StepRun.run (sysStep tag codec) (boot tag codec dflt display flash) ls = some s) :
    Inv tag codec dflt (editBatches tag codec (boot tag codec dflt display flash) ls) s :=
  StepRun.run_inv_trace (I := Inv tag codec dflt) (sysStep tag codec) (inv_step tag codec dflt) ls [] _ s
    (inv_boot tag codec dflt display flash) h

/-- **No edit is lost and no save is spurious.** In every reachable state: if
the task waits with no signal pending and its last save, if any, succeeded,
the next boot restores the shared config; a save about to be made has taken a
signal of its own, so saves number no more than signals taken, these no more
than signals posted, and these are as many as the edit batches, the iterations
whose `take_config_changed` was true. For the next iteration posts a signal
exactly if that is true, which it is exactly if one of its buttons adjusts a
setting; without one the iteration leaves the config alone. -/
theorem no_edit_lost (display : Display) (flash : Storage.Flash) (ls : List Label) (s : Sys)
    (h : StepRun.run (sysStep tag codec) (boot tag codec dflt display flash) ls = some s) :
    (s.p.pc = .wait → s.st.configDirty.slot = none → s.p.results.getLast? ≠ some false →
      Persist.restore tag codec dflt s.p.flash = s.st.sharedConfig) ∧
    (∀ cfg, s.p.pc = .save cfg → s.p.results.length < s.st.configDirty.taken.length) ∧
    s.p.results.length ≤ s.st.configDirty.taken.length ∧
    s.st.configDirty.taken.length ≤ s.st.configDirty.posted.length ∧
    s.st.configDirty.posted.length = (editBatches tag codec (boot tag codec dflt display flash) ls).length ∧
    ∀ b inp s', sysStep tag codec s (.ui b inp) = some s' →
      latches s (.ui b inp) = adjusts s (.ui b inp) ∧
      if latches s (.ui b inp) then s'.st.configDirty = s.st.configDirty.post ()
      else s'.st.configDirty = s.st.configDirty ∧ s'.st.sharedConfig = s.st.sharedConfig := by
  have hI := inv_run tag codec dflt h
  have hcounted := hI.counted
  refine ⟨fun hpc hslot hlast => ?_, fun cfg hpc => ?_, ?_, hI.chan.taken_sublist.length_le, hI.posted,
    fun b inp s' hs => (ui_effect tag codec hI.screen hI.latch hs).2.2.2⟩
  · rcases hI.stored with hne | hwork | hsave | ⟨-, hfailed | hstored⟩
    · exact absurd hslot hne
    · rw [hpc] at hwork
      cases hwork
    · rw [hpc] at hsave
      cases hsave
    · exact absurd hfailed hlast
    · exact hstored
  · rw [hpc] at hcounted
    exact hcounted
  · omega

/-- A look at the menu and two speed steps, the second in the debounce: of
four iterations with buttons in them two are edit batches, and there is one
save, made over a change of `ENGINE_ACTIVE`. -/
theorem no_edit_lost_speed_step :
    let press (evs : List ButtonEvent) : Label := .ui false ⟨evs, fun _ => []⟩
    let ls : List Label := [press [.ok, .down], press [.back], press [.up], .engine true, .persist true,
      press [.up], .persist true, .persist true, .persist true, .persist true, .engine false] ++
      .replicate 7 (.persist true)
    ∃ s, StepRun.run (sysStep Postcard.varint16 Postcard.config)
        (boot Postcard.varint16 Postcard.config StraightKey.config ⟨[], []⟩ .empty) ls = some s ∧
      s.st.sharedConfig.speedWpm = 20 ∧ s.p.results.length = 1 ∧ s.st.configDirty.posted.length = 2 ∧
      Persist.restore Postcard.varint16 Postcard.config StraightKey.config s.p.flash = s.st.sharedConfig := by
  intro press ls
  have hseen : (StepRun.run (sysStep Postcard.varint16 Postcard.config)
      (boot Postcard.varint16 Postcard.config StraightKey.config ⟨[], []⟩ .empty) ls).map
        (fun s => (s.st.sharedConfig.speedWpm, s.p.results, s.p.pc, s.st.configDirty.slot)) =
      some (20, [true], .wait, none) := by
    decide +kernel
  have hbatches : (editBatches Postcard.varint16 Postcard.config
      (boot Postcard.varint16 Postcard.config StraightKey.config ⟨[], []⟩ .empty) ls).length = 2 := by
    decide +kernel
  obtain ⟨s, hs, hs'⟩ := Option.map_eq_some_iff.mp hseen
  simp only [Prod.mk.injEq] at hs'
  obtain ⟨hwpm, hresults, hpc, hslot⟩ := hs'
  obtain ⟨hstored, -, -, -, hposted, -⟩ := no_edit_lost Postcard.varint16 Postcard.config StraightKey.config
    ⟨[], []⟩ .empty ls s hs
  exact ⟨s, hs, hwpm, by rw [hresults]; rfl, hposted.trans hbatches, hstored hpc hslot (by rw [hresults]; decide)⟩

end Settings
end RpKeyer
