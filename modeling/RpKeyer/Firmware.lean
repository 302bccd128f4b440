/-
# The firmware

All tasks over the same statics: the keyer on the interrupt executor, taken in
its sections, and on the thread executor the UI task with its buttons, the emit
task between its awaits and the persistence task. Any of them may move next.

The models with fewer parties are abstractions of this one: the keyer with
edits from outside (`asLoop`), the emit task with snapshots from outside
(`asEmit`), the UI task and the persistence task with a keyer from outside
(`asSettings`), and the menu machine fed nothing but the presses (`asMenu`).
So a run of the firmware is a run of each (`firmware_refines`).

An iteration of the UI task is one step, although the keyer's interrupt may
preempt it, most of all in the flush. Of what the keyer writes the iteration
reads the key indicator, before anything else, and the decoder, whose text is
an input here; and the keyer sees of it the config and nothing in between, as
the mutex is held over a batch. So the projections do not depend on where in an
iteration the keyer runs: to the keyer it is one edit, the UI task takes the
indicator it began with as an input (`Settings.Label.ui`), and the other two
see neither.
-/
import RpKeyer.Buttons
import RpKeyer.Lib.Simulation
import RpKeyer.MenuRun
import RpKeyer.Redraw
import RpKeyer.Settings
import RpKeyer.UsbIndependence

namespace RpKeyer
namespace Firmware

open Codecs UsbEmit

variable {ε : Type} (E : Engine ε) (app : App) (tag : Codec UInt16) (codec : Codec KeyerConfig)

/-! ### The tasks -/

/-- A section of the keyer loop, with what it reads from its pins and clock. -/
inductive Section
  | park
  | poll (rawDit rawDah : Bool)
  | count
  | refresh
  | tick (nowUs : ℕ)

def Section.label : Section → Loop.Label
  | .park => .park
  | .poll a b => .poll a b
  | .count => .count
  | .refresh => .refresh
  | .tick n => .tick n

/-- A write of the emit task. -/
inductive Await
  | serRelease | midiRelease | ser | midi

/-- The write completes. -/
def Await.label (ok : Bool) : Await → UsbIndependence.Label
  | .serRelease => .serReleased ok
  | .midiRelease => .midiReleased ok
  | .ser => .serDone ok
  | .midi => .midiDone ok

/-- The locals of all tasks, and the statics with the keyer's. -/
structure Sys (ε : Type) where
  keyer : Loop.State ε
  emit : UsbIndependence.State
  panel : ButtonPanel
  btnBuf : Vector ButtonEvent 4
  ui : UiTask
  persist : Persist.State

/-- The statics. -/
def Sys.st (s : Sys ε) : Statics := s.keyer.st

/-- The snapshot channel. -/
def Sys.chan (s : Sys ε) : Signal UsbSnapshot := s.st.usbSignal

def Sys.withStatics (s : Sys ε) (st : Statics) : Sys ε := { s with keyer := { s.keyer with st := st } }

/-- The keyer's next section, the emit task taking a snapshot or done with a
write, an iteration of the UI task with the pins it samples and the text it is
given by the decoder, or a step of the persistence task with the result of its
store. -/
inductive Label
  | keyer (a : Section)
  | take
  | wrote (w : Await) (ok : Bool)
  | ui (pins : Pins) (decoded : UInt8 → List UInt8)
  | persist (ok : Bool)

/-- The button events of the UI task's next iteration, with the panel and the
buffer after it. -/
def Sys.poll (s : Sys ε) (pins : Pins) : ButtonPanel × Vector ButtonEvent 4 × List ButtonEvent :=
  s.panel.poll pins s.btnBuf

/-- One iteration of the UI task, with the statics it began with. -/
def Sys.uiStep (s : Sys ε) (pins : Pins) (decoded : UInt8 → List UInt8) : Option (Sys ε) :=
  (s.ui.iteration s.st ⟨(s.poll pins).2.2, decoded⟩).map fun r =>
    { s.withStatics r.2 with ui := r.1, panel := (s.poll pins).1, btnBuf := (s.poll pins).2.1 }

def sysStep (s : Sys ε) : Label → Option (Sys ε)
  | .keyer a => (Loop.loopStep E s.keyer a.label).map fun k => { s with keyer := k }
  | .take =>
    s.chan.take.bind fun r => (UsbIndependence.emitStep app s.emit (.take r.1)).map fun e =>
      { s.withStatics { s.st with usbSignal := r.2 } with emit := e }
  | .wrote w ok => (UsbIndependence.emitStep app s.emit (w.label ok)).map fun e => { s with emit := e }
  | .ui pins decoded => s.uiStep pins decoded
  | .persist ok => (Persist.step tag codec s.persist s.st ok).map fun r =>
      { s.withStatics r.2 with persist := r.1 }

/-- `main`: the config restored from the flash, the key line low, and all tasks
before their loops. -/
def boot (dflt : KeyerConfig) (bz : Buzzer) (display : Display) (flash : Storage.Flash) : Sys ε :=
  let c₀ := Persist.restore tag codec dflt flash
  { keyer := Loop.boot E c₀ bz
    emit := .start
    panel := .new
    btnBuf := .replicate 4 .up
    ui := .start display (.boot c₀)
    persist := Persist.start flash }

/-- What a step of each task does. -/
inductive Moved (s : Sys ε) : Label → Sys ε → Prop
  | keyer (a : Section) (k : Loop.State ε) (hk : Loop.loopStep E s.keyer a.label = some k) :
      Moved s (.keyer a) { s with keyer := k }
  | take (snap : UsbSnapshot) (c : Signal UsbSnapshot) (e : UsbIndependence.State)
      (htake : s.chan.take = some (snap, c)) (he : UsbIndependence.emitStep app s.emit (.take snap) = some e) :
      Moved s .take { s.withStatics { s.st with usbSignal := c } with emit := e }
  | wrote (w : Await) (ok : Bool) (e : UsbIndependence.State)
      (he : UsbIndependence.emitStep app s.emit (w.label ok) = some e) :
      Moved s (.wrote w ok) { s with emit := e }
  | ui (pins : Pins) (decoded : UInt8 → List UInt8) (t : UiTask) (st : Statics)
      (hiter : s.ui.iteration s.st ⟨(s.poll pins).2.2, decoded⟩ = some (t, st)) :
      Moved s (.ui pins decoded)
        { s.withStatics st with ui := t, panel := (s.poll pins).1, btnBuf := (s.poll pins).2.1 }
  | persist (ok : Bool) (p : Persist.State) (st : Statics)
      (hstep : Persist.step tag codec s.persist s.st ok = some (p, st)) :
      Moved s (.persist ok) { s.withStatics st with persist := p }

theorem sysStep_moved {s s' : Sys ε} {a : Label} (h : sysStep E app tag codec s a = some s') :
    Moved E app tag codec s a s' := by
  cases a with
  | keyer a =>
    obtain ⟨k, hk, rfl⟩ := Option.map_eq_some_iff.mp h
    exact .keyer a k hk
  | take =>
    obtain ⟨⟨snap, c⟩, htake, hmap⟩ := Option.bind_eq_some_iff.mp h
    obtain ⟨e, he, rfl⟩ := Option.map_eq_some_iff.mp hmap
    exact .take snap c e htake he
  | wrote w ok =>
    obtain ⟨e, he, rfl⟩ := Option.map_eq_some_iff.mp h
    exact .wrote w ok e he
  | ui pins decoded =>
    obtain ⟨⟨t, st⟩, hiter, rfl⟩ := Option.map_eq_some_iff.mp h
    exact .ui pins decoded t st hiter
  | persist ok =>
    obtain ⟨⟨p, st⟩, hstep, rfl⟩ := Option.map_eq_some_iff.mp h
    exact .persist ok p st hstep

/-! ### The keyer with edits from outside -/

/-- An engine output touches neither channel. -/
theorem act_channels (k : Keyer ε) (st : Statics) (n : ℕ) (c : Signal UsbSnapshot) (d : Signal Unit)
    (o : Option KeyerOutput) : k.act { st with usbSignal := c, configDirty := d } n o =
      ((k.act st n o).1, { (k.act st n o).2 with usbSignal := c, configDirty := d }) := by
  have hkey : ∀ on, k.key { st with usbSignal := c, configDirty := d } on n =
      ((k.key st on n).1, { (k.key st on n).2 with usbSignal := c, configDirty := d }) := by
    intro on
    unfold Keyer.key Keyer.feedDecoder
    simp only
    split <;> rfl
  match o with
  | none => rfl
  | some .keyDown => exact hkey true
  | some .keyUp => exact hkey false
  | some (.pttRequest true) => exact hkey true
  | some (.pttRequest false) => rfl

/-- A section reads neither channel, and posts the same to any. -/
theorem section_channels {s s' : Loop.State ε} {a : Section} (h : Loop.loopStep E s a.label = some s')
    {c : Signal UsbSnapshot} (hc : c.posted = s.st.usbSignal.posted) (d : Signal Unit) :
    ∃ c', c'.posted = s'.st.usbSignal.posted ∧
      Loop.loopStep E ⟨s.pc, s.k, { s.st with usbSignal := c, configDirty := d }⟩ a.label =
        some ⟨s'.pc, s'.k, { s'.st with usbSignal := c', configDirty := d }⟩ := by
  cases a with
  | park =>
    obtain ⟨hguard, rfl⟩ := StepRun.guard_some h
    exact ⟨c, hc, if_pos hguard⟩
  | poll a b =>
    obtain ⟨hguard, rfl⟩ := StepRun.guard_some h
    refine ⟨((s.k.poll E { s.st with usbSignal := c, configDirty := d } a b).2).usbSignal, ?_, ?_⟩
    · unfold Keyer.poll
      simp only
      split
      · show c.posted ++ _ = s.st.usbSignal.posted ++ _
        rw [hc]
      · exact hc
    · show (if _ then some _ else none) = _
      rw [if_pos hguard]
      unfold Keyer.poll
      simp only
      split <;> rfl
  | count =>
    obtain ⟨hguard, rfl⟩ := StepRun.guard_some h
    exact ⟨c, hc, if_pos hguard⟩
  | refresh =>
    obtain ⟨hguard, rfl⟩ := StepRun.guard_some h
    refine ⟨c, ?_, ?_⟩
    · unfold Keyer.refresh
      simp only
      split <;> exact hc
    · show (if _ then some _ else none) = _
      rw [if_pos hguard]
      unfold Keyer.refresh
      simp only
      split <;> rfl
  | tick n =>
    obtain ⟨hguard, rfl⟩ := StepRun.guard_some h
    have hact := act_channels { s.k with engine := (E.tick s.k.engine).1 } s.st n c d (E.tick s.k.engine).2
    refine ⟨c, ?_, ?_⟩
    · show c.posted = (Keyer.act _ _ _ _).2.usbSignal.posted
      rw [(UsbChannel.act_signal _ _ _ _).2]
      exact hc
    · show (if _ then some _ else none) = _
      rw [if_pos hguard]
      unfold Keyer.tick
      simp only [hact]

/-- An iteration of the UI task writes the config and its dirty signal only. -/
theorem iteration_statics {t t' : UiTask} {st st' : Statics} {inp : UiTask.Input}
    (h : t.iteration st inp = some (t', st')) :
    st' = { st with sharedConfig := st'.sharedConfig, configDirty := st'.configDirty } := by
  obtain ⟨r, hbatch, hr⟩ := Option.map_eq_some_iff.mp h
  obtain ⟨-, rfl⟩ := Prod.mk.inj hr
  unfold UiTask.batch at hbatch
  split at hbatch
  · obtain rfl := Option.some.inj hbatch
    rfl
  · obtain ⟨r', -, rfl⟩ := Option.map_eq_some_iff.mp hbatch
    unfold UiTask.signalDirty
    simp only
    split <;> rfl

/-- A step of the persistence task writes the dirty signal and the lock only. -/
theorem persist_statics {p p' : Persist.State} {st st' : Statics} {ok : Bool}
    (h : Persist.step tag codec p st ok = some (p', st')) :
    st' = { st with configDirty := st'.configDirty, saveLock := st'.saveLock } := by
  obtain ⟨pc, flash, results⟩ := p
  cases pc with
  | wait =>
    obtain ⟨r, -, hr⟩ := Option.map_eq_some_iff.mp h
    obtain ⟨-, rfl⟩ := Prod.mk.inj hr
    rfl
  | debounce =>
    simp only [Persist.step] at h
    split at h
    · obtain ⟨-, rfl⟩ := Prod.mk.inj (Option.some.inj h)
      rfl
    · obtain ⟨-, rfl⟩ := Prod.mk.inj (Option.some.inj h)
      rfl
  | loadActive | idleRecheck | storeLock | parkObserve | recheck | release | retrySleep | clone | save |
    unlock =>
    obtain ⟨-, rfl⟩ := Prod.mk.inj (Option.some.inj h)
    rfl

/-- What the other tasks are to the keyer: edits, and changes of the lock. -/
def loopLabels (s : Sys ε) : Label → List Loop.Label
  | .keyer a => [a.label]
  | .ui pins decoded => (s.uiStep pins decoded).toList.map fun s' => .edit s'.st.sharedConfig
  | .persist ok => (Persist.step tag codec s.persist s.st ok).toList.map fun r => .saveLock r.2.saveLock
  | .take | .wrote _ _ => []

/-- The keyer, whatever is unread in the two channels. -/
def LoopRel (s : Sys ε) (t : Loop.State ε) : Prop :=
  ∃ c d, c.posted = s.chan.posted ∧
    t = ⟨s.keyer.pc, s.keyer.k, { s.st with usbSignal := c, configDirty := d }⟩

/-- The keyer with edits from outside. -/
def asLoop : StepRun.Simulation (sysStep E app tag codec) (Loop.loopStep E) where
  rel := LoopRel
  labels := loopLabels tag codec
  sim := by
    rintro s s' a t ⟨c, d, hc, rfl⟩ h
    cases sysStep_moved E app tag codec h with
    | keyer a k hk =>
      obtain ⟨c', hc', hstep⟩ := section_channels E hk hc d
      exact ⟨_, (StepRun.run_cons_some _).mpr ⟨_, hstep, rfl⟩, c', d, hc', rfl⟩
    | take snap c' e htake =>
      obtain ⟨-, rfl⟩ := LatestWins.Chan.take_some htake
      exact ⟨_, rfl, c, d, hc, rfl⟩
    | wrote =>
      exact ⟨_, rfl, c, d, hc, rfl⟩
    | ui pins decoded t' st' hiter =>
      have hlabels : loopLabels tag codec s (.ui pins decoded) = [.edit st'.sharedConfig] := by
        show (s.uiStep pins decoded).toList.map _ = _
        rw [show s.uiStep pins decoded = some _ from h]
        rfl
      rw [hlabels]
      have hst := iteration_statics hiter
      refine ⟨_, rfl, c, d, ?_, ?_⟩
      · show c.posted = st'.usbSignal.posted
        rw [hst]
        exact hc
      · exact congrArg (fun st : Statics => (⟨s.keyer.pc, s.keyer.k,
          { st with usbSignal := c, configDirty := d }⟩ : Loop.State ε)) hst.symm
    | persist ok p' st' hstep =>
      have hlabels : loopLabels tag codec s (.persist ok) = [.saveLock st'.saveLock] := by
        show (Persist.step tag codec s.persist s.st ok).toList.map _ = _
        rw [hstep]
        rfl
      rw [hlabels]
      have hst := persist_statics tag codec hstep
      refine ⟨_, rfl, c, d, ?_, ?_⟩
      · show c.posted = st'.usbSignal.posted
        rw [hst]
        exact hc
      · exact congrArg (fun st : Statics => (⟨s.keyer.pc, s.keyer.k,
          { st with usbSignal := c, configDirty := d }⟩ : Loop.State ε)) hst.symm

/-! ### The settings with a keyer from outside -/

/-- An iteration of the UI task reads neither the snapshots nor the decoder's
calls. -/
theorem iteration_congr {t t' : UiTask} {st st' : Statics} {inp : UiTask.Input}
    (h : t.iteration st inp = some (t', st')) (c : Signal UsbSnapshot) (calls : List DecoderCall) :
    t.iteration { st with usbSignal := c, decoder := calls } inp =
      some (t', { st' with usbSignal := c, decoder := calls }) := by
  obtain ⟨r, hbatch, hr⟩ := Option.map_eq_some_iff.mp h
  obtain ⟨rfl, rfl⟩ := Prod.mk.inj hr
  have hbatch' : UiTask.batch (t.ui.noteKeyState st.keyIndicator) { st with usbSignal := c, decoder := calls }
      inp.events = some (r.1, { r.2 with usbSignal := c, decoder := calls }) := by
    unfold UiTask.batch at hbatch ⊢
    split at hbatch
    · rename_i hnil
      obtain rfl := Option.some.inj hbatch
      rw [if_pos hnil]
    · rename_i hevents
      obtain ⟨r', hrun, rfl⟩ := Option.map_eq_some_iff.mp hbatch
      rw [if_neg hevents, hrun]
      unfold UiTask.signalDirty
      simp only [Option.map_some]
      split <;> rfl
  simp only [UiTask.iteration, hbatch', Option.map_some, UiTask.redraw]

/-- Nor does the persistence task, and it does not look at the indicator. -/
theorem persist_congr {p p' : Persist.State} {st st' : Statics} {ok : Bool}
    (h : Persist.step tag codec p st ok = some (p', st')) (c : Signal UsbSnapshot) (calls : List DecoderCall)
    (b : Bool) :
    Persist.step tag codec p { st with usbSignal := c, decoder := calls, keyIndicator := b } ok =
      some (p', { st' with usbSignal := c, decoder := calls, keyIndicator := b }) := by
  obtain ⟨pc, flash, results⟩ := p
  cases pc with
  | wait =>
    obtain ⟨r, ht, hr⟩ := Option.map_eq_some_iff.mp h
    obtain ⟨rfl, rfl⟩ := Prod.mk.inj hr
    simp only [Persist.step, ht, Option.map_some]
  | debounce =>
    rcases ht : st.configDirty.take with _ | r <;> simp only [Persist.step, ht] at h ⊢
    · obtain ⟨rfl, rfl⟩ := Prod.mk.inj (Option.some.inj h)
      rfl
    · obtain ⟨rfl, rfl⟩ := Prod.mk.inj (Option.some.inj h)
      rfl
  | loadActive | idleRecheck | storeLock | parkObserve | recheck | release | retrySleep | clone | save |
    unlock =>
    obtain ⟨rfl, rfl⟩ := Prod.mk.inj (Option.some.inj h)
    rfl

/-- A section leaves the config, the lock and the dirty signal alone. -/
theorem section_kept {s s' : Loop.State ε} {a : Section} (h : Loop.loopStep E s a.label = some s') :
    Keyer.Kept s.st s'.st := by
  cases a with
  | park =>
    obtain ⟨-, rfl⟩ := StepRun.guard_some h
    exact ⟨rfl, rfl, rfl⟩
  | poll a b =>
    obtain ⟨-, rfl⟩ := StepRun.guard_some h
    exact Keyer.kept_poll E s.k s.st a b
  | count =>
    obtain ⟨-, rfl⟩ := StepRun.guard_some h
    exact ⟨rfl, rfl, rfl⟩
  | refresh =>
    obtain ⟨-, rfl⟩ := StepRun.guard_some h
    exact Keyer.kept_refresh E s.k s.st
  | tick n =>
    obtain ⟨-, rfl⟩ := StepRun.guard_some h
    exact Keyer.kept_tick E s.k s.st n

/-- What the other tasks are to the settings: changes of `ENGINE_ACTIVE`. -/
def settingsLabels (s : Sys ε) : Label → List Settings.Label
  | .keyer a => (Loop.loopStep E s.keyer a.label).toList.map fun k => .engine k.st.engineActive
  | .ui pins decoded => [.ui s.st.keyIndicator ⟨(s.poll pins).2.2, decoded⟩]
  | .persist ok => [.persist ok]
  | .take | .wrote _ _ => []

/-- The UI task and the persistence task, whatever the keyer has published. -/
def SettingsRel (s : Sys ε) (t : Settings.Sys) : Prop :=
  ∃ c calls b, t = ⟨s.ui, { s.st with usbSignal := c, decoder := calls, keyIndicator := b }, s.persist⟩

/-- The UI task and the persistence task with a keyer from outside. -/
def asSettings : StepRun.Simulation (sysStep E app tag codec) (Settings.sysStep tag codec) where
  rel := SettingsRel
  labels := settingsLabels E
  sim := by
    rintro s s' a t ⟨c, calls, b, rfl⟩ h
    cases sysStep_moved E app tag codec h with
    | keyer a k hk =>
      have hlabels : settingsLabels E s (.keyer a) = [.engine k.st.engineActive] := by
        show (Loop.loopStep E s.keyer a.label).toList.map _ = _
        rw [hk]
        rfl
      rw [hlabels]
      obtain ⟨hconfig, hlock, hdirty⟩ := section_kept E hk
      refine ⟨_, rfl, c, calls, b, ?_⟩
      show (⟨s.ui, ⟨s.keyer.st.sharedConfig, b, k.st.engineActive, s.keyer.st.saveLock, c,
          s.keyer.st.configDirty, calls⟩, s.persist⟩ : Settings.Sys) = _
      rw [← hconfig, ← hlock, ← hdirty]
      rfl
    | take =>
      exact ⟨_, rfl, c, calls, b, rfl⟩
    | wrote =>
      exact ⟨_, rfl, c, calls, b, rfl⟩
    | ui pins decoded t' st' hiter =>
      have hiter' := iteration_congr hiter c calls
      refine ⟨⟨t', { st' with usbSignal := c, decoder := calls }, s.persist⟩, ?_, c, calls, st'.keyIndicator, rfl⟩
      refine (StepRun.run_cons_some _).mpr ⟨_, ?_, rfl⟩
      show (s.ui.iteration _ _).map _ = _
      rw [hiter']
      rfl
    | persist ok p' st' hstep =>
      have hstep' := persist_congr tag codec hstep c calls b
      refine ⟨⟨s.ui, { st' with usbSignal := c, decoder := calls, keyIndicator := b }, p'⟩, ?_, c, calls, b, rfl⟩
      refine (StepRun.run_cons_some _).mpr ⟨_, ?_, rfl⟩
      show (Persist.step _ _ _ _ _).map _ = _
      rw [hstep']
      rfl

/-! ### The emit task with snapshots from outside -/

/-- What the firmware is to the emit task: the snapshots it hands out, and the
writes. -/
def emitLabels (s : Sys ε) : Label → List UsbIndependence.Label
  | .take => s.chan.slot.toList.map .take
  | .wrote w ok => [w.label ok]
  | .keyer _ | .ui _ _ | .persist _ => []

theorem emit_step {s s' : Sys ε} {a : Label} (h : sysStep E app tag codec s a = some s') :
    StepRun.run (UsbIndependence.emitStep app) s.emit (emitLabels s a) = some s'.emit := by
  cases sysStep_moved E app tag codec h with
  | keyer =>
    rfl
  | take snap c e htake he =>
    obtain ⟨hslot, -⟩ := LatestWins.Chan.take_some htake
    have hlabels : emitLabels s .take = [.take snap] := by
      unfold emitLabels
      rw [hslot]
      rfl
    rw [hlabels]
    exact (StepRun.run_cons_some _).mpr ⟨e, he, rfl⟩
  | wrote w ok e he =>
    exact (StepRun.run_cons_some _).mpr ⟨e, he, rfl⟩
  | ui =>
    rfl
  | persist =>
    rfl

/-- The snapshots the emit task is handed are those taken from the channel. -/
theorem taken_step {s s' : Sys ε} {a : Label} (h : sysStep E app tag codec s a = some s') :
    s'.chan.taken = s.chan.taken ++ UsbIndependence.snapshots (emitLabels s a) := by
  cases sysStep_moved E app tag codec h with
  | keyer a k hk =>
    rcases UsbChannel.loop_signal E hk with ⟨-, hsig⟩ | ⟨snap, -, hsig⟩
    · exact (congrArg LatestWins.Chan.taken hsig).trans (List.append_nil _).symm
    · exact (congrArg LatestWins.Chan.taken hsig).trans (List.append_nil _).symm
  | take snap c' e htake =>
    obtain ⟨hslot, rfl⟩ := LatestWins.Chan.take_some htake
    unfold emitLabels
    rw [hslot]
    rfl
  | wrote w =>
    cases w <;> exact (List.append_nil _).symm
  | ui pins decoded t' st' hiter =>
    have hst := congrArg (fun st : Statics => st.usbSignal.taken) (iteration_statics hiter)
    exact hst.trans (List.append_nil _).symm
  | persist ok p' st' hstep =>
    have hst := congrArg (fun st : Statics => st.usbSignal.taken) (persist_statics tag codec hstep)
    exact hst.trans (List.append_nil _).symm

/-! ### The menu, fed the presses -/

/-- A button looks at the screen only. -/
theorem onButton_screen {ui ui₁ : Ui} (hs : ui₁.screen = ui.screen) (ev : ButtonEvent) (config : KeyerConfig) :
    (ui₁.onButton ev config).map (fun r => (r.1.screen, r.2.1)) =
      (ui.onButton ev config).map fun r => (r.1.screen, r.2.1) := by
  unfold Ui.onButton
  cases hscreen : ui.screen with
  | main => cases ev <;> simp [hs, hscreen]
  | menu selected =>
    cases ev with
    | ok =>
      cases hitem : MenuItem.all[selected.toNat]? with
      | none => simp [hs, hscreen, hitem]
      | some item => cases hcyc : item.cyclesOnOk <;> simp [hs, hscreen, hitem, hcyc]
    | up | down | back => simp [hs, hscreen]
  | edit selected =>
    cases ev with
    | up | down => cases hitem : MenuItem.all[selected.toNat]? <;> simp [hs, hscreen, hitem]
    | ok | back => simp [hs, hscreen]

/-- The events of a batch, on the menu machine. -/
theorem menu_onButtons : ∀ (evs : List ButtonEvent) {ui ui' : Ui} {config config' : KeyerConfig}
    {m : MenuRun.State}, m.ui.screen = ui.screen → m.config = config →
      UiTask.onButtons ui config evs = some (ui', config') →
        ∃ m', StepRun.run MenuRun.uiStep m evs = some m' ∧ m'.ui.screen = ui'.screen ∧ m'.config = config'
  | [], ui, ui', config, config', m, hs, hc, h => by
    obtain ⟨rfl, rfl⟩ := Prod.mk.inj (Option.some.inj h)
    exact ⟨m, rfl, hs, hc⟩
  | ev :: evs, ui, ui', config, config', m, hs, hc, h => by
    obtain ⟨r, hev, hrest⟩ := Option.bind_eq_some_iff.mp h
    subst hc
    have hsame := onButton_screen hs ev m.config
    rw [hev] at hsame
    obtain ⟨r', hev', hr'⟩ := Option.map_eq_some_iff.mp hsame
    obtain ⟨hscreen, hconfig⟩ := Prod.mk.inj hr'
    have hstep : MenuRun.uiStep m ev = some ⟨r'.1, r'.2.1, m.visit.note m.ui.screen ev⟩ := by
      unfold MenuRun.uiStep
      rw [hev']
      rfl
    obtain ⟨m', hrun, hm'⟩ :=
      menu_onButtons evs (m := ⟨r'.1, r'.2.1, m.visit.note m.ui.screen ev⟩) hscreen hconfig hrest
    exact ⟨m', (StepRun.run_cons_some _).mpr ⟨_, hstep, hrun⟩, hm'⟩

theorem signalDirty_screen (ui : Ui) (st : Statics) : (UiTask.signalDirty ui st).1.screen = ui.screen := rfl

/-- Of an iteration of the UI task, the screen and the config are the batch's. -/
theorem iteration_onButtons {t t' : UiTask} {st st' : Statics} {inp : UiTask.Input}
    (h : t.iteration st inp = some (t', st')) :
    ∃ ui ui', ui.screen = t.ui.screen ∧
      UiTask.onButtons ui st.sharedConfig inp.events = some (ui', st'.sharedConfig) ∧
      t'.ui.screen = ui'.screen := by
  obtain ⟨⟨ui', st₁⟩, hbatch, hr⟩ := Option.map_eq_some_iff.mp h
  obtain ⟨rfl, rfl⟩ := Prod.mk.inj hr
  have hdecode : ∀ t : UiTask, (t.decode inp.decoded).ui.screen = t.ui.screen := by
    intro t
    unfold UiTask.decode
    split
    · exact (Redraw.noted_noteDecoded t.ui _).screen
    · rfl
  have hredraw : ∀ t : UiTask, (t.redraw st₁).ui.screen = t.ui.screen := by
    intro t
    unfold UiTask.redraw Ui.render
    split
    · simp only
      split <;> rfl
    · rfl
  have hkey := (Redraw.noted_noteKeyState t.ui st.keyIndicator).screen
  unfold UiTask.batch at hbatch
  split at hbatch
  · rename_i hnil
    obtain ⟨rfl, rfl⟩ := Prod.mk.inj (Option.some.inj hbatch)
    rw [List.isEmpty_iff.mp hnil]
    exact ⟨_, _, hkey, rfl, (hredraw _).trans (hdecode _)⟩
  · obtain ⟨⟨ui₁, config₁⟩, hrun, hr⟩ := Option.map_eq_some_iff.mp hbatch
    have hconfig : st₁.sharedConfig = config₁ :=
      (congrArg (fun r => r.2.sharedConfig) hr).symm.trans (UiTask.signalDirty_sharedConfig _ _)
    have hscreen : ui'.screen = ui₁.screen :=
      (congrArg (fun r => r.1.screen) hr).symm.trans (signalDirty_screen _ _)
    refine ⟨_, _, hkey, ?_, ((hredraw _).trans (hdecode _)).trans hscreen⟩
    rw [hconfig]
    exact hrun

/-- The presses an iteration of the UI task finds. -/
def menuLabels (s : Sys ε) : Label → List ButtonEvent
  | .ui pins _ => (s.poll pins).2.2
  | .keyer _ | .take | .wrote _ _ | .persist _ => []

/-- The menu machine on the same screen with the same config. -/
def MenuRel (s : Sys ε) (m : MenuRun.State) : Prop :=
  m.ui.screen = s.ui.ui.screen ∧ m.config = s.st.sharedConfig

/-- A step of any other task leaves the UI and the config alone. -/
theorem ui_step {s s' : Sys ε} {a : Label} (h : sysStep E app tag codec s a = some s')
    (hui : ∀ pins decoded, a ≠ .ui pins decoded) :
    s'.ui = s.ui ∧ s'.st.sharedConfig = s.st.sharedConfig ∧ s'.panel = s.panel ∧ s'.btnBuf = s.btnBuf := by
  cases sysStep_moved E app tag codec h with
  | keyer a k hk =>
    exact ⟨rfl, (section_kept E hk).sharedConfig, rfl, rfl⟩
  | take =>
    exact ⟨rfl, rfl, rfl, rfl⟩
  | wrote =>
    exact ⟨rfl, rfl, rfl, rfl⟩
  | ui pins decoded => exact absurd rfl (hui pins decoded)
  | persist ok p' st' hstep =>
    have hst := persist_statics tag codec hstep
    have hconfig : st'.sharedConfig = s.st.sharedConfig := by
      rw [hst]
    exact ⟨rfl, hconfig, rfl, rfl⟩

/-- The menu machine, fed the presses. -/
def asMenu : StepRun.Simulation (sysStep E app tag codec) MenuRun.uiStep where
  rel := MenuRel
  labels := menuLabels
  sim := by
    rintro s s' a m ⟨hscreen, hconfig⟩ h
    cases a with
    | ui pins decoded =>
      obtain ⟨⟨t', st'⟩, hiter, rfl⟩ := Option.map_eq_some_iff.mp h
      obtain ⟨ui, ui', hui, hrun, hui'⟩ := iteration_onButtons hiter
      obtain ⟨m', hm', hscreen', hconfig'⟩ := menu_onButtons _ (hscreen.trans hui.symm) hconfig hrun
      exact ⟨m', hm', hscreen'.trans hui'.symm, hconfig'⟩
    | keyer | take | wrote | persist =>
      obtain ⟨hui, hsame, -, -⟩ := ui_step E app tag codec h (by intro _ _ heq; cases heq)
      exact ⟨m, rfl, hscreen.trans (congrArg (·.ui.screen) hui).symm, hconfig.trans hsame.symm⟩

/-- What every adjustment keeps of the config, the firmware keeps of the shared
one. -/
theorem shared_config {P : KeyerConfig → Prop} (hP : ∀ c item up, P c → P (Menu.adjust c item up))
    {dflt : KeyerConfig} {bz : Buzzer} {display : Display} {flash : Storage.Flash}
    (hflash : P (Persist.restore tag codec dflt flash)) {ls : List Label} {s : Sys ε}
    (h : StepRun.run (sysStep E app tag codec) (boot E tag codec dflt bz display flash) ls = some s) :
    P s.st.sharedConfig := by
  obtain ⟨m, hm, -, hconfig⟩ := (asMenu E app tag codec).run
    (t := MenuRun.start display (Persist.restore tag codec dflt flash)) ⟨rfl, rfl⟩ h
  have hstep : ∀ (m : MenuRun.State) ev m', P m.config → MenuRun.uiStep m ev = some m' → P m'.config := by
    intro m ev m' hm hev
    obtain ⟨r, hr, rfl⟩ := Option.map_eq_some_iff.mp hev
    exact Ui.onButton_config hP hm hr
  rw [← hconfig]
  exact StepRun.run_inv (I := fun m => P m.config) MenuRun.uiStep hstep hflash hm

/-! ### The theorem -/

/-- The pins the UI task samples. -/
def Label.pins : Label → List Pins
  | .ui pins _ => [pins]
  | .keyer _ | .take | .wrote _ _ | .persist _ => []

/-- The presses of a run are those the panel reports on the pins sampled. -/
theorem presses_trace : ∀ {ls : List Label} {s s' : Sys ε},
    StepRun.run (sysStep E app tag codec) s ls = some s' →
      StepRun.trace (sysStep E app tag codec) menuLabels s ls =
        (s.panel.polls s.btnBuf (ls.flatMap Label.pins)).flatten
  | [], _, _, _ => rfl
  | a :: ls, s, s', h => by
    obtain ⟨s₁, hs, hrun⟩ := (StepRun.run_cons_some _).mp h
    rw [StepRun.trace_cons hs, presses_trace hrun]
    cases a with
    | ui pins decoded =>
      obtain ⟨r, -, rfl⟩ := Option.map_eq_some_iff.mp hs
      rfl
    | keyer | take | wrote | persist =>
      obtain ⟨-, -, hpanel, hbuf⟩ := ui_step E app tag codec hs (by intro _ _ h; cases h)
      rw [hpanel, hbuf]
      rfl

/-- The snapshots handed out are those taken. -/
theorem snapshots_trace : ∀ {ls : List Label} {s s' : Sys ε},
    StepRun.run (sysStep E app tag codec) s ls = some s' →
      s'.chan.taken = s.chan.taken ++
        UsbIndependence.snapshots (StepRun.trace (sysStep E app tag codec) emitLabels s ls)
  | [], s, s', h => by
    obtain rfl := Option.some.inj h
    exact (List.append_nil _).symm
  | a :: ls, s, s', h => by
    obtain ⟨s₁, hs, hrun⟩ := (StepRun.run_cons_some _).mp h
    rw [StepRun.trace_cons hs, snapshots_trace hrun, taken_step E app tag codec hs,
      UsbIndependence.snapshots_append, List.append_assoc]

/-- **The firmware refines its parts.** However the tasks interleave, a run
from boot is a run of the keyer with edits from outside, one of the UI task
and the persistence task with a keyer from outside, one of the emit task fed
exactly the snapshots taken from the channel, and one of the menu machine fed
exactly the presses in the pins sampled, all from the config restored at boot
and to the state the firmware is in. -/
theorem firmware_refines (dflt : KeyerConfig) (bz : Buzzer) (display : Display) (flash : Storage.Flash)
    {ls : List Label} {s : Sys ε}
    (h : StepRun.run (sysStep E app tag codec) (boot E tag codec dflt bz display flash) ls = some s) :
    (∃ t, StepRun.run (Loop.loopStep E) (Loop.boot E (Persist.restore tag codec dflt flash) bz)
        (StepRun.trace (sysStep E app tag codec) (loopLabels tag codec) (boot E tag codec dflt bz display flash)
          ls) = some t ∧ LoopRel s t) ∧
    (∃ t, StepRun.run (Settings.sysStep tag codec) (Settings.boot tag codec dflt display flash)
        (StepRun.trace (sysStep E app tag codec) (settingsLabels E) (boot E tag codec dflt bz display flash)
          ls) = some t ∧ SettingsRel s t) ∧
    (∃ es, StepRun.run (UsbIndependence.emitStep app) .start es = some s.emit ∧
      UsbIndependence.snapshots es = s.chan.taken) ∧
    ∃ m, StepRun.run MenuRun.uiStep (MenuRun.start display (Persist.restore tag codec dflt flash))
        (ButtonPanel.new.polls (.replicate 4 .up) (ls.flatMap Label.pins)).flatten = some m ∧
      MenuRel s m := by
  refine ⟨?_, ?_, ?_, ?_⟩
  · exact (asLoop E app tag codec).run ⟨_, _, rfl, rfl⟩ h
  · exact (asSettings E app tag codec).run ⟨_, _, _, rfl⟩ h
  · refine ⟨_, StepRun.Simulation.run_ofMap (f := Sys.emit) (emit_step E app tag codec) h, ?_⟩
    have htaken := snapshots_trace E app tag codec h
    exact (htaken.trans (List.nil_append _)).symm
  · have hmenu := (asMenu E app tag codec).run (t := MenuRun.start display (Persist.restore tag codec dflt flash))
      ⟨rfl, rfl⟩ h
    have htrace := presses_trace E app tag codec h
    obtain ⟨m, hm, hrel⟩ := hmenu
    refine ⟨m, ?_, hrel⟩
    rw [← hm]
    exact congrArg _ htrace.symm

/-- A press of Up, sampled twice, between a keyer iteration and the writes of
its snapshot. -/
theorem firmware_refines_up :
    let app : App := ⟨.present 0, .present ()⟩
    let bz := Buzzer.new StraightKey.pwm StraightKey.pwm.config StraightKey.clkSysFreq
    let up : Label := .ui ⟨true, false, false, false⟩ fun _ => []
    let ls : List Label := [.keyer (.poll false false), up, .take, .keyer .count, .wrote .serRelease true, up,
      .persist true, .wrote .midiRelease false, .wrote .midi true, .keyer (.tick 0), .wrote .ser true]
    ∃ s, StepRun.run (sysStep StraightKey.engine app Postcard.varint16 Postcard.config)
        (boot StraightKey.engine Postcard.varint16 Postcard.config StraightKey.config bz ⟨[], []⟩ .empty) ls =
          some s ∧
      (∃ es, StepRun.run (UsbIndependence.emitStep app) .start es = some s.emit ∧
        UsbIndependence.snapshots es = s.chan.taken) ∧
      ∃ m, StepRun.run MenuRun.uiStep (MenuRun.start ⟨[], []⟩ StraightKey.config) [.up] = some m ∧
        m.config = s.st.sharedConfig := by
  intro app bz up ls
  have hsome : (StepRun.run (sysStep StraightKey.engine app Postcard.varint16 Postcard.config)
      (boot StraightKey.engine Postcard.varint16 Postcard.config StraightKey.config bz ⟨[], []⟩ .empty)
        ls).isSome = true := by
    decide +kernel
  obtain ⟨s, hs⟩ := Option.isSome_iff_exists.mp hsome
  obtain ⟨-, -, hemit, m, hm, -, hconfig⟩ := firmware_refines StraightKey.engine app Postcard.varint16
    Postcard.config StraightKey.config bz ⟨[], []⟩ .empty hs
  exact ⟨s, hs, hemit, m, hm, hconfig⟩

end Firmware
end RpKeyer
