/-
# A display that fails

`ui.rs` discards what every flush returns, and clears `dirty` before it: a
display that is not there, or drops out, is not asked twice. Here a flush may
fail and leave anything on the panel.

The panel is the one thing the fault reaches, since nothing reads it: each run
on such a display is the run on a good one with another panel beside it, and
that is what its last flush made of it. An iteration that changes the picture
flushes, so a panel that is wrong is right again, at the latest, when the
picture next changes and the display takes it (`display_faults`).
-/
import RpKeyer.Panel

namespace RpKeyer

/-! ### A flush that may fail -/

/-- What a flush returns, and what a failed one leaves on the panel: any texts. A
frame sent in part may also cut through a text, and that has no `Image`. -/
inductive Flushed
  | ok
  | err (left : Image)
  deriving DecidableEq, Repr

/-- The panel after it, where a good flush puts `drawn`. -/
def Flushed.panel (drawn : Image) : Flushed → Image
  | .ok => drawn
  | .err left => left

def Display.flushTo (d : Display) (r : Flushed) : Display := { d with panel := r.panel d.buffer }

namespace Ui

/-- `new`, on a display whose first flush comes to `r`. -/
def newOn (display : Display) (r : Flushed) : Ui := { new display with display := display.clear.flushTo r }

/-- `render`, whatever its flush comes to. -/
def renderTo (ui : Ui) (config : KeyerConfig) (r : Flushed) : Ui :=
  if !ui.dirty then ui
  else
    { ui with
      dirty := false
      display := ((image ui.screen config ui.lastKeyIndicator ui.decoded).foldl Display.draw
        ui.display.clear).flushTo r }

/-- The UI with something else on its panel. -/
def showing (ui : Ui) (img : Image) : Ui := { ui with display := { ui.display with panel := img } }

end Ui

namespace UiTask

/-- The redraw, when something is dirty. -/
def redrawTo (t : UiTask) (st : Statics) (r : Flushed) : UiTask :=
  if t.ui.dirty then
    { t with
      decoderWpm := st.sharedConfig.speedWpm
      decoderEnabled := st.sharedConfig.decoderEnabled
      ui := t.ui.renderTo st.sharedConfig r }
  else t

/-- One iteration of the loop. -/
def iterationTo (t : UiTask) (st : Statics) (inp : Input) (r : Flushed) : Option (UiTask × Statics) :=
  (batch (t.ui.noteKeyState st.keyIndicator) st inp.events).map fun x =>
    (redrawTo (decode { t with ui := x.1 } inp.decoded) x.2 r, x.2)

/-- Does the iteration come to a flush? -/
def redraws (t : UiTask) (st : Statics) (inp : Input) : Bool :=
  ((batch (t.ui.noteKeyState st.keyIndicator) st inp.events).map fun x =>
    (decode { t with ui := x.1 } inp.decoded).ui.dirty).getD false

def showing (t : UiTask) (img : Image) : UiTask := { t with ui := t.ui.showing img }

end UiTask

namespace DisplayFaults

open Codecs Firmware

/-! ### Nothing reads the panel -/

theorem onButton_showing (ui : Ui) (img : Image) (ev : ButtonEvent) (config : KeyerConfig) :
    (ui.showing img).onButton ev config = (ui.onButton ev config).map fun r => (r.1.showing img, r.2) := by
  obtain ⟨display, screen, dirty, changed, key, decoded⟩ := ui
  cases screen with
  | main => cases ev <;> rfl
  | menu selected =>
    cases ev with
    | up | down | back => rfl
    | ok =>
      simp only [Ui.onButton, Ui.showing, Option.map_bind]
      refine congrArg _ (funext fun item => ?_)
      by_cases hcycles : item.cyclesOnOk = true
      · simp [hcycles]
      · simp [hcycles]
  | edit selected =>
    cases ev with
    | ok | back => rfl
    | up | down =>
      simp only [Ui.onButton, Ui.showing, Option.map_bind]
      rfl

theorem onButtons_showing (img : Image) : ∀ (evs : List ButtonEvent) (ui : Ui) (config : KeyerConfig),
    UiTask.onButtons (ui.showing img) config evs =
      (UiTask.onButtons ui config evs).map fun r => (r.1.showing img, r.2)
  | [], _, _ => rfl
  | ev :: evs, ui, config => by
    unfold UiTask.onButtons
    rw [onButton_showing, Option.bind_map, Option.map_bind]
    exact congrArg _ (funext fun r => onButtons_showing img evs r.1 r.2.1)

theorem batch_showing (ui : Ui) (img : Image) (st : Statics) (events : List ButtonEvent) :
    UiTask.batch (ui.showing img) st events = (UiTask.batch ui st events).map fun r => (r.1.showing img, r.2) := by
  unfold UiTask.batch
  split
  · rfl
  · rw [onButtons_showing, Option.map_map, Option.map_map]
    rfl

theorem noteKeyState_showing (ui : Ui) (img : Image) (keyed : Bool) :
    (ui.showing img).noteKeyState keyed = (ui.noteKeyState keyed).showing img := by
  unfold Ui.noteKeyState
  rw [apply_ite (Ui.showing · img)]
  rfl

theorem noteDecoded_showing (ui : Ui) (img : Image) (text : List UInt8) :
    (ui.showing img).noteDecoded text = (ui.noteDecoded text).showing img := by
  unfold Ui.noteDecoded
  rw [apply_ite (Ui.showing · img)]
  rfl

theorem decode_showing (t : UiTask) (img : Image) (decoded : UInt8 → List UInt8) :
    (t.showing img).decode decoded = (t.decode decoded).showing img := by
  unfold UiTask.decode
  by_cases hd : t.decoderEnabled = true
  · simp [hd, UiTask.showing, noteDecoded_showing]
  · simp [hd, UiTask.showing]

/-- Drawing leaves the panel alone. -/
theorem foldl_draw (img : Image) : ∀ (texts : Image) (d : Display),
    texts.foldl Display.draw { d with panel := img } = { texts.foldl Display.draw d with panel := img }
  | [], _ => rfl
  | t :: texts, d => foldl_draw img texts (d.draw t)

/-- A redraw: a dirty UI has its panel from the flush, a clean one keeps it. -/
theorem redrawTo_showing (t : UiTask) (img : Image) (st : Statics) (r : Flushed) :
    (t.showing img).redrawTo st r =
      (t.redraw st).showing (if t.ui.dirty then r.panel (t.redraw st).ui.display.panel else img) := by
  obtain ⟨⟨display, screen, dirty, changed, key, decoded⟩, wpm, enabled⟩ := t
  cases dirty with
  | false => rfl
  | true =>
    have hdraw : (Ui.image screen st.sharedConfig key decoded).foldl Display.draw
        ({ display with panel := img } : Display).clear = _ := foldl_draw img _ display.clear
    unfold UiTask.redrawTo UiTask.redraw
    simp only [UiTask.showing, Ui.showing, if_true, Ui.renderTo, Ui.render, Bool.not_true, Bool.false_eq_true, if_false,
      hdraw]
    rfl

theorem batch_noted (t : UiTask) (img : Image) (st : Statics) (events : List ButtonEvent) :
    UiTask.batch ((t.showing img).ui.noteKeyState st.keyIndicator) st events =
      (UiTask.batch (t.ui.noteKeyState st.keyIndicator) st events).map fun x => (x.1.showing img, x.2) := by
  rw [← batch_showing, ← noteKeyState_showing]
  rfl

theorem redraws_showing (t : UiTask) (img : Image) (st : Statics) (inp : UiTask.Input) :
    (t.showing img).redraws st inp = t.redraws st inp := by
  unfold UiTask.redraws
  rw [batch_noted, Option.map_map]
  refine congrArg (Option.getD · false) (congrArg (Option.map · _) (funext fun x => ?_))
  exact congrArg (·.ui.dirty) (decode_showing { t with ui := x.1 } img inp.decoded)

/-- One iteration: the panel is from the flush, if there is one. -/
theorem iterationTo_showing (t : UiTask) (img : Image) (st : Statics) (inp : UiTask.Input) (r : Flushed) :
    (t.showing img).iterationTo st inp r = (t.iteration st inp).map fun x =>
      (x.1.showing (if t.redraws st inp then r.panel x.1.ui.display.panel else img), x.2) := by
  unfold UiTask.iterationTo UiTask.iteration UiTask.redraws
  rw [batch_noted]
  cases UiTask.batch (t.ui.noteKeyState st.keyIndicator) st inp.events with
  | none => rfl
  | some x =>
    have hdecode := decode_showing { t with ui := x.1 } img inp.decoded
    refine congrArg some (Prod.ext ?_ rfl)
    show UiTask.redrawTo (UiTask.decode (UiTask.showing { t with ui := x.1 } img) inp.decoded) x.2 r = _
    rw [hdecode]
    exact redrawTo_showing _ img x.2 r

/-- On a good display it is the iteration of the task. -/
theorem iterationTo_ok (t : UiTask) (st : Statics) (inp : UiTask.Input) :
    t.iterationTo st inp .ok = t.iteration st inp := rfl

/-- Without a flush the panel keeps what it shows. -/
theorem iteration_panel {t t' : UiTask} {st st' : Statics} {inp : UiTask.Input}
    (h : t.iteration st inp = some (t', st')) (hquiet : t.redraws st inp = false) :
    t'.ui.display.panel = t.ui.display.panel := by
  have hsame : t.showing t.ui.display.panel = t := rfl
  have hshow := iterationTo_showing t t.ui.display.panel st inp .ok
  rw [iterationTo_ok, hsame, h, Option.map_some, hquiet] at hshow
  exact congrArg (·.ui.display.panel) (congrArg Prod.fst (Option.some.inj hshow))

/-- Without a flush the picture is the one before: laid on the panel, it would
still be right. -/
theorem iteration_current {t t' : UiTask} {st st' : Statics} {inp : UiTask.Input}
    (hs : Redraw.Synced t st.sharedConfig) (h : t.iteration st inp = some (t', st'))
    (hquiet : t.redraws st inp = false) :
    Redraw.current t'.ui st'.sharedConfig = Redraw.current t.ui st.sharedConfig := by
  have hlaid : Redraw.Synced (t.showing (Redraw.current t.ui st.sharedConfig)) st.sharedConfig :=
    ⟨hs.ok, fun _ => rfl, hs.caches⟩
  obtain ⟨t₁, st₁, hiter, hsync, hclean⟩ := Redraw.synced_iteration st hlaid inp
  have hshow := iterationTo_showing t (Redraw.current t.ui st.sharedConfig) st inp .ok
  rw [iterationTo_ok, hiter, h, Option.map_some, hquiet] at hshow
  obtain ⟨rfl, rfl⟩ := Prod.mk.inj (Option.some.inj hshow)
  exact (hsync.shown hclean).symm

/-! ### The running firmware -/

section Run

variable {ε : Type} (E : Engine ε) (app : UsbEmit.App) (tag : Codec UInt16) (codec : Codec KeyerConfig)

/-- The firmware with something else on its panel. -/
def showing (s : Sys ε) (img : Image) : Sys ε := { s with ui := s.ui.showing img }

/-- An iteration of the UI task, and what its flush comes to. -/
def uiStep (s : Sys ε) (pins : Pins) (decoded : UInt8 → List UInt8) (r : Flushed) : Option (Sys ε) :=
  (s.ui.iterationTo s.st ⟨(s.poll pins).2.2, decoded⟩ r).map fun x =>
    { s.withStatics x.2 with ui := x.1, panel := (s.poll pins).1, btnBuf := (s.poll pins).2.1 }

/-- A step, with what a flush in it comes to. -/
def step (s : Sys ε) : Firmware.Label × Flushed → Option (Sys ε)
  | (.ui pins decoded, r) => uiStep s pins decoded r
  | (a, _) => sysStep E app tag codec s a

/-- `main`, on a display whose first flush comes to `r`. -/
def boot (dflt : KeyerConfig) (bz : Buzzer) (display : Display) (flash : Storage.Flash) (r : Flushed) : Sys ε :=
  let s : Sys ε := Firmware.boot E tag codec dflt bz display flash
  { s with ui := { s.ui with ui := Ui.newOn display r } }

/-- The flushes of a step, one or none. -/
def flushes (s : Sys ε) : Firmware.Label × Flushed → List Flushed
  | (.ui pins decoded, r) => if s.ui.redraws s.st ⟨(s.poll pins).2.2, decoded⟩ then [r] else []
  | _ => []

/-- The firmware, its last flush beside it. -/
def beside (k : Flushed) (s : Sys ε) : Sys ε := showing s (k.panel s.ui.ui.display.panel)

/-- The panel does not decide whether there is a flush. -/
theorem flushes_beside (s : Sys ε) (k : Flushed) (pins : Pins) (decoded : UInt8 → List UInt8) (r : Flushed) :
    flushes (beside k s) (.ui pins decoded, r) =
      if s.ui.redraws s.st ⟨(s.poll pins).2.2, decoded⟩ then [r] else [] := by
  have hredraws := redraws_showing s.ui (k.panel s.ui.ui.display.panel) s.st ⟨(s.poll pins).2.2, decoded⟩
  rw [← hredraws]
  rfl

theorem step_beside (s : Sys ε) (k : Flushed) (b : Firmware.Label × Flushed) :
    step E app tag codec (beside k s) b =
      (sysStep E app tag codec s b.1).map (beside ((flushes (beside k s) b).getLastD k)) := by
  obtain ⟨a, r⟩ := b
  cases a with
  | keyer a =>
    show Option.map _ _ = Option.map _ (Option.map _ _)
    rw [Option.map_map]
    rfl
  | take =>
    show Option.bind _ _ = Option.map _ (Option.bind _ _)
    rw [Option.map_bind]
    refine congrArg _ (funext fun x => ?_)
    show Option.map _ _ = Option.map _ (Option.map _ _)
    rw [Option.map_map]
    rfl
  | wrote w ok =>
    show Option.map _ _ = Option.map _ (Option.map _ _)
    rw [Option.map_map]
    rfl
  | ui pins decoded =>
    have hiter := iterationTo_showing s.ui (k.panel s.ui.ui.display.panel) s.st ⟨(s.poll pins).2.2, decoded⟩ r
    rw [flushes_beside]
    refine (congrArg (Option.map _) hiter).trans ?_
    show _ = Option.map _ (Option.map _ _)
    cases hs : s.ui.iteration s.st ⟨(s.poll pins).2.2, decoded⟩ with
    | none => rfl
    | some x =>
      cases hq : s.ui.redraws s.st ⟨(s.poll pins).2.2, decoded⟩ with
      | true => rfl
      | false =>
        rw [← iteration_panel hs hq]
        rfl
  | persist ok =>
    show Option.map _ _ = Option.map _ (Option.map _ _)
    rw [Option.map_map]
    rfl

/-- A run on such a display is the run on a good one, the last flush beside it. -/
theorem run_boot (dflt : KeyerConfig) (bz : Buzzer) (display : Display) (flash : Storage.Flash) (r₀ : Flushed)
    (ls : List (Firmware.Label × Flushed)) :
    StepRun.run (step E app tag codec) (boot E tag codec dflt bz display flash r₀) ls =
      (StepRun.run (sysStep E app tag codec) (Firmware.boot E tag codec dflt bz display flash)
        (ls.map Prod.fst)).map (beside ((StepRun.trace (step E app tag codec) flushes
          (boot E tag codec dflt bz display flash r₀) ls).getLastD r₀)) := by
  have hboot : boot E tag codec dflt bz display flash r₀ =
      beside r₀ (Firmware.boot E tag codec dflt bz display flash) := rfl
  rw [hboot]
  exact StepRun.run_beside (step_beside E app tag codec) ls _ r₀

/-- An iteration of the UI task: a flush of the picture, or nothing to draw. -/
theorem uiStep_cases {s : Sys ε} {img : Image} (hs : Redraw.Synced s.ui s.st.sharedConfig) (pins : Pins)
    (decoded : UInt8 → List UInt8) (r : Flushed) :
    ∃ s', step E app tag codec (showing s img) (.ui pins decoded, r) = some s' ∧ s'.ui.ui.dirty = false ∧
      (s'.ui.ui.display.panel = r.panel (Redraw.current s'.ui.ui s'.st.sharedConfig) ∨
        s'.ui.ui.display.panel = img ∧
          Redraw.current s'.ui.ui s'.st.sharedConfig = Redraw.current s.ui.ui s.st.sharedConfig) := by
  obtain ⟨t, st, hiter, hsync, hclean⟩ := Redraw.synced_iteration s.st hs ⟨(s.poll pins).2.2, decoded⟩
  have hshow := iterationTo_showing s.ui img s.st ⟨(s.poll pins).2.2, decoded⟩ r
  rw [hiter, Option.map_some] at hshow
  refine ⟨_, Option.map_eq_some_iff.mpr ⟨_, hshow, rfl⟩, hclean, ?_⟩
  cases hq : s.ui.redraws s.st ⟨(s.poll pins).2.2, decoded⟩ with
  | true =>
    refine .inl ?_
    show r.panel t.ui.display.panel = _
    rw [hsync.shown hclean]
    rfl
  | false =>
    have hsame := iteration_current hs hiter hq
    exact .inr ⟨rfl, hsame⟩

/-- **A display's faults stay on the display.** Whatever the flushes of a run
come to, from the first one on, and whatever a failed one leaves: the run is
the one the firmware has on a good display, but for the panel, and once the UI
task has iterated that is what the last flush made of the current picture. The
UI task is never blocked; its iteration flushes the picture it comes to, or
comes to the one before and leaves the panel. -/
theorem display_faults (dflt : KeyerConfig) (bz : Buzzer) (display : Display) (flash : Storage.Flash) (r₀ : Flushed)
    (ls : List (Firmware.Label × Flushed)) :
    let start : Sys ε := boot E tag codec dflt bz display flash r₀
    let last := (StepRun.trace (step E app tag codec) flushes start ls).getLastD r₀
    StepRun.run (step E app tag codec) start ls =
      (StepRun.run (sysStep E app tag codec) (Firmware.boot E tag codec dflt bz display flash)
        (ls.map Prod.fst)).map (fun s => showing s (last.panel s.ui.ui.display.panel)) ∧
    ∀ s, StepRun.run (step E app tag codec) start ls = some s →
      (s.ui.ui.dirty = false →
        s.ui.ui.display.panel = last.panel (Redraw.current s.ui.ui s.st.sharedConfig)) ∧
      ∀ pins decoded r, ∃ s', step E app tag codec s (.ui pins decoded, r) = some s' ∧ s'.ui.ui.dirty = false ∧
        (s'.ui.ui.display.panel = r.panel (Redraw.current s'.ui.ui s'.st.sharedConfig) ∨
          s'.ui.ui.display.panel = s.ui.ui.display.panel ∧
            Redraw.current s'.ui.ui s'.st.sharedConfig = Redraw.current s.ui.ui s.st.sharedConfig) := by
  intro start last
  have hrun := run_boot E app tag codec dflt bz display flash r₀ ls
  refine ⟨hrun, fun s hs => ?_⟩
  obtain ⟨t, ht, rfl⟩ := Option.map_eq_some_iff.mp (hrun.symm.trans hs)
  have hI := Panel.inv_run E app tag codec dflt bz display flash ht
  refine ⟨fun hclean => ?_, fun pins decoded r => uiStep_cases E app tag codec hI.synced pins decoded r⟩
  show last.panel t.ui.ui.display.panel = _
  rw [hI.synced.shown hclean]
  rfl

end Run

/-- The display drops out after the first picture, and the speed goes up: it
stays dark, and the firmware is at the new speed. -/
theorem display_faults_up :
    let ls : List (Firmware.Label × Flushed) :=
      (.ui ⟨false, false, false, false⟩ (fun _ => []), .ok) ::
        (MenuReach.press .up).map fun pins => (.ui pins fun _ => [], .err [])
    ∃ s, StepRun.run (step StraightKey.engine ⟨.present 0, .present ()⟩ Postcard.varint16 Postcard.config)
        (boot StraightKey.engine Postcard.varint16 Postcard.config StraightKey.config
          (.new StraightKey.pwm StraightKey.pwm.config StraightKey.clkSysFreq) ⟨[], []⟩ .empty .ok) ls = some s ∧
      s.ui.ui.display.panel = [] ∧ s.ui.ui.screen = .main ∧
      s.st.sharedConfig = { StraightKey.config with speedWpm := 19 } := by
  intro ls
  have hrun : (StepRun.run (step StraightKey.engine ⟨.present 0, .present ()⟩ Postcard.varint16 Postcard.config)
      (boot StraightKey.engine Postcard.varint16 Postcard.config StraightKey.config
        (.new StraightKey.pwm StraightKey.pwm.config StraightKey.clkSysFreq) ⟨[], []⟩ .empty .ok) ls).map
          (fun s => (s.ui.ui.dirty, s.ui.ui.screen, s.st.sharedConfig)) =
            some (false, .main, { StraightKey.config with speedWpm := 19 }) := by
    decide +kernel
  have hlast : (StepRun.trace
      (step StraightKey.engine ⟨.present 0, .present ()⟩ Postcard.varint16 Postcard.config) flushes
      (boot StraightKey.engine Postcard.varint16 Postcard.config StraightKey.config
        (.new StraightKey.pwm StraightKey.pwm.config StraightKey.clkSysFreq) ⟨[], []⟩ .empty .ok) ls).getLastD .ok =
          .err [] := by
    decide +kernel
  obtain ⟨s, hs, hend⟩ := Option.map_eq_some_iff.mp hrun
  obtain ⟨hclean, hscreen⟩ := Prod.mk.inj hend
  obtain ⟨hmain, hconfig⟩ := Prod.mk.inj hscreen
  obtain ⟨-, hreached⟩ := display_faults StraightKey.engine ⟨.present 0, .present ()⟩ Postcard.varint16 Postcard.config
    StraightKey.config (.new StraightKey.pwm StraightKey.pwm.config StraightKey.clkSysFreq) ⟨[], []⟩ .empty .ok ls
  have hpanel := (hreached s hs).1 hclean
  rw [hlast] at hpanel
  exact ⟨s, hs, hpanel, hmain, hconfig⟩

end DisplayFaults
end RpKeyer
