/-
# The UI task

`ui_task`: every 25 ms it reads the key indicator, applies a batch of button
events to the shared config and signals `CONFIG_DIRTY` on an edit, polls the
decoder, and redraws if something is dirty. The task is the only writer of the
shared config, so its two locks are not seen by anyone else.
-/
import RpKeyer.Keyer
import RpKeyer.Ui

namespace RpKeyer

/-- The locals of `ui_task`. -/
structure UiTask where
  ui : Ui
  decoderWpm : UInt8
  decoderEnabled : Bool

namespace UiTask

/-- Before the loop, on a display that shows anything. -/
def start (display : Display) (st : Statics) : UiTask where
  ui := .new display
  decoderWpm := st.sharedConfig.speedWpm
  decoderEnabled := st.sharedConfig.decoderEnabled

/-- What one iteration finds: the button events, and the text the decoder
returns when it is polled at a speed. -/
structure Input where
  events : List ButtonEvent
  decoded : UInt8 → List UInt8

/-- The events of a batch, under the config mutex. -/
def onButtons (ui : Ui) (config : KeyerConfig) : List ButtonEvent → Option (Ui × KeyerConfig)
  | [] => some (ui, config)
  | ev :: evs => (ui.onButton ev config).bind fun r => onButtons r.1 r.2.1 evs

/-- `take_config_changed`, and the dirty signal if it was set. -/
def signalDirty (ui : Ui) (st : Statics) : Ui × Statics :=
  let c := ui.takeConfigChanged
  (c.2, if c.1 then { st with configDirty := st.configDirty.post () } else st)

/-- A batch of button events, if there are any. -/
def batch (ui : Ui) (st : Statics) (events : List ButtonEvent) : Option (Ui × Statics) :=
  if events.isEmpty then some (ui, st)
  else
    (onButtons ui st.sharedConfig events).map fun r =>
      signalDirty r.1 { st with sharedConfig := r.2 }

/-- The decoder poll, when it is enabled. -/
def decode (t : UiTask) (decoded : UInt8 → List UInt8) : UiTask :=
  if t.decoderEnabled then { t with ui := t.ui.noteDecoded (decoded t.decoderWpm) } else t

/-- The redraw, when something is dirty, with the decoder's cached settings. -/
def redraw (t : UiTask) (st : Statics) : UiTask :=
  if t.ui.dirty then
    { t with
      decoderWpm := st.sharedConfig.speedWpm
      decoderEnabled := st.sharedConfig.decoderEnabled
      ui := t.ui.render st.sharedConfig }
  else t

/-- One iteration of the loop. -/
def iteration (t : UiTask) (st : Statics) (inp : Input) : Option (UiTask × Statics) :=
  (batch (t.ui.noteKeyState st.keyIndicator) st inp.events).map fun r =>
    (redraw (decode { t with ui := r.1 } inp.decoded) r.2, r.2)

/-! ### What a batch does -/

theorem signalDirty_sharedConfig (ui : Ui) (st : Statics) :
    (signalDirty ui st).2.sharedConfig = st.sharedConfig := by
  unfold signalDirty
  simp only
  split <;> rfl

/-- What every button keeps, a batch keeps; and no index is out of bounds. -/
theorem onButtons_inv {I : Ui → KeyerConfig → Prop}
    (hI : ∀ ui config ui' config', I ui config → Ui.Pressed ui config ui' config' → I ui' config') :
    ∀ (evs : List ButtonEvent) {ui : Ui} {config : KeyerConfig}, Ui.ScreenOk ui.screen → I ui config →
      ∃ ui' config', onButtons ui config evs = some (ui', config') ∧ Ui.ScreenOk ui'.screen ∧ I ui' config'
  | [], ui, config, hok, h => ⟨ui, config, rfl, hok, h⟩
  | ev :: evs, ui, config, hok, h => by
    obtain ⟨ui₁, config₁, hev, hp⟩ := Ui.onButton_pressed hok ev config
    obtain ⟨ui', config', hevs, hok', h'⟩ := onButtons_inv hI evs hp.ok (hI _ _ _ _ h hp)
    refine ⟨ui', config', ?_, hok', h'⟩
    simp only [onButtons, hev, Option.bind_some]
    exact hevs

/-- Is `take_config_changed` called after this batch, and true? -/
def latches (ui : Ui) (config : KeyerConfig) (events : List ButtonEvent) : Bool :=
  !events.isEmpty && (onButtons ui config events).any fun r => r.1.takeConfigChanged.1

/-- Does a button of the batch adjust a setting, on the screen it comes to? -/
def adjusts (ui : Ui) (config : KeyerConfig) : List ButtonEvent → Bool
  | [] => false
  | ev :: evs => Ui.adjusts ui.screen ev || (ui.onButton ev config).any fun r => adjusts r.1 r.2.1 evs

/-- The latch of a batch; without an adjustment the config is left alone. -/
theorem onButtons_adjusts : ∀ (evs : List ButtonEvent) {ui : Ui} {config : KeyerConfig} {r : Ui × KeyerConfig},
    onButtons ui config evs = some r →
      r.1.configChanged = (ui.configChanged || adjusts ui config evs) ∧
        (adjusts ui config evs = false → r.2 = config)
  | [], ui, config, r, h => by
    obtain rfl := Option.some.inj h
    exact ⟨(Bool.or_false _).symm, fun _ => rfl⟩
  | ev :: evs, ui, config, r, h => by
    obtain ⟨r₁, hev, hrest⟩ := Option.bind_eq_some_iff.mp h
    obtain ⟨hlatch, hsame⟩ := Ui.onButton_adjusts hev
    obtain ⟨hlatch', hsame'⟩ := onButtons_adjusts evs hrest
    have hadjusts : adjusts ui config (ev :: evs) = (Ui.adjusts ui.screen ev || adjusts r₁.1 r₁.2.1 evs) := by
      simp only [adjusts, hev, Option.any_some]
    rw [hadjusts, hlatch', hlatch, Bool.or_assoc]
    refine ⟨rfl, fun hnone => ?_⟩
    obtain ⟨hfirst, hlater⟩ := Bool.or_eq_false_iff.mp hnone
    rw [if_neg (by rw [hfirst]; exact Bool.false_ne_true)] at hsame
    exact (hsame' hlater).trans hsame

/-- With the latch clear before it, a batch latches exactly if it adjusts a
setting. -/
theorem latches_eq {ui : Ui} {config : KeyerConfig} {evs : List ButtonEvent} {r : Ui × KeyerConfig}
    (hclear : ui.configChanged = false) (h : onButtons ui config evs = some r) :
    latches ui config evs = adjusts ui config evs := by
  have hlatch := (onButtons_adjusts evs h).1
  rw [hclear, Bool.false_or] at hlatch
  unfold latches
  rw [h, Option.any_some]
  show (!evs.isEmpty && r.1.configChanged) = _
  rw [hlatch]
  cases evs <;> rfl

/-- A batch posts the dirty signal exactly if it latches, and one that does
not leaves the config alone; either way the latch is clear after it. -/
theorem batch_effect {ui : Ui} (st : Statics) (hok : Ui.ScreenOk ui.screen) (hclear : ui.configChanged = false)
    (evs : List ButtonEvent) :
    ∃ ui' st', batch ui st evs = some (ui', st') ∧ Ui.ScreenOk ui'.screen ∧ ui'.configChanged = false ∧
      latches ui st.sharedConfig evs = adjusts ui st.sharedConfig evs ∧
      if latches ui st.sharedConfig evs then st'.configDirty = st.configDirty.post ()
      else st'.configDirty = st.configDirty ∧ st'.sharedConfig = st.sharedConfig := by
  obtain ⟨ui', config', hrun, hok', -⟩ : ∃ ui' config', onButtons ui st.sharedConfig evs = some (ui', config') ∧
      Ui.ScreenOk ui'.screen ∧ True :=
    onButtons_inv (I := fun _ _ => True) (fun _ _ _ _ _ _ => trivial) evs hok trivial
  have hsame := latches_eq hclear hrun
  obtain ⟨hlatch, hkept⟩ := onButtons_adjusts evs hrun
  unfold batch
  by_cases hnil : evs.isEmpty = true
  · rw [if_pos hnil]
    refine ⟨ui, st, rfl, hok, hclear, hsame, ?_⟩
    rw [if_neg (by rw [latches, hnil]; exact Bool.false_ne_true)]
    exact ⟨rfl, rfl⟩
  · rw [if_neg hnil, hrun]
    refine ⟨(signalDirty ui' { st with sharedConfig := config' }).1,
      (signalDirty ui' { st with sharedConfig := config' }).2, rfl, hok', rfl, hsame, ?_⟩
    have hchanged : ui'.configChanged = latches ui st.sharedConfig evs := by
      rw [hlatch, hclear, Bool.false_or, hsame]
    unfold signalDirty Ui.takeConfigChanged
    rw [hchanged]
    cases hl : latches ui st.sharedConfig evs with
    | true => rfl
    | false => exact ⟨rfl, hkept (hsame ▸ hl)⟩

/-- Likewise an iteration, from the indicator it notes. -/
theorem iteration_effect {t : UiTask} (st : Statics) (hok : Ui.ScreenOk t.ui.screen)
    (hclear : t.ui.configChanged = false) (inp : Input) :
    let ui := t.ui.noteKeyState st.keyIndicator
    ∃ t' st', t.iteration st inp = some (t', st') ∧ Ui.ScreenOk t'.ui.screen ∧
      t'.ui.configChanged = false ∧
      latches ui st.sharedConfig inp.events = adjusts ui st.sharedConfig inp.events ∧
      if latches ui st.sharedConfig inp.events then st'.configDirty = st.configDirty.post ()
      else st'.configDirty = st.configDirty ∧ st'.sharedConfig = st.sharedConfig := by
  intro ui
  have hkey : (t.ui.noteKeyState st.keyIndicator).screen = t.ui.screen ∧
      (t.ui.noteKeyState st.keyIndicator).configChanged = t.ui.configChanged := by
    unfold Ui.noteKeyState
    split <;> exact ⟨rfl, rfl⟩
  have hdecode : ∀ t : UiTask, (t.decode inp.decoded).ui.screen = t.ui.screen ∧
      (t.decode inp.decoded).ui.configChanged = t.ui.configChanged := by
    intro t
    unfold decode Ui.noteDecoded
    split
    · simp only
      split <;> exact ⟨rfl, rfl⟩
    · exact ⟨rfl, rfl⟩
  have hredraw : ∀ (t : UiTask) (st : Statics), (t.redraw st).ui.screen = t.ui.screen ∧
      (t.redraw st).ui.configChanged = t.ui.configChanged := by
    intro t st
    unfold redraw Ui.render
    split
    · simp only
      split <;> exact ⟨rfl, rfl⟩
    · exact ⟨rfl, rfl⟩
  obtain ⟨ui', st', hbatch, hok', hlatch', heffect⟩ :=
    batch_effect st (hkey.1 ▸ hok) (hkey.2.trans hclear) inp.events
  refine ⟨redraw (decode { t with ui := ui' } inp.decoded) st', st', ?_, ?_, ?_, heffect⟩
  · simp only [iteration, hbatch, Option.map_some]
  · rw [(hredraw _ _).1, (hdecode _).1]
    exact hok'
  · rw [(hredraw _ _).2, (hdecode _).2]
    exact hlatch'

end UiTask
end RpKeyer
