/-
# Redrawing only when dirty

The panel shows what `draw_main` and `draw_menu` would paint now, although the
UI repaints only when `dirty` is set and the notes leave it clear while a menu
screen is active. The invariant is `Shown`: when `dirty` is clear the panel is
the current image. Every mutator keeps it, and the redraw at the end of an
iteration leaves `dirty` clear, so it holds in full after every iteration
(`redraw_shows_image`), in step with the cached decoder settings.
-/
import RpKeyer.Lib.StepRun
import RpKeyer.StraightKey
import RpKeyer.UiTask

namespace RpKeyer
namespace Redraw

/-! ### The invariant -/

/-- The picture of the current state. -/
def current (ui : Ui) (config : KeyerConfig) : Image :=
  Ui.image ui.screen config ui.lastKeyIndicator ui.decoded

/-- When nothing is dirty the panel shows the current picture. -/
def Shown (ui : Ui) (config : KeyerConfig) : Prop :=
  ui.dirty = false → ui.display.panel = current ui config

/-- The menu screens show neither the key indicator nor the decoded text. -/
theorem image_menu {screen : Screen} (h : screen ≠ .main) (config : KeyerConfig) (b b' : Bool)
    (text text' : List UInt8) : Ui.image screen config b text = Ui.image screen config b' text' := by
  cases screen with
  | main => exact absurd rfl h
  | menu selected => rfl
  | edit selected => rfl

/-- A note leaves the screen and the display, and leaves `dirty` clear only if
it does nothing or the screen is a menu's. -/
structure Noted (ui ui' : Ui) : Prop where
  screen : ui'.screen = ui.screen
  display : ui'.display = ui.display
  quiet : ui'.dirty = false → ui.dirty = false ∧ (ui' = ui ∨ ui.screen ≠ .main)

theorem noted_refl (ui : Ui) : Noted ui ui := ⟨rfl, rfl, fun hd => ⟨hd, .inl rfl⟩⟩

/-- A change of `dirty` as the notes make it. -/
theorem quiet_of_dirty {ui ui' : Ui} (h : ui'.dirty = if ui.screen = .main then true else ui.dirty)
    (hd : ui'.dirty = false) : ui.dirty = false ∧ (ui' = ui ∨ ui.screen ≠ .main) := by
  rw [h] at hd
  split at hd
  · cases hd
  · rename_i hmenu
    exact ⟨hd, .inr hmenu⟩

theorem noted_noteKeyState (ui : Ui) (keyed : Bool) : Noted ui (ui.noteKeyState keyed) := by
  unfold Ui.noteKeyState
  split
  · exact ⟨rfl, rfl, quiet_of_dirty rfl⟩
  · exact noted_refl ui

theorem noted_noteDecoded (ui : Ui) (text : List UInt8) : Noted ui (ui.noteDecoded text) := by
  unfold Ui.noteDecoded
  split
  · exact noted_refl ui
  · exact ⟨rfl, rfl, quiet_of_dirty rfl⟩

theorem Shown.note {ui ui' : Ui} {config : KeyerConfig} (h : Shown ui config) (hn : Noted ui ui') :
    Shown ui' config := by
  intro hd
  obtain ⟨hclean, rfl | hmenu⟩ := hn.quiet hd
  · exact h hclean
  · have hpanel := h hclean
    unfold current at hpanel ⊢
    rw [hn.display, hn.screen, hpanel]
    exact image_menu hmenu config _ _ _ _

theorem shown_pressed {ui ui' : Ui} {config config' : KeyerConfig} (h : Shown ui config)
    (hp : Ui.Pressed ui config ui' config') : Shown ui' config' := by
  intro hd
  rcases hp.dirty with hdirty | ⟨rfl, rfl⟩
  · rw [hdirty] at hd
    cases hd
  · exact h hd

/-- The texts drawn on a cleared display are the buffer. -/
theorem buffer_foldl : ∀ (texts : Image) (d : Display),
    (texts.foldl Display.draw d).buffer = d.buffer ++ texts
  | [], d => (List.append_nil _).symm
  | t :: texts, d => by
    rw [List.foldl_cons, buffer_foldl texts]
    simp [Display.draw]

/-- A render of a dirty display shows the picture. -/
theorem panel_render {ui : Ui} (h : ui.dirty = true) (config : KeyerConfig) :
    (ui.render config).display.panel = current ui config := by
  unfold Ui.render
  simp only [h, Bool.not_true, Bool.false_eq_true, ↓reduceIte, Display.flush, buffer_foldl, Display.clear,
    List.nil_append]
  rfl

theorem shown_render {ui : Ui} {config : KeyerConfig} (h : Shown ui config) :
    (ui.render config).dirty = false ∧
      (ui.render config).display.panel = current (ui.render config) config := by
  cases hd : ui.dirty with
  | false =>
    have hsame : ui.render config = ui := by simp [Ui.render, hd]
    rw [hsame]
    exact ⟨hd, h hd⟩
  | true =>
    rw [panel_render hd]
    unfold Ui.render
    simp [hd, current]

/-! ### The task -/

/-- What the task keeps: the picture, and the decoder's cached settings. -/
structure Synced (t : UiTask) (config : KeyerConfig) : Prop where
  ok : Ui.ScreenOk t.ui.screen
  shown : Shown t.ui config
  caches : t.ui.dirty = false → t.decoderWpm = config.speedWpm ∧ t.decoderEnabled = config.decoderEnabled

theorem Synced.note {t : UiTask} {config : KeyerConfig} (h : Synced t config) {ui : Ui}
    (hn : Noted t.ui ui) : Synced { t with ui := ui } config where
  ok := hn.screen ▸ h.ok
  shown := h.shown.note hn
  caches hd := h.caches (hn.quiet hd).1

theorem synced_decode {t : UiTask} {config : KeyerConfig} (h : Synced t config)
    (decoded : UInt8 → List UInt8) : Synced (t.decode decoded) config := by
  unfold UiTask.decode
  split
  · exact h.note (noted_noteDecoded _ _)
  · exact h

/-- A batch runs to its end, and the signal it may post changes nothing here. -/
theorem synced_batch {t : UiTask} {st : Statics} (h : Synced t st.sharedConfig) (events : List ButtonEvent) :
    ∃ ui st', UiTask.batch t.ui st events = some (ui, st') ∧
      Synced { t with ui := ui } st'.sharedConfig := by
  have hpressed : ∀ ui config ui' config', Synced { t with ui := ui } config →
      Ui.Pressed ui config ui' config' → Synced { t with ui := ui' } config' := by
    intro ui config ui' config' hs hp
    refine ⟨hp.ok, shown_pressed hs.shown hp, fun hd => ?_⟩
    rcases hp.dirty with hdirty | ⟨rfl, rfl⟩
    · rw [show ui'.dirty = true from hdirty] at hd
      cases hd
    · exact hs.caches hd
  unfold UiTask.batch
  by_cases hnil : events.isEmpty = true
  · rw [if_pos hnil]
    exact ⟨t.ui, st, rfl, h⟩
  · rw [if_neg hnil]
    obtain ⟨ui, config, hrun, hok, hs⟩ := UiTask.onButtons_inv
      (I := fun ui config => Synced { t with ui := ui } config) hpressed events h.ok h
    have hconfig := UiTask.signalDirty_sharedConfig ui { st with sharedConfig := config }
    refine ⟨(UiTask.signalDirty ui { st with sharedConfig := config }).1,
      (UiTask.signalDirty ui { st with sharedConfig := config }).2, by rw [hrun]; rfl, ?_⟩
    rw [hconfig]
    exact ⟨hs.ok, hs.shown, hs.caches⟩

/-- After the redraw nothing is dirty. -/
theorem synced_redraw {t : UiTask} {st : Statics} (h : Synced t st.sharedConfig) :
    Synced (t.redraw st) st.sharedConfig ∧ (t.redraw st).ui.dirty = false := by
  unfold UiTask.redraw
  cases hd : t.ui.dirty with
  | false => exact ⟨h, hd⟩
  | true =>
    obtain ⟨hclean, hpanel⟩ := shown_render h.shown
    have hscreen : (t.ui.render st.sharedConfig).screen = t.ui.screen := by
      unfold Ui.render
      split <;> rfl
    exact ⟨⟨hscreen ▸ h.ok, fun _ => hpanel, fun _ => ⟨rfl, rfl⟩⟩, hclean⟩

/-- One iteration of the task. -/
theorem synced_iteration {t : UiTask} (st : Statics) (h : Synced t st.sharedConfig) (inp : UiTask.Input) :
    ∃ t' st', t.iteration st inp = some (t', st') ∧ Synced t' st'.sharedConfig ∧ t'.ui.dirty = false := by
  obtain ⟨ui, st', hbatch, hs⟩ := synced_batch (h.note (noted_noteKeyState _ st.keyIndicator)) inp.events
  obtain ⟨hend, hclean⟩ := synced_redraw (synced_decode hs inp.decoded)
  refine ⟨_, _, ?_, hend, hclean⟩
  simp only at hbatch
  simp only [UiTask.iteration, hbatch, Option.map_some]

/-! ### The theorem -/

/-- One iteration with the indicator the keyer shows and what the task finds. -/
def uiStep (s : UiTask × Statics) (e : Bool × UiTask.Input) : Option (UiTask × Statics) :=
  s.1.iteration { s.2 with keyIndicator := e.1 } e.2

def boot (display : Display) (config : KeyerConfig) : UiTask × Statics :=
  (.start display (.boot config), .boot config)

/-- Repaint whatever `dirty` says. -/
def repaint (ui : Ui) (config : KeyerConfig) : Ui := { ui with dirty := true }.render config

theorem synced_boot (display : Display) (config : KeyerConfig) :
    Synced (boot display config).1 (boot display config).2.sharedConfig where
  ok := trivial
  shown hd := by cases hd
  caches _ := ⟨rfl, rfl⟩

/-- **The panel is current.** Every run of the task goes on, and at the end of
every iteration the panel shows the picture of the current state and config,
as a repaint would, and the decoder's cached settings are the config's. The
mutators keep `Shown`, the notes leaving `dirty` alone on a menu screen. -/
theorem redraw_shows_image (display : Display) (config : KeyerConfig) (es : List (Bool × UiTask.Input))
    (e : Bool × UiTask.Input) :
    (∃ t st, StepRun.run uiStep (boot display config) (es ++ [e]) = some (t, st) ∧
      t.ui.display.panel = current t.ui st.sharedConfig ∧
      t.ui.display.panel = (repaint t.ui st.sharedConfig).display.panel ∧
      t.decoderWpm = st.sharedConfig.speedWpm ∧ t.decoderEnabled = st.sharedConfig.decoderEnabled) ∧
    (∀ ui config, Shown ui config →
      (∀ ev r, Ui.ScreenOk ui.screen → ui.onButton ev config = some r → Shown r.1 r.2.1) ∧
      (∀ text, Shown (ui.noteDecoded text) config) ∧
      (∀ keyed, Shown (ui.noteKeyState keyed) config) ∧
      Shown (ui.render config) config) ∧
    (∀ ui : Ui, ui.screen ≠ .main →
      (∀ text, (ui.noteDecoded text).dirty = ui.dirty) ∧
        ∀ keyed, (ui.noteKeyState keyed).dirty = ui.dirty) := by
  refine ⟨?_, fun ui config h => ⟨fun ev r hok hr => ?_, fun text => h.note (noted_noteDecoded ui text),
    fun keyed => h.note (noted_noteKeyState ui keyed), fun _ => (shown_render h).2⟩,
    fun ui hs => ⟨fun text => ?_, fun keyed => ?_⟩⟩
  · have hstep : ∀ (s : UiTask × Statics) (e : Bool × UiTask.Input), Synced s.1 s.2.sharedConfig →
        ∃ s', uiStep s e = some s' ∧ Synced s'.1 s'.2.sharedConfig := by
      intro s e h
      obtain ⟨t', st', hrun, hs, -⟩ := synced_iteration { s.2 with keyIndicator := e.1 } h e.2
      exact ⟨(t', st'), hrun, hs⟩
    obtain ⟨s, hs, hI⟩ := StepRun.run_total uiStep hstep es _ (synced_boot display config)
    obtain ⟨t', st', hlast, hsync, hclean⟩ :=
      synced_iteration { s.2 with keyIndicator := e.1 } hI e.2
    have hpanel := hsync.shown hclean
    refine ⟨t', st', ?_, hpanel, ?_, hsync.caches hclean⟩
    · refine (StepRun.run_append_some uiStep).mpr ⟨s, hs, ?_⟩
      exact (StepRun.run_cons_some uiStep).mpr ⟨(t', st'), hlast, rfl⟩
    · rw [hpanel, repaint, panel_render rfl]
      rfl
  · obtain ⟨ui', config', hev, hp⟩ := Ui.onButton_pressed hok ev config
    obtain rfl := Option.some.inj (hev.symm.trans hr)
    exact shown_pressed h hp
  · unfold Ui.noteDecoded
    split <;> rfl
  · unfold Ui.noteKeyState
    split <;> rfl

end Redraw
end RpKeyer
