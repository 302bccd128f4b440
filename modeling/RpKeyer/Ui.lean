/-
# The user interface

`ui.rs`: the screens, `on_button`, the two notes, and `render`. The display is
the texts drawn since the last clear (`buffer`) and what the last flush sent
to the panel (`panel`); a flush succeeds. All texts share one font and style,
so a text is its characters and its top left corner.

A `heapless::String<N>` takes a piece whole or not at all, and `write!` stops
at the first piece that does not fit (`pushStr`, `write`).
-/
import RpKeyer.Menu

namespace RpKeyer

/-! ### The display -/

structure Text where
  content : String
  x : ℤ
  y : ℤ
  deriving DecidableEq, Repr

abbrev Image := List Text

structure Display where
  buffer : Image
  panel : Image
  deriving DecidableEq, Repr

namespace Display

def clear (d : Display) : Display := { d with buffer := [] }

def draw (d : Display) (t : Text) : Display := { d with buffer := d.buffer ++ [t] }

def flush (d : Display) : Display := { d with panel := d.buffer }

end Display

/-- `String::<cap>::push_str`. -/
def pushStr (cap : ℕ) (s piece : String) : Option String :=
  if s.utf8ByteSize + piece.utf8ByteSize ≤ cap then some (s ++ piece) else none

/-- `write!` of its pieces, its error discarded. -/
def write (cap : ℕ) : String → List String → String
  | s, [] => s
  | s, piece :: pieces =>
    match pushStr cap s piece with
    | some s' => write cap s' pieces
    | none => s

/-- The pieces of `{:<9}`: the text, then the fill, character by character. -/
def padLeft9 (s : String) : List String := s :: List.replicate (9 - s.length) " "

/-! ### The screens -/

inductive Screen
  | main
  | menu (selected : UInt8)
  | edit (selected : UInt8)
  deriving DecidableEq, Repr

structure Ui where
  display : Display
  screen : Screen
  dirty : Bool
  configChanged : Bool
  lastKeyIndicator : Bool
  decoded : List UInt8
  deriving DecidableEq, Repr

def modeLabel : KeyerMode → String
  | .straight => "Straight"
  | .iambicA => "IambicA"
  | .iambicB => "IambicB"
  | .bug => "Bug"
  | .ultimatic => "Ultimatic"
  | .singlePaddle => "Single"

/-- `value_string::<cap>`. The volume's percent is that of the exact product;
`ui.rs` multiplies in single precision, which comes to the same at the menu's
steps of 5 percent and can show one percent less elsewhere. -/
def valueString (cap : ℕ) (cfg : KeyerConfig) (item : MenuItem) : String :=
  match item with
  | .mode => (pushStr cap "" (modeLabel cfg.mode)).getD ""
  | .wpm => write cap "" [toString cfg.speedWpm.toNat]
  | .weight => write cap "" [toString cfg.weight.toNat]
  | .sidetoneFreq => write cap "" [toString cfg.sidetoneFreq.toNat]
  | .sidetoneVolume => write cap "" [toString (cfg.sidetoneVolume.scale 100).toU32]
  | .hangTimeMs => write cap "" [toString cfg.hangTimeMs.toNat]
  | .keysReversed => (pushStr cap "" (if cfg.keysReversed then "Y" else "N")).getD ""
  | .iambicBPercent => write cap "" [toString cfg.iambicBTimingPercent.toNat]
  | .farnsworthWpm => write cap "" [toString cfg.farnsworthWpm.toNat]
  | .keyingCompMs => write cap "" [toString cfg.keyingCompensationMs.toNat]
  | .usbEmit =>
    (pushStr cap "" (match cfg.usbEmitStyle with | .paddle => "Paddle" | .keyed => "Keyed")).getD ""
  | .decoder => (pushStr cap "" (if cfg.decoderEnabled then "On" else "Off")).getD ""

namespace Ui

/-- Construct on a display that shows anything: a blank first frame. -/
def new (display : Display) : Ui where
  display := display.clear.flush
  screen := .main
  dirty := true
  configChanged := false
  lastKeyIndicator := false
  decoded := []

def decodedCapacity : ℕ := 32

/-- New decoded text; only the main screen shows it. -/
def noteDecoded (ui : Ui) (text : List UInt8) : Ui :=
  if ui.decoded = text then ui
  else
    { ui with
      decoded := text.take (min text.length decodedCapacity)
      dirty := if ui.screen = .main then true else ui.dirty }

/-- A button. The result is `dirty`; `none` is an index out of bounds. -/
def onButton (ui : Ui) (ev : ButtonEvent) (config : KeyerConfig) : Option (Ui × KeyerConfig × Bool) :=
  let done := fun (ui : Ui) (config : KeyerConfig) => some (ui, config, ui.dirty)
  let edited := fun (ui : Ui) (config : KeyerConfig) =>
    done { ui with dirty := true, configChanged := true } config
  let goto := fun (screen : Screen) => done { ui with screen := screen, dirty := true } config
  let n : UInt8 := MenuItem.all.length.toUInt8
  match ui.screen, ev with
  | .main, .ok => goto (.menu 0)
  | .main, .up => edited ui (Menu.adjust config .wpm true)
  | .main, .down => edited ui (Menu.adjust config .wpm false)
  | .main, .back => done ui config
  | .menu selected, .up => goto (.menu ((selected + n - 1) % n))
  | .menu selected, .down => goto (.menu ((selected + 1) % n))
  | .menu selected, .ok =>
    MenuItem.all[selected.toNat]?.bind fun item =>
      if item.cyclesOnOk then edited ui (Menu.adjust config item true)
      else goto (.edit selected)
  | .menu _, .back => goto .main
  | .edit selected, .up =>
    MenuItem.all[selected.toNat]?.bind fun item => edited ui (Menu.adjust config item true)
  | .edit selected, .down =>
    MenuItem.all[selected.toNat]?.bind fun item => edited ui (Menu.adjust config item false)
  | .edit selected, .ok => goto (.menu selected)
  | .edit selected, .back => goto (.menu selected)

def takeConfigChanged (ui : Ui) : Bool × Ui := (ui.configChanged, { ui with configChanged := false })

/-- The key indicator; only the main screen shows it. -/
def noteKeyState (ui : Ui) (keyed : Bool) : Ui :=
  if keyed ≠ ui.lastKeyIndicator then
    { ui with
      lastKeyIndicator := keyed
      dirty := if ui.screen = .main then true else ui.dirty }
  else ui

/-! ### Drawing -/

def maxVisible : ℕ := 21

/-- The decoded bytes as characters, each pushed if it fits. -/
def decodedText (bytes : List UInt8) : String :=
  bytes.foldl (fun s b => (pushStr maxVisible s (String.singleton (Char.ofNat b.toNat))).getD s) ""

/-- The texts of `draw_main`. -/
def mainTexts (cfg : KeyerConfig) (keyIndicator : Bool) (decoded : List UInt8) : Image :=
  [⟨if keyIndicator then "CW Keyer    *" else "CW Keyer", 0, 0⟩,
    ⟨write 24 "" ["Mode: ", modeLabel cfg.mode], 0, 16⟩,
    ⟨write 24 "" ["WPM:  ", toString cfg.speedWpm.toNat], 0, 30⟩] ++
  (if cfg.decoderEnabled && !decoded.isEmpty then
    [⟨decodedText (decoded.drop (decoded.length - maxVisible)), 0, 44⟩]
  else [])

def viewport : ℕ := 5

/-- One row of the menu. -/
def rowText (cfg : KeyerConfig) (sel : ℕ) (editing : Bool) (idx : ℕ) (item : MenuItem) : String :=
  let marker := if idx = sel then (if editing then "*" else ">") else " "
  write 32 "" (marker :: padLeft9 item.label ++ [valueString 16 cfg item])

/-- The texts of `draw_menu`: the items around the cursor. -/
def menuTexts (cfg : KeyerConfig) (selected : UInt8) (editing : Bool) : Image :=
  let total := MenuItem.all.length
  let sel := selected.toNat
  let start := min (sel - viewport / 2) (total - viewport)
  let stop := min (start + viewport) total
  ((MenuItem.all.take stop).drop start).mapIdx fun row item =>
    ⟨rowText cfg sel editing (start + row) item, 0, (row : ℤ) * 12⟩

/-- What the screen shows. -/
def image (screen : Screen) (cfg : KeyerConfig) (keyIndicator : Bool) (decoded : List UInt8) : Image :=
  match screen with
  | .main => mainTexts cfg keyIndicator decoded
  | .menu selected => menuTexts cfg selected false
  | .edit selected => menuTexts cfg selected true

/-- Redraw if something changed: clear, draw, flush. -/
def render (ui : Ui) (config : KeyerConfig) : Ui :=
  if !ui.dirty then ui
  else
    { ui with
      dirty := false
      display := ((image ui.screen config ui.lastKeyIndicator ui.decoded).foldl Display.draw
        ui.display.clear).flush }

/-! ### What a button does -/

/-- Does this button adjust a setting, on this screen? -/
def adjusts (screen : Screen) (ev : ButtonEvent) : Bool :=
  match screen, ev with
  | .main, .up | .main, .down | .edit _, .up | .edit _, .down => true
  | .menu selected, .ok => MenuItem.all[selected.toNat]?.any MenuItem.cyclesOnOk
  | _, _ => false

/-- `config_changed` is latched exactly by the buttons that adjust a setting;
those take one step of an item, and the others leave the config alone. -/
theorem onButton_adjusts {ui : Ui} {ev : ButtonEvent} {config : KeyerConfig} {r : Ui × KeyerConfig × Bool}
    (h : ui.onButton ev config = some r) :
    r.1.configChanged = (ui.configChanged || adjusts ui.screen ev) ∧
      if adjusts ui.screen ev then ∃ item up, r.2.1 = Menu.adjust config item up else r.2.1 = config := by
  unfold onButton at h
  cases hscreen : ui.screen with
  | main =>
    cases ev <;> simp only [hscreen, Option.some.injEq] at h <;> subst h
    · exact ⟨(Bool.or_true _).symm, .wpm, true, rfl⟩
    · exact ⟨(Bool.or_true _).symm, .wpm, false, rfl⟩
    · exact ⟨(Bool.or_false _).symm, rfl⟩
    · exact ⟨(Bool.or_false _).symm, rfl⟩
  | menu selected =>
    cases ev with
    | up | down | back =>
      simp only [hscreen, Option.some.injEq] at h
      subst h
      exact ⟨(Bool.or_false _).symm, rfl⟩
    | ok =>
      simp only [hscreen] at h
      obtain ⟨item, hitem, hok⟩ := Option.bind_eq_some_iff.mp h
      have hadjusts : adjusts (.menu selected) .ok = item.cyclesOnOk := by
        simp only [adjusts, hitem, Option.any_some]
      rw [hadjusts]
      split at hok
      · rename_i hcycles
        obtain rfl := Option.some.inj hok
        rw [hcycles, if_pos rfl]
        exact ⟨(Bool.or_true _).symm, item, true, rfl⟩
      · rename_i hcycles
        obtain rfl := Option.some.inj hok
        rw [Bool.eq_false_iff.mpr hcycles, if_neg Bool.false_ne_true]
        exact ⟨(Bool.or_false _).symm, rfl⟩
  | edit selected =>
    cases ev with
    | up =>
      simp only [hscreen] at h
      obtain ⟨item, -, hup⟩ := Option.bind_eq_some_iff.mp h
      obtain rfl := Option.some.inj hup
      exact ⟨(Bool.or_true _).symm, item, true, rfl⟩
    | down =>
      simp only [hscreen] at h
      obtain ⟨item, -, hdown⟩ := Option.bind_eq_some_iff.mp h
      obtain rfl := Option.some.inj hdown
      exact ⟨(Bool.or_true _).symm, item, false, rfl⟩
    | ok | back =>
      simp only [hscreen, Option.some.injEq] at h
      subst h
      exact ⟨(Bool.or_false _).symm, rfl⟩

/-- What every adjustment keeps of the config, a button keeps. -/
theorem onButton_config {P : KeyerConfig → Prop} (hP : ∀ c item up, P c → P (Menu.adjust c item up)) {ui : Ui}
    {ev : ButtonEvent} {config : KeyerConfig} {r : Ui × KeyerConfig × Bool} (hc : P config)
    (h : ui.onButton ev config = some r) : P r.2.1 := by
  have heffect := (onButton_adjusts h).2
  split at heffect
  · obtain ⟨item, up, hturn⟩ := heffect
    exact hturn ▸ hP config item up hc
  · exact heffect ▸ hc

/-- The cursor is on an item. -/
def ScreenOk : Screen → Prop
  | .main => True
  | .menu selected | .edit selected => selected.toNat < MenuItem.all.length

/-- What a button may do: everything but an ignored one sets `dirty`, an edit
sets `configChanged`, and nothing is drawn. -/
structure Pressed (ui : Ui) (config : KeyerConfig) (ui' : Ui) (config' : KeyerConfig) : Prop where
  ok : ScreenOk ui'.screen
  display : ui'.display = ui.display
  indicator : ui'.lastKeyIndicator = ui.lastKeyIndicator
  decoded : ui'.decoded = ui.decoded
  dirty : ui'.dirty = true ∨ ui' = ui ∧ config' = config
  flagged : config' ≠ config → ui'.configChanged = true
  latched : ui.configChanged = true → ui'.configChanged = true

theorem pressed_goto (ui : Ui) (config : KeyerConfig) (screen : Screen) (h : ScreenOk screen) :
    Pressed ui config { ui with screen := screen, dirty := true } config :=
  ⟨h, rfl, rfl, rfl, .inl rfl, fun hne => absurd rfl hne, fun hc => hc⟩

theorem pressed_edited {ui : Ui} (config config' : KeyerConfig) (h : ScreenOk ui.screen) :
    Pressed ui config { ui with dirty := true, configChanged := true } config' :=
  ⟨h, rfl, rfl, rfl, .inl rfl, fun _ => rfl, fun _ => rfl⟩

/-- A button on a screen whose cursor is on an item. -/
theorem onButton_pressed {ui : Ui} (hok : ScreenOk ui.screen) (ev : ButtonEvent) (config : KeyerConfig) :
    ∃ ui' config', ui.onButton ev config = some (ui', config', ui'.dirty) ∧ Pressed ui config ui' config' := by
  have hmod : ∀ x : UInt8, (x % MenuItem.all.length.toUInt8).toNat < MenuItem.all.length := by
    intro x
    rw [UInt8.toNat_mod]
    exact Nat.mod_lt _ (by decide)
  have hzero : ScreenOk (.menu 0) := by
    show 0 < 12
    omega
  cases hs : ui.screen with
  | main =>
    cases ev with
    | ok => exact ⟨_, _, by simp [onButton, hs], pressed_goto ui config (.menu 0) hzero⟩
    | up => exact ⟨_, _, by simp [onButton, hs], pressed_edited config (Menu.adjust config .wpm true) hok⟩
    | down => exact ⟨_, _, by simp [onButton, hs], pressed_edited config (Menu.adjust config .wpm false) hok⟩
    | back =>
      refine ⟨ui, config, by simp [onButton, hs], hok, rfl, rfl, rfl, .inr ⟨rfl, rfl⟩, ?_, fun hc => hc⟩
      exact fun hne => absurd rfl hne
  | menu selected =>
    have hsel : selected.toNat < MenuItem.all.length := by rwa [hs] at hok
    have hitem := List.getElem?_eq_getElem hsel
    cases ev with
    | up =>
      exact ⟨_, _, by simp [onButton, hs], pressed_goto ui config
        (.menu ((selected + MenuItem.all.length.toUInt8 - 1) % MenuItem.all.length.toUInt8)) (hmod _)⟩
    | down =>
      exact ⟨_, _, by simp [onButton, hs], pressed_goto ui config
        (.menu ((selected + 1) % MenuItem.all.length.toUInt8)) (hmod _)⟩
    | ok =>
      cases hcyc : MenuItem.all[selected.toNat].cyclesOnOk with
      | true =>
        exact ⟨_, _, by simp [onButton, hs, hitem, hcyc],
          pressed_edited config (Menu.adjust config MenuItem.all[selected.toNat] true) hok⟩
      | false =>
        exact ⟨_, _, by simp [onButton, hs, hitem, hcyc], pressed_goto ui config (.edit selected) hsel⟩
    | back => exact ⟨_, _, by simp [onButton, hs], pressed_goto ui config .main trivial⟩
  | edit selected =>
    have hsel : selected.toNat < MenuItem.all.length := by rwa [hs] at hok
    have hitem := List.getElem?_eq_getElem hsel
    cases ev with
    | up =>
      exact ⟨_, _, by simp [onButton, hs, hitem],
        pressed_edited config (Menu.adjust config MenuItem.all[selected.toNat] true) hok⟩
    | down =>
      exact ⟨_, _, by simp [onButton, hs, hitem],
        pressed_edited config (Menu.adjust config MenuItem.all[selected.toNat] false) hok⟩
    | ok => exact ⟨_, _, by simp [onButton, hs], pressed_goto ui config (.menu selected) hsel⟩
    | back => exact ⟨_, _, by simp [onButton, hs], pressed_goto ui config (.menu selected) hsel⟩

end Ui
end RpKeyer
