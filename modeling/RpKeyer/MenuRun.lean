/-
# The menu over event sequences

`on_button` fed a sequence of events from `Ui::new` (`uiStep`), with the menu
Downs and Ups of the current visit counted on the side. No event finds an
index out of bounds, so every sequence runs to its end (`menu_invariant`): the
cursor is the count of the visit modulo the number of items, only items that
do not cycle are edited, and the config stays in range.
-/
import RpKeyer.Lib.StepRun
import RpKeyer.StraightKey
import RpKeyer.Ui

namespace RpKeyer
namespace MenuRun

open Menu

/-! ### A run of events -/

/-- The menu Downs and Ups since the menu was last opened. -/
structure Visit where
  downs : ℕ
  ups : ℕ

/-- Count an event by the screen that receives it. -/
def Visit.note (v : Visit) : Screen → ButtonEvent → Visit
  | .main, _ => ⟨0, 0⟩
  | .menu _, .down => { v with downs := v.downs + 1 }
  | .menu _, .up => { v with ups := v.ups + 1 }
  | _, _ => v

structure State where
  ui : Ui
  config : KeyerConfig
  visit : Visit

def uiStep (s : State) (ev : ButtonEvent) : Option State :=
  (s.ui.onButton ev s.config).map fun r => ⟨r.1, r.2.1, s.visit.note s.ui.screen ev⟩

def start (display : Display) (config : KeyerConfig) : State := ⟨.new display, config, ⟨0, 0⟩⟩

/-- The cursor of a menu or edit screen. -/
def cursor : Screen → Option UInt8
  | .main => none
  | .menu selected | .edit selected => some selected

/-- The item whose field a button may change. -/
def itemAt (screen : Screen) : MenuItem :=
  match cursor screen with
  | none => .wpm
  | some selected => MenuItem.all.getD selected.toNat .wpm

/-! ### The invariant -/

/-- The cursor is in bounds and where the visit's Downs and Ups put it. -/
def CursorOk (v : Visit) (selected : UInt8) : Prop :=
  selected.toNat < MenuItem.all.length ∧
    (selected.toNat : ℤ) = ((v.downs : ℤ) - v.ups) % MenuItem.all.length

structure Inv (s : State) : Prop where
  cursor : ∀ selected, cursor s.ui.screen = some selected → CursorOk s.visit selected
  edit : ∀ selected, s.ui.screen = .edit selected →
    ∃ item, MenuItem.all[selected.toNat]? = some item ∧ item.cyclesOnOk = false
  range : InRange s.config

/-- What one event may do to the config, and what it must flag. -/
structure EventOk (s : State) (ev : ButtonEvent) (s' : State) : Prop where
  oneField : s'.config = setFrom (itemAt s.ui.screen) s.config s'.config
  up : ev = .up → NumLe s.config s'.config
  down : ev = .down → NumLe s'.config s.config
  back : ev = .back → s'.config = s.config
  flags : s'.config ≠ s.config →
    s'.ui.configChanged = true ∧ s'.ui.dirty = true ∧ (s'.ui.takeConfigChanged).1 = true

theorem length_all : MenuItem.all.length = 12 := rfl

/-- Down moves the cursor by one, around the end, without overflow. -/
theorem cursorOk_down {v : Visit} {selected : UInt8} (h : CursorOk v selected) :
    CursorOk { v with downs := v.downs + 1 } ((selected + 1) % MenuItem.all.length.toUInt8) := by
  obtain ⟨hlt, heq⟩ := h
  rw [length_all] at hlt heq
  have hval : ((selected + 1) % MenuItem.all.length.toUInt8).toNat = (selected.toNat + 1) % 12 := by
    rw [UInt8.toNat_mod, UInt8.toNat_add]
    show (selected.toNat + 1) % 2 ^ 8 % 12 = _
    omega
  unfold CursorOk
  rw [hval, length_all]
  push_cast
  omega

theorem cursorOk_up {v : Visit} {selected : UInt8} (h : CursorOk v selected) :
    CursorOk { v with ups := v.ups + 1 }
      ((selected + MenuItem.all.length.toUInt8 - 1) % MenuItem.all.length.toUInt8) := by
  obtain ⟨hlt, heq⟩ := h
  rw [length_all] at hlt heq
  have hval : ((selected + MenuItem.all.length.toUInt8 - 1) % MenuItem.all.length.toUInt8).toNat =
      (selected.toNat + 11) % 12 := by
    have hadd : (selected + 12).toNat = selected.toNat + 12 := by
      rw [UInt8.toNat_add]
      show (selected.toNat + 12) % 2 ^ 8 = _
      omega
    have hsub : (selected + 12 - 1).toNat = selected.toNat + 11 := by
      rw [UInt8.toNat_sub_of_le _ _ (by rw [UInt8.le_iff_toNat_le, hadd]; show 1 ≤ _; omega), hadd]
      rfl
    rw [UInt8.toNat_mod]
    show (selected + 12 - 1).toNat % 12 = _
    rw [hsub]
  unfold CursorOk
  rw [hval, length_all]
  push_cast
  omega

theorem cursorOk_open : CursorOk ⟨0, 0⟩ 0 := by
  unfold CursorOk
  decide

/-- A cursor in bounds has an item, the one under it. -/
theorem item_of_cursorOk {v : Visit} {selected : UInt8} (h : CursorOk v selected) :
    ∃ item, MenuItem.all[selected.toNat]? = some item ∧ itemAt (.menu selected) = item ∧
      itemAt (.edit selected) = item := by
  have hlt := h.1
  have hitem := List.getElem?_eq_getElem hlt
  refine ⟨MenuItem.all[selected.toNat], hitem, ?_, ?_⟩
  · simp only [itemAt, cursor, List.getD_eq_getElem?_getD, hitem, Option.getD_some]
  · simp only [itemAt, cursor, List.getD_eq_getElem?_getD, hitem, Option.getD_some]

/-! ### One event -/

/-- An event that leaves the config alone. -/
theorem eventOk_same {s s' : State} {ev : ButtonEvent} (hr : InRange s.config)
    (hsame : s'.config = s.config) : EventOk s ev s' where
  oneField := by
    rw [hsame]
    cases itemAt s.ui.screen <;> rfl
  up _ := by
    rw [hsame]
    exact numLe_refl hr
  down _ := by
    rw [hsame]
    exact numLe_refl hr
  back _ := hsame
  flags hne := absurd hsame hne

/-- An event that adjusts the field under the cursor. -/
theorem eventOk_adjust {s s' : State} (hr : InRange s.config) {ev : ButtonEvent} {up : Bool}
    (hup : ev = .up → up = true) (hdown : ev = .down → up = false) (hback : ev ≠ .back)
    (hcfg : s'.config = adjust s.config (itemAt s.ui.screen) up)
    (hui : s'.ui.dirty = true ∧ s'.ui.configChanged = true) : EventOk s ev s' where
  oneField := by
    rw [hcfg]
    exact adjust_setFrom s.config (itemAt s.ui.screen) up
  up hev := by
    rw [hcfg, hup hev]
    exact (adjust_mono hr _).1
  down hev := by
    rw [hcfg, hdown hev]
    exact (adjust_mono hr _).2
  back hev := absurd hev hback
  flags _ := ⟨hui.2, hui.1, hui.2⟩

/-- An event that goes to another screen. -/
theorem event_goto {s : State} (hI : Inv s) {ev : ButtonEvent} (screen : Screen) (v : Visit)
    (h : uiStep s ev = some ⟨{ s.ui with screen := screen, dirty := true }, s.config, v⟩)
    (hcursor : ∀ selected, cursor screen = some selected → CursorOk v selected)
    (hedit : ∀ selected, screen = .edit selected →
      ∃ item, MenuItem.all[selected.toNat]? = some item ∧ item.cyclesOnOk = false) :
    ∃ s', uiStep s ev = some s' ∧ Inv s' ∧ EventOk s ev s' :=
  ⟨_, h, ⟨hcursor, hedit, hI.range⟩, eventOk_same hI.range rfl⟩

/-- An event that adjusts the field under the cursor, on the same screen. -/
theorem event_adjust {s : State} (hI : Inv s) {ev : ButtonEvent} (up : Bool) (v : Visit)
    (h : uiStep s ev = some ⟨{ s.ui with dirty := true, configChanged := true },
      adjust s.config (itemAt s.ui.screen) up, v⟩)
    (hcursor : ∀ selected, cursor s.ui.screen = some selected → CursorOk v selected)
    (hup : ev = .up → up = true) (hdown : ev = .down → up = false) (hback : ev ≠ .back) :
    ∃ s', uiStep s ev = some s' ∧ Inv s' ∧ EventOk s ev s' :=
  ⟨_, h, ⟨hcursor, hI.edit, adjust_inRange hI.range _ _⟩,
    eventOk_adjust hI.range hup hdown hback rfl ⟨rfl, rfl⟩⟩

/-- Any event on any screen: no index is out of bounds. -/
theorem event_ok {s : State} (hI : Inv s) (ev : ButtonEvent) :
    ∃ s', uiStep s ev = some s' ∧ Inv s' ∧ EventOk s ev s' := by
  cases hs : s.ui.screen with
  | main =>
    have hat : itemAt .main = .wpm := rfl
    have hcur : ∀ selected, cursor s.ui.screen = some selected → CursorOk ⟨0, 0⟩ selected := by
      intro selected h
      rw [hs] at h
      cases h
    cases ev with
    | ok =>
      refine event_goto hI (.menu 0) ⟨0, 0⟩ ?_ ?_ (by simp)
      · simp [uiStep, Ui.onButton, hs, Visit.note]
      · intro selected h
        obtain rfl : 0 = selected := Option.some.inj h
        exact cursorOk_open
    | up =>
      refine event_adjust hI true ⟨0, 0⟩ ?_ hcur (by simp) (by simp) (by simp)
      simp [uiStep, Ui.onButton, hs, hat, Visit.note]
    | down =>
      refine event_adjust hI false ⟨0, 0⟩ ?_ hcur (by simp) (by simp) (by simp)
      simp [uiStep, Ui.onButton, hs, hat, Visit.note]
    | back =>
      refine ⟨⟨s.ui, s.config, ⟨0, 0⟩⟩, ?_, ⟨hcur, hI.edit, hI.range⟩, eventOk_same hI.range rfl⟩
      simp [uiStep, Ui.onButton, hs, Visit.note]
  | menu selected =>
    have hcur : CursorOk s.visit selected := hI.cursor selected (by rw [hs]; rfl)
    obtain ⟨item, hitem, hmenu, hedit⟩ := item_of_cursorOk hcur
    cases ev with
    | up =>
      refine event_goto hI
        (.menu ((selected + MenuItem.all.length.toUInt8 - 1) % MenuItem.all.length.toUInt8))
        { s.visit with ups := s.visit.ups + 1 } ?_ ?_ (by simp)
      · simp [uiStep, Ui.onButton, hs, Visit.note]
      · intro selected' h
        obtain rfl := Option.some.inj h
        exact cursorOk_up hcur
    | down =>
      refine event_goto hI (.menu ((selected + 1) % MenuItem.all.length.toUInt8))
        { s.visit with downs := s.visit.downs + 1 } ?_ ?_ (by simp)
      · simp [uiStep, Ui.onButton, hs, Visit.note]
      · intro selected' h
        obtain rfl := Option.some.inj h
        exact cursorOk_down hcur
    | ok =>
      cases hcyc : item.cyclesOnOk with
      | true =>
        refine event_adjust hI true s.visit ?_ hI.cursor (by simp) (by simp) (by simp)
        simp [uiStep, Ui.onButton, hs, hitem, hmenu, hcyc, Visit.note]
      | false =>
        refine event_goto hI (.edit selected) s.visit ?_ ?_ ?_
        · simp [uiStep, Ui.onButton, hs, hitem, hcyc, Visit.note]
        · intro selected' h
          obtain rfl := Option.some.inj h
          exact hcur
        · intro selected' h
          obtain rfl : selected = selected' := by injection h
          exact ⟨_, hitem, hcyc⟩
    | back =>
      refine event_goto hI .main s.visit ?_ (by simp [cursor]) (by simp)
      simp [uiStep, Ui.onButton, hs, Visit.note]
  | edit selected =>
    have hcur : CursorOk s.visit selected := hI.cursor selected (by rw [hs]; rfl)
    obtain ⟨item, hitem, hmenu, hedit⟩ := item_of_cursorOk hcur
    have hback : ∀ selected', cursor (.menu selected) = some selected' → CursorOk s.visit selected' := by
      intro selected' h
      obtain rfl := Option.some.inj h
      exact hcur
    cases ev with
    | up =>
      refine event_adjust hI true s.visit ?_ hI.cursor (by simp) (by simp) (by simp)
      simp [uiStep, Ui.onButton, hs, hitem, hedit, Visit.note]
    | down =>
      refine event_adjust hI false s.visit ?_ hI.cursor (by simp) (by simp) (by simp)
      simp [uiStep, Ui.onButton, hs, hitem, hedit, Visit.note]
    | ok =>
      refine event_goto hI (.menu selected) s.visit ?_ hback (by simp)
      simp [uiStep, Ui.onButton, hs, Visit.note]
    | back =>
      refine event_goto hI (.menu selected) s.visit ?_ hback (by simp)
      simp [uiStep, Ui.onButton, hs, Visit.note]

/-! ### The theorem -/

theorem inv_start (display : Display) {config : KeyerConfig} (h : InRange config) :
    Inv (start display config) where
  cursor _ h := by cases h
  edit _ h := by cases h
  range := h

/-- **The menu.** From a config in range every sequence of events runs to its
end, in a state whose cursor is in bounds and the visit's Downs less its Ups,
whose edited item does not cycle, and whose config is in range; and one more
event changes at most the field under the cursor, the way its button says,
flagging the change. -/
theorem menu_invariant (display : Display) (config : KeyerConfig) (h : InRange config)
    (evs : List ButtonEvent) :
    ∃ s, StepRun.run uiStep (start display config) evs = some s ∧
      (∀ selected, cursor s.ui.screen = some selected →
        selected.toNat < MenuItem.all.length ∧ selected.toNat + MenuItem.all.length < 2 ^ 8 ∧
        (selected.toNat : ℤ) = ((s.visit.downs : ℤ) - s.visit.ups) % MenuItem.all.length) ∧
      (∀ selected, s.ui.screen = .edit selected →
        ∃ item, MenuItem.all[selected.toNat]? = some item ∧ item.cyclesOnOk = false) ∧
      InRange s.config ∧
      ∀ ev, ∃ s', uiStep s ev = some s' ∧ EventOk s ev s' := by
  have hstep : ∀ s ev, Inv s → ∃ s', uiStep s ev = some s' ∧ Inv s' := by
    intro s ev hI
    obtain ⟨s', hs, hI', -⟩ := event_ok hI ev
    exact ⟨s', hs, hI'⟩
  obtain ⟨s, hrun, hI⟩ := StepRun.run_total uiStep hstep evs _ (inv_start display h)
  refine ⟨s, hrun, fun selected hsel => ?_, hI.edit, hI.range, fun ev => ?_⟩
  · obtain ⟨hlt, hcount⟩ := hI.cursor selected hsel
    have hlen := length_all
    exact ⟨hlt, by omega, hcount⟩
  · obtain ⟨s', hs, -, hok⟩ := event_ok hI ev
    exact ⟨s', hs, hok⟩

theorem straightKey_inRange : InRange StraightKey.config where
  speedWpm := by decide
  weight := by decide
  sidetoneFreq := by decide
  sidetoneVolume := by
    show (0 : ℚ) ≤ 1 / 2 ∧ (1 / 2 : ℚ) ≤ 1
    norm_num
  hangTimeMs := by decide
  iambicBTimingPercent := by decide
  farnsworthWpm := by decide
  keyingCompensationMs := by decide

/-- Up from the top of the menu to the last item, which OK toggles, and down
around the end to the speed, which is edited. -/
theorem menu_invariant_last_item :
    let evs : List ButtonEvent := [.ok, .up, .ok, .down, .down, .ok, .up]
    ∃ s, StepRun.run uiStep (start ⟨[], []⟩ StraightKey.config) evs = some s ∧ s.ui.screen = .edit 1 ∧
      s.config = { StraightKey.config with decoderEnabled := false, speedWpm := 19 } ∧
      (1 : ℤ) = ((s.visit.downs : ℤ) - s.visit.ups) % MenuItem.all.length ∧ InRange s.config := by
  intro evs
  obtain ⟨s, hs, hcursor, -, hrange, -⟩ := menu_invariant ⟨[], []⟩ StraightKey.config straightKey_inRange evs
  have hseen : (StepRun.run uiStep (start ⟨[], []⟩ StraightKey.config) evs).map (fun s => (s.ui.screen, s.config)) =
      some (.edit 1, { StraightKey.config with decoderEnabled := false, speedWpm := 19 }) := by
    decide +kernel
  rw [hs] at hseen
  obtain ⟨hscreen, hconfig⟩ := Prod.mk.inj (Option.some.inj hseen)
  have hcount := (hcursor 1 (by rw [hscreen]; rfl)).2.2
  exact ⟨s, hs, hscreen, hconfig, hcount, hrange⟩

end MenuRun
end RpKeyer
