/-
# What the panel shows

Every line is put together in a buffer of its own, and a piece that does not
fit is dropped. With settings in range none is (`valueString_eq`,
`rowText_eq`), every line fits the 128 by 64 pixels, and no two lines overlap
(`image_fits`). So the picture can be read back (`read_image`): the marked row
names the item under the cursor, its marker says if it is being edited, and
the characters after the label are its value.

As the UI task is never blocked and the panel is current at the end of each of
its iterations, this is so of the running firmware, for the config shared by all
tasks (`panel_reads`). There the volume is on the menu's grid, where a product
in single precision has the same percents as the exact one.
-/
import RpKeyer.Lib.Ascii
import RpKeyer.MenuReach

namespace RpKeyer
namespace Panel

open Codecs Firmware Menu Strings Ui UsbEmit

/-! ### Lines that fit their buffers -/

/-- Pieces one after the other. -/
def joined (pieces : List String) (s : String) : String := pieces.foldl (· ++ ·) s

theorem joined_eq : ∀ (pieces : List String) (s : String), joined pieces s = s ++ joined pieces ""
  | [], s => String.append_empty.symm
  | piece :: pieces, s => by
    show joined pieces (s ++ piece) = s ++ joined pieces ("" ++ piece)
    rw [joined_eq pieces (s ++ piece), joined_eq pieces ("" ++ piece), String.empty_append, String.append_assoc]

theorem joined_append (pieces pieces' : List String) (s : String) :
    joined (pieces ++ pieces') s = joined pieces' (joined pieces s) :=
  List.foldl_append

/-- With room for all the pieces, none is dropped. -/
theorem write_all : ∀ (pieces : List String) {cap : ℕ} (s : String),
    s.utf8ByteSize + (pieces.map String.utf8ByteSize).sum ≤ cap → write cap s pieces = joined pieces s
  | [], _, _, _ => rfl
  | piece :: pieces, cap, s, h => by
    rw [List.map_cons, List.sum_cons] at h
    have hfits : s.utf8ByteSize + piece.utf8ByteSize ≤ cap := by omega
    have hrest : (s ++ piece).utf8ByteSize + (pieces.map String.utf8ByteSize).sum ≤ cap := by
      rw [String.utf8ByteSize_append]
      omega
    rw [write, pushStr, if_pos hfits]
    exact write_all pieces (s ++ piece) hrest

/-- The value of an item, without a buffer. -/
def valueText (cfg : KeyerConfig) : MenuItem → String
  | .mode => modeLabel cfg.mode
  | .wpm => toString cfg.speedWpm.toNat
  | .weight => toString cfg.weight.toNat
  | .sidetoneFreq => toString cfg.sidetoneFreq.toNat
  | .sidetoneVolume => toString (cfg.sidetoneVolume.scale 100).toU32
  | .hangTimeMs => toString cfg.hangTimeMs.toNat
  | .keysReversed => if cfg.keysReversed then "Y" else "N"
  | .iambicBPercent => toString cfg.iambicBTimingPercent.toNat
  | .farnsworthWpm => toString cfg.farnsworthWpm.toNat
  | .keyingCompMs => toString cfg.keyingCompensationMs.toNat
  | .usbEmit => match cfg.usbEmitStyle with | .paddle => "Paddle" | .keyed => "Keyed"
  | .decoder => if cfg.decoderEnabled then "On" else "Off"

/-- A volume in range is at most 100 percent. -/
theorem percent_le {v : F32} (h : Unit01 v) : (v.scale 100).toU32 ≤ 100 := by
  cases v with
  | nan => exact h.elim
  | num q =>
    have hle : q * 100 ≤ 100 := by linarith [h.2]
    have hnonneg : 0 ≤ q * 100 := by linarith [h.1]
    have hfloor : ⌊q * 100⌋ ≤ 100 := by
      have hcast : (⌊q * 100⌋ : ℚ) ≤ 100 := (Int.floor_le _).trans hle
      exact_mod_cast hcast
    show (saturate 0 (2 ^ 32 - 1) (trunc (q * 100))).toNat ≤ 100
    unfold saturate trunc
    rw [if_pos hnonneg]
    omega

theorem length_toString {n : ℕ} (h : n ≤ 2000) : (toString n).length ≤ 9 := by
  have hdigits : n.repr.length ≤ 4 := (Nat.length_repr_le_iff (by omega)).mpr (by omega)
  exact hdigits.trans (by omega)

/-- A value is ASCII and has at most nine characters. -/
theorem valueText_small {cfg : KeyerConfig} (h : InRange cfg) (item : MenuItem) :
    Ascii (valueText cfg item) ∧ (valueText cfg item).length ≤ 9 := by
  have hnum : ∀ n : ℕ, n ≤ 2000 → Ascii (toString n) ∧ (toString n).length ≤ 9 :=
    fun n hn => ⟨ascii_repr n, length_toString hn⟩
  have hu8 : ∀ {v : UInt8}, v.toNat ≤ 2000 := fun {v} => by
    have := v.toNat_lt
    omega
  cases item with
  | mode => cases hm : cfg.mode <;> simp only [valueText, hm] <;> decide
  | wpm | weight | iambicBPercent | farnsworthWpm | keyingCompMs => exact hnum _ hu8
  | sidetoneFreq =>
    have hle : cfg.sidetoneFreq.toNat ≤ 1200 := h.sidetoneFreq.2
    exact hnum _ (by omega)
  | sidetoneVolume =>
    have hle := percent_le h.sidetoneVolume
    exact hnum _ (by omega)
  | hangTimeMs => exact hnum _ h.hangTimeMs
  | keysReversed => cases hb : cfg.keysReversed <;> simp only [valueText, hb] <;> decide
  | usbEmit => cases hb : cfg.usbEmitStyle <;> simp only [valueText, hb] <;> decide
  | decoder => cases hb : cfg.decoderEnabled <;> simp only [valueText, hb] <;> decide

/-- The value's buffer drops nothing. -/
theorem valueString_eq {cfg : KeyerConfig} (h : InRange cfg) (item : MenuItem) :
    valueString 16 cfg item = valueText cfg item := by
  obtain ⟨hascii, hlen⟩ := valueText_small h item
  have hsize : (valueText cfg item).utf8ByteSize ≤ 16 := by
    rw [show (valueText cfg item).utf8ByteSize = (valueText cfg item).length from hascii]
    omega
  have hpush : ∀ s : String, s.utf8ByteSize ≤ 16 → (pushStr 16 "" s).getD "" = s := by
    intro s hs
    rw [pushStr, if_pos (by simpa using hs), Option.getD_some, String.empty_append]
  have hwrite : ∀ s : String, s.utf8ByteSize ≤ 16 → write 16 "" [s] = s := by
    intro s hs
    rw [write_all [s] "" (by simpa using hs)]
    exact String.empty_append
  cases item with
  | mode | keysReversed | usbEmit | decoder => exact hpush _ hsize
  | wpm | weight | sidetoneFreq | sidetoneVolume | hangTimeMs | iambicBPercent | farnsworthWpm | keyingCompMs =>
    exact hwrite _ hsize

/-- A label, filled up to nine characters. -/
def padded (item : MenuItem) : String := joined (padLeft9 item.label) ""

theorem padded_small (item : MenuItem) : Ascii (padded item) ∧ (padded item).length = 9 := by
  cases item <;> decide

/-- What marks a row. -/
def marker (here editing : Bool) : String := if here then (if editing then "*" else ">") else " "

/-- The row's buffer drops nothing. -/
theorem rowText_eq {cfg : KeyerConfig} (h : InRange cfg) (sel : ℕ) (editing : Bool) (idx : ℕ) (item : MenuItem) :
    rowText cfg sel editing idx item = marker (idx = sel) editing ++ (padded item ++ valueText cfg item) := by
  obtain ⟨hascii, hlen⟩ := valueText_small h item
  obtain ⟨hpascii, hplen⟩ := padded_small item
  have hmarker : (if idx = sel then if editing then "*" else ">" else " ") = marker (idx = sel) editing := by
    unfold marker
    by_cases hsel : idx = sel <;> simp [hsel]
  have hmsize : (marker (idx = sel) editing).utf8ByteSize = 1 := by
    unfold marker
    split
    · split <;> rfl
    · rfl
  have hpsize : ((padLeft9 item.label).map String.utf8ByteSize).sum = 9 := by
    cases item <;> decide
  have hvsize : (valueText cfg item).utf8ByteSize ≤ 9 := hascii.trans_le hlen
  unfold rowText
  simp only [hmarker, valueString_eq h]
  rw [write_all]
  · rw [joined_append]
    show joined (padLeft9 item.label) ("" ++ marker (idx = sel) editing) ++ valueText cfg item = _
    rw [joined_eq, String.empty_append, String.append_assoc]
    rfl
  · simp only [List.map_cons, List.map_append, List.cons_append, List.sum_cons, List.sum_append, hpsize, hmsize,
      List.map_nil, List.sum_nil, String.utf8ByteSize_empty]
    omega

/-! ### The picture fits the panel -/

/-- Inside 128 by 64 pixels, at 6 by 10 a character. -/
def Fits (t : Text) : Prop := 0 ≤ t.x ∧ t.x + 6 * t.content.length ≤ 128 ∧ 0 ≤ t.y ∧ t.y + 10 ≤ 64

/-- Wholly above. -/
def Above (t t' : Text) : Prop := t.y + 10 ≤ t'.y

/-- The row of the menu with the item `idx`, `row` rows down. -/
def rowAt (cfg : KeyerConfig) (sel : ℕ) (editing : Bool) (start row : ℕ) (item : MenuItem) : Text :=
  ⟨rowText cfg sel editing (start + row) item, 0, (row : ℤ) * 12⟩

/-- The first item shown. -/
def first (sel : ℕ) : ℕ := min (sel - viewport / 2) (MenuItem.all.length - viewport)

/-- The items shown: five, with the one under the cursor. -/
theorem first_bounds {sel : ℕ} (h : sel < MenuItem.all.length) :
    first sel + viewport ≤ MenuItem.all.length ∧ first sel ≤ sel ∧ sel < first sel + viewport := by
  have hlen : MenuItem.all.length = 12 := rfl
  unfold first viewport
  omega

theorem menuTexts_eq {selected : UInt8} (h : selected.toNat < MenuItem.all.length) (cfg : KeyerConfig)
    (editing : Bool) : menuTexts cfg selected editing =
      ((MenuItem.all.drop (first selected.toNat)).take viewport).mapIdx
        (rowAt cfg selected.toNat editing (first selected.toNat)) := by
  obtain ⟨hroom, -, -⟩ := first_bounds h
  show ((MenuItem.all.take (min (first selected.toNat + viewport) MenuItem.all.length)).drop
    (first selected.toNat)).mapIdx _ = _
  rw [Nat.min_eq_left hroom, List.drop_take, Nat.add_sub_cancel_left]
  rfl

theorem rowText_length {cfg : KeyerConfig} (h : InRange cfg) (sel : ℕ) (editing : Bool) (idx : ℕ) (item : MenuItem) :
    (rowText cfg sel editing idx item).length ≤ 19 := by
  have hmarker : (marker (idx = sel) editing).length = 1 := by
    unfold marker
    split
    · split <;> rfl
    · rfl
  have hvalue := (valueText_small h item).2
  have hlabel := (padded_small item).2
  rw [rowText_eq h, String.length_append, String.length_append]
  omega

/-- The decoded text is at most 21 characters, whatever the bytes. -/
theorem decodedText_length (bytes : List UInt8) : (decodedText bytes).length ≤ 21 := by
  have hsize : ∀ (bytes : List UInt8) (s : String), s.utf8ByteSize ≤ 21 →
      (bytes.foldl (fun s b => (pushStr maxVisible s (String.singleton (Char.ofNat b.toNat))).getD s)
        s).utf8ByteSize ≤ 21 := by
    intro bytes
    induction bytes with
    | nil => exact fun s hs => hs
    | cons b bytes ih =>
      intro s hs
      refine ih _ ?_
      show ((pushStr maxVisible s (String.singleton (Char.ofNat b.toNat))).getD s).utf8ByteSize ≤ 21
      unfold pushStr
      split
      · rename_i hfits
        rw [Option.getD_some, String.utf8ByteSize_append]
        exact hfits
      · exact hs
  exact (length_le_size _).trans (hsize bytes "" (Nat.zero_le _))

theorem mainTexts_fits {cfg : KeyerConfig} (h : InRange cfg) (on : Bool) (decoded : List UInt8) :
    (∀ t ∈ mainTexts cfg on decoded, Fits t) ∧ (mainTexts cfg on decoded).Pairwise Above := by
  have htitle : (if on then "CW Keyer    *" else "CW Keyer").length ≤ 21 := by
    cases on <;> decide
  have hline : ∀ (head : String) (item : MenuItem), head.utf8ByteSize = 6 → head.length = 6 →
      (write 24 "" [head, valueText cfg item]).length ≤ 21 := by
    intro head item hsize hlen
    obtain ⟨hascii, hvalue⟩ := valueText_small h item
    have hvsize : (valueText cfg item).utf8ByteSize ≤ 9 := hascii.trans_le hvalue
    rw [write_all]
    · show ("" ++ head ++ valueText cfg item).length ≤ 21
      rw [String.empty_append, String.length_append]
      omega
    · simp only [List.map_cons, List.map_nil, List.sum_cons, List.sum_nil, String.utf8ByteSize_empty]
      omega
  have hmode := hline "Mode: " .mode rfl rfl
  have hwpm := hline "WPM:  " .wpm rfl rfl
  have hdecoded := decodedText_length (decoded.drop (decoded.length - maxVisible))
  have hfits : ∀ (content : String) (y : ℤ), content.length ≤ 21 → 0 ≤ y → y ≤ 54 → Fits ⟨content, 0, y⟩ := by
    intro content y hlen hy hy'
    refine ⟨le_refl _, ?_, hy, ?_⟩
    · show (0 : ℤ) + 6 * content.length ≤ 128
      omega
    · show y + 10 ≤ 64
      omega
  -- without decoded text the first three lines are left
  have hlines : ∃ l₀ l₁ l₂ l₃ : String, (l₀.length ≤ 21 ∧ l₁.length ≤ 21 ∧ l₂.length ≤ 21 ∧ l₃.length ≤ 21) ∧
      List.Sublist (mainTexts cfg on decoded) [⟨l₀, 0, 0⟩, ⟨l₁, 0, 16⟩, ⟨l₂, 0, 30⟩, ⟨l₃, 0, 44⟩] := by
    refine ⟨_, _, _, _, ⟨htitle, hmode, hwpm, hdecoded⟩, ?_⟩
    unfold mainTexts
    by_cases hdec : (cfg.decoderEnabled && !decoded.isEmpty) = true
    · rw [if_pos hdec]
      exact List.Sublist.refl _
    · rw [if_neg hdec, List.append_nil]
      exact List.sublist_append_left [_, _, _] [_]
  obtain ⟨l₀, l₁, l₂, l₃, ⟨h₀, h₁, h₂, h₃⟩, hsub⟩ := hlines
  refine ⟨fun t ht => ?_, List.Pairwise.sublist hsub (by simp [Above])⟩
  rcases (by simpa using hsub.subset ht : t = ⟨l₀, 0, 0⟩ ∨ t = ⟨l₁, 0, 16⟩ ∨ t = ⟨l₂, 0, 30⟩ ∨ t = ⟨l₃, 0, 44⟩)
    with rfl | rfl | rfl | rfl
  · exact hfits l₀ 0 h₀ (by omega) (by omega)
  · exact hfits l₁ 16 h₁ (by omega) (by omega)
  · exact hfits l₂ 30 h₂ (by omega) (by omega)
  · exact hfits l₃ 44 h₃ (by omega) (by omega)

theorem menuTexts_fits {cfg : KeyerConfig} (h : InRange cfg) {selected : UInt8}
    (hsel : selected.toNat < MenuItem.all.length) (editing : Bool) :
    (∀ t ∈ menuTexts cfg selected editing, Fits t) ∧ (menuTexts cfg selected editing).Pairwise Above := by
  rw [menuTexts_eq hsel]
  refine ⟨fun t ht => ?_, ?_⟩
  · obtain ⟨row, hrow, rfl⟩ := List.mem_mapIdx.mp ht
    have hlen : (rowAt cfg selected.toNat editing (first selected.toNat) row
        ((MenuItem.all.drop (first selected.toNat)).take viewport)[row]).content.length ≤ 19 := rowText_length h _ _ _ _
    have hfive : row < viewport := hrow.trans_le (List.length_take_le _ _)
    unfold viewport at hfive
    refine ⟨le_refl _, ?_, ?_, ?_⟩
    · show (0 : ℤ) + 6 * _ ≤ 128
      omega
    · show (0 : ℤ) ≤ row * 12
      omega
    · show (row : ℤ) * 12 + 10 ≤ 64
      omega
  · rw [List.pairwise_iff_getElem]
    intro i j hi hj hij
    rw [List.getElem_mapIdx, List.getElem_mapIdx]
    show (i : ℤ) * 12 + 10 ≤ j * 12
    omega

theorem image_fits {cfg : KeyerConfig} (h : InRange cfg) {screen : Screen} (hok : ScreenOk screen) (on : Bool)
    (decoded : List UInt8) :
    (∀ t ∈ image screen cfg on decoded, Fits t) ∧ (image screen cfg on decoded).Pairwise Above := by
  cases screen with
  | main => exact mainTexts_fits h on decoded
  | menu selected => exact menuTexts_fits h hok false
  | edit selected => exact menuTexts_fits h hok true

/-! ### Reading the picture -/

def markOf (t : Text) : Option Char := t.content.toList.head?

/-- The nine characters after the marker. -/
def labelOf (t : Text) : List Char := (t.content.toList.drop 1).take 9

/-- The characters after the label. -/
def valueOf (t : Text) : List Char := t.content.toList.drop 10

/-- Read a menu: the item of the marked row, whether it is being edited, and
its value. The main screen, which has a title, is no menu. -/
def read (img : Image) : Option (MenuItem × Bool × List Char) :=
  if img.head?.bind markOf = some 'C' then none
  else
    (img.find? fun t => markOf t ≠ some ' ').bind fun t =>
      (MenuItem.all.find? fun item => (padded item).toList = labelOf t).map fun item =>
        (item, markOf t = some '*', valueOf t)

/-- What there is to read on a screen. -/
def shown (screen : Screen) (cfg : KeyerConfig) : Option (MenuItem × Bool × List Char) :=
  match screen with
  | .main => none
  | .menu selected => MenuItem.all[selected.toNat]?.map fun item => (item, false, (valueText cfg item).toList)
  | .edit selected => MenuItem.all[selected.toNat]?.map fun item => (item, true, (valueText cfg item).toList)

/-- The parts of a row. -/
theorem rowAt_parts {cfg : KeyerConfig} (h : InRange cfg) (sel : ℕ) (editing : Bool) (start row : ℕ)
    (item : MenuItem) :
    markOf (rowAt cfg sel editing start row item) =
        some (if start + row = sel then (if editing then '*' else '>') else ' ') ∧
      labelOf (rowAt cfg sel editing start row item) = (padded item).toList ∧
      valueOf (rowAt cfg sel editing start row item) = (valueText cfg item).toList := by
  have hmarker : (marker (start + row = sel) editing).toList =
      [if start + row = sel then (if editing then '*' else '>') else ' '] := by
    unfold marker
    by_cases hsel : start + row = sel
    · cases editing <;> simp [hsel]
    · simp [hsel]
  have hlabel : (padded item).toList.length = 9 := (padded_small item).2
  have hcontent : (rowAt cfg sel editing start row item).content.toList =
      (if start + row = sel then (if editing then '*' else '>') else ' ') ::
        ((padded item).toList ++ (valueText cfg item).toList) := by
    show (rowText cfg sel editing (start + row) item).toList = _
    rw [rowText_eq h, String.toList_append, String.toList_append, hmarker]
    rfl
  refine ⟨?_, ?_, ?_⟩
  · rw [markOf, hcontent, List.head?_cons]
  · rw [labelOf, hcontent, List.drop_succ_cons, List.drop_zero, List.take_left' hlabel]
  · rw [valueOf, hcontent, List.drop_succ_cons, List.drop_left' hlabel]

/-- No two labels are the same. -/
theorem find_padded (item : MenuItem) :
    (MenuItem.all.find? fun item' => (padded item').toList = (padded item).toList) = some item := by
  cases item <;> decide

theorem read_menu {cfg : KeyerConfig} (h : InRange cfg) {selected : UInt8}
    (hsel : selected.toNat < MenuItem.all.length) (editing : Bool) :
    read (menuTexts cfg selected editing) =
      MenuItem.all[selected.toNat]?.map fun item => (item, editing, (valueText cfg item).toList) := by
  obtain ⟨hroom, hlo, hhi⟩ := first_bounds hsel
  rw [menuTexts_eq hsel]
  generalize hstart : first selected.toNat = start at hroom hlo hhi
  have hlen : ((MenuItem.all.drop start).take viewport).length = viewport := by
    rw [List.length_take, List.length_drop]
    omega
  have hrow : selected.toNat - start < ((MenuItem.all.drop start).take viewport).length := by omega
  have hitem : ((MenuItem.all.drop start).take viewport)[selected.toNat - start] = MenuItem.all[selected.toNat] := by
    rw [List.getElem_take, List.getElem_drop]
    congr 1
    omega
  -- the first row is no title
  have hhead : ((((MenuItem.all.drop start).take viewport).mapIdx
      (rowAt cfg selected.toNat editing start)).head?.bind markOf) ≠ some 'C' := by
    rw [List.head?_eq_getElem?, List.getElem?_mapIdx, List.getElem?_eq_getElem (by rw [hlen]; decide)]
    show markOf (rowAt cfg selected.toNat editing start 0 _) ≠ some 'C'
    rw [(rowAt_parts h selected.toNat editing start 0 _).1]
    split
    · cases editing <;> decide
    · decide
  -- the marked row is that of the cursor
  have hfind : ((((MenuItem.all.drop start).take viewport).mapIdx
      (rowAt cfg selected.toNat editing start)).find? fun t => markOf t ≠ some ' ') =
        some (rowAt cfg selected.toNat editing start (selected.toNat - start) MenuItem.all[selected.toNat]) := by
    rw [List.find?_eq_some_iff_getElem]
    refine ⟨?_, selected.toNat - start, by rw [List.length_mapIdx]; exact hrow, ?_, fun j hj => ?_⟩
    · rw [(rowAt_parts h _ _ _ _ _).1, if_pos (by omega)]
      cases editing <;> decide
    · rw [List.getElem_mapIdx, hitem]
    · rw [List.getElem_mapIdx, (rowAt_parts h _ _ _ _ _).1, if_neg (by omega)]
      decide
  obtain ⟨hmark, hlabel, hvalue⟩ := rowAt_parts h selected.toNat editing start (selected.toNat - start)
    MenuItem.all[selected.toNat]
  have hediting : decide (markOf (rowAt cfg selected.toNat editing start (selected.toNat - start)
      MenuItem.all[selected.toNat]) = some '*') = editing := by
    rw [hmark, if_pos (by omega)]
    cases editing <;> decide
  rw [read, if_neg hhead, hfind, Option.bind_some, hlabel, find_padded, Option.map_some, hediting, hvalue,
    List.getElem?_eq_getElem hsel, Option.map_some]

theorem read_image {cfg : KeyerConfig} (h : InRange cfg) {screen : Screen} (hok : ScreenOk screen) (on : Bool)
    (decoded : List UInt8) : read (image screen cfg on decoded) = shown screen cfg := by
  cases screen with
  | main => cases on <;> rfl
  | menu selected => exact read_menu h hok false
  | edit selected => exact read_menu h hok true

theorem toString_inj {n m : ℕ} (h : toString n = toString m) : n = m := by
  have hdecimal : ∀ k : ℕ, Nat.ofDigitChars 10 (toString k).toList 0 = k := by
    intro k
    rw [Nat.toString_eq_repr, Nat.toList_repr]
    exact Nat.ofDigitChars_ten_toDigits
  rw [← hdecimal n, h, hdecimal]

/-- A whole percent is shown as it is. -/
theorem percent_toU32 {n : ℕ} (h : n ≤ 100) : ((MenuReach.percent n).scale 100).toU32 = n := by
  have hback : (n : ℚ) / 100 * 100 = n := div_mul_cancel₀ _ (by norm_num)
  show (saturate 0 (2 ^ 32 - 1) (trunc ((n : ℚ) / 100 * 100))).toNat = n
  unfold saturate trunc
  rw [hback, if_pos (Nat.cast_nonneg n), Int.floor_natCast]
  omega

/-- Different values are shown by different characters, two volumes as long as
they are on the grid. -/
theorem valueText_inj {c c' : KeyerConfig} (item : MenuItem)
    (hvol : item = .sidetoneVolume → MenuReach.VolumeOnGrid c ∧ MenuReach.VolumeOnGrid c')
    (h : valueText c item = valueText c' item) : setFrom item c c' = c := by
  cases item with
  | mode =>
    have hmode : c'.mode = c.mode := by
      cases hc : c.mode <;> cases hc' : c'.mode <;> simp [valueText, hc, hc', modeLabel] at h ⊢
    simp [setFrom, hmode]
  | sidetoneVolume =>
    obtain ⟨⟨n, hn, -, hc⟩, m, hm, -, hc'⟩ := hvol rfl
    have hshown := toString_inj h
    rw [hc, hc', percent_toU32 hn, percent_toU32 hm] at hshown
    have hsame : c'.sidetoneVolume = c.sidetoneVolume := by
      rw [hc, hc', hshown]
    simp [setFrom, hsame]
  | wpm => simp [setFrom, UInt8.toNat_inj.mp (toString_inj h).symm]
  | weight => simp [setFrom, UInt8.toNat_inj.mp (toString_inj h).symm]
  | sidetoneFreq => simp [setFrom, UInt32.toNat_inj.mp (toString_inj h).symm]
  | hangTimeMs => simp [setFrom, UInt32.toNat_inj.mp (toString_inj h).symm]
  | iambicBPercent => simp [setFrom, UInt8.toNat_inj.mp (toString_inj h).symm]
  | farnsworthWpm => simp [setFrom, UInt8.toNat_inj.mp (toString_inj h).symm]
  | keyingCompMs => simp [setFrom, UInt8.toNat_inj.mp (toString_inj h).symm]
  | keysReversed =>
    have hkeys : c'.keysReversed = c.keysReversed := by
      cases hc : c.keysReversed <;> cases hc' : c'.keysReversed <;> simp [valueText, hc, hc'] at h ⊢
    simp [setFrom, hkeys]
  | usbEmit =>
    have hstyle : c'.usbEmitStyle = c.usbEmitStyle := by
      cases hc : c.usbEmitStyle <;> cases hc' : c'.usbEmitStyle <;> simp [valueText, hc, hc'] at h ⊢
    simp [setFrom, hstyle]
  | decoder =>
    have hdec : c'.decoderEnabled = c.decoderEnabled := by
      cases hc : c.decoderEnabled <;> cases hc' : c'.decoderEnabled <;> simp [valueText, hc, hc'] at h ⊢
    simp [setFrom, hdec]

/-! ### The running firmware -/

section Run

variable {ε : Type} (E : Engine ε) (app : App) (tag : Codec UInt16) (codec : Codec KeyerConfig)

/-- The UI task has iterated. -/
def Drawn (ls : List Label) : Prop := ∃ pins decoded, Label.ui pins decoded ∈ ls

/-- The UI is in step with the config, and has nothing left to draw. -/
structure Inv (ls : List Label) (s : Sys ε) : Prop where
  synced : Redraw.Synced s.ui s.st.sharedConfig
  drawn : Drawn ls → s.ui.ui.dirty = false

theorem inv_step (ls : List Label) (s : Sys ε) (a : Label) (s' : Sys ε) (hI : Inv ls s)
    (h : sysStep E app tag codec s a = some s') : Inv (ls ++ [a]) s' := by
  by_cases hui : ∃ pins decoded, a = .ui pins decoded
  · obtain ⟨pins, decoded, rfl⟩ := hui
    obtain ⟨⟨t', st'⟩, hiter, rfl⟩ := Option.map_eq_some_iff.mp h
    obtain ⟨t'', st'', hiter', hsync, hclean⟩ := Redraw.synced_iteration s.st hI.synced ⟨(s.poll pins).2.2, decoded⟩
    obtain ⟨rfl, rfl⟩ := Prod.mk.inj (Option.some.inj (hiter'.symm.trans hiter))
    exact ⟨hsync, fun _ => hclean⟩
  · obtain ⟨hsame, hconfig, -, -⟩ := ui_step E app tag codec h fun pins decoded heq => hui ⟨pins, decoded, heq⟩
    refine ⟨by rw [hsame, hconfig]; exact hI.synced, fun hdrawn => ?_⟩
    obtain ⟨pins, decoded, hmem⟩ := hdrawn
    rw [hsame]
    rcases List.mem_append.mp hmem with hmem | hmem
    · exact hI.drawn ⟨pins, decoded, hmem⟩
    · exact absurd ⟨pins, decoded, (List.mem_singleton.mp hmem).symm⟩ hui

/-- The UI is in step with the config in every run. -/
theorem inv_run (dflt : KeyerConfig) (bz : Buzzer) (display : Display) (flash : Storage.Flash) {ls : List Label}
    {s : Sys ε} (h : StepRun.run (sysStep E app tag codec) (boot E tag codec dflt bz display flash) ls = some s) :
    Inv ls s := by
  have hboot : Inv [] (boot E tag codec dflt bz display flash) :=
    ⟨Redraw.synced_boot display (Persist.restore tag codec dflt flash), fun hdrawn => by
      obtain ⟨_, _, hmem⟩ := hdrawn
      cases hmem⟩
  exact StepRun.run_inv_hist (I := Inv) (sysStep E app tag codec) (inv_step E app tag codec) ls [] _ s hboot h

/-- **What the panel shows is what is set.** In every run of the firmware from
settings in range with the volume on the menu's grid, the UI task has an
iteration to take whatever the pins and the decoder are; and once it has taken
one, between its iterations the panel is the picture of the screen and of the
shared config, inside its 128 by 64 pixels and with no line over another. A
menu reads back as the item under the cursor, whether it is being edited, and
its value in the shared config; no other value, the volumes on the grid, looks
the same. -/
theorem panel_reads (dflt : KeyerConfig) (bz : Buzzer) (display : Display) (flash : Storage.Flash)
    (hflash : InRange (Persist.restore tag codec dflt flash))
    (hvolume : MenuReach.VolumeOnGrid (Persist.restore tag codec dflt flash)) {ls : List Label} {s : Sys ε}
    (h : StepRun.run (sysStep E app tag codec) (boot E tag codec dflt bz display flash) ls = some s) :
    (∀ pins decoded, ∃ s', sysStep E app tag codec s (.ui pins decoded) = some s') ∧
    (Drawn ls → s.ui.ui.display.panel = Redraw.current s.ui.ui s.st.sharedConfig ∧
      (∀ t ∈ s.ui.ui.display.panel, Fits t) ∧ s.ui.ui.display.panel.Pairwise Above ∧
      read s.ui.ui.display.panel = shown s.ui.ui.screen s.st.sharedConfig ∧
      ∀ item editing v c, read s.ui.ui.display.panel = some (item, editing, v) →
        (item = .sidetoneVolume → MenuReach.VolumeOnGrid c) → v = (valueText c item).toList →
          setFrom item s.st.sharedConfig c = s.st.sharedConfig) := by
  have hrange := PowerCycle.shared_inRange hflash h
  have hgrid := shared_config E app tag codec (P := MenuReach.VolumeOnGrid)
    (fun _ item up hc => MenuReach.volumeOnGrid_adjust hc item up) hvolume h
  have hI := inv_run E app tag codec dflt bz display flash h
  refine ⟨fun pins decoded => ?_, fun hdrawn => ?_⟩
  · obtain ⟨t', st', hiter, -, -⟩ := Redraw.synced_iteration s.st hI.synced ⟨(s.poll pins).2.2, decoded⟩
    exact ⟨_, Option.map_eq_some_iff.mpr ⟨(t', st'), hiter, rfl⟩⟩
  · have hpanel := hI.synced.shown (hI.drawn hdrawn)
    have hread : read s.ui.ui.display.panel = shown s.ui.ui.screen s.st.sharedConfig := by
      rw [hpanel]
      exact read_image hrange hI.synced.ok _ _
    obtain ⟨hfits, habove⟩ := image_fits hrange hI.synced.ok s.ui.ui.lastKeyIndicator s.ui.ui.decoded
    refine ⟨hpanel, by rw [hpanel]; exact hfits, by rw [hpanel]; exact habove, hread,
      fun item editing v c hv hvol hc => ?_⟩
    have hvalue : v = (valueText s.st.sharedConfig item).toList := by
      rw [hread] at hv
      unfold shown at hv
      cases hscreen : s.ui.ui.screen with
      | main =>
        rw [hscreen] at hv
        cases hv
      | menu selected | edit selected =>
        rw [hscreen] at hv
        obtain ⟨item', -, heq⟩ := Option.map_eq_some_iff.mp hv
        obtain ⟨rfl, heq'⟩ := Prod.mk.inj heq
        exact (Prod.mk.inj heq').2.symm
    exact valueText_inj item (fun hitem => ⟨hgrid, hvol hitem⟩) (String.toList_inj.mp (hvalue.symm.trans hc))

end Run

/-- Down to the tone, and one step up: its row is marked for editing. -/
theorem panel_reads_tone :
    let presses : List ButtonEvent := [.ok, .down, .down, .down, .ok, .up]
    let ls := (presses.flatMap MenuReach.press).map fun pins => Label.ui pins fun _ => []
    ∃ s, StepRun.run (sysStep StraightKey.engine ⟨.present 0, .present ()⟩ Postcard.varint16 Postcard.config)
        (boot StraightKey.engine Postcard.varint16 Postcard.config StraightKey.config
          (.new StraightKey.pwm StraightKey.pwm.config StraightKey.clkSysFreq) ⟨[], []⟩ .empty) ls = some s ∧
      read s.ui.ui.display.panel = some (.sidetoneFreq, true, ['6', '2', '5']) := by
  intro presses ls
  have hrun : (StepRun.run (sysStep StraightKey.engine ⟨.present 0, .present ()⟩ Postcard.varint16 Postcard.config)
      (boot StraightKey.engine Postcard.varint16 Postcard.config StraightKey.config
        (.new StraightKey.pwm StraightKey.pwm.config StraightKey.clkSysFreq) ⟨[], []⟩ .empty) ls).map
          (fun s => (s.ui.ui.screen, s.st.sharedConfig.sidetoneFreq)) = some (.edit 3, 625) := by
    decide +kernel
  obtain ⟨s, hs, hscreen⟩ := Option.map_eq_some_iff.mp hrun
  obtain ⟨hedit, hfreq⟩ := Prod.mk.inj hscreen
  obtain ⟨-, hdrawn⟩ := panel_reads StraightKey.engine ⟨.present 0, .present ()⟩ Postcard.varint16 Postcard.config
    StraightKey.config (.new StraightKey.pwm StraightKey.pwm.config StraightKey.clkSysFreq) ⟨[], []⟩ .empty
    MenuRun.straightKey_inRange MenuReach.straightKey_onGrid.sidetoneVolume hs
  have hui : Drawn ls := ⟨⟨false, false, true, false⟩, fun _ => [], List.mem_cons_self⟩
  obtain ⟨-, -, -, hread, -⟩ := hdrawn hui
  refine ⟨s, hs, hread.trans ?_⟩
  rw [hedit]
  show some (MenuItem.sidetoneFreq, true, (toString s.st.sharedConfig.sidetoneFreq.toNat).toList) = _
  rw [hfreq]
  decide

end Panel
end RpKeyer
