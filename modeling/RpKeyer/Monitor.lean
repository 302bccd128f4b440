/-
# The main screen as a monitor

On the main screen the panel tells what the keyer is doing: a star while the
key is down, the mode, the speed, and what the decoder has read. `read` takes
these from the picture, and finds them on no menu (`read_image`).

The star goes a long way: the key event sets an indicator beside the pin, the
UI task polls it at the start of an iteration into a field of its own, marks
the screen dirty only if it is the main one, and draws at the end. The decoded
text goes through two settings cached at the last redraw. In every run of the
firmware, at the end of every iteration of the UI task, what is read is the
radio pin as the iteration found it, the shared config, and the text of a
decoder polled as the shared config said when the iteration began
(`main_screen_reads`). The keyer may preempt the flush, so by the end of the
iteration the pin may have moved; the next one shows it.
-/
import RpKeyer.KeyLine
import RpKeyer.Panel

namespace RpKeyer
namespace Monitor

open Codecs Firmware Menu Strings Ui UsbEmit

/-! ### Reading the picture -/

/-- What the main screen tells. -/
structure Reading where
  keyed : Bool
  mode : List Char
  wpm : List Char
  text : List Char
  deriving DecidableEq

def title : List Char := ['C', 'W', ' ', 'K', 'e', 'y', 'e', 'r']

/-- The lines under the title, from their seventh character, and what is drawn
below them; `none` if there is no title. -/
def read : Image → Option Reading
  | head :: mode :: wpm :: rest =>
    if head.content.toList.take 8 = title then
      some ⟨head.content.toList.getLast? = some '*', mode.content.toList.drop 6, wpm.content.toList.drop 6,
        rest.flatMap (·.content.toList)⟩
    else none
  | _ => none

/-- The bytes a screen has room for, as characters. -/
def lastChars (bytes : List UInt8) : List Char :=
  (bytes.drop (bytes.length - maxVisible)).map fun b => Char.ofNat b.toNat

/-- ASCII bytes, at most as many as the decoder's buffer. -/
def Plain (bytes : List UInt8) : Prop := bytes.length ≤ decodedCapacity ∧ ∀ b ∈ bytes, b < 128

theorem toNat_ofNat {b : UInt8} (h : b < 128) : (Char.ofNat b.toNat).toNat = b.toNat := by
  have hb : b.toNat < 128 := UInt8.lt_iff_toNat_lt.mp h
  have hvalid : b.toNat.isValidChar := .inl (by omega)
  unfold Char.ofNat
  rw [dif_pos hvalid]
  rfl

/-- ASCII bytes with room for all of them are pushed one by one. -/
theorem foldl_push : ∀ (bytes : List UInt8) (s : String), (∀ b ∈ bytes, b < 128) →
    s.utf8ByteSize + bytes.length ≤ maxVisible →
    (bytes.foldl (fun s b => (pushStr maxVisible s (String.singleton (Char.ofNat b.toNat))).getD s) s).toList =
      s.toList ++ bytes.map fun b => Char.ofNat b.toNat
  | [], s, _, _ => by simp
  | b :: bytes, s, h, hroom => by
    obtain ⟨hb, hbytes⟩ := List.forall_mem_cons.mp h
    have hchar : (Char.ofNat b.toNat).toNat < 128 := by
      rw [toNat_ofNat hb]
      exact UInt8.lt_iff_toNat_lt.mp hb
    have hsize : (String.singleton (Char.ofNat b.toNat)).utf8ByteSize = 1 :=
      (ascii_singleton hchar).trans String.length_singleton
    rw [List.length_cons] at hroom
    have hpush : (pushStr maxVisible s (String.singleton (Char.ofNat b.toNat))).getD s =
        s ++ String.singleton (Char.ofNat b.toNat) := by
      unfold pushStr
      rw [if_pos (by omega), Option.getD_some]
    have hrest : (s ++ String.singleton (Char.ofNat b.toNat)).utf8ByteSize + bytes.length ≤ maxVisible := by
      rw [String.utf8ByteSize_append, hsize]
      omega
    rw [List.foldl_cons, hpush, foldl_push bytes _ hbytes hrest]
    simp

theorem decodedText_toList {bytes : List UInt8} (h : ∀ b ∈ bytes, b < 128) :
    (decodedText (bytes.drop (bytes.length - maxVisible))).toList = lastChars bytes := by
  have hlen : (bytes.drop (bytes.length - maxVisible)).length ≤ maxVisible := by
    rw [List.length_drop]
    omega
  unfold decodedText lastChars
  rw [foldl_push _ _ (fun b hb => h b (List.mem_of_mem_drop hb)) (by simpa using hlen)]
  simp

/-- What the main screen tells of a config, a key and a text. -/
def told (cfg : KeyerConfig) (on : Bool) (decoded : List UInt8) : Reading where
  keyed := on
  mode := (modeLabel cfg.mode).toList
  wpm := (toString cfg.speedWpm.toNat).toList
  text := if cfg.decoderEnabled then lastChars decoded else []

/-- A line of the main screen, from its seventh character. -/
theorem line_toList {cfg : KeyerConfig} (h : InRange cfg) (head : String) (item : MenuItem)
    (hsize : head.utf8ByteSize = 6) (hlen : head.toList.length = 6) :
    (write 24 "" [head, Panel.valueText cfg item]).toList.drop 6 = (Panel.valueText cfg item).toList := by
  obtain ⟨hascii, hvalue⟩ := Panel.valueText_small h item
  have hvsize : (Panel.valueText cfg item).utf8ByteSize ≤ 9 := hascii.trans_le hvalue
  have hroom : "".utf8ByteSize + ([head, Panel.valueText cfg item].map String.utf8ByteSize).sum ≤ 24 := by
    simp only [List.map_cons, List.map_nil, List.sum_cons, List.sum_nil, String.utf8ByteSize_empty]
    omega
  rw [Panel.write_all _ _ hroom]
  show ("" ++ head ++ Panel.valueText cfg item).toList.drop 6 = _
  rw [String.empty_append, String.toList_append, ← hlen, List.drop_left]

theorem read_main {cfg : KeyerConfig} (h : InRange cfg) (on : Bool) {decoded : List UInt8}
    (hdecoded : ∀ b ∈ decoded, b < 128) : read (mainTexts cfg on decoded) = some (told cfg on decoded) := by
  have hmode : (write 24 "" ["Mode: ", modeLabel cfg.mode]).toList.drop 6 = (modeLabel cfg.mode).toList :=
    line_toList h "Mode: " .mode rfl rfl
  have hwpm : (write 24 "" ["WPM:  ", toString cfg.speedWpm.toNat]).toList.drop 6 =
      (toString cfg.speedWpm.toNat).toList :=
    line_toList h "WPM:  " .wpm rfl rfl
  have htitle : (if on then "CW Keyer    *" else "CW Keyer").toList.take 8 = title ∧
      decide ((if on then "CW Keyer    *" else "CW Keyer").toList.getLast? = some '*') = on := by
    cases on <;> decide
  have htext : ((if cfg.decoderEnabled && !decoded.isEmpty then
      [(⟨decodedText (decoded.drop (decoded.length - maxVisible)), 0, 44⟩ : Text)] else []).flatMap
        (·.content.toList)) = if cfg.decoderEnabled then lastChars decoded else [] := by
    cases hd : cfg.decoderEnabled with
    | false => rfl
    | true =>
      cases hnil : decoded.isEmpty with
      | false => simp [decodedText_toList hdecoded]
      | true =>
        rw [List.isEmpty_iff.mp hnil]
        rfl
  show (if _ then some (Reading.mk _ _ _ _) else none) = _
  rw [if_pos htitle.1, htitle.2]
  rw [hmode, hwpm]
  unfold told
  rw [← htext]
  rfl

/-- What has a title is no menu. -/
theorem panel_read_of_read {img : Image} {r : Reading} (h : read img = some r) : Panel.read img = none := by
  unfold read at h
  split at h
  · rename_i head mode wpm rest
    split at h
    · rename_i htitle
      have hhead : head.content.toList.head? = some 'C' := by
        have htake := congrArg List.head? htitle
        rwa [List.head?_take, if_neg (by decide)] at htake
      exact if_pos hhead
    · cases h
  · cases h

/-- The main screen is read, and no menu. -/
theorem read_image {cfg : KeyerConfig} (h : InRange cfg) {screen : Screen} (hok : ScreenOk screen) (on : Bool)
    {decoded : List UInt8} (hdecoded : ∀ b ∈ decoded, b < 128) :
    read (image screen cfg on decoded) = if screen = .main then some (told cfg on decoded) else none := by
  have hmenu : ∀ {selected : UInt8} (editing : Bool), selected.toNat < MenuItem.all.length →
      read (menuTexts cfg selected editing) = none := by
    intro selected editing hsel
    by_contra hread
    obtain ⟨r, hr⟩ := Option.ne_none_iff_exists'.mp hread
    have hnone := panel_read_of_read hr
    rw [Panel.read_menu h hsel, List.getElem?_eq_getElem hsel] at hnone
    cases hnone
  cases screen with
  | main => exact read_main h on hdecoded
  | menu selected => exact hmenu false hok
  | edit selected => exact hmenu true hok

/-! ### One iteration of the UI task -/

/-- A batch leaves both notes alone. -/
theorem batch_notes {ui ui' : Ui} {st st' : Statics} {events : List ButtonEvent} (hok : ScreenOk ui.screen)
    (h : UiTask.batch ui st events = some (ui', st')) :
    ui'.lastKeyIndicator = ui.lastKeyIndicator ∧ ui'.decoded = ui.decoded := by
  unfold UiTask.batch at h
  split at h
  · obtain ⟨rfl, -⟩ := Prod.mk.inj (Option.some.inj h)
    exact ⟨rfl, rfl⟩
  · obtain ⟨⟨ui₁, config₁⟩, hrun, hr⟩ := Option.map_eq_some_iff.mp h
    obtain ⟨ui₂, config₂, hrun', -, hkept⟩ := UiTask.onButtons_inv
      (I := fun u _ => u.lastKeyIndicator = ui.lastKeyIndicator ∧ u.decoded = ui.decoded)
      (fun u c u' c' hI hp => ⟨hp.indicator.trans hI.1, hp.decoded.trans hI.2⟩) events hok ⟨rfl, rfl⟩
    obtain ⟨rfl, rfl⟩ := Prod.mk.inj (Option.some.inj (hrun.symm.trans hrun'))
    have hui : (UiTask.signalDirty ui₁ { st with sharedConfig := config₁ }).1 = ui' := congrArg Prod.fst hr
    rw [← hui]
    exact hkept

theorem redraw_notes (t : UiTask) (st : Statics) : (t.redraw st).ui.lastKeyIndicator = t.ui.lastKeyIndicator ∧
    (t.redraw st).ui.decoded = t.ui.decoded := by
  unfold UiTask.redraw Ui.render
  split
  · simp only
    split <;> exact ⟨rfl, rfl⟩
  · exact ⟨rfl, rfl⟩

theorem decode_notes {t : UiTask} {decoded : UInt8 → List UInt8} (hlen : ∀ w, (decoded w).length ≤ decodedCapacity) :
    (t.decode decoded).ui.lastKeyIndicator = t.ui.lastKeyIndicator ∧
      (t.decode decoded).ui.decoded = if t.decoderEnabled then decoded t.decoderWpm else t.ui.decoded := by
  unfold UiTask.decode
  by_cases hd : t.decoderEnabled = true
  · rw [if_pos hd, if_pos hd]
    unfold Ui.noteDecoded
    by_cases hsame : t.ui.decoded = decoded t.decoderWpm
    · simp [hsame]
    · simp [hsame, hlen]
  · rw [if_neg hd, if_neg hd]
    exact ⟨rfl, rfl⟩

/-- The notes of an iteration: the indicator it found, and the text polled, if
it was to be polled. -/
theorem iteration_notes {t t' : UiTask} {st st' : Statics} {inp : UiTask.Input} (hok : ScreenOk t.ui.screen)
    (hlen : ∀ w, (inp.decoded w).length ≤ decodedCapacity) (h : t.iteration st inp = some (t', st')) :
    t'.ui.lastKeyIndicator = st.keyIndicator ∧
      t'.ui.decoded = if t.decoderEnabled then inp.decoded t.decoderWpm else t.ui.decoded := by
  obtain ⟨⟨ui, st₁⟩, hbatch, hr⟩ := Option.map_eq_some_iff.mp h
  obtain ⟨rfl, rfl⟩ := Prod.mk.inj hr
  have hkey : (t.ui.noteKeyState st.keyIndicator).lastKeyIndicator = st.keyIndicator ∧
      (t.ui.noteKeyState st.keyIndicator).decoded = t.ui.decoded := by
    unfold Ui.noteKeyState
    split
    · exact ⟨rfl, rfl⟩
    · rename_i hsame
      exact ⟨(not_not.mp hsame).symm, rfl⟩
  have hbatched := batch_notes ((Redraw.noted_noteKeyState t.ui st.keyIndicator).screen ▸ hok) hbatch
  have hdecode := decode_notes (t := { t with ui := ui }) hlen
  have hredraw := redraw_notes (UiTask.decode { t with ui := ui } inp.decoded) st₁
  refine ⟨?_, ?_⟩
  · rw [hredraw.1, hdecode.1, hbatched.1, hkey.1]
  · rw [hredraw.2, hdecode.2, hbatched.2, hkey.2]

/-! ### The running firmware -/

section Run

variable {ε : Type} (E : Engine ε) (app : App) (tag : Codec UInt16) (codec : Codec KeyerConfig)

/-- The decoder's texts in a run are plain. -/
def PlainTexts (ls : List Label) : Prop := ∀ pins decoded, Label.ui pins decoded ∈ ls → ∀ w, Plain (decoded w)

/-- The UI is in step with the config, its decoder settings are the config's,
its text is ASCII, and the indicator is the pin. -/
structure Inv (s : Sys ε) : Prop where
  synced : Redraw.Synced s.ui s.st.sharedConfig
  caches : s.ui.decoderWpm = s.st.sharedConfig.speedWpm ∧ s.ui.decoderEnabled = s.st.sharedConfig.decoderEnabled
  ascii : ∀ b ∈ s.ui.ui.decoded, b < 128
  indicator : s.st.keyIndicator = s.keyer.k.radioKey.pin

/-- A section moves the indicator with the pin. -/
theorem indicator_section {s s' : Loop.State ε} {a : Section} (h : Loop.loopStep E s a.label = some s')
    (hi : s.st.keyIndicator = s.k.radioKey.pin) : s'.st.keyIndicator = s'.k.radioKey.pin := by
  have hlines : ∀ {r : Keyer ε × Statics}, KeyLine.lines r = KeyLine.lines (s.k, s.st) →
      r.2.keyIndicator = r.1.radioKey.pin := by
    intro r hr
    unfold KeyLine.lines at hr
    simp only [Prod.mk.injEq] at hr
    rw [hr.1, hr.2.2.1, hi]
  cases a with
  | park =>
    obtain ⟨-, rfl⟩ := StepRun.guard_some h
    exact hi
  | poll x y =>
    obtain ⟨-, rfl⟩ := StepRun.guard_some h
    exact hlines (KeyLine.lines_poll E s.k s.st x y)
  | count =>
    obtain ⟨-, rfl⟩ := StepRun.guard_some h
    exact hlines (KeyLine.lines_count s.k s.st)
  | refresh =>
    obtain ⟨-, rfl⟩ := StepRun.guard_some h
    exact hlines (KeyLine.lines_refresh E s.k s.st)
  | tick n =>
    obtain ⟨-, rfl⟩ := StepRun.guard_some h
    have hact : ∀ o, (Keyer.act { s.k with engine := (E.tick s.k.engine).1 } s.st n o).2.keyIndicator =
        (Keyer.act { s.k with engine := (E.tick s.k.engine).1 } s.st n o).1.radioKey.pin := by
      refine Keyer.act_rule (P := fun r : Keyer ε × Statics => r.2.keyIndicator = r.1.radioKey.pin) hi fun on => ?_
      have hkey := KeyLine.coherent_key { s.k with engine := (E.tick s.k.engine).1 } s.st on n
      unfold KeyLine.Coherent KeyLine.lines at hkey
      simp only [Prod.mk.injEq] at hkey
      exact hkey.2.2.1.trans hkey.1.symm
    exact hact (E.tick s.k.engine).2

/-- An iteration of the UI task, and what is polled in it. -/
theorem inv_ui {s s' : Sys ε} (hI : Inv s) {pins : Pins} {decoded : UInt8 → List UInt8}
    (hplain : ∀ w, Plain (decoded w)) (h : sysStep E app tag codec s (.ui pins decoded) = some s') :
    Inv s' ∧ s'.ui.ui.dirty = false ∧ s'.ui.ui.lastKeyIndicator = s.keyer.k.radioKey.pin ∧
      s'.ui.ui.decoded =
        if s.st.sharedConfig.decoderEnabled then decoded s.st.sharedConfig.speedWpm else s.ui.ui.decoded := by
  obtain ⟨⟨t', st'⟩, hiter, rfl⟩ := Option.map_eq_some_iff.mp h
  obtain ⟨t'', st'', hiter', hsync, hclean⟩ := Redraw.synced_iteration s.st hI.synced ⟨(s.poll pins).2.2, decoded⟩
  obtain ⟨rfl, rfl⟩ := Prod.mk.inj (Option.some.inj (hiter'.symm.trans hiter))
  obtain ⟨hkey, htext⟩ := iteration_notes hI.synced.ok (fun w => (hplain w).1) hiter
  have hst := iteration_statics hiter
  have hsame : t''.ui.decoded =
      if s.st.sharedConfig.decoderEnabled then decoded s.st.sharedConfig.speedWpm else s.ui.ui.decoded := by
    rw [htext, hI.caches.1, hI.caches.2]
  have hindicator : st''.keyIndicator = s.st.keyIndicator := by
    rw [hst]
  refine ⟨⟨hsync, hsync.caches hclean, fun b hb => ?_, hindicator.trans hI.indicator⟩, hclean,
    hkey.trans hI.indicator, hsame⟩
  have hb' : b ∈ if s.st.sharedConfig.decoderEnabled then decoded s.st.sharedConfig.speedWpm else s.ui.ui.decoded :=
    hsame ▸ hb
  split at hb'
  · exact (hplain _).2 b hb'
  · exact hI.ascii b hb'

theorem inv_step (ls : List Label) (s : Sys ε) (a : Label) (s' : Sys ε) (hI : PlainTexts ls → Inv s)
    (h : sysStep E app tag codec s a = some s') : PlainTexts (ls ++ [a]) → Inv s' := by
  intro hplain
  have hI := hI fun pins decoded hmem => hplain pins decoded (List.mem_append_left _ hmem)
  by_cases hui : ∃ pins decoded, a = .ui pins decoded
  · obtain ⟨pins, decoded, rfl⟩ := hui
    exact (inv_ui E app tag codec hI (hplain pins decoded (by simp)) h).1
  · obtain ⟨hsame, hconfig, -, -⟩ := ui_step E app tag codec h fun pins decoded heq => hui ⟨pins, decoded, heq⟩
    have hindicator : s'.st.keyIndicator = s'.keyer.k.radioKey.pin := by
      cases sysStep_moved E app tag codec h with
      | keyer a k hk =>
        exact indicator_section E hk hI.indicator
      | take =>
        exact hI.indicator
      | wrote =>
        exact hI.indicator
      | ui pins decoded => exact absurd ⟨pins, decoded, rfl⟩ hui
      | persist ok p' st' hstep =>
        have hkept : st'.keyIndicator = s.st.keyIndicator := by
          rw [persist_statics tag codec hstep]
        exact hkept.trans hI.indicator
    refine ⟨?_, ?_, ?_, hindicator⟩
    · rw [hsame, hconfig]
      exact hI.synced
    · rw [hsame, hconfig]
      exact hI.caches
    · rw [hsame]
      exact hI.ascii

/-- Until the next iteration the UI and the config stay as they are. -/
theorem ui_kept : ∀ {ls : List Label} {s s' : Sys ε}, (∀ pins decoded, Label.ui pins decoded ∉ ls) →
    StepRun.run (sysStep E app tag codec) s ls = some s' →
      s'.ui = s.ui ∧ s'.st.sharedConfig = s.st.sharedConfig
  | [], _, _, _, h => by
    obtain rfl := Option.some.inj h
    exact ⟨rfl, rfl⟩
  | a :: ls, s, s', hls, h => by
    obtain ⟨s₁, hs, hrun⟩ := (StepRun.run_cons_some _).mp h
    obtain ⟨hui, hconfig, -, -⟩ := ui_step E app tag codec hs fun pins decoded ha =>
      hls pins decoded (ha ▸ List.mem_cons_self)
    obtain ⟨hui', hconfig'⟩ := ui_kept (fun pins decoded hmem => hls pins decoded (List.mem_cons_of_mem a hmem)) hrun
    exact ⟨hui'.trans hui, hconfig'.trans hconfig⟩

/-- **The main screen follows the keyer.** In every run of the firmware from
settings in range, with a decoder that gives ASCII, from the end of an iteration
of the UI task until the next one begins, whatever the other tasks do: on the
main screen the panel reads as the radio pin as it was when the iteration began,
the mode and the speed of the shared config, and the last characters of the
decoder's text, polled at the speed the shared config had when the iteration
began, or left from before if the decoder was off then; on a menu it does not
read at all. -/
theorem main_screen_reads (dflt : KeyerConfig) (bz : Buzzer) (display : Display) (flash : Storage.Flash)
    (hflash : InRange (Persist.restore tag codec dflt flash)) {ls ls' : List Label} {s s₁ s' : Sys ε} {pins : Pins}
    {decoded : UInt8 → List UInt8} (hplain : PlainTexts (ls ++ [.ui pins decoded]))
    (h : StepRun.run (sysStep E app tag codec) (boot E tag codec dflt bz display flash) ls = some s)
    (hs : sysStep E app tag codec s (.ui pins decoded) = some s₁) (hls' : ∀ pins decoded, Label.ui pins decoded ∉ ls')
    (h' : StepRun.run (sysStep E app tag codec) s₁ ls' = some s') :
    let text := if s.st.sharedConfig.decoderEnabled then decoded s.st.sharedConfig.speedWpm else s.ui.ui.decoded
    read s'.ui.ui.display.panel =
      if s'.ui.ui.screen = .main then some (told s'.st.sharedConfig s.keyer.k.radioKey.pin text) else none := by
  intro text
  have hboot : Inv (boot E tag codec dflt bz display flash) :=
    ⟨Redraw.synced_boot display (Persist.restore tag codec dflt flash), ⟨rfl, rfl⟩, List.forall_mem_nil _, rfl⟩
  have hI : PlainTexts ([] ++ ls) → Inv s :=
    StepRun.run_inv_hist (I := fun ls s => PlainTexts ls → Inv s) (sysStep E app tag codec)
      (inv_step E app tag codec) ls [] _ s (fun _ => hboot) h
  have hI' := hI fun pins decoded hmem => hplain pins decoded (List.mem_append_left _ hmem)
  obtain ⟨hend, hclean, hkey, htext⟩ := inv_ui E app tag codec hI' (hplain pins decoded (by simp)) hs
  have hrange := PowerCycle.shared_inRange hflash (StepRun.run_concat h hs)
  obtain ⟨hui, hconfig⟩ := ui_kept E app tag codec hls' h'
  rw [hui, hconfig, hend.synced.shown hclean]
  unfold Redraw.current
  rw [read_image hrange hend.synced.ok _ hend.ascii, hkey, htext]

end Run

/-- A dit on a straight key, the UI task's next look at it, and the key let go
while the picture is on its way: the star stays. -/
theorem main_screen_reads_dit :
    let boot := boot StraightKey.engine Postcard.varint16 Postcard.config StraightKey.config
      (.new StraightKey.pwm StraightKey.pwm.config StraightKey.clkSysFreq) ⟨[], []⟩ .empty
    let step := sysStep StraightKey.engine ⟨.present 0, .present ()⟩ Postcard.varint16 Postcard.config
    let sample (dit : Bool) (n : ℕ) : List Label :=
      (List.replicate n [Label.keyer (.poll dit false), .keyer .count, .keyer (.tick 0)]).flatten
    let look : Label := .ui ⟨false, false, false, false⟩ fun _ => [69, 32]
    ∃ s', StepRun.run step boot (sample true 9 ++ look :: sample false 9) = some s' ∧
      s'.keyer.k.radioKey.pin = false ∧ (read s'.ui.ui.display.panel).map (·.keyed) = some true := by
  intro boot step sample look
  have hfirst : (StepRun.run step boot (sample true 9)).map (·.keyer.k.radioKey.pin) = some true := by
    decide +kernel
  obtain ⟨s, hs, hpin⟩ := Option.map_eq_some_iff.mp hfirst
  have hall : (StepRun.run step s (look :: sample false 9)).map
      (fun s' => (s'.ui.ui.screen, s'.keyer.k.radioKey.pin)) = some (.main, false) := by
    have hrun : (StepRun.run step boot (sample true 9 ++ look :: sample false 9)).map
        (fun s' => (s'.ui.ui.screen, s'.keyer.k.radioKey.pin)) = some (.main, false) := by
      decide +kernel
    rwa [StepRun.run_append, hs, Option.bind_some] at hrun
  obtain ⟨s', hs', hend⟩ := Option.map_eq_some_iff.mp hall
  obtain ⟨hmain, hup⟩ := Prod.mk.inj hend
  obtain ⟨s₁, hlook, hrest⟩ := (StepRun.run_cons_some _).mp hs'
  have hkeyer : ∀ dit n pins decoded, Label.ui pins decoded ∉ sample dit n := by
    intro dit n pins decoded hmem
    obtain ⟨_, hpass, hmem'⟩ := List.mem_flatten.mp hmem
    rw [List.eq_of_mem_replicate hpass] at hmem'
    simp at hmem'
  have hplain : PlainTexts (sample true 9 ++ [look]) := by
    intro pins decoded hmem w
    rcases List.mem_append.mp hmem with hsample | hlook
    · exact absurd hsample (hkeyer true 9 pins decoded)
    · obtain ⟨-, rfl⟩ := Label.ui.inj (List.mem_singleton.mp hlook)
      have htext : Plain [69, 32] := ⟨by decide, by decide +kernel⟩
      exact htext
  have hread := main_screen_reads StraightKey.engine ⟨.present 0, .present ()⟩ Postcard.varint16 Postcard.config
    StraightKey.config (.new StraightKey.pwm StraightKey.pwm.config StraightKey.clkSysFreq) ⟨[], []⟩ .empty
    MenuRun.straightKey_inRange hplain hs hlook (hkeyer false 9) hrest
  refine ⟨s', (StepRun.run_append_some _).mpr ⟨s, hs, hs'⟩, hup, ?_⟩
  rw [hread, if_pos hmain, hpin]
  rfl

end Monitor
end RpKeyer
