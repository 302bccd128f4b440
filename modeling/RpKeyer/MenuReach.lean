/-
# The settings the buttons can make

A numeric setting is a counter between rails, so from any settings in range
the buttons make every point of its grid; and from settings on the grid they
make nothing else. The rest is walking: from the main screen to the item, its
value, and back (`presses_turn`), one press and release of a pin at a time
(`polls_press`). So the configs the firmware can be brought to are those on
the grid, no more and no fewer (`settings_reachable`).
-/
import RpKeyer.Lib.Rail
import RpKeyer.PowerCycle

namespace RpKeyer
namespace MenuReach

open Codecs Firmware Menu UsbEmit Relation

/-! ### The grid -/

/-- A volume of `n` percent. -/
def percent (n : ℕ) : F32 := .num (n / 100)

/-- In range, and each numeric field a whole number of its steps up. -/
structure OnGrid (c : KeyerConfig) : Prop where
  range : InRange c
  sidetoneFreq : Rail.Grid 300 25 c.sidetoneFreq.toNat
  sidetoneVolume : ∃ n ≤ 100, Rail.Grid 0 5 n ∧ c.sidetoneVolume = percent n
  hangTimeMs : Rail.Grid 0 50 c.hangTimeMs.toNat
  iambicBTimingPercent : Rail.Grid 0 5 c.iambicBTimingPercent.toNat

theorem stepNat_eq {top lo hi : ℕ} (h : hi ≤ top) (v d : ℕ) (up : Bool) :
    stepNat top v d lo hi up = Rail.step lo hi d v up := by
  unfold stepNat Rail.step
  cases up
  · rfl
  · simp only [↓reduceIte]
    omega

theorem stepVolume_percent {n : ℕ} (h : n ≤ 100) (up : Bool) :
    stepVolume (percent n) up = percent (Rail.step 0 100 5 n up) := by
  have hq : (0 : ℚ) ≤ n / 100 ∧ (n : ℚ) / 100 ≤ 1 := by
    have hn : (n : ℚ) ≤ 100 := by exact_mod_cast h
    exact ⟨by positivity, by rw [div_le_one (by norm_num)]; exact hn⟩
  have hpct : ⌊(n : ℚ) / 100 * 100⌋ = n := by
    rw [div_mul_cancel₀ _ (by norm_num)]
    exact Int.floor_natCast n
  have hstep : max 0 (min 100 ((n : ℤ) + if up then 5 else -5)) = (Rail.step 0 100 5 n up : ℕ) := by
    unfold Rail.step
    cases up
    · simp only [Bool.false_eq_true, ↓reduceIte]
      omega
    · simp only [↓reduceIte]
      omega
  unfold percent
  rw [stepVolume_num hq, hpct, hstep, Int.cast_natCast]

/-- The volume is on the grid, a multiple of 5 percent. -/
def VolumeOnGrid (c : KeyerConfig) : Prop := ∃ n ≤ 100, Rail.Grid 0 5 n ∧ c.sidetoneVolume = percent n

/-- A volume on the grid stays on it, whatever the other settings are. -/
theorem volumeOnGrid_adjust {c : KeyerConfig} (h : VolumeOnGrid c) (item : MenuItem) (up : Bool) :
    VolumeOnGrid (adjust c item up) := by
  cases item with
  | sidetoneVolume =>
    obtain ⟨n, hn, hgrid, hvol⟩ := h
    have hnext : (adjust c .sidetoneVolume up).sidetoneVolume = percent (Rail.step 0 100 5 n up) := by
      rw [← stepVolume_percent hn, ← hvol]
      rfl
    exact ⟨_, (Rail.step_bounds (Nat.zero_le n) hn up).2, hgrid.step ⟨20, rfl⟩ up, hnext⟩
  | mode | wpm | weight | sidetoneFreq | hangTimeMs | keysReversed | iambicBPercent | farnsworthWpm | keyingCompMs |
    usbEmit | decoder => exact h

/-- The buttons stay on the grid. -/
theorem onGrid_adjust {c : KeyerConfig} (h : OnGrid c) (item : MenuItem) (up : Bool) :
    OnGrid (adjust c item up) := by
  have hr := adjust_inRange h.range item up
  have h32 : ∀ {v step lo hi : UInt32}, hi.toNat ≤ 4294967295 → Rail.Grid lo.toNat step.toNat v.toNat →
      Rail.Grid lo.toNat step.toNat hi.toNat → Rail.Grid lo.toNat step.toNat (stepU32 v step lo hi up).toNat := by
    intro v step lo hi hhi hv hrail
    rw [stepU32_toNat, stepNat_eq hhi]
    exact hv.step hrail up
  cases item with
  | sidetoneFreq => exact ⟨hr, h32 (by decide) h.sidetoneFreq ⟨36, rfl⟩, h.sidetoneVolume, h.hangTimeMs, h.iambicBTimingPercent⟩
  | hangTimeMs => exact ⟨hr, h.sidetoneFreq, h.sidetoneVolume, h32 (by decide) h.hangTimeMs ⟨40, rfl⟩, h.iambicBTimingPercent⟩
  | iambicBPercent =>
    refine ⟨hr, h.sidetoneFreq, h.sidetoneVolume, h.hangTimeMs, ?_⟩
    show Rail.Grid 0 5 (stepU8 c.iambicBTimingPercent 5 0 100 up).toNat
    rw [stepU8_toNat, stepNat_eq (by decide)]
    exact h.iambicBTimingPercent.step ⟨20, rfl⟩ up
  | sidetoneVolume =>
    exact ⟨hr, h.sidetoneFreq, volumeOnGrid_adjust h.sidetoneVolume .sidetoneVolume up, h.hangTimeMs,
      h.iambicBTimingPercent⟩
  | mode | wpm | weight | keysReversed | farnsworthWpm | keyingCompMs | usbEmit | decoder =>
    exact ⟨hr, h.sidetoneFreq, h.sidetoneVolume, h.hangTimeMs, h.iambicBTimingPercent⟩

/-! ### Turning the settings -/

/-- A change of one item: any step of a numeric one, the next value of a
cycling one. -/
def Turns (c c' : KeyerConfig) : Prop :=
  ∃ item up, (item.cyclesOnOk = true → up = true) ∧ c' = adjust c item up

/-- The rails and the step of a numeric item. -/
def rails : MenuItem → ℕ × ℕ × ℕ
  | .wpm => (5, 60, 1)
  | .weight => (25, 75, 1)
  | .sidetoneFreq => (300, 1200, 25)
  | .sidetoneVolume => (0, 100, 5)
  | .hangTimeMs => (0, 2000, 50)
  | .iambicBPercent => (0, 100, 5)
  | .farnsworthWpm => (0, 60, 1)
  | .keyingCompMs => (0, 50, 1)
  | .mode | .keysReversed | .usbEmit | .decoder => (0, 0, 0)

/-- The config with `n` in the item's field. -/
def put (c : KeyerConfig) (item : MenuItem) (n : ℕ) : KeyerConfig :=
  match item with
  | .wpm => { c with speedWpm := .ofNat n }
  | .weight => { c with weight := .ofNat n }
  | .sidetoneFreq => { c with sidetoneFreq := .ofNat n }
  | .sidetoneVolume => { c with sidetoneVolume := percent n }
  | .hangTimeMs => { c with hangTimeMs := .ofNat n }
  | .iambicBPercent => { c with iambicBTimingPercent := .ofNat n }
  | .farnsworthWpm => { c with farnsworthWpm := .ofNat n }
  | .keyingCompMs => { c with keyingCompensationMs := .ofNat n }
  | .mode | .keysReversed | .usbEmit | .decoder => c

theorem stepU8_ofNat {n lo hi : ℕ} {step : UInt8} (hhi : hi < 256) (hlo : lo < 256) (hn : lo ≤ n ∧ n ≤ hi)
    (up : Bool) : stepU8 (.ofNat n) step (.ofNat lo) (.ofNat hi) up = .ofNat (Rail.step lo hi step.toNat n up) := by
  have hbounds := Rail.step_bounds (d := step.toNat) hn.1 hn.2 up
  have hcast : ∀ m : ℕ, m < 256 → (UInt8.ofNat m).toNat = m := fun m hm => UInt8.toNat_ofNat_of_lt' hm
  rw [← UInt8.toNat_inj, stepU8_toNat, hcast n (by omega), hcast lo hlo, hcast hi hhi, hcast _ (by omega),
    stepNat_eq (by omega)]

theorem stepU32_ofNat {n lo hi : ℕ} {step : UInt32} (hhi : hi < 2 ^ 32) (hlo : lo < 2 ^ 32) (hn : lo ≤ n ∧ n ≤ hi)
    (up : Bool) : stepU32 (.ofNat n) step (.ofNat lo) (.ofNat hi) up = .ofNat (Rail.step lo hi step.toNat n up) := by
  have hbounds := Rail.step_bounds (d := step.toNat) hn.1 hn.2 up
  have hcast : ∀ m : ℕ, m < 2 ^ 32 → (UInt32.ofNat m).toNat = m := fun m hm => UInt32.toNat_ofNat_of_lt' hm
  rw [← UInt32.toNat_inj, stepU32_toNat, hcast n (by omega), hcast lo hlo, hcast hi hhi, hcast _ (by omega),
    stepNat_eq (by omega)]

/-- A numeric item is a counter between its rails. -/
theorem adjust_put (c : KeyerConfig) {item : MenuItem} (hitem : item.cyclesOnOk = false) {n : ℕ}
    (hn : (rails item).1 ≤ n ∧ n ≤ (rails item).2.1) (up : Bool) :
    adjust (put c item n) item up = put c item (Rail.step (rails item).1 (rails item).2.1 (rails item).2.2 n up) := by
  cases item with
  | mode | keysReversed | usbEmit | decoder => cases hitem
  | wpm => exact congrArg (fun v => { c with speedWpm := v }) (stepU8_ofNat (by decide) (by decide) hn up)
  | weight => exact congrArg (fun v => { c with weight := v }) (stepU8_ofNat (by decide) (by decide) hn up)
  | sidetoneFreq => exact congrArg (fun v => { c with sidetoneFreq := v }) (stepU32_ofNat (by decide) (by decide) hn up)
  | sidetoneVolume => exact congrArg (fun v => { c with sidetoneVolume := v }) (stepVolume_percent hn.2 up)
  | hangTimeMs => exact congrArg (fun v => { c with hangTimeMs := v }) (stepU32_ofNat (by decide) (by decide) hn up)
  | iambicBPercent =>
    exact congrArg (fun v => { c with iambicBTimingPercent := v }) (stepU8_ofNat (by decide) (by decide) hn up)
  | farnsworthWpm => exact congrArg (fun v => { c with farnsworthWpm := v }) (stepU8_ofNat (by decide) (by decide) hn up)
  | keyingCompMs =>
    exact congrArg (fun v => { c with keyingCompensationMs := v }) (stepU8_ofNat (by decide) (by decide) hn up)

theorem turn_put (c : KeyerConfig) {item : MenuItem} (hitem : item.cyclesOnOk = false) {n m : ℕ}
    (h : ReflTransGen (Rail.Moves (rails item).1 (rails item).2.1 (rails item).2.2) n m) :
    ReflTransGen Turns (put c item n) (put c item m) := by
  refine ReflTransGen.lift (put c item) (fun v w hvw => ?_) _ _ h
  obtain ⟨hv, up, rfl⟩ := hvw
  exact ⟨item, up, fun hcyc => absurd hcyc (hitem ▸ Bool.false_ne_true), (adjust_put c hitem hv up).symm⟩

/-- From anywhere between the rails, every point of the grid. -/
theorem reach_put (c : KeyerConfig) {item : MenuItem} (hitem : item.cyclesOnOk = false) {n m : ℕ}
    (hn : (rails item).1 ≤ n ∧ n ≤ (rails item).2.1) (hm : Rail.Grid (rails item).1 (rails item).2.2 m)
    (hm' : m ≤ (rails item).2.1) : ReflTransGen Turns (put c item n) (put c item m) := by
  refine turn_put c hitem (Rail.reach ?_ hn.1 hn.2 hm hm')
  cases item with
  | mode | keysReversed | usbEmit | decoder => cases hitem
  | wpm | weight | sidetoneFreq | sidetoneVolume | hangTimeMs | iambicBPercent | farnsworthWpm | keyingCompMs =>
    decide

/-- A step of 1 reaches everything. -/
theorem grid_one {lo n : ℕ} (h : lo ≤ n) : Rail.Grid lo 1 n := ⟨n - lo, by omega⟩

theorem reach_mode (c : KeyerConfig) (m : KeyerMode) : ReflTransGen Turns c { c with mode := m } := by
  have hcycle : ∀ m m' : KeyerMode, ∃ k < 6, (nextMode · true)^[k] m = m' := by
    intro m m'
    cases m <;> cases m' <;> decide
  have hturn : ∀ (k : ℕ) (c : KeyerConfig), ReflTransGen Turns c { c with mode := (nextMode · true)^[k] c.mode } := by
    intro k
    induction k with
    | zero => exact fun c => .refl
    | succ k ih =>
      intro c
      exact .head ⟨.mode, true, fun _ => rfl, rfl⟩ (ih { c with mode := nextMode c.mode true })
  obtain ⟨k, -, hk⟩ := hcycle c.mode m
  exact hk ▸ hturn k c

/-- Whatever the volume, one step makes it a whole number of percent. -/
theorem volume_step {c : KeyerConfig} (h : Unit01 c.sidetoneVolume) :
    ∃ n ≤ 100, Turns c (put c .sidetoneVolume n) := by
  cases hvol : c.sidetoneVolume with
  | nan =>
    rw [hvol] at h
    exact h.elim
  | num q =>
    rw [hvol] at h
    have hstep := stepVolume_num h false
    obtain ⟨n, hn⟩ := Int.eq_ofNat_of_zero_le (le_max_left 0 (min 100 (⌊q * 100⌋ + if false then 5 else -5)))
    rw [hn] at hstep
    refine ⟨n, by omega, .sidetoneVolume, false, fun hcyc => (nomatch hcyc), ?_⟩
    show { c with sidetoneVolume := percent n } = { c with sidetoneVolume := stepVolume c.sidetoneVolume false }
    rw [hvol, hstep]
    rfl

/-- Every item can be given any value of its grid. -/
theorem reach_item {c t : KeyerConfig} (hc : InRange c) (ht : OnGrid t) (item : MenuItem) :
    ReflTransGen Turns c (setFrom item c t) := by
  have hput : ∀ {n m : ℕ}, item.cyclesOnOk = false → c = put c item n → setFrom item c t = put c item m →
      ((rails item).1 ≤ n ∧ n ≤ (rails item).2.1) → Rail.Grid (rails item).1 (rails item).2.2 m →
      m ≤ (rails item).2.1 → ReflTransGen Turns c (setFrom item c t) := by
    intro n m hitem hfrom hto hn hm hm'
    have hreach := reach_put c hitem hn hm hm'
    rwa [← hfrom, ← hto] at hreach
  have htoggle : setFrom item c t = c ∨ setFrom item c t = adjust c item true →
      ReflTransGen Turns c (setFrom item c t) := by
    rintro (hsame | hnext)
    · rw [hsame]
    · rw [hnext]
      exact .single ⟨item, true, fun _ => rfl, rfl⟩
  have hflip : ∀ {a b : Bool}, a ≠ b → a = !b := by decide
  have hr := ht.range
  have u8 : ∀ {lo v hi : UInt8}, lo ≤ v ∧ v ≤ hi → lo.toNat ≤ v.toNat ∧ v.toNat ≤ hi.toNat := fun h => h
  have u32 : ∀ {lo v hi : UInt32}, lo ≤ v ∧ v ≤ hi → lo.toNat ≤ v.toNat ∧ v.toNat ≤ hi.toNat := fun h => h
  cases item with
  | mode => exact reach_mode c t.mode
  | wpm =>
    exact hput (n := c.speedWpm.toNat) (m := t.speedWpm.toNat) rfl (by simp [put]) (by simp [put, setFrom])
      (u8 hc.speedWpm) (grid_one (u8 hr.speedWpm).1) (u8 hr.speedWpm).2
  | weight =>
    exact hput (n := c.weight.toNat) (m := t.weight.toNat) rfl (by simp [put]) (by simp [put, setFrom])
      (u8 hc.weight) (grid_one (u8 hr.weight).1) (u8 hr.weight).2
  | sidetoneFreq =>
    exact hput (n := c.sidetoneFreq.toNat) (m := t.sidetoneFreq.toNat) rfl (by simp [put]) (by simp [put, setFrom])
      (u32 hc.sidetoneFreq) ht.sidetoneFreq (u32 hr.sidetoneFreq).2
  | sidetoneVolume =>
    obtain ⟨n, hn, hturn⟩ := volume_step hc.sidetoneVolume
    obtain ⟨m, hm, hgrid, hvol⟩ := ht.sidetoneVolume
    have hto : setFrom .sidetoneVolume c t = put c .sidetoneVolume m := by
      simp [put, setFrom, hvol]
    rw [hto]
    exact .head hturn (reach_put c rfl ⟨Nat.zero_le n, hn⟩ hgrid hm)
  | hangTimeMs =>
    exact hput (n := c.hangTimeMs.toNat) (m := t.hangTimeMs.toNat) rfl (by simp [put]) (by simp [put, setFrom])
      ⟨Nat.zero_le _, hc.hangTimeMs⟩ ht.hangTimeMs hr.hangTimeMs
  | keysReversed =>
    refine htoggle ?_
    by_cases heq : t.keysReversed = c.keysReversed
    · exact .inl (by simp [setFrom, heq])
    · exact .inr (by simp [setFrom, adjust, hflip heq])
  | iambicBPercent =>
    exact hput (n := c.iambicBTimingPercent.toNat) (m := t.iambicBTimingPercent.toNat) rfl (by simp [put])
      (by simp [put, setFrom]) ⟨Nat.zero_le _, hc.iambicBTimingPercent⟩ ht.iambicBTimingPercent hr.iambicBTimingPercent
  | farnsworthWpm =>
    exact hput (n := c.farnsworthWpm.toNat) (m := t.farnsworthWpm.toNat) rfl (by simp [put]) (by simp [put, setFrom])
      ⟨Nat.zero_le _, hc.farnsworthWpm⟩ (grid_one (Nat.zero_le _)) hr.farnsworthWpm
  | keyingCompMs =>
    exact hput (n := c.keyingCompensationMs.toNat) (m := t.keyingCompensationMs.toNat) rfl (by simp [put])
      (by simp [put, setFrom]) ⟨Nat.zero_le _, hc.keyingCompensationMs⟩ (grid_one (Nat.zero_le _))
      hr.keyingCompensationMs
  | usbEmit =>
    refine htoggle ?_
    cases hc : c.usbEmitStyle <;> cases ht : t.usbEmitStyle
    · exact .inl (by simp [setFrom, ht, ← hc])
    · exact .inr (by simp [setFrom, adjust, hc, ht])
    · exact .inr (by simp [setFrom, adjust, hc, ht])
    · exact .inl (by simp [setFrom, ht, ← hc])
  | decoder =>
    refine htoggle ?_
    by_cases heq : t.decoderEnabled = c.decoderEnabled
    · exact .inl (by simp [setFrom, heq])
    · exact .inr (by simp [setFrom, adjust, hflip heq])

theorem inRange_setFrom {c t : KeyerConfig} (hc : InRange c) (ht : InRange t) (item : MenuItem) :
    InRange (setFrom item c t) := by
  cases item with
  | wpm => exact { hc with speedWpm := ht.speedWpm }
  | weight => exact { hc with weight := ht.weight }
  | sidetoneFreq => exact { hc with sidetoneFreq := ht.sidetoneFreq }
  | sidetoneVolume => exact { hc with sidetoneVolume := ht.sidetoneVolume }
  | hangTimeMs => exact { hc with hangTimeMs := ht.hangTimeMs }
  | iambicBPercent => exact { hc with iambicBTimingPercent := ht.iambicBTimingPercent }
  | farnsworthWpm => exact { hc with farnsworthWpm := ht.farnsworthWpm }
  | keyingCompMs => exact { hc with keyingCompensationMs := ht.keyingCompensationMs }
  | mode | keysReversed | usbEmit | decoder => exact { hc with }

/-- Every field belongs to an item. -/
theorem foldl_setFrom (c t : KeyerConfig) : MenuItem.all.foldl (fun c item => setFrom item c t) c = t := by
  cases c
  cases t
  rfl

/-- Item by item, any settings of the grid. -/
theorem reach_config {c t : KeyerConfig} (hc : InRange c) (ht : OnGrid t) : ReflTransGen Turns c t := by
  have hitems : ∀ (items : List MenuItem) (c : KeyerConfig), InRange c →
      ReflTransGen Turns c (items.foldl (fun c item => setFrom item c t) c) := by
    intro items
    induction items with
    | nil => exact fun c _ => .refl
    | cons item items ih =>
      exact fun c hc => (reach_item hc ht item).trans (ih _ (inRange_setFrom hc ht.range item))
  have hall := hitems MenuItem.all c hc
  rwa [foldl_setFrom] at hall

/-! ### Walking through the menu -/

/-- The main screen, with the settings `c`. -/
def AtMain (c : KeyerConfig) (s : MenuRun.State) : Prop := s.ui.screen = .main ∧ s.config = c

/-- A button that goes to another screen. -/
theorem uiStep_goto (s : MenuRun.State) (ev : ButtonEvent) (screen : Screen)
    (h : s.ui.onButton ev s.config = some ({ s.ui with screen := screen, dirty := true }, s.config, true)) :
    ∃ s', MenuRun.uiStep s ev = some s' ∧ s'.ui.screen = screen ∧ s'.config = s.config :=
  ⟨⟨{ s.ui with screen := screen, dirty := true }, s.config, s.visit.note s.ui.screen ev⟩,
    by rw [MenuRun.uiStep, h]; rfl, rfl, rfl⟩

/-- A button that turns a setting. -/
theorem uiStep_adjust (s : MenuRun.State) (ev : ButtonEvent) (config : KeyerConfig)
    (h : s.ui.onButton ev s.config = some ({ s.ui with dirty := true, configChanged := true }, config, true)) :
    ∃ s', MenuRun.uiStep s ev = some s' ∧ s'.ui.screen = s.ui.screen ∧ s'.config = config :=
  ⟨⟨{ s.ui with dirty := true, configChanged := true }, config, s.visit.note s.ui.screen ev⟩,
    by rw [MenuRun.uiStep, h]; rfl, rfl, rfl⟩

/-- From the main screen to any item of the menu. -/
theorem walk_to {s : MenuRun.State} (hs : s.ui.screen = .main) : ∀ k : ℕ, k < MenuItem.all.length →
    ∃ evs s', StepRun.run MenuRun.uiStep s evs = some s' ∧ s'.ui.screen = .menu (.ofNat k) ∧ s'.config = s.config
  | 0, _ => by
    obtain ⟨s', hok, hscreen, hconfig⟩ := uiStep_goto s .ok (.menu 0)
      (by simp [Ui.onButton, hs])
    exact ⟨[.ok], s', (StepRun.run_cons_some _).mpr ⟨s', hok, rfl⟩, hscreen, hconfig⟩
  | k + 1, hk => by
    obtain ⟨evs, s₁, hrun, hscreen, hconfig⟩ := walk_to hs k (by omega)
    have hnext : ∀ k < 11, (UInt8.ofNat k + 1) % MenuItem.all.length.toUInt8 = .ofNat (k + 1) := by decide
    have hk' : k < 11 := Nat.lt_of_succ_lt_succ hk
    obtain ⟨s₂, hdown, hscreen', hconfig'⟩ := uiStep_goto s₁ .down (.menu (.ofNat (k + 1)))
      (by rw [← hnext k hk']; simp [Ui.onButton, hscreen])
    exact ⟨evs ++ [.down], s₂, StepRun.run_concat hrun hdown, hscreen', hconfig'.trans hconfig⟩

theorem mem_all (item : MenuItem) : item ∈ MenuItem.all := by
  cases item <;> decide

/-- A change of an item, from the main screen and back to it. -/
theorem presses_turn {c c' : KeyerConfig} {s : MenuRun.State} (hs : AtMain c s) (h : Turns c c') :
    ∃ evs s', StepRun.run MenuRun.uiStep s evs = some s' ∧ AtMain c' s' := by
  obtain ⟨item, up, hup, rfl⟩ := h
  obtain ⟨hmain, rfl⟩ := hs
  obtain ⟨k, hk, hget⟩ := List.getElem_of_mem (mem_all item)
  have hitem : MenuItem.all[(UInt8.ofNat k).toNat]? = some item := by
    have hlen : MenuItem.all.length = 12 := rfl
    rw [UInt8.toNat_ofNat_of_lt' (show k < 256 by omega), List.getElem?_eq_getElem hk, hget]
  obtain ⟨evs, s₁, hwalk, hscreen, hconfig⟩ := walk_to hmain k hk
  rw [← hconfig]
  generalize UInt8.ofNat k = selected at hitem hscreen
  -- back from the menu to the main screen
  have hback : ∀ s₂ : MenuRun.State, s₂.ui.screen = .menu selected →
      ∃ s₃, MenuRun.uiStep s₂ .back = some s₃ ∧ s₃.ui.screen = .main ∧ s₃.config = s₂.config :=
    fun s₂ hs₂ => uiStep_goto s₂ .back .main (by simp [Ui.onButton, hs₂])
  cases hcyc : item.cyclesOnOk with
  | true =>
    rw [hup hcyc]
    obtain ⟨s₂, hok, hscreen₂, hconfig₂⟩ := uiStep_adjust s₁ .ok (adjust s₁.config item true)
      (by simp [Ui.onButton, hscreen, hitem, hcyc])
    obtain ⟨s₃, hleave, hscreen₃, hconfig₃⟩ := hback s₂ (hscreen₂.trans hscreen)
    exact ⟨evs ++ [.ok] ++ [.back], s₃, StepRun.run_concat (StepRun.run_concat hwalk hok) hleave, hscreen₃,
      hconfig₃.trans hconfig₂⟩
  | false =>
    obtain ⟨s₂, hok, hscreen₂, hconfig₂⟩ := uiStep_goto s₁ .ok (.edit selected)
      (by simp [Ui.onButton, hscreen, hitem, hcyc])
    obtain ⟨s₃, hturn, hscreen₃, hconfig₃⟩ := uiStep_adjust s₂ (if up then .up else .down)
      (adjust s₂.config item up) (by cases up <;> simp [Ui.onButton, hscreen₂, hitem])
    obtain ⟨s₄, hdone, hscreen₄, hconfig₄⟩ := uiStep_goto s₃ .ok (.menu selected)
      (by simp [Ui.onButton, hscreen₃, hscreen₂])
    obtain ⟨s₅, hleave, hscreen₅, hconfig₅⟩ := hback s₄ hscreen₄
    refine ⟨evs ++ [.ok] ++ [if up then .up else .down] ++ [.ok] ++ [.back], s₅, ?_, hscreen₅, ?_⟩
    · exact StepRun.run_concat (StepRun.run_concat (StepRun.run_concat (StepRun.run_concat hwalk hok) hturn) hdone) hleave
    · rw [hconfig₅, hconfig₄, hconfig₃, hconfig₂]

/-- Any settings of the grid, from the main screen and back to it. -/
theorem presses_config {c t : KeyerConfig} (hc : InRange c) (ht : OnGrid t) {s : MenuRun.State} (hs : AtMain c s) :
    ∃ evs s', StepRun.run MenuRun.uiStep s evs = some s' ∧ AtMain t s' := by
  have hreach := reach_config hc ht
  clear ht
  induction hreach with
  | refl => exact ⟨[], s, rfl, hs⟩
  | tail _ hturn ih =>
    obtain ⟨evs, s₁, hrun, hs₁⟩ := ih
    obtain ⟨evs', s₂, hrun', hs₂⟩ := presses_turn hs₁ hturn
    exact ⟨evs ++ evs', s₂, (StepRun.run_append_some _).mpr ⟨s₁, hrun, hrun'⟩, hs₂⟩

/-! ### The pins -/

/-- A button held down for two polls and let go for two. -/
def press (ev : ButtonEvent) : List Pins :=
  let low : Pins := ⟨ev = .up, ev = .down, ev = .ok, ev = .back⟩
  let high : Pins := ⟨false, false, false, false⟩
  [low, low, high, high]

/-- The panel reports it once and is at rest after it. -/
theorem poll_press (buf : Vector ButtonEvent 4) (ev : ButtonEvent) :
    (ButtonPanel.new.polls buf (press ev)).flatten = [ev] ∧
      (ButtonPanel.new.after buf (press ev)).1 = .new := by
  refine ⟨?_, by cases ev <;> rfl⟩
  unfold press ButtonPanel.polls
  simp only [ButtonPanel.polls, ButtonPanel.events_poll]
  cases ev <;> rfl

theorem polls_append (ss' : List Pins) : ∀ (ss : List Pins) (p : ButtonPanel) (buf : Vector ButtonEvent 4),
    p.polls buf (ss ++ ss') = p.polls buf ss ++ (p.after buf ss).1.polls (p.after buf ss).2 ss'
  | [], _, _ => rfl
  | s :: ss, p, buf => by
    have ih := polls_append ss' ss (p.poll s buf).1 (p.poll s buf).2.1
    simp only [List.cons_append, ButtonPanel.polls, ih]
    rfl

/-- Any sequence of events can be pressed. -/
theorem polls_press : ∀ (evs : List ButtonEvent) (buf : Vector ButtonEvent 4),
    (ButtonPanel.new.polls buf (evs.flatMap press)).flatten = evs
  | [], _ => rfl
  | ev :: evs, buf => by
    obtain ⟨hone, hrest⟩ := poll_press buf ev
    rw [List.flatMap_cons, polls_append, List.flatten_append, hone, hrest, polls_press evs]
    rfl

/-! ### The theorem -/

variable {ε : Type} (E : Engine ε) (app : App) (tag : Codec UInt16) (codec : Codec KeyerConfig)

/-- The UI task alone goes on whatever pins it samples. -/
theorem ui_run (dflt : KeyerConfig) (bz : Buzzer) (display : Display) (flash : Storage.Flash) (ss : List Pins) :
    ∃ s, StepRun.run (sysStep E app tag codec) (boot E tag codec dflt bz display flash)
      (ss.map fun pins => .ui pins fun _ => []) = some s := by
  have hstep : ∀ (s : Sys ε) (pins : Pins), Redraw.Synced s.ui s.st.sharedConfig →
      ∃ s', sysStep E app tag codec s (.ui pins fun _ => []) = some s' ∧ Redraw.Synced s'.ui s'.st.sharedConfig := by
    intro s pins hs
    obtain ⟨t', st', hiter, hsync, -⟩ := Redraw.synced_iteration s.st hs ⟨(s.poll pins).2.2, fun _ => []⟩
    refine ⟨{ s.withStatics st' with ui := t', panel := (s.poll pins).1, btnBuf := (s.poll pins).2.1 }, ?_, hsync⟩
    show (s.ui.iteration s.st _).map _ = _
    rw [hiter]
    rfl
  obtain ⟨s, hrun, -⟩ := StepRun.run_total (fun s pins => sysStep E app tag codec s (.ui pins fun _ => [])) hstep ss
    (boot E tag codec dflt bz display flash) (Redraw.synced_boot display (Persist.restore tag codec dflt flash))
  refine ⟨s, ?_⟩
  rw [← hrun]
  exact List.foldlM_map ..

/-- **The settings the buttons make.** From any settings in the menu's ranges
the firmware, its buttons pressed one after the other and nothing else running
but the UI task, reaches every config on the grid; and booted with a config on
the grid it is never at one off it, however its tasks interleave. -/
theorem settings_reachable (dflt : KeyerConfig) (bz : Buzzer) (display : Display) (flash : Storage.Flash)
    (hflash : InRange (Persist.restore tag codec dflt flash)) :
    let Reached (ls : List Label) (c : KeyerConfig) : Prop := ∃ s, StepRun.run (sysStep E app tag codec)
      (boot E tag codec dflt bz display flash) ls = some s ∧ s.st.sharedConfig = c
    (∀ c, OnGrid c → ∃ evs : List ButtonEvent,
      Reached ((evs.flatMap press).map fun pins => .ui pins fun _ => []) c) ∧
    (OnGrid (Persist.restore tag codec dflt flash) → ∀ c, (∃ ls, Reached ls c) ↔ OnGrid c) := by
  intro Reached
  have hreach : ∀ c, OnGrid c → ∃ evs : List ButtonEvent,
      Reached ((evs.flatMap press).map fun pins => .ui pins fun _ => []) c := by
    intro c hc
    obtain ⟨evs, m, hm, -, hmc⟩ := presses_config hflash hc
      (s := MenuRun.start display (Persist.restore tag codec dflt flash)) ⟨rfl, rfl⟩
    obtain ⟨s, hs⟩ := ui_run E app tag codec dflt bz display flash (evs.flatMap press)
    obtain ⟨m', hm', -, hconfig⟩ := (asMenu E app tag codec).run
      (t := MenuRun.start display (Persist.restore tag codec dflt flash)) ⟨rfl, rfl⟩ hs
    have hpins : ∀ ss : List Pins, (ss.map fun pins => (Label.ui pins fun _ => [])).flatMap Label.pins = ss :=
      fun ss => by rw [List.flatMap_map]; exact List.flatMap_singleton' ss
    have htrace := presses_trace E app tag codec hs
    rw [hpins] at htrace
    have hpresses : (ButtonPanel.new.polls (.replicate 4 .up) (evs.flatMap press)).flatten = evs :=
      polls_press evs _
    rw [show (asMenu E app tag codec).labels = menuLabels from rfl, htrace] at hm'
    obtain rfl : m = m' := by
      have hsame := hm'.symm.trans ((congrArg _ hpresses).trans hm)
      exact (Option.some.inj hsame).symm
    exact ⟨evs, s, hs, hconfig.symm.trans hmc⟩
  refine ⟨hreach, fun hgrid c => ⟨?_, fun hc => ?_⟩⟩
  · rintro ⟨ls, s, hs, rfl⟩
    exact shared_config E app tag codec (P := OnGrid) (fun _ item up hc => onGrid_adjust hc item up) hgrid hs
  · obtain ⟨evs, hevs⟩ := hreach c hc
    exact ⟨_, hevs⟩

theorem straightKey_onGrid : OnGrid StraightKey.config where
  range := MenuRun.straightKey_inRange
  sidetoneFreq := ⟨12, by decide⟩
  sidetoneVolume := ⟨50, by omega, ⟨10, rfl⟩, by norm_num [percent, StraightKey.config]⟩
  hangTimeMs := ⟨6, by decide⟩
  iambicBTimingPercent := ⟨12, by decide⟩

/-- From 600 Hz the buttons make 725 Hz, and nothing makes 710. -/
theorem settings_reachable_tone :
    let Reached (ls : List Label) (f : UInt32) : Prop := ∃ s, StepRun.run (sysStep StraightKey.engine
        ⟨.present 0, .present ()⟩ Postcard.varint16 Postcard.config) (boot StraightKey.engine Postcard.varint16
          Postcard.config StraightKey.config (.new StraightKey.pwm StraightKey.pwm.config StraightKey.clkSysFreq)
            ⟨[], []⟩ .empty) ls = some s ∧ s.st.sharedConfig.sidetoneFreq = f
    (∃ evs : List ButtonEvent, Reached ((evs.flatMap press).map fun pins => .ui pins fun _ => []) 725) ∧
      ¬∃ ls, Reached ls 710 := by
  intro Reached
  obtain ⟨hreach, hgrid⟩ := settings_reachable StraightKey.engine ⟨.present 0, .present ()⟩ Postcard.varint16
    Postcard.config StraightKey.config (.new StraightKey.pwm StraightKey.pwm.config StraightKey.clkSysFreq) ⟨[], []⟩
    .empty MenuRun.straightKey_inRange
  have hr := straightKey_onGrid
  constructor
  · obtain ⟨evs, s, hs, hc⟩ := hreach { StraightKey.config with sidetoneFreq := 725 }
      { hr with
        range := { hr.range with sidetoneFreq := by decide }
        sidetoneFreq := ⟨17, by decide⟩ }
    exact ⟨evs, s, hs, congrArg KeyerConfig.sidetoneFreq hc⟩
  · rintro ⟨ls, s, hs, hf⟩
    obtain ⟨k, hk⟩ := ((hgrid straightKey_onGrid _).mp ⟨ls, s, hs, rfl⟩).sidetoneFreq
    rw [hf] at hk
    have h710 : (710 : UInt32).toNat = 710 := rfl
    omega

end MenuReach
end RpKeyer
