/-
# One configuration at a time

The keyer caches four fields of the shared config, the engine holds a copy of
its own, and the buzzer is programmed from two more. The loop body awaits the
config mutex between `set_paddle` and the tick, so here it is taken in its
four sections, with edits of the shared config and changes of the save lock
landing between any two of them (`loopStep`; `loop_iteration`: without such a
change in between, it is `Keyer.iteration`).

At every section of every run the cached fields, the engine's config and the
buzzer's settings are those of one config, the shared one at the last refresh
(`OneConfig`), and a refresh happens exactly in every
`CONFIG_REFRESH_TICKS`-th unparked iteration.
-/
import RpKeyer.StraightKey

namespace RpKeyer
namespace Loop

variable {ε : Type} (E : Engine ε)

/-! ### The loop in sections -/

/-- Where the loop stands: at its top, before the count, awaiting the config
mutex, or before the tick. -/
inductive Pc
  | top | count | lock | tick
  deriving DecidableEq, Repr

structure State (ε : Type) where
  pc : Pc
  k : Keyer ε
  st : Statics

/-- A section of the loop, or a change made by another task. -/
inductive Label
  | edit (config : KeyerConfig)
  | saveLock (b : Bool)
  | park
  | poll (rawDit rawDah : Bool)
  | count
  | refresh
  | tick (nowUs : ℕ)

def loopStep (s : State ε) : Label → Option (State ε)
  | .edit c => some { s with st := { s.st with sharedConfig := c } }
  | .saveLock b => some { s with st := { s.st with saveLock := b } }
  | .park =>
    if s.pc = .top ∧ s.st.saveLock = true then
      some { s with st := { s.st with engineActive := false } }
    else none
  | .poll a b =>
    if s.pc = .top ∧ s.st.saveLock = false then
      some ⟨.count, (s.k.poll E s.st a b).1, (s.k.poll E s.st a b).2⟩
    else none
  | .count =>
    if s.pc = .count then some ⟨if s.k.count.2 then .lock else .tick, s.k.count.1, s.st⟩ else none
  | .refresh =>
    if s.pc = .lock then some ⟨.tick, (s.k.refresh E s.st).1, (s.k.refresh E s.st).2⟩ else none
  | .tick n =>
    if s.pc = .tick then some ⟨.top, (s.k.tick E s.st n).1, (s.k.tick E s.st n).2⟩ else none

/-- The labels of one unparked iteration of `k`. -/
def labels (k : Keyer ε) (st : Statics) (a b : Bool) (n : ℕ) : List Label :=
  [.poll a b, .count] ++ (if (k.poll E st a b).1.count.2 then [.refresh] else []) ++ [.tick n]

/-- Taken without interruption, the sections are one iteration. -/
theorem loop_iteration (k : Keyer ε) (st : Statics) (h : st.saveLock = false) (a b : Bool) (n : ℕ) :
    StepRun.run (loopStep E) ⟨.top, k, st⟩ (labels E k st a b n) =
      some ⟨.top, (k.iteration E st a b n).1, (k.iteration E st a b n).2⟩ := by
  rw [Keyer.iteration_unparked E k h]
  unfold labels Keyer.beforeTick Keyer.section4
  cases hc : (k.poll E st a b).1.count.2 with
  | true =>
    simp [StepRun.run_cons, StepRun.run_nil, loopStep, h, hc]
  | false =>
    simp [StepRun.run_cons, StepRun.run_nil, loopStep, h, hc]

/-! ### The engine's own config -/

/-- `held e` is the config the engine `e` was last given. -/
structure Holds (held : ε → KeyerConfig) : Prop where
  new : ∀ c t, held (E.newWithTick c t) = c
  setPaddle : ∀ e a b, held (E.setPaddle e a b) = held e
  updateConfig : ∀ e c, held (E.updateConfig e c) = c
  tick : ∀ e, held (E.tick e).1 = held e

/-- The shared config and its value at the last refresh, from the labels. -/
def observe (p : KeyerConfig × KeyerConfig) : Label → KeyerConfig × KeyerConfig
  | .edit c => (c, p.2)
  | .refresh => (p.1, p.1)
  | _ => p

/-- The shared config now. -/
def sharedConfig (c₀ : KeyerConfig) (ls : List Label) : KeyerConfig := (ls.foldl observe (c₀, c₀)).1

/-- The shared config as it was at the last refresh, or at boot. -/
def lastRefresh (c₀ : KeyerConfig) (ls : List Label) : KeyerConfig := (ls.foldl observe (c₀, c₀)).2

/-- The unparked iterations begun. -/
def unparked (ls : List Label) : ℕ := ls.countP fun | .poll _ _ => true | _ => false

/-- The refreshes made. -/
def refreshes (ls : List Label) : ℕ := ls.countP fun | .refresh => true | _ => false

theorem observe_snoc (c₀ : KeyerConfig) (ls : List Label) (a : Label) :
    (ls ++ [a]).foldl observe (c₀, c₀) = observe (sharedConfig c₀ ls, lastRefresh c₀ ls) a := by
  rw [List.foldl_append]
  rfl

/-! ### The invariant -/

/-- Everything the keyer took from the shared config is from `c`. -/
structure OneConfig (held : ε → KeyerConfig) (k : Keyer ε) (c : KeyerConfig) : Prop where
  engine : held k.engine = c
  keysReversed : k.keysReversed = c.keysReversed
  emitStyle : k.emitStyle = c.usbEmitStyle
  wpm : k.wpm = c.speedWpm
  decoderEnabled : k.decoderEnabled = c.decoderEnabled
  freq : k.buzzer.currentFreqHz = max c.sidetoneFreq 50
  volume : |c.sidetoneVolume.clampUnit - k.buzzer.currentVolume| < F32.epsilon

/-- The refresh counter against the iterations begun and the refreshes made. -/
def Counted (pc : Pc) (k : Keyer ε) (ls : List Label) : Prop :=
  match pc with
  | .top | .tick => k.refreshCounter.toNat = unparked ls % 200 ∧ refreshes ls = unparked ls / 200
  | .count => k.refreshCounter.toNat = (unparked ls - 1) % 200 ∧ 1 ≤ unparked ls ∧
      refreshes ls = (unparked ls - 1) / 200
  | .lock => k.refreshCounter.toNat = 0 ∧ 200 ∣ unparked ls ∧ refreshes ls + 1 = unparked ls / 200

structure Inv (held : ε → KeyerConfig) (c₀ : KeyerConfig) (ls : List Label) (s : State ε) : Prop where
  shared : s.st.sharedConfig = sharedConfig c₀ ls
  one : OneConfig held s.k (lastRefresh c₀ ls)
  counted : Counted s.pc s.k ls

theorem oneConfig_start {held : ε → KeyerConfig} (hE : Holds E held) (st : Statics) (r : RadioKey)
    (bz : Buzzer) : OneConfig held (Keyer.start E st r bz) st.sharedConfig where
  engine := hE.new _ _
  keysReversed := rfl
  emitStyle := rfl
  wpm := rfl
  decoderEnabled := rfl
  freq := Buzzer.updateSettings_freq _ _ _
  volume := Buzzer.updateSettings_volume _ _ _

theorem OneConfig.poll {held : ε → KeyerConfig} (hE : Holds E held) {k : Keyer ε} {c : KeyerConfig}
    (h : OneConfig held k c) (st : Statics) (a b : Bool) : OneConfig held (k.poll E st a b).1 c :=
  ⟨(hE.setPaddle _ _ _).trans h.engine, h.keysReversed, h.emitStyle, h.wpm, h.decoderEnabled, h.freq,
    h.volume⟩

theorem OneConfig.count {held : ε → KeyerConfig} {k : Keyer ε} {c : KeyerConfig}
    (h : OneConfig held k c) : OneConfig held k.count.1 c := by
  unfold Keyer.count
  simp only
  split
  · exact ⟨h.engine, h.keysReversed, h.emitStyle, h.wpm, h.decoderEnabled, h.freq, h.volume⟩
  · exact ⟨h.engine, h.keysReversed, h.emitStyle, h.wpm, h.decoderEnabled, h.freq, h.volume⟩

/-- A refresh replaces everything at once. -/
theorem oneConfig_refresh {held : ε → KeyerConfig} (hE : Holds E held) (k : Keyer ε) (st : Statics) :
    OneConfig held (k.refresh E st).1 st.sharedConfig :=
  ⟨hE.updateConfig _ _, rfl, rfl, rfl, rfl, Buzzer.updateSettings_freq _ _ _,
    Buzzer.updateSettings_volume _ _ _⟩

theorem OneConfig.key {held : ε → KeyerConfig} {k : Keyer ε} {c : KeyerConfig} (h : OneConfig held k c)
    (st : Statics) (on : Bool) (n : ℕ) : OneConfig held (k.key st on n).1 c :=
  ⟨h.engine, h.keysReversed, h.emitStyle, h.wpm, h.decoderEnabled,
    (Buzzer.setKeyed_currentFreqHz _ _).trans h.freq,
    (Buzzer.setKeyed_currentVolume k.buzzer on).symm ▸ h.volume⟩

theorem OneConfig.act {held : ε → KeyerConfig} {k : Keyer ε} {c : KeyerConfig} (h : OneConfig held k c)
    (st : Statics) (n : ℕ) (o : Option KeyerOutput) : OneConfig held (k.act st n o).1 c :=
  Keyer.act_rule (P := fun r => OneConfig held r.1 c) h (fun on => h.key st on n) o

theorem OneConfig.tick {held : ε → KeyerConfig} (hE : Holds E held) {k : Keyer ε} {c : KeyerConfig}
    (h : OneConfig held k c) (st : Statics) (n : ℕ) : OneConfig held (k.tick E st n).1 c :=
  OneConfig.act (k := { k with engine := (E.tick k.engine).1 })
    ⟨(hE.tick _).trans h.engine, h.keysReversed, h.emitStyle, h.wpm, h.decoderEnabled, h.freq, h.volume⟩ _ _ _

theorem refreshCounter_act (k : Keyer ε) (st : Statics) (n : ℕ) (o : Option KeyerOutput) :
    (k.act st n o).1.refreshCounter = k.refreshCounter :=
  Keyer.act_rule (P := fun r => r.1.refreshCounter = k.refreshCounter) rfl (fun _ => rfl) o

/-- 50 ms of polls. -/
theorem configRefreshTicks_toNat : Keyer.configRefreshTicks.toNat = 200 := by decide

/-- The count: below 200 it goes on, at 200 it restarts and a refresh is due. -/
theorem count_toNat (k : Keyer ε) (h : k.refreshCounter.toNat < 200) :
    (k.count.2 = true ↔ k.refreshCounter.toNat + 1 = 200) ∧
      k.count.1.refreshCounter.toNat = (k.refreshCounter.toNat + 1) % 200 := by
  have hadd : (k.refreshCounter + 1).toNat = k.refreshCounter.toNat + 1 := by
    rw [UInt32.toNat_add]
    show (k.refreshCounter.toNat + 1) % 2 ^ 32 = _
    omega
  have hge : k.refreshCounter + 1 ≥ Keyer.configRefreshTicks ↔ 200 ≤ k.refreshCounter.toNat + 1 := by
    rw [ge_iff_le, UInt32.le_iff_toNat_le, configRefreshTicks_toNat, hadd]
  unfold Keyer.count
  simp only
  split
  · rename_i hc
    have := hge.mp hc
    refine ⟨⟨fun _ => by omega, fun _ => rfl⟩, ?_⟩
    show (0 : UInt32).toNat = _
    rw [show k.refreshCounter.toNat + 1 = 200 by omega]
    decide
  · rename_i hc
    have hlt : ¬ 200 ≤ k.refreshCounter.toNat + 1 := fun h' => hc (hge.mpr h')
    refine ⟨⟨fun h' => (Bool.false_ne_true h').elim, fun h' => by omega⟩, ?_⟩
    show (k.refreshCounter + 1).toNat = _
    rw [hadd]
    omega

/-! ### One step -/

/-- What a step can do: which section it is, and the state after it. -/
theorem loopStep_cases {s s' : State ε} {a : Label} (h : loopStep E s a = some s') :
    match a with
    | .edit c => s' = { s with st := { s.st with sharedConfig := c } }
    | .saveLock b => s' = { s with st := { s.st with saveLock := b } }
    | .park => s.pc = .top ∧ s' = { s with st := { s.st with engineActive := false } }
    | .poll a b => s.pc = .top ∧ s' = ⟨.count, (s.k.poll E s.st a b).1, (s.k.poll E s.st a b).2⟩
    | .count => s.pc = .count ∧ s' = ⟨if s.k.count.2 then .lock else .tick, s.k.count.1, s.st⟩
    | .refresh => s.pc = .lock ∧ s' = ⟨.tick, (s.k.refresh E s.st).1, (s.k.refresh E s.st).2⟩
    | .tick n => s.pc = .tick ∧ s' = ⟨.top, (s.k.tick E s.st n).1, (s.k.tick E s.st n).2⟩ := by
  cases a with
  | edit c => exact (Option.some.inj h).symm
  | saveLock b => exact (Option.some.inj h).symm
  | park =>
    obtain ⟨hc, he⟩ := StepRun.guard_some h
    exact ⟨hc.1, he⟩
  | poll a b =>
    obtain ⟨hc, he⟩ := StepRun.guard_some h
    exact ⟨hc.1, he⟩
  | count => exact StepRun.guard_some h
  | refresh => exact StepRun.guard_some h
  | tick n => exact StepRun.guard_some h

/-- A step that moves only the statics, and counts as no iteration and no refresh. -/
theorem Inv.statics {held : ε → KeyerConfig} {c₀ : KeyerConfig} {ls : List Label} {s : State ε}
    (hI : Inv held c₀ ls s) {a : Label} {st : Statics} (hun : unparked [a] = 0) (hre : refreshes [a] = 0)
    (hobs : observe (sharedConfig c₀ ls, lastRefresh c₀ ls) a = (st.sharedConfig, lastRefresh c₀ ls)) :
    Inv held c₀ (ls ++ [a]) { s with st := st } := by
  have hlabels : (ls ++ [a]).foldl observe (c₀, c₀) = (st.sharedConfig, lastRefresh c₀ ls) :=
    (observe_snoc c₀ ls a).trans hobs
  have hun' : unparked (ls ++ [a]) = unparked ls := by
    rw [unparked, List.countP_append]
    exact congrArg (unparked ls + ·) hun
  have hre' : refreshes (ls ++ [a]) = refreshes ls := by
    rw [refreshes, List.countP_append]
    exact congrArg (refreshes ls + ·) hre
  refine ⟨?_, ?_, ?_⟩
  · rw [sharedConfig, hlabels]
  · rw [lastRefresh, hlabels]
    exact hI.one
  · unfold Counted
    rw [hun', hre']
    exact hI.counted

theorem inv_step {held : ε → KeyerConfig} (hE : Holds E held) (c₀ : KeyerConfig) (ls : List Label)
    (s : State ε) (a : Label) (s' : State ε) (hI : Inv held c₀ ls s) (h : loopStep E s a = some s') :
    Inv held c₀ (ls ++ [a]) s' := by
  have hc := loopStep_cases E h
  have hobs := observe_snoc c₀ ls a
  have hsh := hI.shared
  have h1 := hI.one
  have hcnt := hI.counted
  have hun : unparked (ls ++ [a]) = unparked ls + unparked [a] := List.countP_append
  have hre : refreshes (ls ++ [a]) = refreshes ls + refreshes [a] := List.countP_append
  cases a with
  | edit c =>
    obtain rfl : s' = _ := hc
    exact hI.statics rfl rfl rfl
  | saveLock b =>
    obtain rfl : s' = _ := hc
    exact hI.statics rfl rfl (congrArg (·, lastRefresh c₀ ls) hsh.symm)
  | park =>
    obtain ⟨-, rfl⟩ := hc
    exact hI.statics rfl rfl (congrArg (·, lastRefresh c₀ ls) hsh.symm)
  | poll a b =>
    obtain ⟨hpc, rfl⟩ := hc
    refine ⟨?_, ?_, ?_⟩
    · rw [sharedConfig, hobs]; exact (Keyer.kept_poll E _ _ _ _).sharedConfig.trans hsh
    · rw [lastRefresh, hobs]; exact h1.poll E hE s.st a b
    · rw [hpc] at hcnt
      unfold Counted at hcnt ⊢
      rw [hun, hre]
      exact ⟨hcnt.1, Nat.le_add_left 1 _, hcnt.2⟩
  | count =>
    obtain ⟨hpc, rfl⟩ := hc
    rw [hpc] at hcnt
    obtain ⟨hr, hpos, href⟩ := hcnt
    obtain ⟨hdue, hnext⟩ := count_toNat s.k (by omega)
    refine ⟨?_, ?_, ?_⟩
    · rw [sharedConfig, hobs]; exact hsh
    · rw [lastRefresh, hobs]; exact h1.count
    · have hun0 : unparked [Label.count] = 0 := rfl
      have hre0 : refreshes [Label.count] = 0 := rfl
      cases hd : s.k.count.2 with
      | true =>
        have := hdue.mp hd
        simp only [↓reduceIte, Counted]
        refine ⟨?_, ?_, ?_⟩ <;> omega
      | false =>
        have : ¬ s.k.refreshCounter.toNat + 1 = 200 := fun h' => by rw [hdue.mpr h'] at hd; cases hd
        simp only [Bool.false_eq_true, ↓reduceIte, Counted]
        refine ⟨?_, ?_⟩ <;> omega
  | refresh =>
    obtain ⟨hpc, rfl⟩ := hc
    rw [hpc] at hcnt
    obtain ⟨hr, hdvd, href⟩ := hcnt
    refine ⟨?_, ?_, ?_⟩
    · rw [sharedConfig, hobs]; exact (Keyer.kept_refresh E _ _).sharedConfig.trans hsh
    · rw [lastRefresh, hobs]; exact hsh ▸ oneConfig_refresh E hE s.k s.st
    · have hun0 : unparked [Label.refresh] = 0 := rfl
      have hre1 : refreshes [Label.refresh] = 1 := rfl
      show s.k.refreshCounter.toNat = _ ∧ _
      refine ⟨?_, ?_⟩ <;> omega
  | tick n =>
    obtain ⟨hpc, rfl⟩ := hc
    rw [hpc] at hcnt
    refine ⟨?_, ?_, ?_⟩
    · rw [sharedConfig, hobs]; exact (Keyer.kept_tick E _ _ _).sharedConfig.trans hsh
    · rw [lastRefresh, hobs]; exact h1.tick E hE s.st n
    · unfold Counted at hcnt ⊢
      rw [hun, hre]
      have hk : (s.k.tick E s.st n).1.refreshCounter = s.k.refreshCounter := refreshCounter_act _ _ _ _
      simp only [hk]
      exact hcnt

/-- The loop at boot. -/
def boot (c₀ : KeyerConfig) (bz : Buzzer) : State ε :=
  ⟨.top, Keyer.start E (.boot c₀) ⟨false⟩ bz, .boot c₀⟩

theorem inv_boot {held : ε → KeyerConfig} (hE : Holds E held) (c₀ : KeyerConfig) (bz : Buzzer) :
    Inv held c₀ [] (boot E c₀ bz) :=
  ⟨rfl, oneConfig_start E hE _ _ _, rfl, rfl⟩

theorem inv_run {held : ε → KeyerConfig} (hE : Holds E held) {c₀ : KeyerConfig} {bz : Buzzer}
    {ls : List Label} {s : State ε} (h : StepRun.run (loopStep E) (boot E c₀ bz) ls = some s) :
    Inv held c₀ ls s := by
  have := StepRun.run_inv_hist (loopStep E) (I := Inv held c₀)
    (inv_step E hE c₀) ls [] _ s (inv_boot E hE c₀ bz) h
  rwa [List.nil_append] at this

/-! ### The theorem -/

theorem straightKey_holds : Holds StraightKey.engine StraightKey.State.config where
  new _ _ := rfl
  setPaddle _ _ _ := rfl
  updateConfig _ _ := rfl
  tick e := by
    unfold StraightKey.engine StraightKey.tick
    simp only
    split
    · split <;> rfl
    · rfl
    · split <;> rfl
    · rfl

end Loop
end RpKeyer
