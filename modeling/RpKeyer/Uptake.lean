/-
# An edit reaches the keyer

The keyer looks at the shared config only every `CONFIG_REFRESH_TICKS`-th
iteration it begins, so an edit waits for it. It does not wait long: however
the tasks interleave, once the keyer has been through that many iterations,
parked ones not counted, everything it took from the shared config (the paddle
swap, the emit style, the speed, the decoder, the engine's config and the tone)
is of the edited one (`edit_reaches_keyer`).
-/
import RpKeyer.Firmware

namespace RpKeyer
namespace Uptake

open Codecs Firmware Loop UsbEmit

/-! ### The keyer's labels -/

/-- Between two refreshes there are 200 iterations begun. -/
theorem refreshes_bounds {ε : Type} {held : ε → KeyerConfig} {c₀ : KeyerConfig} {ls : List Loop.Label}
    {s : State ε} (hI : Loop.Inv held c₀ ls s) :
    (unparked ls - 1) / 200 ≤ refreshes ls ∧ refreshes ls ≤ unparked ls / 200 ∧
      (s.pc = .top → refreshes ls = unparked ls / 200) := by
  have hcounted := hI.counted
  cases hpc : s.pc with
  | top | tick =>
    rw [hpc] at hcounted
    obtain ⟨-, hre⟩ := hcounted
    exact ⟨by omega, by omega, fun _ => hre⟩
  | count =>
    rw [hpc] at hcounted
    obtain ⟨-, -, hre⟩ := hcounted
    exact ⟨by omega, by omega, fun htop => by cases htop⟩
  | lock =>
    rw [hpc] at hcounted
    obtain ⟨-, hdvd, hre⟩ := hcounted
    exact ⟨by omega, by omega, fun htop => by cases htop⟩

/-- While every edit writes `c`, a refresh takes `c`. -/
theorem observe_steady {c : KeyerConfig} : ∀ (ls : List Loop.Label) (p : KeyerConfig × KeyerConfig), p.1 = c →
    (∀ c', .edit c' ∈ ls → c' = c) → (ls.foldl observe p).1 = c ∧
      (p.2 = c ∨ 0 < refreshes ls → (ls.foldl observe p).2 = c)
  | [], p, hp, _ => ⟨hp, fun h => h.resolve_right (Nat.lt_irrefl 0)⟩
  | a :: ls, p, hp, hedits => by
    have htail : ∀ c', .edit c' ∈ ls → c' = c := fun c' hc' => hedits c' (List.mem_cons_of_mem a hc')
    have hrest : ∀ q : KeyerConfig × KeyerConfig, q.1 = c → (p.2 = c → q.2 = c) → refreshes (a :: ls) = refreshes ls →
        (ls.foldl observe q).1 = c ∧ (p.2 = c ∨ 0 < refreshes (a :: ls) → (ls.foldl observe q).2 = c) := by
      intro q hq hkeep hcount
      obtain ⟨h1, h2⟩ := observe_steady ls q hq htail
      rw [hcount]
      exact ⟨h1, fun h => h2 (h.imp_left hkeep)⟩
    rw [List.foldl_cons]
    cases a with
    | edit c' => exact hrest (c', p.2) (hedits c' List.mem_cons_self) (fun h => h) rfl
    | refresh =>
      obtain ⟨h1, h2⟩ := observe_steady ls (p.1, p.1) hp htail
      exact ⟨h1, fun _ => h2 (.inl hp)⟩
    | saveLock b => exact hrest p hp (fun h => h) rfl
    | park => exact hrest p hp (fun h => h) rfl
    | poll a b => exact hrest p hp (fun h => h) rfl
    | count => exact hrest p hp (fun h => h) rfl
    | tick n => exact hrest p hp (fun h => h) rfl

/-! ### The firmware's labels -/

variable {ε : Type} (E : Engine ε) (app : App) (tag : Codec UInt16) (codec : Codec KeyerConfig)

/-- The shared config is `c` after the step. -/
def Steady (c : KeyerConfig) (s : Sys ε) (a : Firmware.Label) : Prop :=
  ∀ s' ∈ sysStep E app tag codec s a, s'.st.sharedConfig = c

instance (c : KeyerConfig) (s : Sys ε) (a : Firmware.Label) : Decidable (Steady E app tag codec c s a) :=
  inferInstanceAs (Decidable (∀ s' ∈ sysStep E app tag codec s a, _))

/-- The iterations of the keyer begun. -/
def polls (ls : List Firmware.Label) : ℕ := ls.countP fun | .keyer (.poll _ _) => true | _ => false

/-- What the keyer sees of a steady run: its own iterations, and no other config. -/
theorem steady_trace {c : KeyerConfig} : ∀ {ls : List Firmware.Label} {s s' : Sys ε},
    StepRun.AllSteps (sysStep E app tag codec) (Steady E app tag codec c) s ls →
      StepRun.run (sysStep E app tag codec) s ls = some s' →
        (∀ c', .edit c' ∈ StepRun.trace (sysStep E app tag codec) (loopLabels tag codec) s ls → c' = c) ∧
          unparked (StepRun.trace (sysStep E app tag codec) (loopLabels tag codec) s ls) = polls ls
  | [], _, _, _, _ => ⟨fun c' hc' => absurd hc' List.not_mem_nil, rfl⟩
  | a :: ls, s, s', hall, h => by
    obtain ⟨s₁, hs, hrun⟩ := (StepRun.run_cons_some _).mp h
    obtain ⟨hsteady, hrest⟩ := (StepRun.allSteps_cons_some _ hs).mp hall
    obtain ⟨hedits, hcount⟩ := steady_trace hrest hrun
    have hhead : (∀ c', .edit c' ∈ loopLabels tag codec s a → c' = c) ∧
        unparked (loopLabels tag codec s a) = polls [a] := by
      cases a with
      | keyer a => cases a <;> exact ⟨fun c' hc' => by simp [loopLabels, Section.label] at hc', rfl⟩
      | take => exact ⟨fun c' hc' => absurd hc' List.not_mem_nil, rfl⟩
      | wrote w ok => exact ⟨fun c' hc' => absurd hc' List.not_mem_nil, rfl⟩
      | ui pins decoded =>
        have hlabels : loopLabels tag codec s (.ui pins decoded) = [.edit s₁.st.sharedConfig] := by
          show (s.uiStep pins decoded).toList.map _ = _
          rw [show s.uiStep pins decoded = some s₁ from hs]
          rfl
        rw [hlabels]
        refine ⟨fun c' hc' => ?_, rfl⟩
        obtain rfl := Loop.Label.edit.inj (List.mem_singleton.mp hc')
        exact hsteady s₁ hs
      | persist ok =>
        obtain ⟨r, hstep, -⟩ := Option.map_eq_some_iff.mp hs
        have hlabels : loopLabels tag codec s (.persist ok) = [.saveLock r.2.saveLock] := by
          show (Persist.step tag codec s.persist s.st ok).toList.map _ = _
          rw [hstep]
          rfl
        rw [hlabels]
        exact ⟨fun c' hc' => (nomatch List.mem_singleton.mp hc'), rfl⟩
    rw [StepRun.trace_cons hs]
    refine ⟨fun c' hc' => ?_, ?_⟩
    · rcases List.mem_append.mp hc' with hc' | hc'
      · exact hhead.1 c' hc'
      · exact hedits c' hc'
    · have hpolls : polls ([a] ++ ls) = polls [a] + polls ls := List.countP_append
      rw [unparked, List.countP_append]
      exact (congrArg₂ (· + ·) hhead.2 hcount).trans hpolls.symm

/-! ### The theorem -/

/-- **An edit reaches the keyer.** From any state of any run of the firmware,
over any further run that leaves the shared config as it is: with more than
`CONFIG_REFRESH_TICKS` unparked iterations of the keyer begun in it, or that
many and the last one done, all the keyer took from the shared config is of this
config, the buzzer's volume to within `EPSILON`. -/
theorem edit_reaches_keyer {held : ε → KeyerConfig} (hE : Holds E held) (dflt : KeyerConfig) (bz : Buzzer)
    (display : Display) (flash : Storage.Flash) {ls ls' : List Firmware.Label} {s s' : Sys ε}
    (h : StepRun.run (sysStep E app tag codec) (boot E tag codec dflt bz display flash) ls = some s)
    (hsteady : StepRun.AllSteps (sysStep E app tag codec) (Steady E app tag codec s.st.sharedConfig) s ls')
    (h' : StepRun.run (sysStep E app tag codec) s ls' = some s')
    (hpolls : Keyer.configRefreshTicks.toNat < polls ls' ∨
      Keyer.configRefreshTicks.toNat = polls ls' ∧ s'.keyer.pc = .top) :
    OneConfig held s'.keyer.k s.st.sharedConfig := by
  obtain ⟨t, ht, c, d, hc, rfl⟩ := (asLoop E app tag codec).run
    (t := Loop.boot E (Persist.restore tag codec dflt flash) bz) ⟨_, _, rfl, rfl⟩ h
  obtain ⟨t', ht', c', d', -, rfl⟩ := (asLoop E app tag codec).run ⟨c, d, hc, rfl⟩ h'
  obtain ⟨hedits, hcount⟩ := steady_trace E app tag codec hsteady h'
  have hlabels : (asLoop E app tag codec).labels = loopLabels tag codec := rfl
  rw [hlabels] at ht ht'
  have hI := inv_run E hE ht
  have hI' := inv_run E hE ((StepRun.run_append_some _).mpr ⟨_, ht, ht'⟩)
  generalize StepRun.trace (sysStep E app tag codec) (loopLabels tag codec)
    (boot E tag codec dflt bz display flash) ls = past at hI hI'
  generalize StepRun.trace (sysStep E app tag codec) (loopLabels tag codec) s ls' = rest at hedits hcount hI'
  have hrefresh : 0 < refreshes rest := by
    have hun : unparked (past ++ rest) = unparked past + unparked rest := List.countP_append
    have hre : refreshes (past ++ rest) = refreshes past + refreshes rest := List.countP_append
    obtain ⟨-, hmost, -⟩ := refreshes_bounds hI
    obtain ⟨hleast, -, htop⟩ := refreshes_bounds hI'
    rw [configRefreshTicks_toNat] at hpolls
    rcases hpolls with hmore | ⟨hall, hpc⟩
    · omega
    · have hdone := htop hpc
      omega
  have hlast : lastRefresh (Persist.restore tag codec dflt flash) (past ++ rest) = s.st.sharedConfig := by
    rw [lastRefresh, List.foldl_append]
    exact (observe_steady rest (past.foldl observe _) hI.shared.symm hedits).2 (.inr hrefresh)
  exact hlast ▸ hI'.one

/-- A press of Up on the main screen, and 200 iterations of the keyer: it keys
at the new speed. -/
theorem edit_reaches_keyer_up :
    let app : App := ⟨.present 0, .present ()⟩
    let bz := Buzzer.new StraightKey.pwm StraightKey.pwm.config StraightKey.clkSysFreq
    let up : Firmware.Label := .ui ⟨true, false, false, false⟩ fun _ => []
    let pass : List Firmware.Label := [.keyer (.poll false false), .keyer .count, .keyer (.tick 0)]
    let due : List Firmware.Label := [.keyer (.poll false false), .keyer .count, .keyer .refresh, .keyer (.tick 0)]
    ∃ s, StepRun.run (sysStep StraightKey.engine app Postcard.varint16 Postcard.config)
        (boot StraightKey.engine Postcard.varint16 Postcard.config StraightKey.config bz ⟨[], []⟩ .empty)
        ([up, up] ++ ((List.replicate 199 pass).flatten ++ due)) = some s ∧ s.keyer.k.wpm = 19 := by
  intro app bz up pass due
  have hfirst : (StepRun.run (sysStep StraightKey.engine app Postcard.varint16 Postcard.config)
      (boot StraightKey.engine Postcard.varint16 Postcard.config StraightKey.config bz ⟨[], []⟩ .empty)
        [up, up]).map (fun s => (s.st.sharedConfig.speedWpm,
          (StepRun.run (sysStep StraightKey.engine app Postcard.varint16 Postcard.config) s
            ((List.replicate 199 pass).flatten ++ due)).map (fun s => s.keyer.pc),
          decide (StepRun.AllSteps (sysStep StraightKey.engine app Postcard.varint16 Postcard.config)
            (Steady StraightKey.engine app Postcard.varint16 Postcard.config s.st.sharedConfig) s
            ((List.replicate 199 pass).flatten ++ due)))) = some (19, some .top, true) := by
    decide +kernel
  obtain ⟨s, hs, hall⟩ := Option.map_eq_some_iff.mp hfirst
  obtain ⟨hwpm, hrest⟩ := Prod.mk.inj hall
  obtain ⟨hrun, hsteady⟩ := Prod.mk.inj hrest
  obtain ⟨s', hs', hpc⟩ := Option.map_eq_some_iff.mp hrun
  have hone := edit_reaches_keyer StraightKey.engine app Postcard.varint16 Postcard.config straightKey_holds
    StraightKey.config bz ⟨[], []⟩ .empty hs (of_decide_eq_true hsteady) hs' (.inr ⟨by decide +kernel, hpc⟩)
  exact ⟨s', (StepRun.run_append_some _).mpr ⟨s, hs, hs'⟩, hone.wpm.trans hwpm⟩

end Uptake
end RpKeyer
