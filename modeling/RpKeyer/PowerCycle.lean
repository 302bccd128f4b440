/-
# The settings over power cycles

A session is a run of the firmware that ends where power is lost, between any
two steps of any task; the next one boots from the flash it leaves. A store is
taken at once: it is in the flash, or it failed and left it as it was.

Whatever a session leaves in the flash, the next boot restores a config that
was the shared one at some moment of the session (`Seen`): nothing invented,
no mixture of two. The buttons keep the shared config in the menu's ranges, so
from an erased flash every config of every session is in range
(`settings_survive`).
-/
import RpKeyer.Firmware

namespace RpKeyer
namespace PowerCycle

open Codecs Firmware Menu UsbEmit

variable {ε : Type} (E : Engine ε) (app : App) (tag : Codec UInt16) (codec : Codec KeyerConfig)
variable (dflt : KeyerConfig) (bz : Buzzer)

/-! ### Sessions -/

/-- What the panel shows at power on, and the steps until power is lost. -/
structure Session where
  display : Display
  ls : List Label

/-- The flash a session leaves. -/
def session (flash : Storage.Flash) (x : Session) : Option Storage.Flash :=
  (StepRun.run (sysStep E app tag codec) (boot E tag codec dflt bz x.display flash) x.ls).map (·.persist.flash)

/-- The config was the shared one at some moment of the run. -/
def Seen (s₀ : Sys ε) (ls : List Label) (c : KeyerConfig) : Prop :=
  ∃ pre s, pre <+: ls ∧ StepRun.run (sysStep E app tag codec) s₀ pre = some s ∧ s.st.sharedConfig = c

/-! ### One session -/

/-- The run so far: what the flash holds and what is about to be stored was
the shared config at some moment. -/
structure Inv (s₀ : Sys ε) (ls : List Label) (s : Sys ε) : Prop where
  reached : StepRun.run (sysStep E app tag codec) s₀ ls = some s
  stored : Seen E app tag codec s₀ ls (Persist.restore tag codec dflt s.persist.flash)
  saving : ∀ cfg, s.persist.pc = .save cfg → Seen E app tag codec s₀ ls cfg
  unsaved : true ∉ s.persist.results → s.persist.flash = s₀.persist.flash

variable {E app tag codec dflt bz}

theorem Seen.mono {s₀ : Sys ε} {ls : List Label} {c : KeyerConfig} (h : Seen E app tag codec s₀ ls c)
    (ls' : List Label) : Seen E app tag codec s₀ (ls ++ ls') c := by
  obtain ⟨pre, s, hpre, hrun, hc⟩ := h
  exact ⟨pre, s, hpre.trans (List.prefix_append ls ls'), hrun, hc⟩

/-- A step of any other task leaves the persistence task alone. -/
theorem persist_kept {s s' : Sys ε} {a : Label} (h : sysStep E app tag codec s a = some s')
    (hp : ∀ ok, a ≠ .persist ok) : s'.persist = s.persist := by
  cases sysStep_moved E app tag codec h with
  | keyer =>
    rfl
  | take =>
    rfl
  | wrote =>
    rfl
  | ui =>
    rfl
  | persist ok => exact absurd rfl (hp ok)

/-- A step of the persistence task: it clones the shared config, and stores
what it cloned. -/
theorem inv_persist {s₀ s s' : Sys ε} {ls : List Label} {ok : Bool} (hI : Inv E app tag codec dflt s₀ ls s)
    (h : sysStep E app tag codec s (.persist ok) = some s') : Inv E app tag codec dflt s₀ (ls ++ [.persist ok]) s' := by
  have hreached := StepRun.run_concat hI.reached h
  have hstored := hI.stored.mono [.persist ok]
  obtain ⟨⟨p', st'⟩, hstep, rfl⟩ := Option.map_eq_some_iff.mp h
  rcases (Persist.step_stepped tag codec hstep).effect with
    ⟨ht, hp⟩ | ⟨-, -, hw', hp⟩ | ⟨-, hpc, hp⟩ | ⟨cfg, -, hpc, hp⟩ | ⟨-, -, hp⟩
  · subst hp
    exact ⟨hreached, hstored, fun cfg hpc => (by cases hpc), hI.unsaved⟩
  · have hflash : p'.flash = s.persist.flash := by rw [hp]
    have hresults : p'.results = s.persist.results := by rw [hp]
    refine ⟨hreached, ?_, fun cfg hpc => ?_, fun hnone => ?_⟩
    · rw [show (_ : Sys ε).persist.flash = _ from hflash]
      exact hstored
    · rw [show p'.pc = .save cfg from hpc] at hw'
      cases hw'
    · exact hflash.trans (hI.unsaved (hresults ▸ hnone))
  · subst hp
    refine ⟨hreached, hstored, fun cfg hpc => ?_, hI.unsaved⟩
    injection hpc with hcfg
    exact hcfg ▸ ⟨ls, s, List.prefix_append ls _, hI.reached, rfl⟩
  · subst hp
    rcases Storage.saveConfig_cases tag Storage.schemaVersion codec s.persist.flash cfg ok with hs | hs
    · refine ⟨hreached, ?_, fun cfg hpc => (by cases hpc), fun hnone => ?_⟩
      · show Seen _ _ _ _ _ _ (Persist.restore tag codec dflt (Storage.saveConfig _ _ _ _ _ _).1)
        rw [hs]
        exact hstored
      · have hflash := hI.unsaved fun hin => hnone (List.mem_append_left _ hin)
        exact (congrArg Prod.fst hs).trans hflash
    · have hok : (Storage.saveConfig tag Storage.schemaVersion codec s.persist.flash cfg ok).2 = true := by rw [hs]
      refine ⟨hreached, ?_, fun cfg hpc => (by cases hpc), fun hnone => ?_⟩
      · show Seen _ _ _ _ _ _ (Persist.restore tag codec dflt (Storage.saveConfig _ _ _ _ _ _).1)
        rw [Persist.restore_saved tag codec hok]
        exact (hI.saving cfg hpc).mono [.persist ok]
      · exact absurd (List.mem_append_right _ (by rw [hok]; exact List.mem_cons_self)) hnone
  · subst hp
    exact ⟨hreached, hstored, fun cfg hpc => (by cases hpc), hI.unsaved⟩

theorem inv_step {s₀ : Sys ε} (ls : List Label) (s : Sys ε) (a : Label) (s' : Sys ε)
    (hI : Inv E app tag codec dflt s₀ ls s) (h : sysStep E app tag codec s a = some s') :
    Inv E app tag codec dflt s₀ (ls ++ [a]) s' := by
  by_cases hp : ∃ ok, a = .persist ok
  · obtain ⟨ok, rfl⟩ := hp
    exact inv_persist hI h
  · have hkept := persist_kept h fun ok heq => hp ⟨ok, heq⟩
    refine ⟨StepRun.run_concat hI.reached h, ?_, fun cfg hpc => ?_, ?_⟩
    · rw [hkept]
      exact hI.stored.mono [a]
    · rw [hkept] at hpc
      exact (hI.saving cfg hpc).mono [a]
    · rw [hkept]
      exact hI.unsaved

theorem inv_run {display : Display} {flash : Storage.Flash} {ls : List Label} {s : Sys ε}
    (h : StepRun.run (sysStep E app tag codec) (boot E tag codec dflt bz display flash) ls = some s) :
    Inv E app tag codec dflt (boot E tag codec dflt bz display flash) ls s := by
  have hboot : Inv E app tag codec dflt (boot E tag codec dflt bz display flash) []
      (boot E tag codec dflt bz display flash) :=
    ⟨rfl, ⟨[], _, List.prefix_rfl, rfl, rfl⟩, fun cfg hpc => (by cases hpc), fun _ => rfl⟩
  have hI := StepRun.run_inv_hist (I := Inv E app tag codec dflt (boot E tag codec dflt bz display flash))
    (sysStep E app tag codec) inv_step ls [] _ s hboot h
  rwa [List.nil_append] at hI

/-- The buttons keep the shared config in range. -/
theorem shared_inRange {display : Display} {flash : Storage.Flash} {ls : List Label} {s : Sys ε}
    (hflash : InRange (Persist.restore tag codec dflt flash))
    (h : StepRun.run (sysStep E app tag codec) (boot E tag codec dflt bz display flash) ls = some s) :
    InRange s.st.sharedConfig :=
  shared_config E app tag codec (P := InRange) (fun _ item up hc => adjust_inRange hc item up) hflash h

/-- An edit the task has not saved is known to it. -/
theorem stored_run {display : Display} {flash : Storage.Flash} {ls : List Label} {s : Sys ε}
    (h : StepRun.run (sysStep E app tag codec) (boot E tag codec dflt bz display flash) ls = some s) :
    s.st.configDirty.slot ≠ none ∨ s.persist.pc.working = true ∨ s.persist.pc = .save s.st.sharedConfig ∨
      (s.persist.pc = .wait ∨ s.persist.pc = .unlock) ∧ (s.persist.results.getLast? = some false ∨
        Persist.restore tag codec dflt s.persist.flash = s.st.sharedConfig) := by
  obtain ⟨t, ht, c, calls, b, rfl⟩ := (asSettings E app tag codec).run
    (t := Settings.boot tag codec dflt display flash) ⟨_, _, _, rfl⟩ h
  exact (Settings.inv_run tag codec dflt ht).stored

/-- Nothing pending and no failed save: what the next boot restores is the
shared config. -/
theorem stored_when_quiet {display : Display} {flash : Storage.Flash} {ls : List Label} {s : Sys ε}
    (h : StepRun.run (sysStep E app tag codec) (boot E tag codec dflt bz display flash) ls = some s)
    (hpc : s.persist.pc = .wait) (hslot : s.st.configDirty.slot = none)
    (hlast : s.persist.results.getLast? ≠ some false) :
    Persist.restore tag codec dflt s.persist.flash = s.st.sharedConfig := by
  rcases stored_run h with hne | hwork | hsave | ⟨-, hfailed | hstored⟩
  · exact absurd hslot hne
  · rw [hpc] at hwork
    cases hwork
  · rw [hpc] at hsave
    cases hsave
  · exact absurd hfailed hlast
  · exact hstored

/-! ### The theorem -/

variable (E app tag codec dflt bz)

/-- What a session from an erased flash or from any others leaves is in range. -/
theorem sessions_inRange (hdflt : InRange dflt) (past : List Session) (flash : Storage.Flash)
    (h : StepRun.run (session E app tag codec dflt bz) .empty past = some flash) :
    InRange (Persist.restore tag codec dflt flash) := by
  have hstep : ∀ (f : Storage.Flash) (x : Session) (f' : Storage.Flash),
      InRange (Persist.restore tag codec dflt f) → session E app tag codec dflt bz f x = some f' →
        InRange (Persist.restore tag codec dflt f') := by
    intro f x f' hf hx
    obtain ⟨s, hs, rfl⟩ := Option.map_eq_some_iff.mp hx
    obtain ⟨pre, s', -, hs', hseen⟩ := (inv_run hs).stored
    exact hseen ▸ shared_inRange hf hs'
  exact StepRun.run_inv (I := fun f => InRange (Persist.restore tag codec dflt f))
    (session E app tag codec dflt bz) hstep (show InRange (Persist.restore tag codec dflt .empty) from hdflt) h

/-- **Settings survive power cycles.** After any sessions from an erased flash,
each ended anywhere, and at any point of the next one: the shared config is in
the menu's ranges; what a boot would restore now was the shared config at some
moment of this session; it is the shared config now, if the persistence task
waits with nothing pending and no failed save behind it; and it is what this
session started from, if no save of it succeeded. -/
theorem settings_survive (hdflt : InRange dflt) (past : List Session) (flash : Storage.Flash)
    (hpast : StepRun.run (session E app tag codec dflt bz) .empty past = some flash) (display : Display)
    (ls : List Label) (s : Sys ε)
    (h : StepRun.run (sysStep E app tag codec) (boot E tag codec dflt bz display flash) ls = some s) :
    InRange s.st.sharedConfig ∧
    Seen E app tag codec (boot E tag codec dflt bz display flash) ls
      (Persist.restore tag codec dflt s.persist.flash) ∧
    (s.persist.pc = .wait → s.st.configDirty.slot = none → s.persist.results.getLast? ≠ some false →
      Persist.restore tag codec dflt s.persist.flash = s.st.sharedConfig) ∧
    (true ∉ s.persist.results → s.persist.flash = flash) := by
  have hI := inv_run h
  exact ⟨shared_inRange (sessions_inRange E app tag codec dflt bz hdflt past flash hpast) h, hI.stored,
    stored_when_quiet h, hI.unsaved⟩

/-- A speed step saved in the first session, and one lost with the power in
the debounce of the second. -/
theorem settings_survive_speed_steps :
    let app : App := ⟨.present 0, .present ()⟩
    let bz := Buzzer.new StraightKey.pwm StraightKey.pwm.config StraightKey.clkSysFreq
    let up : List Label := .replicate 2 (.ui ⟨true, false, false, false⟩ fun _ => [])
    let past : List Session := [⟨⟨[], []⟩, up ++ .replicate 9 (.persist true)⟩]
    let ls : List Label := up ++ .replicate 2 (.persist true)
    ∃ flash s, StepRun.run (session StraightKey.engine app Postcard.varint16 Postcard.config StraightKey.config bz)
        .empty past = some flash ∧
      StepRun.run (sysStep StraightKey.engine app Postcard.varint16 Postcard.config)
        (boot StraightKey.engine Postcard.varint16 Postcard.config StraightKey.config bz ⟨[], []⟩ flash) ls =
          some s ∧
      s.st.sharedConfig.speedWpm = 20 ∧ s.persist.flash = flash ∧ InRange s.st.sharedConfig := by
  intro app bz up past ls
  obtain ⟨flash, hflash⟩ : ∃ flash, StepRun.run (session StraightKey.engine app Postcard.varint16 Postcard.config
      StraightKey.config bz) .empty past = some flash := by
    refine Option.isSome_iff_exists.mp ?_
    decide +kernel
  have hseen : ((StepRun.run (session StraightKey.engine app Postcard.varint16 Postcard.config
      StraightKey.config bz) .empty past).bind fun flash =>
        (StepRun.run (sysStep StraightKey.engine app Postcard.varint16 Postcard.config)
          (boot StraightKey.engine Postcard.varint16 Postcard.config StraightKey.config bz ⟨[], []⟩ flash) ls).map
            fun s => (s.st.sharedConfig.speedWpm, s.persist.results)) = some (20, []) := by
    decide +kernel
  rw [hflash, Option.bind_some] at hseen
  obtain ⟨s, hs, hs'⟩ := Option.map_eq_some_iff.mp hseen
  obtain ⟨hwpm, hresults⟩ := Prod.mk.inj hs'
  obtain ⟨hrange, -, -, hunsaved⟩ := settings_survive StraightKey.engine app Postcard.varint16 Postcard.config
    StraightKey.config bz MenuRun.straightKey_inRange past flash hflash ⟨[], []⟩ ls s hs
  exact ⟨flash, s, hflash, hs, hwpm, hunsaved (by rw [hresults]; exact List.not_mem_nil), hrange⟩

end PowerCycle
end RpKeyer
