/-
# The settings persistence task

`config_persist_task`, one step for each access to what it shares: the wait
for `CONFIG_DIRTY`, the debounce, the handshake over `ENGINE_ACTIVE` and
`SAVE_LOCK`, the clone of the shared config, the save, the release. The pauses
are points of their own, where the other tasks run.

In the debounce the signal is polled before the timer, so the timer wins only
when there is no signal.
-/
import RpKeyer.Keyer
import RpKeyer.Storage

namespace RpKeyer
namespace Persist

open Codecs

/-- Where the task is about to go on. -/
inductive Pc
  | wait
  | debounce
  | loadActive
  | idleRecheck
  | storeLock
  | parkObserve
  | recheck
  | release
  | retrySleep
  | clone
  | save (cfg : KeyerConfig)
  | unlock
  deriving DecidableEq

/-- The task with its flash, and the results of its saves in order. -/
structure State where
  pc : Pc
  flash : Storage.Flash
  results : List Bool

/-- The task at boot. -/
def start (flash : Storage.Flash) : State := ⟨.wait, flash, []⟩

/-- The config a boot restores: the stored one, or the default. -/
def restore (tag : Codec UInt16) (codec : Codec KeyerConfig) (dflt : KeyerConfig) (flash : Storage.Flash) :
    KeyerConfig :=
  (Storage.loadConfig tag Storage.schemaVersion codec flash).getD dflt

variable (tag : Codec UInt16) (codec : Codec KeyerConfig)

/-- One step; `ok` is the result of the store, in a save. -/
def step (p : State) (st : Statics) (ok : Bool) : Option (State × Statics) :=
  match p.pc with
  | .wait => st.configDirty.take.map fun r => ({ p with pc := .debounce }, { st with configDirty := r.2 })
  | .debounce =>
    match st.configDirty.take with
    | some r => some ({ p with pc := .debounce }, { st with configDirty := r.2 })
    | none => some ({ p with pc := .loadActive }, st)
  | .loadActive => some ({ p with pc := if st.engineActive then .idleRecheck else .storeLock }, st)
  | .idleRecheck => some ({ p with pc := .loadActive }, st)
  | .storeLock => some ({ p with pc := .parkObserve }, { st with saveLock := true })
  | .parkObserve => some ({ p with pc := .recheck }, st)
  | .recheck => some ({ p with pc := if st.engineActive then .release else .clone }, st)
  | .release => some ({ p with pc := .retrySleep }, { st with saveLock := false })
  | .retrySleep => some ({ p with pc := .loadActive }, st)
  | .clone => some ({ p with pc := .save st.sharedConfig }, st)
  | .save cfg =>
    let r := Storage.saveConfig tag Storage.schemaVersion codec p.flash cfg ok
    some (⟨.unlock, r.1, p.results ++ [r.2]⟩, st)
  | .unlock => some ({ p with pc := .wait }, { st with saveLock := false })

/-! ### Regions of the program -/

/-- Between the first signal of a batch and the clone. -/
def Pc.working : Pc → Bool
  | .wait | .save _ | .unlock => false
  | _ => true

/-- Where the task holds `SAVE_LOCK`. -/
def Pc.locked : Pc → Bool
  | .parkObserve | .recheck | .release | .clone | .save _ | .unlock => true
  | _ => false

/-- Between a recheck that passed and the release of the lock. -/
def Pc.window : Pc → Bool
  | .clone | .save _ | .unlock => true
  | _ => false

theorem locked_of_window {pc : Pc} (h : pc.window = true) : pc.locked = true := by
  cases pc <;> first | rfl | cases h

/-! ### One step -/

/-- What a step does to the config, the signal and the flash. -/
inductive Effect (p : State) (st : Statics) (ok : Bool) (p' : State) (st' : Statics) : Prop
  /-- a signal is taken, in the wait or in the debounce -/
  | take (ht : st.configDirty.take = some ((), st'.configDirty)) (hp : p' = { p with pc := .debounce })
  /-- the handshake goes on -/
  | move (hd : st'.configDirty = st.configDirty) (hw : p.pc.working = true) (hw' : p'.pc.working = true)
      (hp : p' = { p with pc := p'.pc })
  | clone (hd : st'.configDirty = st.configDirty) (hpc : p.pc = .clone)
      (hp : p' = { p with pc := .save st.sharedConfig })
  | save (cfg : KeyerConfig) (hd : st'.configDirty = st.configDirty) (hpc : p.pc = .save cfg)
      (hp : p' = ⟨.unlock, (Storage.saveConfig tag Storage.schemaVersion codec p.flash cfg ok).1,
        p.results ++ [(Storage.saveConfig tag Storage.schemaVersion codec p.flash cfg ok).2]⟩)
  | unlock (hd : st'.configDirty = st.configDirty) (hpc : p.pc = .unlock) (hp : p' = { p with pc := .wait })

/-- The ways through the task, by what it reads in `ENGINE_ACTIVE`. -/
inductive Goes (active : Bool) : Pc → Pc → Prop
  | wake : Goes active .wait .debounce
  | again : Goes active .debounce .debounce
  | quiet : Goes active .debounce .loadActive
  | busy (h : active = true) : Goes active .loadActive .idleRecheck
  | idle (h : active = false) : Goes active .loadActive .storeLock
  | reload : Goes active .idleRecheck .loadActive
  | lock : Goes active .storeLock .parkObserve
  | observed : Goes active .parkObserve .recheck
  | raced (h : active = true) : Goes active .recheck .release
  | parked (h : active = false) : Goes active .recheck .clone
  | retry : Goes active .release .retrySleep
  | slept : Goes active .retrySleep .loadActive
  | cloned (cfg : KeyerConfig) : Goes active .clone (.save cfg)
  | saved (cfg : KeyerConfig) : Goes active (.save cfg) .unlock
  | unlocked : Goes active .unlock .wait

/-- What a step does, wherever the task is: the config and `ENGINE_ACTIVE` are
only read, and `SAVE_LOCK` stays what the program point says. -/
structure Stepped (p : State) (st : Statics) (ok : Bool) (p' : State) (st' : Statics) : Prop where
  sharedConfig : st'.sharedConfig = st.sharedConfig
  engineActive : st'.engineActive = st.engineActive
  saveLock : st.saveLock = p.pc.locked → st'.saveLock = p'.pc.locked
  effect : Effect tag codec p st ok p' st'
  goes : Goes st.engineActive p.pc p'.pc

theorem step_stepped {p p' : State} {st st' : Statics} {ok : Bool}
    (h : step tag codec p st ok = some (p', st')) : Stepped tag codec p st ok p' st' := by
  unfold step at h
  obtain ⟨pc, flash, results⟩ := p
  rcases pc with _ | _ | _ | _ | _ | _ | _ | _ | _ | _ | cfg | _
  · -- the wait
    obtain ⟨⟨⟨⟩, c⟩, ht, hr⟩ := Option.map_eq_some_iff.mp h
    obtain ⟨rfl, rfl⟩ := Prod.mk.inj hr
    exact ⟨rfl, rfl, id, .take ht rfl, .wake⟩
  · -- the debounce
    rcases ht : st.configDirty.take with _ | ⟨⟨⟩, c⟩ <;> simp only [ht] at h
    · obtain ⟨rfl, rfl⟩ := Prod.mk.inj (Option.some.inj h)
      exact ⟨rfl, rfl, id, .move rfl rfl rfl rfl, .quiet⟩
    · obtain ⟨rfl, rfl⟩ := Prod.mk.inj (Option.some.inj h)
      exact ⟨rfl, rfl, id, .take ht rfl, .again⟩
  · -- the load of `ENGINE_ACTIVE`
    obtain ⟨rfl, rfl⟩ := Prod.mk.inj (Option.some.inj h)
    by_cases hactive : st.engineActive = true
    · rw [if_pos hactive]
      exact ⟨rfl, rfl, id, .move rfl rfl rfl rfl, .busy hactive⟩
    · rw [if_neg hactive]
      exact ⟨rfl, rfl, id, .move rfl rfl rfl rfl, .idle (by simpa using hactive)⟩
  · obtain ⟨rfl, rfl⟩ := Prod.mk.inj (Option.some.inj h)
    exact ⟨rfl, rfl, id, .move rfl rfl rfl rfl, .reload⟩
  · -- the store of `SAVE_LOCK`
    obtain ⟨rfl, rfl⟩ := Prod.mk.inj (Option.some.inj h)
    exact ⟨rfl, rfl, fun _ => rfl, .move rfl rfl rfl rfl, .lock⟩
  · obtain ⟨rfl, rfl⟩ := Prod.mk.inj (Option.some.inj h)
    exact ⟨rfl, rfl, id, .move rfl rfl rfl rfl, .observed⟩
  · -- the recheck
    obtain ⟨rfl, rfl⟩ := Prod.mk.inj (Option.some.inj h)
    by_cases hactive : st.engineActive = true
    · rw [if_pos hactive]
      exact ⟨rfl, rfl, id, .move rfl rfl rfl rfl, .raced hactive⟩
    · rw [if_neg hactive]
      exact ⟨rfl, rfl, id, .move rfl rfl rfl rfl, .parked (by simpa using hactive)⟩
  · obtain ⟨rfl, rfl⟩ := Prod.mk.inj (Option.some.inj h)
    exact ⟨rfl, rfl, fun _ => rfl, .move rfl rfl rfl rfl, .retry⟩
  · obtain ⟨rfl, rfl⟩ := Prod.mk.inj (Option.some.inj h)
    exact ⟨rfl, rfl, id, .move rfl rfl rfl rfl, .slept⟩
  · obtain ⟨rfl, rfl⟩ := Prod.mk.inj (Option.some.inj h)
    exact ⟨rfl, rfl, id, .clone rfl rfl rfl, .cloned _⟩
  · obtain ⟨rfl, rfl⟩ := Prod.mk.inj (Option.some.inj h)
    exact ⟨rfl, rfl, id, .save cfg rfl rfl rfl, .saved cfg⟩
  · obtain ⟨rfl, rfl⟩ := Prod.mk.inj (Option.some.inj h)
    exact ⟨rfl, rfl, fun _ => rfl, .unlock rfl rfl rfl, .unlocked⟩

/-- A save that succeeds is what the next boot restores. -/
theorem restore_saved {dflt cfg : KeyerConfig} {flash : Storage.Flash} {ok : Bool}
    (h : (Storage.saveConfig tag Storage.schemaVersion codec flash cfg ok).2 = true) :
    restore tag codec dflt (Storage.saveConfig tag Storage.schemaVersion codec flash cfg ok).1 = cfg := by
  unfold restore
  rw [Storage.saveConfig_ok tag Storage.schemaVersion codec h, Storage.loadConfig_same, Option.getD_some]

end Persist
end RpKeyer
