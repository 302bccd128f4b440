/-
# Bounded work

Some of the labels of a step function are one party's own. Its work is a
measure that each of its own steps lowers and no step of another raises, as
long as the steps are ones that `ok` allows. Then over any such run the party
takes no more steps of its own than it had work (`run_work`), wherever the
steps of the others land; and if in a state with work left it has a step to
take, then alone it works everything off (`run_off`).
-/
import RpKeyer.Lib.Simulation

namespace StepRun

variable {σ α : Type*} (step : σ → α → Option σ)

/-- What one step does to the work: an own step lowers it, no other raises it. -/
def Works (ok : σ → α → Prop) (own : α → Bool) (work : σ → ℕ) (I : σ → Prop) : Prop :=
  ∀ s a s', I s → ok s a → step s a = some s' → I s' ∧ work s' + (if own a then 1 else 0) ≤ work s

variable {step} {ok : σ → α → Prop} {own : α → Bool} {work : σ → ℕ} {I : σ → Prop}

/-- Over a run, the own steps and the work left are no more than the work. -/
theorem run_work (hW : Works step ok own work I) : ∀ {ls : List α} {s t : σ}, I s → AllSteps step ok s ls →
    run step s ls = some t → I t ∧ work t + ls.countP own ≤ work s
  | [], s, t, hI, _, h => by
    obtain rfl := Option.some.inj h
    exact ⟨hI, Nat.le_refl _⟩
  | a :: ls, s, t, hI, hall, h => by
    obtain ⟨s', hs, hrun⟩ := (run_cons_some step).mp h
    obtain ⟨hI', hwork⟩ := hW s a s' hI hall.1 hs
    obtain ⟨hIt, hrest⟩ := run_work hW hI' (hall.2 s' hs) hrun
    rw [List.countP_cons]
    exact ⟨hIt, by omega⟩

/-- The party has a step to take while it has work. -/
def Unblocked (step : σ → α → Option σ) (ok : σ → α → Prop) (own : α → Bool) (work : σ → ℕ) (I : σ → Prop) : Prop :=
  ∀ s, I s → 0 < work s → ∃ a s', own a = true ∧ ok s a ∧ step s a = some s'

/-- Alone, it works everything off. -/
theorem run_off (hW : Works step ok own work I) (hU : Unblocked step ok own work I) : ∀ (n : ℕ) {s : σ}, I s →
    work s ≤ n → ∃ ls t, ls.length ≤ n ∧ (∀ a ∈ ls, own a = true) ∧ AllSteps step ok s ls ∧
      run step s ls = some t ∧ I t ∧ work t = 0
  | 0, s, hI, hn => ⟨[], s, Nat.le_refl 0, fun _ ha => absurd ha List.not_mem_nil, trivial, rfl, hI, Nat.le_zero.mp hn⟩
  | n + 1, s, hI, hn => by
    rcases Nat.eq_zero_or_pos (work s) with hdone | hleft
    · exact ⟨[], s, Nat.zero_le _, fun _ ha => absurd ha List.not_mem_nil, trivial, rfl, hI, hdone⟩
    · obtain ⟨a, s', hown, hok, hs⟩ := hU s hI hleft
      obtain ⟨hI', hwork⟩ := hW s a s' hI hok hs
      rw [if_pos hown] at hwork
      obtain ⟨ls, t, hlen, hall, hoks, hrun, hIt, hdone⟩ := run_off hW hU n hI' (by omega)
      refine ⟨a :: ls, t, by simpa using hlen, fun b hb => ?_, (allSteps_cons_some step hs).mpr ⟨hok, hoks⟩,
        (run_cons_some step).mpr ⟨s', hs, hrun⟩, hIt, hdone⟩
      rcases List.mem_cons.mp hb with rfl | hb
      · exact hown
      · exact hall b hb

end StepRun
