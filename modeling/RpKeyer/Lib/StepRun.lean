/-
# Runs of a partial step function

Tasks that share memory, interleaved, are one step function
`σ → α → Option σ`: a label says which task moves and on what input, and
`none` that it is blocked there (or, in a program that can fail, that it
failed). A run is a list of labels.

What a step preserves a run preserves (`run_inv`), also when only the steps
that `ok` allows preserve it (`run_inv_of`), and when the invariant speaks
about the labels taken so far (`run_inv_hist`) or about what the steps have
shown (`run_inv_trace`). If in addition no step of an
invariant state is blocked, the run completes (`run_total`).
-/
import Mathlib.Data.List.Basic

namespace StepRun

variable {σ α : Type*} (step : σ → α → Option σ)

/-- The state after the labels `ls`, each enabled where it is taken. -/
def run (s : σ) (ls : List α) : Option σ := ls.foldlM step s

theorem run_nil (s : σ) : run step s [] = some s := rfl

theorem run_cons (s : σ) (a : α) (ls : List α) :
    run step s (a :: ls) = (step s a).bind fun s' => run step s' ls := rfl

theorem run_append (s : σ) (ls ls' : List α) :
    run step s (ls ++ ls') = (run step s ls).bind fun s' => run step s' ls' :=
  List.foldlM_append

/-- A run takes its first step and goes on from there. -/
theorem run_cons_some {s t : σ} {a : α} {ls : List α} :
    run step s (a :: ls) = some t ↔ ∃ s', step s a = some s' ∧ run step s' ls = some t := by
  rw [run_cons, Option.bind_eq_some_iff]

theorem run_append_some {s t : σ} {ls ls' : List α} :
    run step s (ls ++ ls') = some t ↔ ∃ s', run step s ls = some s' ∧ run step s' ls' = some t := by
  rw [run_append, Option.bind_eq_some_iff]

/-- A guarded step that is taken: the guard held, and the state is its result. -/
theorem guard_some {p : Prop} [Decidable p] {s t : σ} (h : (if p then some s else none) = some t) :
    p ∧ t = s := by
  split at h
  · rename_i hp
    exact ⟨hp, (Option.some.inj h).symm⟩
  · cases h

/-- Every step of the run from `s` is one that `ok` allows. -/
def AllSteps (ok : σ → α → Prop) : σ → List α → Prop
  | _, [] => True
  | s, a :: ls => ok s a ∧ ∀ s', step s a = some s' → AllSteps ok s' ls

theorem allSteps_cons_some {ok : σ → α → Prop} {s s' : σ} {a : α} {ls : List α} (h : step s a = some s') :
    AllSteps step ok s (a :: ls) ↔ ok s a ∧ AllSteps step ok s' ls := by
  refine ⟨fun hall => ⟨hall.1, hall.2 s' h⟩, fun hall => ⟨hall.1, fun t ht => ?_⟩⟩
  obtain rfl : s' = t := Option.some.inj (h.symm.trans ht)
  exact hall.2

theorem allSteps_cons_none {ok : σ → α → Prop} {s : σ} {a : α} {ls : List α} (h : step s a = none) :
    AllSteps step ok s (a :: ls) ↔ ok s a := by
  refine ⟨fun hall => hall.1, fun hok => ⟨hok, fun t ht => ?_⟩⟩
  rw [h] at ht
  cases ht

instance decidableAllSteps {ok : σ → α → Prop} [∀ s a, Decidable (ok s a)] :
    ∀ (s : σ) (ls : List α), Decidable (AllSteps step ok s ls)
  | _, [] => .isTrue trivial
  | s, a :: ls =>
    match h : step s a with
    | none => decidable_of_iff _ (allSteps_cons_none step h).symm
    | some s' =>
      have : Decidable (AllSteps step ok s' ls) := decidableAllSteps s' ls
      decidable_of_iff _ (allSteps_cons_some step h).symm

theorem allSteps_mono {ok ok' : σ → α → Prop} (h : ∀ s a, ok s a → ok' s a) :
    ∀ (ls : List α) (s : σ), AllSteps step ok s ls → AllSteps step ok' s ls
  | [], _, _ => trivial
  | _ :: ls, s, hall => ⟨h s _ hall.1, fun s' hs => allSteps_mono h ls s' (hall.2 s' hs)⟩

/-- What every allowed step preserves, a run of allowed steps preserves. -/
theorem run_inv_of {I : σ → Prop} {ok : σ → α → Prop}
    (hstep : ∀ s a s', I s → ok s a → step s a = some s' → I s') :
    ∀ (ls : List α) (s t : σ), I s → AllSteps step ok s ls → run step s ls = some t → I t
  | [], s, t, hI, _, h => by
    rw [run_nil] at h
    exact Option.some.inj h ▸ hI
  | a :: ls, s, t, hI, hok, h => by
    obtain ⟨s', hs, ht⟩ := (run_cons_some step).mp h
    exact run_inv_of hstep ls s' t (hstep s a s' hI hok.1 hs) (hok.2 s' hs) ht

theorem allSteps_true : ∀ (ls : List α) (s : σ), AllSteps step (fun _ _ => True) s ls
  | [], _ => trivial
  | _ :: ls, _ => ⟨trivial, fun s' _ => allSteps_true ls s'⟩

/-- What every step preserves, a run preserves. -/
theorem run_inv {I : σ → Prop} (hstep : ∀ s a s', I s → step s a = some s' → I s')
    {ls : List α} {s t : σ} (hI : I s) (h : run step s ls = some t) : I t :=
  run_inv_of step (fun s a s' hs _ => hstep s a s' hs) ls s t hI (allSteps_true step ls s) h

/-- As `run_inv`, for an invariant that speaks about the labels taken. -/
theorem run_inv_hist {I : List α → σ → Prop}
    (hstep : ∀ ls s a s', I ls s → step s a = some s' → I (ls ++ [a]) s') :
    ∀ (ls past : List α) (s t : σ), I past s → run step s ls = some t → I (past ++ ls) t
  | [], past, s, t, hI, h => by
    rw [run_nil] at h
    rw [List.append_nil]
    exact Option.some.inj h ▸ hI
  | a :: ls, past, s, t, hI, h => by
    obtain ⟨s', hs, ht⟩ := (run_cons_some step).mp h
    have := run_inv_hist hstep ls (past ++ [a]) s' t (hstep past s a s' hI hs) ht
    rwa [List.append_assoc] at this

/-- What the steps of a run show, `obs` being what one step does. -/
def trace {β : Type*} (obs : σ → α → List β) : σ → List α → List β
  | _, [] => []
  | s, a :: ls =>
    obs s a ++ match step s a with
      | none => []
      | some s' => trace obs s' ls

/-- As `run_inv`, for an invariant that speaks about the trace so far. -/
theorem run_inv_trace {β : Type*} {obs : σ → α → List β} {I : List β → σ → Prop}
    (hstep : ∀ tr s a s', I tr s → step s a = some s' → I (tr ++ obs s a) s') :
    ∀ (ls : List α) (tr : List β) (s t : σ), I tr s → run step s ls = some t → I (tr ++ trace step obs s ls) t
  | [], tr, s, t, hI, h => by
    rw [run_nil] at h
    rw [trace, List.append_nil]
    exact Option.some.inj h ▸ hI
  | a :: ls, tr, s, t, hI, h => by
    obtain ⟨s', hs, ht⟩ := (run_cons_some step).mp h
    have htail := run_inv_trace hstep ls (tr ++ obs s a) s' t (hstep tr s a s' hI hs) ht
    rwa [trace, hs, ← List.append_assoc]

/-- If no step of an invariant state is blocked, the run completes. -/
theorem run_total {I : σ → Prop} (hstep : ∀ s a, I s → ∃ s', step s a = some s' ∧ I s') :
    ∀ (ls : List α) (s : σ), I s → ∃ t, run step s ls = some t ∧ I t
  | [], s, hI => ⟨s, rfl, hI⟩
  | a :: ls, s, hI => by
    obtain ⟨s', hs, hI'⟩ := hstep s a hI
    obtain ⟨t, ht, hIt⟩ := run_total hstep ls s' hI'
    exact ⟨t, (run_cons_some step).mpr ⟨s', hs, ht⟩, hIt⟩

end StepRun
