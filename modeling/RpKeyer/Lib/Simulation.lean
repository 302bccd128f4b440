/-
# Forward simulations

A step function follows another if each of its steps is matched by steps of
the other, from related states to related states (`Simulation`). Then its runs
are matched by runs (`Simulation.run`), whose labels are the trace of the
matching: what every run of the other keeps, it keeps. Most often the relation
is an abstraction (`Simulation.ofMap`).

A component that no step reads can be laid beside a system: its runs are the
system's, and the component is what was last written (`run_beside`).
-/
import RpKeyer.Lib.StepRun

namespace StepRun

variable {σ α τ β : Type*}

/-- Steps of `step` matched by runs of `step'`. -/
structure Simulation (step : σ → α → Option σ) (step' : τ → β → Option τ) where
  rel : σ → τ → Prop
  labels : σ → α → List β
  sim : ∀ {s s' : σ} {a : α} {t : τ}, rel s t → step s a = some s' →
    ∃ t', run step' t (labels s a) = some t' ∧ rel s' t'

variable {step : σ → α → Option σ} {step' : τ → β → Option τ}

/-- A run and one more step. -/
theorem run_concat {s s' t : σ} {ls : List α} {a : α} (h : run step s ls = some s') (hs : step s' a = some t) :
    run step s (ls ++ [a]) = some t :=
  (run_append_some step).mpr ⟨s', h, (run_cons_some step).mpr ⟨t, hs, rfl⟩⟩

theorem trace_nil {obs : σ → α → List β} (s : σ) : trace step obs s [] = [] := rfl

theorem trace_cons {obs : σ → α → List β} {s s' : σ} {a : α} (h : step s a = some s') (ls : List α) :
    trace step obs s (a :: ls) = obs s a ++ trace step obs s' ls := by
  simp only [trace, h]

/-- The trace of a run in two parts. -/
theorem trace_append {obs : σ → α → List β} : ∀ {ls ls' : List α} {s s' : σ}, run step s ls = some s' →
    trace step obs s (ls ++ ls') = trace step obs s ls ++ trace step obs s' ls'
  | [], _, _, _, h => by
    obtain rfl := Option.some.inj h
    rfl
  | a :: ls, ls', s, s', h => by
    obtain ⟨s₁, hs, hrun⟩ := (run_cons_some step).mp h
    rw [List.cons_append, trace_cons hs, trace_cons hs, trace_append hrun, List.append_assoc]

/-- A run is matched by a run. -/
theorem Simulation.run (S : Simulation step step') : ∀ {ls : List α} {s s' : σ} {t : τ}, S.rel s t →
    StepRun.run step s ls = some s' →
      ∃ t', StepRun.run step' t (trace step S.labels s ls) = some t' ∧ S.rel s' t'
  | [], s, _, t, hR, h => by
    obtain rfl := Option.some.inj h
    exact ⟨t, rfl, hR⟩
  | a :: ls, s, s', t, hR, h => by
    obtain ⟨s₁, hs, hrun⟩ := (run_cons_some step).mp h
    obtain ⟨t₁, ht, hR₁⟩ := S.sim hR hs
    obtain ⟨t', ht', hR'⟩ := S.run hR₁ hrun
    rw [trace_cons hs]
    exact ⟨t', (run_append_some step').mpr ⟨t₁, ht, ht'⟩, hR'⟩

/-- What a run shows is what the run that matches it shows, if this holds of
each step. -/
theorem Simulation.shows (S : Simulation step step') {γ : Type*} {obs : σ → α → List γ} {obs' : τ → β → List γ}
    (hobs : ∀ {s s' : σ} {a : α} {t : τ}, S.rel s t → step s a = some s' →
      obs s a = StepRun.trace step' obs' t (S.labels s a)) :
    ∀ {ls : List α} {s s' : σ} {t : τ}, S.rel s t → StepRun.run step s ls = some s' →
      StepRun.trace step obs s ls = StepRun.trace step' obs' t (StepRun.trace step S.labels s ls)
  | [], _, _, _, _, _ => rfl
  | a :: ls, s, s', t, hR, h => by
    obtain ⟨s₁, hs, hrun⟩ := (run_cons_some step).mp h
    obtain ⟨t₁, ht, hR₁⟩ := S.sim hR hs
    rw [trace_cons hs, trace_cons hs, trace_append ht, hobs hR hs, S.shows hobs hR₁ hrun]

/-- A simulation whose relation is an abstraction function. -/
def Simulation.ofMap (f : σ → τ) (labels : σ → α → List β)
    (h : ∀ {s s' : σ} {a : α}, step s a = some s' → StepRun.run step' (f s) (labels s a) = some (f s')) :
    Simulation step step' where
  rel s t := f s = t
  labels := labels
  sim hR hs := hR ▸ ⟨_, h hs, rfl⟩

theorem Simulation.run_ofMap {f : σ → τ} {labels : σ → α → List β}
    (h : ∀ {s s' : σ} {a : α}, step s a = some s' → StepRun.run step' (f s) (labels s a) = some (f s'))
    {ls : List α} {s s' : σ} (hrun : StepRun.run step s ls = some s') :
    StepRun.run step' (f s) (trace step labels s ls) = some (f s') := by
  obtain ⟨t', ht', hR⟩ := (Simulation.ofMap f labels h).run rfl hrun
  obtain rfl : f s' = t' := hR
  exact ht'

/-- Steps beside a component `k` that none of them reads: a step may write it. -/
theorem run_beside {κ : Type*} {beside : κ → σ → τ} {label : β → α} {writes : τ → β → List κ}
    (hstep : ∀ s k b, step' (beside k s) b =
      (step s (label b)).map (beside ((writes (beside k s) b).getLastD k))) :
    ∀ (bs : List β) (s : σ) (k : κ), StepRun.run step' (beside k s) bs =
      (StepRun.run step s (bs.map label)).map (beside ((trace step' writes (beside k s) bs).getLastD k))
  | [], s, k => rfl
  | b :: bs, s, k => by
    have hb := hstep s k b
    rw [List.map_cons, run_cons, run_cons, hb]
    cases hs : step s (label b) with
    | none => rfl
    | some s₁ =>
      rw [hs, Option.map_some] at hb
      rw [Option.map_some, Option.bind_some, Option.bind_some, run_beside hstep bs s₁, trace_cons hb]
      simp [List.getLastD_eq_getLast?, List.getLast?_append, Option.getD_or]

end StepRun
