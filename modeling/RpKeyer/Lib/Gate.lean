/-
# Gated streams

A source is copied to a consumer while a gate is open. The log of such a
stream says when the gate was set, and whether the consumer was told of a cut
then, what the source produced and what was copied. `next` is the discipline:
an item is copied at once, exactly when the gate is open, and opening a closed
gate cuts.

Then the consumer sees no hole: between two copies with no cut between them,
everything produced was copied (`no_hole`).
-/
import RpKeyer.Lib.StepRun

namespace Gate

variable {α : Type*}

inductive Event (α : Type*)
  | gate (isOpen cut : Bool)
  | source (x : α)
  | copy (x : α)
  deriving DecidableEq, Repr

/-- What the source produced. -/
def sources (log : List (Event α)) : List α := log.filterMap fun | .source x => some x | _ => none

/-- What was copied. -/
def copies (log : List (Event α)) : List α := log.filterMap fun | .copy x => some x | _ => none

/-- No cut in the log. -/
def Uncut (log : List (Event α)) : Prop := ∀ isOpen, .gate isOpen true ∉ log

/-- Where the gate was set last, `b` being where it was at the start. -/
def flag (b : Bool) : List (Event α) → Bool
  | [] => b
  | .gate isOpen _ :: log => flag isOpen log
  | _ :: log => flag b log

/-! ### The discipline -/

/-- The gate closed, open, or open with an item still to be copied. -/
inductive State (α : Type*)
  | closed
  | opened
  | owed (x : α)
  deriving DecidableEq, Repr

def State.ofFlag (b : Bool) : State α := if b then .opened else .closed

def State.isOpen : State α → Bool
  | .closed => false
  | _ => true

/-- The items still to be copied. -/
def State.owing : State α → List α
  | .owed x => [x]
  | _ => []

theorem isOpen_ofFlag (b : Bool) : (State.ofFlag b : State α).isOpen = b := by
  cases b <;> rfl

theorem owing_ofFlag (b : Bool) : (State.ofFlag b : State α).owing = [] := by
  cases b <;> rfl

variable [DecidableEq α]

/-- Setting the gate cuts exactly when it opens it; an item produced is owed
if the gate is open; a copy is of the item owed. -/
def next (s : State α) : Event α → Option (State α)
  | .gate isOpen cut => if s.owing = [] ∧ cut = (isOpen && !s.isOpen) then some (.ofFlag isOpen) else none
  | .source x => if s.owing = [] then some (if s.isOpen then .owed x else .closed) else none
  | .copy x => if s = .owed x then some .opened else none

/-- What was set, produced or copied, and the state after it. -/
theorem next_cases {s t : State α} {e : Event α} (h : next s e = some t) :
    (∃ isOpen cut, e = .gate isOpen cut ∧ s.owing = [] ∧ cut = (isOpen && !s.isOpen) ∧ t = .ofFlag isOpen) ∨
    (∃ x, e = .source x ∧ s.owing = [] ∧ t = if s.isOpen then .owed x else .closed) ∨
    (∃ x, e = .copy x ∧ s = .owed x ∧ t = .opened) := by
  cases e with
  | gate isOpen cut =>
    obtain ⟨⟨howing, hcut⟩, ht⟩ := StepRun.guard_some h
    exact .inl ⟨isOpen, cut, rfl, howing, hcut, ht⟩
  | source x =>
    obtain ⟨howing, ht⟩ := StepRun.guard_some h
    exact .inr (.inl ⟨x, rfl, howing, ht⟩)
  | copy x =>
    obtain ⟨hs, ht⟩ := StepRun.guard_some h
    exact .inr (.inr ⟨x, rfl, hs, ht⟩)

/-! ### Runs -/

/-- The gate is where it was set last. -/
theorem flag_run {t : State α} : ∀ {log : List (Event α)} {s : State α},
    StepRun.run next s log = some t → t.isOpen = flag s.isOpen log
  | [], s, h => by
    obtain rfl := Option.some.inj h
    rfl
  | e :: log, s, h => by
    obtain ⟨s', hs, hrun⟩ := (StepRun.run_cons_some next).mp h
    have ih := flag_run hrun
    obtain ⟨isOpen, cut, rfl, -, -, rfl⟩ | ⟨x, rfl, -, rfl⟩ | ⟨x, rfl, rfl, rfl⟩ := next_cases hs
    · rw [ih, isOpen_ofFlag]
      rfl
    · rw [ih]
      show flag _ log = flag s.isOpen log
      cases s.isOpen <;> rfl
    · exact ih

/-- Without a cut a closed gate stays closed. -/
theorem closed_run {t : State α} : ∀ {log : List (Event α)} {s : State α}, s.isOpen = false → Uncut log →
    StepRun.run next s log = some t → t.isOpen = false
  | [], s, hs, _, h => by
    obtain rfl := Option.some.inj h
    exact hs
  | e :: log, s, hclosed, huncut, h => by
    obtain ⟨s', hs, hrun⟩ := (StepRun.run_cons_some next).mp h
    have htail : Uncut log := fun isOpen hmem => huncut isOpen (List.mem_cons_of_mem _ hmem)
    refine closed_run ?_ htail hrun
    obtain ⟨isOpen, cut, rfl, -, hcut, rfl⟩ | ⟨x, rfl, -, rfl⟩ | ⟨x, rfl, rfl, rfl⟩ := next_cases hs
    · rw [isOpen_ofFlag]
      by_contra hopen
      rw [Bool.not_eq_false] at hopen
      apply huncut isOpen
      rw [hcut, hopen, hclosed]
      exact List.mem_cons_self
    · rw [hclosed]
      rfl
    · cases hclosed

/-- Without a cut, and open at both ends, all that is produced is copied. -/
theorem accounted {t : State α} (ht : t.isOpen = true) : ∀ {log : List (Event α)} {s : State α},
    s.isOpen = true → Uncut log → StepRun.run next s log = some t →
      s.owing ++ sources log = copies log ++ t.owing
  | [], s, _, _, h => by
    obtain rfl := Option.some.inj h
    exact List.append_nil _
  | e :: log, s, hopen, huncut, h => by
    obtain ⟨s', hs, hrun⟩ := (StepRun.run_cons_some next).mp h
    have htail : Uncut log := fun isOpen hmem => huncut isOpen (List.mem_cons_of_mem _ hmem)
    obtain ⟨isOpen, cut, rfl, howing, -, rfl⟩ | ⟨x, rfl, howing, rfl⟩ | ⟨x, rfl, rfl, rfl⟩ := next_cases hs
    · cases isOpen with
      | false => rw [closed_run rfl htail hrun] at ht; cases ht
      | true =>
        rw [howing]
        exact accounted ht rfl htail hrun
    · rw [hopen] at hrun
      rw [howing]
      exact accounted ht rfl htail hrun
    · exact congrArg (x :: ·) (accounted ht rfl htail hrun)

/-- A copy is made with the gate open, just after the source produced the item. -/
theorem copied {b : Bool} {t : State α} {before after : List (Event α)} {x : α}
    (h : StepRun.run next (.ofFlag b) (before ++ .copy x :: after) = some t) :
    StepRun.run next (.ofFlag b) before = some (.owed x) ∧ StepRun.run next .opened after = some t := by
  obtain ⟨s, hs, hrest⟩ := (StepRun.run_append_some next).mp h
  obtain ⟨s', hcopy, hrun⟩ := (StepRun.run_cons_some next).mp hrest
  obtain ⟨isOpen, cut, heq, -⟩ | ⟨y, heq, -⟩ | ⟨y, heq, rfl, rfl⟩ := next_cases hcopy
  · cases heq
  · cases heq
  · obtain rfl := Event.copy.inj heq
    exact ⟨hs, hrun⟩

/-- An item is owed just after the source produced it. -/
theorem owed_run {b : Bool} {x : α} {log : List (Event α)}
    (h : StepRun.run next (.ofFlag b) log = some (.owed x)) : ∃ before, log = before ++ [.source x] := by
  rcases List.eq_nil_or_concat log with rfl | ⟨before, e, rfl⟩
  · have howing := owing_ofFlag (α := α) b
    rw [Option.some.inj h] at howing
    cases howing
  · rw [List.concat_eq_append] at h ⊢
    obtain ⟨s, -, hlast⟩ := (StepRun.run_append_some next).mp h
    obtain ⟨s', hs, hnil⟩ := (StepRun.run_cons_some next).mp hlast
    obtain rfl := Option.some.inj hnil
    obtain ⟨isOpen, cut, rfl, -, -, heq⟩ | ⟨y, rfl, -, heq⟩ | ⟨y, rfl, -, heq⟩ := next_cases hs
    · have howing := owing_ofFlag (α := α) isOpen
      rw [← heq] at howing
      cases howing
    · split at heq
      · obtain rfl := State.owed.inj heq
        exact ⟨before, rfl⟩
      · cases heq
    · cases heq

/-- Between two copies with no cut between them, everything produced was
copied: in order, exactly once each. -/
theorem no_hole {b : Bool} {t : State α} {before mid after : List (Event α)} {x y : α}
    (h : StepRun.run next (.ofFlag b) (before ++ .copy x :: (mid ++ .copy y :: after)) = some t)
    (huncut : Uncut mid) : sources mid = copies mid ++ [y] := by
  obtain ⟨-, hrest⟩ := copied h
  obtain ⟨s, hmid, hcopy⟩ := (StepRun.run_append_some next).mp hrest
  have hs : s = .owed y := by
    obtain ⟨s', hnext, -⟩ := (StepRun.run_cons_some next).mp hcopy
    obtain ⟨isOpen, cut, heq, -⟩ | ⟨z, heq, -⟩ | ⟨z, heq, hs, -⟩ := next_cases hnext
    · cases heq
    · cases heq
    · obtain rfl := Event.copy.inj heq
      exact hs
  subst hs
  exact accounted rfl rfl huncut hmid

/-- An opening of a closed gate cuts. -/
theorem cut_of_opening {b cut : Bool} {t : State α} {before after : List (Event α)}
    (h : StepRun.run next (.ofFlag b) (before ++ .gate true cut :: after) = some t)
    (hclosed : flag b before = false) : cut = true := by
  obtain ⟨s, hs, hrest⟩ := (StepRun.run_append_some next).mp h
  obtain ⟨s', hgate, -⟩ := (StepRun.run_cons_some next).mp hrest
  have hflag := flag_run hs
  rw [isOpen_ofFlag, hclosed] at hflag
  obtain ⟨isOpen, cut', heq, -, hcut, -⟩ | ⟨x, heq, -⟩ | ⟨x, heq, -⟩ := next_cases hgate
  · obtain ⟨rfl, rfl⟩ := Event.gate.inj heq
    rw [hcut, hflag]
    rfl
  · cases heq
  · cases heq

end Gate
