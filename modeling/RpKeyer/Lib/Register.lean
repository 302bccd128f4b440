/-
# A register that events write

Some events write a register, the others leave it. After any events it holds
what the last event that writes wrote, or what it held before when none does
(`after_eq_iff`).
-/
import Mathlib.Data.List.Basic

namespace Register

variable {ε α : Type*} (writes : ε → Option α)

/-- The register after the events, from `v`. -/
def after (v : α) (es : List ε) : α := es.foldl (fun v e => (writes e).getD v) v

/-- The last event that writes wrote `x`. -/
def LastWrite (x : α) (es : List ε) : Prop :=
  ∃ before e later, es = before ++ e :: later ∧ writes e = some x ∧ ∀ e' ∈ later, writes e' = none

theorem after_cons (v : α) (e : ε) (es : List ε) :
    after writes v (e :: es) = after writes ((writes e).getD v) es := rfl

theorem after_append (v : α) (es es' : List ε) :
    after writes v (es ++ es') = after writes (after writes v es) es' := List.foldl_append

theorem after_quiet {writes : ε → Option α} (v : α) : ∀ {es : List ε}, (∀ e ∈ es, writes e = none) →
    after writes v es = v
  | [], _ => rfl
  | e :: es, h => by
    obtain ⟨he, hes⟩ := List.forall_mem_cons.mp h
    rw [after_cons, he, Option.getD_none, after_quiet v hes]

theorem after_lastWrite {writes : ε → Option α} {x : α} {es : List ε} (v : α) (h : LastWrite writes x es) :
    after writes v es = x := by
  obtain ⟨before, e, later, rfl, he, hlater⟩ := h
  rw [after_append, after_cons, he, Option.getD_some, after_quiet x hlater]

/-- Either nothing wrote, or there is a last write. -/
theorem quiet_or_lastWrite (es : List ε) : (∀ e ∈ es, writes e = none) ∨ ∃ x, LastWrite writes x es := by
  induction es with
  | nil => exact .inl fun e he => by cases he
  | cons e es ih =>
    rcases ih with hquiet | ⟨x, before, e', later, rfl, he', hlater⟩
    · cases hw : writes e with
      | none => exact .inl (List.forall_mem_cons.mpr ⟨hw, hquiet⟩)
      | some x => exact .inr ⟨x, [], e, es, rfl, hw, hquiet⟩
    · exact .inr ⟨x, e :: before, e', later, rfl, he', hlater⟩

/-- What the register holds. -/
theorem after_eq_iff {v x : α} {es : List ε} : after writes v es = x ↔
    LastWrite writes x es ∨ ((∀ e ∈ es, writes e = none) ∧ v = x) := by
  constructor
  · intro h
    rcases quiet_or_lastWrite writes es with hquiet | ⟨y, hy⟩
    · exact .inr ⟨hquiet, (after_quiet v hquiet).symm.trans h⟩
    · obtain rfl : y = x := (after_lastWrite v hy).symm.trans h
      exact .inl hy
  · rintro (hx | ⟨hquiet, rfl⟩)
    · exact after_lastWrite v hx
    · exact after_quiet v hquiet

end Register
