/-
# The changes of a sequence

A sequence without its repetitions, each value kept where it differs from the
one before it (`List.destutter`). Read from its newest end: a new value is
kept exactly if it differs from the last one (`destutter_concat`), and the
last value kept is the last value (`getLast?_destutter`).
-/
import Mathlib.Data.List.Destutter
import Mathlib.Data.List.Induction

namespace Changes

variable {α : Type*} [DecidableEq α]

theorem destutter'_concat : ∀ (l : List α) (a x : α),
    (l ++ [x]).destutter' (· ≠ ·) a =
      if (a :: l).getLast? = some x then l.destutter' (· ≠ ·) a else l.destutter' (· ≠ ·) a ++ [x]
  | [], a, x => by
    by_cases h : a = x <;> simp [h]
  | b :: l, a, x => by
    have ih := destutter'_concat l b x
    rw [List.cons_append, List.getLast?_cons_cons]
    by_cases h : a ≠ b
    · rw [List.destutter'_cons_pos _ h, List.destutter'_cons_pos _ h, ih]
      split <;> rfl
    · obtain rfl := not_not.mp h
      rw [List.destutter'_cons_neg _ h, List.destutter'_cons_neg _ h, ih]

/-- A new value is kept if it differs from the last one. -/
theorem destutter_concat (l : List α) (x : α) : (l ++ [x]).destutter (· ≠ ·) =
    if l.getLast? = some x then l.destutter (· ≠ ·) else l.destutter (· ≠ ·) ++ [x] := by
  cases l with
  | nil => rfl
  | cons a l => exact destutter'_concat l a x

/-- The last value kept is the last value. -/
theorem getLast?_destutter (l : List α) : (l.destutter (· ≠ ·)).getLast? = l.getLast? := by
  induction l using List.reverseRecOn with
  | nil => rfl
  | append_singleton l x ih =>
    rw [destutter_concat, List.getLast?_concat]
    split
    · rename_i hsame
      exact ih.trans hsame
    · exact List.getLast?_concat

end Changes
