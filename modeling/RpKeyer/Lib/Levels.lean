/-
# Levels and the events that set them

A level is a Boolean that events set. After a list of events it is the last
one (`level`), and the events toggle it if each is a change (`Toggles`). Both
compose along a concatenation, so they can be followed through a run.
-/
import Mathlib.Data.List.Chain

namespace Levels

/-- The level after the events `fs`, from `b`. -/
def level (b : Bool) (fs : List Bool) : Bool := fs.getLastD b

@[simp] theorem level_nil (b : Bool) : level b [] = b := rfl

theorem level_cons (b f : Bool) (fs : List Bool) : level b (f :: fs) = level f fs :=
  List.getLastD_cons

theorem level_append (b : Bool) : ∀ fs gs : List Bool, level b (fs ++ gs) = level (level b fs) gs
  | [], gs => rfl
  | f :: fs, gs => by
    rw [List.cons_append, level_cons, level_cons]
    exact level_append f fs gs

/-- An event decides the level. -/
theorem level_concat (b : Bool) (fs : List Bool) (f : Bool) : level b (fs ++ [f]) = f := by
  rw [level_append]
  rfl

/-- Every event changes the level: starting from `b`, on and off alternate. -/
def Toggles (b : Bool) (fs : List Bool) : Prop := List.IsChain (· ≠ ·) (b :: fs)

theorem toggles_nil (b : Bool) : Toggles b [] := List.isChain_singleton b

theorem toggles_cons {b f : Bool} {fs : List Bool} : Toggles b (f :: fs) ↔ b ≠ f ∧ Toggles f fs :=
  List.isChain_cons_cons

theorem toggles_append : ∀ {b : Bool} {fs gs : List Bool},
    Toggles b (fs ++ gs) ↔ Toggles b fs ∧ Toggles (level b fs) gs
  | b, [], gs => by simp [toggles_nil]
  | b, f :: fs, gs => by
    rw [List.cons_append, toggles_cons, toggles_cons, level_cons, toggles_append, and_assoc]

end Levels
