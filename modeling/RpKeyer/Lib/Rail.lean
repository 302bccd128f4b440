/-
# A counter between rails

A counter that moves up or down by `d` and stops at its rails `lo` and `hi`
(`step`). It never leaves them (`step_bounds`). The values `lo + k * d` are a
grid; when the upper rail is on it, the counter stays on it (`Grid.step`).
From anywhere between the rails every point of the grid can be reached, by
going down to the rail first (`reach`).
-/
import Mathlib.Data.Nat.Basic
import Mathlib.Logic.Relation

namespace Rail

variable {lo hi d v w : ℕ}

/-- One step, up or down. -/
def step (lo hi d v : ℕ) (up : Bool) : ℕ := if up then min (v + d) hi else max (v - d) lo

/-- On the grid that starts at the lower rail. -/
def Grid (lo d v : ℕ) : Prop := ∃ k, v = lo + k * d

/-- A step taken between the rails. -/
def Moves (lo hi d v w : ℕ) : Prop := (lo ≤ v ∧ v ≤ hi) ∧ ∃ up, w = step lo hi d v up

theorem step_up (h : v + d ≤ hi) : step lo hi d v true = v + d := min_eq_left h

theorem step_top (h : hi ≤ v + d) : step lo hi d v true = hi := min_eq_right h

theorem step_down (h : lo ≤ v - d) : step lo hi d v false = v - d := max_eq_left h

theorem step_bottom (h : v - d ≤ lo) : step lo hi d v false = lo := max_eq_right h

theorem step_bounds (hlo : lo ≤ v) (hhi : v ≤ hi) (up : Bool) :
    lo ≤ step lo hi d v up ∧ step lo hi d v up ≤ hi := by
  unfold step
  cases up
  · exact ⟨le_max_right _ _, max_le (by omega) (by omega)⟩
  · exact ⟨le_min (by omega) (by omega), min_le_right _ _⟩

/-- The counter stays on the grid. -/
theorem Grid.step (h : Grid lo d v) (hhi : Grid lo d hi) (up : Bool) : Grid lo d (step lo hi d v up) := by
  obtain ⟨k, rfl⟩ := h
  cases up with
  | true =>
    rcases Nat.le_total (lo + k * d + d) hi with hroom | hrail
    · rw [step_up hroom]
      exact ⟨k + 1, by rw [Nat.succ_mul, Nat.add_assoc]⟩
    · rw [step_top hrail]
      exact hhi
  | false =>
    cases k with
    | zero =>
      rw [step_bottom (by omega)]
      exact ⟨0, by omega⟩
    | succ k =>
      have hback : lo + (k + 1) * d - d = lo + k * d := by
        rw [Nat.succ_mul]
        omega
      rw [step_down (by rw [hback]; exact Nat.le_add_right _ _), hback]
      exact ⟨k, rfl⟩

/-- The lower rail is reached from everywhere. -/
theorem reach_bottom (hd : 0 < d) : ∀ (n : ℕ) {v : ℕ}, v - lo ≤ n → lo ≤ v → v ≤ hi →
    Relation.ReflTransGen (Moves lo hi d) v lo
  | 0, v, hn, hlo, _ => by
    obtain rfl : v = lo := by omega
    exact .refl
  | n + 1, v, hn, hlo, hhi => by
    have hmove : Moves lo hi d v (step lo hi d v false) := ⟨⟨hlo, hhi⟩, false, rfl⟩
    obtain ⟨hlo', hhi'⟩ := step_bounds (d := d) hlo hhi false
    refine .head hmove ?_
    rcases Nat.le_total (v - d) lo with hrail | hroom
    · rw [step_bottom hrail]
    · rw [step_down hroom] at hlo' hhi' ⊢
      exact reach_bottom hd n (by omega) hlo' hhi'

/-- From the lower rail every point of the grid is reached. -/
theorem reach_up : ∀ k : ℕ, lo + k * d ≤ hi → Relation.ReflTransGen (Moves lo hi d) lo (lo + k * d)
  | 0, _ => by rw [Nat.zero_mul]; exact .refl
  | k + 1, hk => by
    have hsucc : lo + (k + 1) * d = lo + k * d + d := by rw [Nat.succ_mul, Nat.add_assoc]
    rw [hsucc] at hk ⊢
    refine .tail (reach_up k (by omega)) ⟨⟨Nat.le_add_right _ _, by omega⟩, true, (step_up hk).symm⟩

/-- Every point of the grid is reached from everywhere. -/
theorem reach (hd : 0 < d) (hlo : lo ≤ v) (hhi : v ≤ hi) (hgrid : Grid lo d w) (hw : w ≤ hi) :
    Relation.ReflTransGen (Moves lo hi d) v w := by
  obtain ⟨k, rfl⟩ := hgrid
  exact (reach_bottom hd (v - lo) (Nat.le_refl _) hlo hhi).trans (reach_up k hw)

end Rail
