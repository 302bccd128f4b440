/-
# The value that last filled a window

A stream settles on a value when its last `T` samples are all that value, and
keeps it until another value fills a window (`settled`). Windows range over
the whole history.

Two changes of the settled value are at least `T` samples apart
(`change_spacing`), since the window of the second would contain the first;
and a stream whose excursions from it are all shorter than `T` does not change
it (`settled_excursions`). The excursion in progress is the trailing run of
samples that differ (`excursion`); it starts after the last change
(`excursion_sinceChange`).
-/
import Mathlib.Data.List.DropRight
import Mathlib.Data.List.Infix

namespace Windows

variable {α : Type*}

/-- The newest samples of a filled window are its value. -/
theorem eq_of_window {T : ℕ} {w : α} {xs ys : List α} (hfull : List.replicate T w <:+ xs ++ ys)
    (hlen : ys.length ≤ T) : ∀ y ∈ ys, y = w := by
  have hsuffix : ys <:+ List.replicate T w :=
    List.suffix_of_suffix_length_le (List.suffix_append xs ys) hfull (by simpa using hlen)
  intro y hy
  exact List.eq_of_mem_replicate (hsuffix.subset hy)

variable [DecidableEq α]

/-! ### The settled value -/

/-- The settled value of a history, newest sample first. -/
def latest (T : ℕ) (init : α) : List α → α
  | [] => init
  | x :: past => if List.replicate T x <+: x :: past then x else latest T init past

/-- The value the samples have settled on: `init` until a window is filled. -/
def settled (T : ℕ) (init : α) (xs : List α) : α := latest T init xs.reverse

theorem settled_concat (T : ℕ) (init : α) (xs : List α) (x : α) :
    settled T init (xs ++ [x]) =
      if List.replicate T x <:+ xs ++ [x] then x else settled T init xs := by
  have hwindow : List.replicate T x <+: x :: xs.reverse ↔ List.replicate T x <:+ xs ++ [x] := by
    rw [← List.reverse_prefix, List.reverse_replicate, List.reverse_concat]
  unfold settled
  rw [List.reverse_concat, latest]
  by_cases hfull : List.replicate T x <:+ xs ++ [x]
  · rw [if_pos hfull, if_pos (hwindow.mpr hfull)]
  · rw [if_neg hfull, if_neg fun h => hfull (hwindow.mp h)]

/-- A sample that is settled on already changes nothing. -/
theorem settled_concat_same {T : ℕ} {init x : α} {xs : List α} (h : settled T init xs = x) :
    settled T init (xs ++ [x]) = x := by
  rw [settled_concat]
  split
  · rfl
  · exact h

theorem settled_append_same {T : ℕ} {init x : α} {xs : List α} (h : settled T init xs = x) :
    ∀ ys : List α, (∀ y ∈ ys, y = x) → settled T init (xs ++ ys) = x := by
  intro ys
  induction ys using List.reverseRecOn with
  | nil =>
    intro _
    rwa [List.append_nil]
  | append_singleton ys y ih =>
    intro hall
    obtain rfl : y = x := hall y (by simp)
    rw [← List.append_assoc]
    exact settled_concat_same (ih fun z hz => hall z (by simp [hz]))

/-- A change is to the newest sample, which fills a window. -/
theorem settled_change {T : ℕ} {init x : α} {xs : List α}
    (h : settled T init (xs ++ [x]) ≠ settled T init xs) :
    settled T init (xs ++ [x]) = x ∧ List.replicate T x <:+ xs ++ [x] := by
  have hstep := settled_concat T init xs x
  by_cases hfull : List.replicate T x <:+ xs ++ [x]
  · rw [if_pos hfull] at hstep
    exact ⟨hstep, hfull⟩
  · rw [if_neg hfull] at hstep
    exact absurd hstep h

/-! ### Spacing -/

/-- **Spacing.** Two changes are at least a window apart. -/
theorem change_spacing {T : ℕ} {init x z : α} {xs ys : List α}
    (hx : settled T init (xs ++ [x]) ≠ settled T init xs)
    (hz : settled T init (xs ++ [x] ++ ys ++ [z]) ≠ settled T init (xs ++ [x] ++ ys)) :
    T ≤ ys.length + 1 := by
  by_contra hlt
  obtain ⟨hvalue, -⟩ := settled_change hx
  obtain ⟨hlast, hfull⟩ := settled_change hz
  -- the window of the second change reaches back over the first
  have hsplit : xs ++ [x] ++ ys ++ [z] = xs ++ (x :: ys ++ [z]) := by simp
  have hall : ∀ y ∈ x :: ys ++ [z], y = z :=
    eq_of_window (hsplit ▸ hfull) (by simp only [List.length_append, List.length_cons, List.length_nil]; omega)
  have hxz : x = z := hall x (by simp)
  have hkept : settled T init (xs ++ [x] ++ ys) = z :=
    settled_append_same (hxz ▸ hvalue) ys fun y hy => hall y (by simp [hy])
  exact hz (hlast.trans hkept.symm)

/-! ### Excursions -/

/-- The trailing samples that differ from `v`. -/
def excursion (v : α) (xs : List α) : List α := xs.rtakeWhile fun x => x ≠ v

@[simp] theorem excursion_nil (v : α) : excursion v [] = [] := by simp [excursion]

theorem excursion_concat_same (v : α) (xs : List α) : excursion v (xs ++ [v]) = [] :=
  List.rtakeWhile_concat_neg _ _ _ (by simp)

theorem excursion_concat_ne {v x : α} (h : x ≠ v) (xs : List α) :
    excursion v (xs ++ [x]) = excursion v xs ++ [x] :=
  List.rtakeWhile_concat_pos _ _ _ (by simpa using h)

/-- A window of another value lies in the excursion and what follows. -/
theorem window_in_excursion {T : ℕ} {v w : α} (hne : w ≠ v) {xs ys : List α}
    (hfull : List.replicate T w <:+ xs ++ ys) : List.replicate T w <:+ excursion v xs ++ ys := by
  induction xs using List.reverseRecOn generalizing ys with
  | nil => simpa using hfull
  | append_singleton xs x ih =>
    by_cases hx : x = v
    · subst hx
      rw [excursion_concat_same, List.nil_append]
      by_contra hout
      -- otherwise the window contains `v`
      have hlong : ys.length < T := by
        by_contra hle
        have hys : ys <:+ xs ++ [x] ++ ys := List.suffix_append _ _
        exact hout (List.suffix_of_suffix_length_le hfull hys (by simpa using hle))
      rw [List.append_assoc] at hfull
      have hmem := eq_of_window hfull (by simpa [Nat.succ_le_iff] using hlong) x (by simp)
      exact hne hmem.symm
    · rw [excursion_concat_ne hx, List.append_assoc]
      rw [List.append_assoc] at hfull
      exact ih hfull

/-- **Steady.** If neither the excursion in progress nor what follows holds a
window of another value, the settled value stays. -/
theorem settled_excursions {T : ℕ} {init : α} {xs : List α} : ∀ ys : List α,
    (∀ w, w ≠ settled T init xs → ¬List.replicate T w <:+: excursion (settled T init xs) xs ++ ys) →
    settled T init (xs ++ ys) = settled T init xs := by
  intro ys
  induction ys using List.reverseRecOn with
  | nil =>
    intro _
    rw [List.append_nil]
  | append_singleton ys y ih =>
    intro hshort
    have hbefore : settled T init (xs ++ ys) = settled T init xs := by
      refine ih fun w hne hin => hshort w hne ?_
      rw [← List.append_assoc]
      exact hin.trans (List.prefix_append _ _).isInfix
    by_contra hchange
    rw [← hbefore, ← List.append_assoc] at hchange
    obtain ⟨hlast, hfull⟩ := settled_change hchange
    have hne : y ≠ settled T init xs := by
      rw [← hbefore, ← hlast]
      exact hchange
    rw [List.append_assoc] at hfull
    exact hshort y hne (window_in_excursion hne hfull).isInfix

/-- A value other than the first is settled on when it filled a window and no
other value has since. -/
theorem settled_eq_iff {T : ℕ} (hT : 0 < T) {init v : α} (hv : v ≠ init) (xs : List α) :
    settled T init xs = v ↔ ∃ n ≤ xs.length, List.replicate T v <:+ xs.take n ∧
      ∀ m, n < m → m ≤ xs.length → ∀ w, w ≠ v → ¬List.replicate T w <:+ xs.take m := by
  induction xs using List.reverseRecOn with
  | nil =>
    constructor
    · intro h
      exact absurd h.symm hv
    · rintro ⟨n, -, hfull, -⟩
      have hlen := hfull.length_le
      simp only [List.length_replicate, List.take_nil, List.length_nil] at hlen
      omega
  | append_singleton xs x ih =>
    have hlast : ∀ w, List.replicate T w <:+ xs ++ [x] → w = x := fun w hfull =>
      (eq_of_window hfull (by simpa using Nat.succ_le_of_lt hT) x (by simp)).symm
    have htake : ∀ n ≤ xs.length, (xs ++ [x]).take n = xs.take n := fun n hn => List.take_append_of_le_length hn
    have hall : (xs ++ [x]).take (xs.length + 1) = xs ++ [x] := List.take_of_length_le (by simp)
    rw [settled_concat, List.length_append, List.length_singleton]
    by_cases hfull : List.replicate T x <:+ xs ++ [x]
    · rw [if_pos hfull]
      constructor
      · rintro rfl
        exact ⟨xs.length + 1, le_refl _, by rwa [hall], fun m hm hle => absurd hm (by omega)⟩
      · rintro ⟨n, hn, hwindow, hsince⟩
        by_contra hne
        rcases Nat.lt_or_ge xs.length n with hlt | hle
        · obtain rfl : n = xs.length + 1 := by omega
          rw [hall] at hwindow
          exact hne (hlast v hwindow).symm
        · exact hsince (xs.length + 1) (by omega) (le_refl _) x hne (by rwa [hall])
    · rw [if_neg hfull, ih]
      constructor
      · rintro ⟨n, hn, hwindow, hsince⟩
        refine ⟨n, by omega, by rwa [htake n hn], fun m hm hle w hw hin => ?_⟩
        rcases Nat.lt_or_ge xs.length m with hlt | hle'
        · obtain rfl : m = xs.length + 1 := by omega
          rw [hall] at hin
          exact hfull (hlast w hin ▸ hin)
        · rw [htake m hle'] at hin
          exact hsince m hm hle' w hw hin
      · rintro ⟨n, hn, hwindow, hsince⟩
        rcases Nat.lt_or_ge xs.length n with hlt | hle
        · obtain rfl : n = xs.length + 1 := by omega
          rw [hall] at hwindow
          exact absurd (hlast v hwindow ▸ hwindow) hfull
        · rw [htake n hle] at hwindow
          refine ⟨n, hle, hwindow, fun m hm hle' w hw hin => hsince m hm (by omega) w hw ?_⟩
          rwa [htake m hle']

/-! ### Since the last change -/

/-- The samples since the last change, newest first. -/
def latestSince (T : ℕ) (init : α) : List α → List α
  | [] => []
  | x :: past =>
    if latest T init (x :: past) = latest T init past then x :: latestSince T init past else []

/-- The samples since the settled value last changed, or since the start. -/
def sinceChange (T : ℕ) (init : α) (xs : List α) : List α := (latestSince T init xs.reverse).reverse

theorem sinceChange_nil (T : ℕ) (init : α) : sinceChange T init [] = [] := rfl

theorem sinceChange_concat (T : ℕ) (init : α) (xs : List α) (x : α) :
    sinceChange T init (xs ++ [x]) =
      if settled T init (xs ++ [x]) = settled T init xs then sinceChange T init xs ++ [x] else [] := by
  unfold sinceChange settled
  rw [List.reverse_concat, latestSince]
  split
  · rw [List.reverse_cons]
  · rfl

/-- The excursion in progress began after the last change. -/
theorem excursion_sinceChange (T : ℕ) (init : α) (xs : List α) :
    excursion (settled T init xs) (sinceChange T init xs) = excursion (settled T init xs) xs := by
  induction xs using List.reverseRecOn with
  | nil => rw [sinceChange_nil]
  | append_singleton xs x ih =>
    rw [sinceChange_concat]
    by_cases hsame : settled T init (xs ++ [x]) = settled T init xs
    · rw [if_pos hsame, hsame]
      by_cases hx : x = settled T init xs
      · rw [hx, excursion_concat_same, excursion_concat_same]
      · rw [excursion_concat_ne hx, excursion_concat_ne hx, ih]
    · rw [if_neg hsame, (settled_change hsame).1, excursion_concat_same, excursion_nil]

/-! ### Two values -/

/-- With two values, a window of the other one is a long enough excursion. -/
theorem window_iff_excursion (T : ℕ) {v w : Bool} (hne : w ≠ v) (xs : List Bool) :
    List.replicate T w <:+ xs ↔ T ≤ (excursion v xs).length := by
  have hother : ∀ x ∈ excursion v xs, x = w := by
    intro x hx
    have hxv : x ≠ v := by simpa using List.mem_rtakeWhile_imp hx
    revert hne hxv
    cases x <;> cases v <;> cases w <;> simp
  constructor
  · intro hfull
    have hfull' : List.replicate T w <:+ xs ++ [] := by rwa [List.append_nil]
    have hin := window_in_excursion hne hfull'
    simpa using hin.length_le
  · intro hlen
    have hsuffix : excursion v xs <:+ xs := List.rtakeWhile_suffix _ _
    have hrun : List.replicate T w <:+ List.replicate (excursion v xs).length w := by
      rw [List.suffix_replicate_iff]
      exact ⟨by simpa using hlen, by simp⟩
    rw [← List.eq_replicate_of_mem hother] at hrun
    exact hrun.trans hsuffix

end Windows
