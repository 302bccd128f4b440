/-
# The debouncer against its sliding window

`Debouncer` keeps one counter, reset on agreement and on a flip. Its output is
the value that last filled a window of `threshold` samples of the whole
history (`Windows.settled`): the counter is the length of the excursion in
progress (`Tracks`), and a window of the other value is an excursion of
`threshold` samples.
-/
import RpKeyer.Lib.Window
import RpKeyer.Paddle

namespace RpKeyer
namespace Debouncer

open Windows

/-! ### Runs -/

/-- The debouncer after the samples. -/
def after (d : Debouncer) (xs : List Bool) : Debouncer := xs.foldl (fun d x => (d.update x).1) d

/-- What the updates return. -/
def outputs : Debouncer → List Bool → List Bool
  | _, [] => []
  | d, x :: xs => (d.update x).2 :: (d.update x).1.outputs xs

/-- The output after the samples; before the first one, the initial state. -/
def output (init : Bool) (threshold : UInt8) (xs : List Bool) : Bool :=
  ((new init threshold).outputs xs).getLastD init

theorem after_concat (d : Debouncer) (xs : List Bool) (x : Bool) :
    d.after (xs ++ [x]) = ((d.after xs).update x).1 := by
  unfold after
  rw [List.foldl_append]
  rfl

theorem outputs_concat : ∀ (xs : List Bool) (d : Debouncer) (x : Bool),
    d.outputs (xs ++ [x]) = d.outputs xs ++ [((d.after xs).update x).2]
  | [], _, _ => rfl
  | y :: ys, d, x => by
    have ih := outputs_concat ys (d.update y).1 x
    simp only [List.cons_append, outputs, ih]
    rfl

theorem output_concat (init : Bool) (threshold : UInt8) (xs : List Bool) (x : Bool) :
    output init threshold (xs ++ [x]) = (((new init threshold).after xs).update x).2 := by
  unfold output
  rw [outputs_concat, List.getLastD_concat]

/-! ### The counter and the excursion -/

/-- The debouncer after the samples `xs`. -/
structure Tracks (init : Bool) (threshold : UInt8) (xs : List Bool) (d : Debouncer) : Prop where
  kept : d.threshold = threshold
  state : d.state = settled threshold.toNat init xs
  counter : d.integrationCounter.toNat = (excursion d.state xs).length
  below : d.integrationCounter.toNat < threshold.toNat

theorem tracks_new (init : Bool) {threshold : UInt8} (h : 1 ≤ threshold) :
    Tracks init threshold [] (new init threshold) where
  kept := rfl
  state := rfl
  counter := by
    rw [excursion_nil]
    rfl
  below := by
    rw [UInt8.le_iff_toNat_le] at h
    exact h

/-- A counter below the threshold has room for one more. -/
theorem Tracks.counter_succ {init : Bool} {threshold : UInt8} {xs : List Bool} {d : Debouncer}
    (h : Tracks init threshold xs d) :
    (d.integrationCounter + 1).toNat = d.integrationCounter.toNat + 1 := by
  have hroom : d.integrationCounter.toNat + 1 < 2 ^ 8 := by
    have hlt := h.below
    have hmax := threshold.toNat_lt
    omega
  rw [UInt8.toNat_add]
  exact Nat.mod_eq_of_lt hroom

/-- One sample: the excursion ends, or it fills the window, or it grows. -/
theorem Tracks.update {init : Bool} {threshold : UInt8} {xs : List Bool} {d : Debouncer}
    (h : Tracks init threshold xs d) (x : Bool) :
    Tracks init threshold (xs ++ [x]) (d.update x).1 ∧ (d.update x).2 = (d.update x).1.state := by
  have hsucc := h.counter_succ
  have hbelow := h.below
  unfold Debouncer.update
  by_cases hx : x = d.state
  · -- agreement
    have hsettled : settled threshold.toNat init (xs ++ [x]) = d.state := by
      rw [settled_concat_same (h.state.symm.trans hx.symm), hx]
    rw [if_neg (not_not.mpr hx)]
    refine ⟨{ kept := h.kept, state := hsettled.symm, counter := ?_, below := ?_ }, rfl⟩
    · show 0 = (excursion d.state (xs ++ [x])).length
      rw [hx, excursion_concat_same, List.length_nil]
    · show 0 < threshold.toNat
      omega
  · have hgrown : (excursion d.state (xs ++ [x])).length = d.integrationCounter.toNat + 1 := by
      rw [excursion_concat_ne hx, List.length_append, List.length_singleton, h.counter]
    have hfull : List.replicate threshold.toNat x <:+ xs ++ [x] ↔
        d.integrationCounter + 1 ≥ d.threshold := by
      rw [window_iff_excursion _ hx, hgrown, h.kept, ge_iff_le, UInt8.le_iff_toNat_le, hsucc]
    have hsettled := settled_concat threshold.toNat init xs x
    rw [if_pos hx]
    simp only
    by_cases hflip : d.integrationCounter + 1 ≥ d.threshold
    · -- the window is full: the state flips
      rw [if_pos (hfull.mpr hflip)] at hsettled
      rw [if_pos hflip]
      refine ⟨{ kept := h.kept, state := hsettled.symm, counter := ?_, below := ?_ }, rfl⟩
      · show 0 = (excursion x (xs ++ [x])).length
        rw [excursion_concat_same, List.length_nil]
      · show 0 < threshold.toNat
        omega
    · rw [if_neg fun hin => hflip (hfull.mp hin)] at hsettled
      rw [if_neg hflip]
      refine ⟨{ kept := h.kept, state := h.state.trans hsettled.symm, counter := ?_, below := ?_ }, rfl⟩
      · show (d.integrationCounter + 1).toNat = (excursion d.state (xs ++ [x])).length
        rw [hgrown, hsucc]
      · rw [h.kept, ge_iff_le, UInt8.le_iff_toNat_le] at hflip
        exact Nat.lt_of_not_le hflip

theorem tracks_after (init : Bool) {threshold : UInt8} (h : 1 ≤ threshold) (xs : List Bool) :
    Tracks init threshold xs ((new init threshold).after xs) := by
  induction xs using List.reverseRecOn with
  | nil => exact tracks_new init h
  | append_singleton xs x ih =>
    rw [after_concat]
    exact (ih.update x).1

/-- The output is the settled value. -/
theorem output_eq_settled (init : Bool) {threshold : UInt8} (h : 1 ≤ threshold) (xs : List Bool) :
    output init threshold xs = settled threshold.toNat init xs := by
  rcases List.eq_nil_or_concat xs with rfl | ⟨ys, x, rfl⟩
  · rfl
  · obtain ⟨htracks, hreturned⟩ := (tracks_after init h ys).update x
    rw [List.concat_eq_append, output_concat, hreturned, htracks.state]

/-! ### The theorem -/

/-- **The debouncer is its sliding window.** The output after a sample is `v`
if the last `threshold` samples are all `v`, and the one before it if they are
not all the same; the counter is the excursion since the last flip, below the
threshold, so that its increment does not overflow; changes are `threshold`
samples apart, and shorter excursions do not change the output. -/
theorem debouncer_window (init : Bool) (threshold : UInt8) (h : 1 ≤ threshold) (xs : List Bool) :
    output init threshold [] = init ∧
    let T := threshold.toNat
    let out := output init threshold
    let d := (new init threshold).after xs
    out xs = settled T init xs ∧
    (∀ x v, List.replicate T v <:+ xs ++ [x] → out (xs ++ [x]) = v) ∧
    (∀ x, (∀ v, ¬List.replicate T v <:+ xs ++ [x]) → out (xs ++ [x]) = out xs) ∧
    d.integrationCounter.toNat < T ∧
    d.integrationCounter.toNat = (excursion d.state (sinceChange T init xs)).length ∧
    (d.integrationCounter + 1).toNat = d.integrationCounter.toNat + 1 ∧
    (∀ x ys z, out (xs ++ [x]) ≠ out xs → out (xs ++ [x] ++ ys ++ [z]) ≠ out (xs ++ [x] ++ ys) →
      T ≤ ys.length + 1) ∧
    (∀ ys, ¬List.replicate T (!out xs) <:+: excursion (out xs) xs ++ ys → out (xs ++ ys) = out xs) := by
  refine ⟨rfl, ?_⟩
  intro T out d
  have hout : ∀ ys, out ys = settled T init ys := output_eq_settled init h
  have htracks := tracks_after init h xs
  have hpos : 1 ≤ T := UInt8.le_iff_toNat_le.mp h
  refine ⟨hout xs, fun x v hfull => ?_, fun x hnone => ?_, htracks.below, ?_, htracks.counter_succ,
    fun x ys z hx hz => ?_, fun ys hshort => ?_⟩
  · -- the newest sample is in the window
    obtain rfl : x = v := eq_of_window hfull (by simpa using hpos) x (by simp)
    rw [hout, settled_concat, if_pos hfull]
  · rw [hout, hout, settled_concat, if_neg (hnone x)]
  · rw [htracks.state, excursion_sinceChange, ← htracks.state]
    exact htracks.counter
  · simp only [hout] at hx hz
    exact change_spacing hx hz
  · simp only [hout] at hshort ⊢
    refine settled_excursions ys fun w hne => ?_
    have hw : w = !settled T init xs := by
      revert hne
      cases w <;> cases settled T init xs <;> simp
    rw [hw]
    exact hshort

/-- Threshold 255, 254 samples of the other level and a bounce back: the
counter reaches 254 and the output stays. -/
theorem debouncer_window_255 :
    let d := (new false 255).after (List.replicate 254 true)
    d.integrationCounter.toNat < 255 ∧ (d.integrationCounter + 1).toNat = d.integrationCounter.toNat + 1 ∧
      output false 255 (List.replicate 254 true ++ [false]) = false := by
  intro d
  obtain ⟨-, -, -, hkeep, hbelow, -, hsucc, -⟩ :=
    debouncer_window false 255 (by decide) (List.replicate 254 true)
  refine ⟨hbelow, hsucc, ?_⟩
  have hnone : ∀ v, ¬List.replicate (255 : UInt8).toNat v <:+ List.replicate 254 true ++ [false] := by
    decide +kernel
  rw [hkeep false hnone]
  decide +kernel

end Debouncer
end RpKeyer
