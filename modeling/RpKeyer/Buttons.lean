/-
# Button presses

`buttons.rs`: each of the four buttons has a debouncer with a threshold of two
samples and a one-shot edge detector; a poll writes the edges it finds into a
buffer of four events, in a fixed order.

A press in a raw history is a run of two or more pressed samples, the first
one since start-up or since the last two released samples in a row
(`PressAt`). Every press is reported once, at its second sample, whatever the
other buttons do (`one_event_per_press`).
-/
import RpKeyer.Debounce

namespace RpKeyer

open Windows

/-! ### The panel -/

/-- A button: its debouncer and the last debounced state. -/
structure ButtonInput where
  debouncer : Debouncer
  lastPressed : Bool

namespace ButtonInput

def new : ButtonInput := ⟨.new false 2, false⟩

/-- One sample of the pin, `true` for low: does a press begin? -/
def pollRisingEdge (b : ButtonInput) (raw : Bool) : ButtonInput × Bool :=
  let r := b.debouncer.update raw
  (⟨r.1, r.2⟩, r.2 && !b.lastPressed)

/-- The button after the samples. -/
def after (b : ButtonInput) (xs : List Bool) : ButtonInput := xs.foldl (fun b x => (b.pollRisingEdge x).1) b

end ButtonInput

structure ButtonPanel where
  up : ButtonInput
  down : ButtonInput
  ok : ButtonInput
  back : ButtonInput

/-- A sample of the four pins, `true` for low. -/
structure Pins where
  up : Bool
  down : Bool
  ok : Bool
  back : Bool

namespace ButtonPanel

def new : ButtonPanel := ⟨.new, .new, .new, .new⟩

/-- Write an event after the `n` in the buffer, if there is room. -/
def push (b : Vector ButtonEvent 4 × ℕ) (e : ButtonEvent) : Vector ButtonEvent 4 × ℕ :=
  if h : b.2 < 4 then (b.1.set b.2 e, b.2 + 1) else b

/-- One poll: the panel, the buffer, and the slice of it that is returned. -/
def poll (p : ButtonPanel) (s : Pins) (buf : Vector ButtonEvent 4) :
    ButtonPanel × Vector ButtonEvent 4 × List ButtonEvent :=
  let b₀ := (buf, 0)
  let up := p.up.pollRisingEdge s.up
  let b₁ := if up.2 then push b₀ .up else b₀
  let down := p.down.pollRisingEdge s.down
  let b₂ := if down.2 then push b₁ .down else b₁
  let ok := p.ok.pollRisingEdge s.ok
  let b₃ := if ok.2 then push b₂ .ok else b₂
  let back := p.back.pollRisingEdge s.back
  let b₄ := if back.2 then push b₃ .back else b₃
  (⟨up.1, down.1, ok.1, back.1⟩, b₄.1, b₄.1.toList.take b₄.2)

/-- The panel and the buffer after the samples. -/
def after (p : ButtonPanel) (buf : Vector ButtonEvent 4) (ss : List Pins) : ButtonPanel × Vector ButtonEvent 4 :=
  ss.foldl (fun r s => ((r.1.poll s r.2).1, (r.1.poll s r.2).2.1)) (p, buf)

/-- The slices returned, poll by poll. -/
def polls : ButtonPanel → Vector ButtonEvent 4 → List Pins → List (List ButtonEvent)
  | _, _, [] => []
  | p, buf, s :: ss => (p.poll s buf).2.2 :: polls (p.poll s buf).1 (p.poll s buf).2.1 ss

/-! ### One poll -/

/-- The order in which a poll reports. -/
def order : List ButtonEvent := [.up, .down, .ok, .back]

def input (p : ButtonPanel) : ButtonEvent → ButtonInput
  | .up => p.up
  | .down => p.down
  | .ok => p.ok
  | .back => p.back

end ButtonPanel

def Pins.isLow (s : Pins) : ButtonEvent → Bool
  | .up => s.up
  | .down => s.down
  | .ok => s.ok
  | .back => s.back

namespace ButtonPanel

theorem input_poll (p : ButtonPanel) (s : Pins) (buf : Vector ButtonEvent 4) (e : ButtonEvent) :
    (p.poll s buf).1.input e = ((p.input e).pollRisingEdge (s.isLow e)).1 := by
  cases e <;> rfl

/-- The slice is the edges in order: the buffer has room for all of them. -/
theorem events_poll (p : ButtonPanel) (s : Pins) (buf : Vector ButtonEvent 4) :
    (p.poll s buf).2.2 = order.filter fun e => ((p.input e).pollRisingEdge (s.isLow e)).2 := by
  unfold poll order input Pins.isLow
  simp only [List.filter_cons, List.filter_nil]
  rcases buf with ⟨⟨l⟩, hl⟩
  obtain ⟨a, b, c, d, rfl⟩ : ∃ a b c d, l = [a, b, c, d] := by
    rcases l with _ | ⟨a, _ | ⟨b, _ | ⟨c, _ | ⟨d, _ | ⟨e, l⟩⟩⟩⟩⟩ <;> simp at hl
    exact ⟨a, b, c, d, rfl⟩
  cases (p.up.pollRisingEdge s.up).2 <;> cases (p.down.pollRisingEdge s.down).2 <;>
    cases (p.ok.pollRisingEdge s.ok).2 <;> cases (p.back.pollRisingEdge s.back).2 <;> rfl

theorem polls_concat : ∀ (ss : List Pins) (p : ButtonPanel) (buf : Vector ButtonEvent 4) (s : Pins),
    p.polls buf (ss ++ [s]) =
      p.polls buf ss ++ [((p.after buf ss).1.poll s (p.after buf ss).2).2.2]
  | [], _, _, _ => rfl
  | t :: ss, p, buf, s => by
    have ih := polls_concat ss (p.poll t buf).1 (p.poll t buf).2.1 s
    simp only [List.cons_append, polls, ih]
    rfl

/-- A button sees its own pin only. -/
theorem input_after (p : ButtonPanel) (buf : Vector ButtonEvent 4) (ss : List Pins) (e : ButtonEvent) :
    (p.after buf ss).1.input e = (p.input e).after (ss.map (·.isLow e)) := by
  induction ss using List.reverseRecOn with
  | nil => rfl
  | append_singleton ss s ih =>
    have hafter : p.after buf (ss ++ [s]) =
        (((p.after buf ss).1.poll s (p.after buf ss).2).1, ((p.after buf ss).1.poll s (p.after buf ss).2).2.1) := by
      unfold after
      rw [List.foldl_append]
      rfl
    rw [hafter, input_poll, ih, List.map_append]
    unfold ButtonInput.after
    rw [List.foldl_append]
    rfl

end ButtonPanel

/-! ### One button -/

namespace ButtonInput

/-- The button keeps its debouncer and that debouncer's output. -/
theorem after_new (xs : List Bool) :
    new.after xs = ⟨(Debouncer.new false 2).after xs, Debouncer.output false 2 xs⟩ := by
  induction xs using List.reverseRecOn with
  | nil => rfl
  | append_singleton xs x ih =>
    have hafter : new.after (xs ++ [x]) = ((new.after xs).pollRisingEdge x).1 := by
      unfold after
      rw [List.foldl_append]
      rfl
    rw [hafter, ih, Debouncer.after_concat, Debouncer.output_concat]
    rfl

/-- Does poll `n` of the history report an edge? -/
def edge (xs : List Bool) (n : ℕ) : Bool :=
  Debouncer.output false 2 (xs.take (n + 1)) && !Debouncer.output false 2 (xs.take n)

theorem pollRisingEdge_after (xs : List Bool) (x : Bool) :
    ((new.after xs).pollRisingEdge x).2 = edge (xs ++ [x]) xs.length := by
  unfold edge
  rw [after_new, List.take_of_length_le (by simp), List.take_left, Debouncer.output_concat]
  rfl

/-- Samples `n` and `n + 1` are both `v`. -/
def Pair (xs : List Bool) (v : Bool) (n : ℕ) : Prop := xs[n]? = some v ∧ xs[n + 1]? = some v

instance (xs : List Bool) (v : Bool) (n : ℕ) : Decidable (Pair xs v n) := inferInstanceAs (Decidable (_ ∧ _))

/-- A press: samples `n` and `n + 1` are the first two pressed ones in a row
since start-up, or since two released ones in a row. -/
def PressAt (xs : List Bool) (n : ℕ) : Prop :=
  Pair xs true n ∧ ∀ m < n, Pair xs true m → ∃ k < n, m < k ∧ Pair xs false k

instance (xs : List Bool) (n : ℕ) : Decidable (PressAt xs n) := inferInstanceAs (Decidable (_ ∧ _))

/-- A window of two is a pair that ends there. -/
theorem window_two {xs : List Bool} {n : ℕ} (h : n ≤ xs.length) (v : Bool) :
    List.replicate 2 v <:+ xs.take n ↔ ∃ m, n = m + 2 ∧ Pair xs v m := by
  constructor
  · intro hfull
    have hlen : 2 ≤ (xs.take n).length := by simpa using hfull.length_le
    rw [List.length_take, Nat.min_eq_left h] at hlen
    obtain ⟨m, rfl⟩ : ∃ m, n = m + 2 := ⟨n - 2, by omega⟩
    refine ⟨m, rfl, ?_⟩
    have htake : xs.take (m + 2) = xs.take m ++ [xs[m], xs[m + 1]] := by
      rw [List.take_add_one, List.take_add_one, List.getElem?_eq_getElem (by omega),
        List.getElem?_eq_getElem (by omega), List.append_assoc]
      rfl
    have hall := eq_of_window (htake ▸ hfull) (le_refl 2)
    have hm : xs[m] = v := hall _ (by simp)
    have hm' : xs[m + 1] = v := hall _ (by simp)
    exact ⟨by rw [List.getElem?_eq_getElem (by omega), hm], by rw [List.getElem?_eq_getElem (by omega), hm']⟩
  · rintro ⟨m, rfl, hm, hm'⟩
    rw [List.take_add_one, List.take_add_one, hm, hm', List.append_assoc]
    exact List.suffix_append _ _

/-- The debounced state before sample `n`: the last pair was of pressed ones. -/
theorem settled_take {xs : List Bool} {n : ℕ} (hn : n ≤ xs.length) :
    settled 2 false (xs.take n) = true ↔
      ∃ m, m + 2 ≤ n ∧ Pair xs true m ∧ ∀ k, m < k → k + 2 ≤ n → ¬Pair xs false k := by
  have hlen : (xs.take n).length = n := by rw [List.length_take, Nat.min_eq_left hn]
  have htake : ∀ j ≤ n, (xs.take n).take j = xs.take j := fun j hj => by rw [List.take_take, Nat.min_eq_left hj]
  rw [settled_eq_iff (by omega) (by decide), hlen]
  constructor
  · rintro ⟨j, hj, hfull, hsince⟩
    rw [htake j hj, window_two (by omega)] at hfull
    obtain ⟨m, rfl, hpair⟩ := hfull
    refine ⟨m, hj, hpair, fun k hk hkn hreleased => hsince (k + 2) (by omega) hkn false (by decide) ?_⟩
    rw [htake _ hkn, window_two (by omega)]
    exact ⟨k, rfl, hreleased⟩
  · rintro ⟨m, hm, hpair, hsince⟩
    refine ⟨m + 2, hm, ?_, fun j hj hjn w hw hfull => ?_⟩
    · rw [htake _ hm, window_two (by omega)]
      exact ⟨m, rfl, hpair⟩
    · obtain rfl : w = false := by simpa using hw
      rw [htake j hjn, window_two (by omega)] at hfull
      obtain ⟨k, rfl, hreleased⟩ := hfull
      exact hsince k (by omega) hjn hreleased

/-- An edge is reported at the second sample of a press. -/
theorem edge_iff (xs : List Bool) (n : ℕ) : edge xs n = true ↔ ∃ m, n = m + 1 ∧ PressAt xs m := by
  have hout : ∀ ys, Debouncer.output false 2 ys = settled 2 false ys := Debouncer.output_eq_settled false (by decide)
  unfold edge
  rw [hout, hout, Bool.and_eq_true, Bool.not_eq_true']
  constructor
  · rintro ⟨hafter, hbefore⟩
    have hn : n < xs.length := by
      by_contra hge
      rw [List.take_of_length_le (by omega)] at hafter hbefore
      rw [hafter] at hbefore
      cases hbefore
    -- the press is the pair that is there after the sample and not before it
    obtain ⟨m, hm, hpair, hsince⟩ := (settled_take hn).mp hafter
    have hnot : ¬settled 2 false (xs.take n) = true := by simp [hbefore]
    rw [settled_take hn.le] at hnot
    have hnew : ¬m + 2 ≤ n := fun hle => hnot ⟨m, hle, hpair, fun k hk hkn => hsince k hk (by omega)⟩
    obtain rfl : n = m + 1 := by omega
    refine ⟨m, rfl, hpair, fun m' hm' hpressed => ?_⟩
    by_contra hnone
    refine hnot ⟨m', by omega, hpressed, fun k hk hkn hreleased => hnone ⟨k, by omega, hk, hreleased⟩⟩
  · rintro ⟨m, rfl, hpair, hfirst⟩
    have hn : m + 1 < xs.length := (List.getElem?_eq_some_iff.mp hpair.2).1
    constructor
    · rw [settled_take hn]
      exact ⟨m, le_refl _, hpair, fun k hk hkn => absurd hk (by omega)⟩
    · rw [← Bool.not_eq_true, settled_take hn.le]
      rintro ⟨m', hm', hpressed, hsince⟩
      obtain ⟨k, hkm, hk, hreleased⟩ := hfirst m' (by omega) hpressed
      exact hsince k hk (by omega) hreleased

/-- As many polls report an edge as there are presses. -/
theorem countP_edge (xs : List Bool) :
    (List.range xs.length).countP (edge xs) = (List.range xs.length).countP fun n => PressAt xs n := by
  have hshift : ∀ k, (List.range (k + 1)).countP (edge xs) = (List.range k).countP fun n => PressAt xs n := by
    intro k
    induction k with
    | zero =>
      have hzero : edge xs 0 = false := by
        rw [← Bool.not_eq_true, edge_iff]
        rintro ⟨m, hm, -⟩
        omega
      simp [List.range_succ, hzero]
    | succ k ih =>
      have hsame : edge xs (k + 1) = decide (PressAt xs k) := by
        rw [Bool.eq_iff_iff, decide_eq_true_eq, edge_iff]
        constructor
        · rintro ⟨m, hm, hpress⟩
          obtain rfl : k = m := by omega
          exact hpress
        · exact fun hpress => ⟨k, rfl, hpress⟩
      rw [List.range_succ, List.countP_append, ih, List.range_succ, List.countP_append]
      simp only [List.countP_singleton, hsame]
  rcases hlen : xs.length with _ | k
  · rfl
  · -- the last sample does not begin a pair
    have hlast : ¬PressAt xs k := by
      rintro ⟨⟨-, hnext⟩, -⟩
      rw [List.getElem?_eq_none (by omega)] at hnext
      cases hnext
    rw [hshift, List.range_succ, List.countP_append]
    simp [hlast]

end ButtonInput

/-! ### The theorem -/

namespace ButtonPanel

open ButtonInput

/-- The raw history of a button's pin. -/
def history (ss : List Pins) (e : ButtonEvent) : List Bool := ss.map (·.isLow e)

theorem edge_append {xs : List Bool} {n : ℕ} (h : n < xs.length) (x : Bool) : edge (xs ++ [x]) n = edge xs n := by
  unfold edge
  rw [List.take_append_of_le_length h, List.take_append_of_le_length h.le]

/-- Poll `n` returns the edges of the four histories at `n`. -/
theorem polls_new (buf : Vector ButtonEvent 4) (ss : List Pins) :
    new.polls buf ss = (List.range ss.length).map fun n => order.filter fun e => edge (history ss e) n := by
  induction ss using List.reverseRecOn with
  | nil => rfl
  | append_singleton ss s ih =>
    have hhistory : ∀ e, history (ss ++ [s]) e = history ss e ++ [s.isLow e] := fun e => List.map_append
    have hlength : ∀ e, (history ss e).length = ss.length := fun e => List.length_map _
    have hearlier : ∀ n ∈ List.range ss.length, (order.filter fun e => edge (history ss e) n) =
        order.filter fun e => edge (history (ss ++ [s]) e) n := by
      intro n hn
      refine List.filter_congr fun e _ => ?_
      rw [hhistory, edge_append (by rw [hlength]; exact List.mem_range.mp hn)]
    have hlast : ((new.after buf ss).1.poll s (new.after buf ss).2).2.2 =
        order.filter fun e => edge (history (ss ++ [s]) e) ss.length := by
      rw [events_poll]
      refine List.filter_congr fun e _ => ?_
      have hinput : new.input e = ButtonInput.new := by cases e <;> rfl
      rw [input_after, hinput, hhistory, ← hlength e]
      exact pollRisingEdge_after (history ss e) (s.isLow e)
    rw [polls_concat, ih, hlast, List.length_append, List.length_singleton, List.range_succ, List.map_append,
      List.map_congr_left hearlier]
    rfl

theorem mem_order (e : ButtonEvent) : e ∈ order := by cases e <;> decide

theorem nodup_order : order.Nodup := by decide

/-- An event is counted once for each poll that reports it. -/
theorem count_flatten (p : ButtonEvent → ℕ → Bool) (e : ButtonEvent) (k : ℕ) :
    ((List.range k).map fun n => order.filter fun e => p e n).flatten.count e = (List.range k).countP (p e) := by
  induction k with
  | zero => rfl
  | succ k ih =>
    have hone : (order.filter fun e => p e k).count e = [k].countP (p e) := by
      rw [List.countP_singleton]
      by_cases hp : p e k = true
      · rw [if_pos hp, List.count_filter (p := fun e => p e k) hp]
        cases e <;> rfl
      · rw [if_neg hp]
        exact List.count_eq_zero.mpr fun hmem => hp (List.mem_filter.mp hmem).2
    rw [List.range_succ, List.map_append, List.flatten_append, List.count_append, ih, List.countP_append, ← hone]
    simp

/-- **One press, one event.** Every poll returns different events in the fixed
order; a button's event is in poll `n` if and only if `n` is the second sample
of a press in its own history; and it is reported as often as it is pressed. -/
theorem one_event_per_press (buf : Vector ButtonEvent 4) (ss : List Pins) :
    let outs := new.polls buf ss
    outs.length = ss.length ∧
    (∀ out ∈ outs, out.Sublist [.up, .down, .ok, .back] ∧ out.Nodup) ∧
    (∀ e n, e ∈ outs.getD n [] ↔ ∃ m, n = m + 1 ∧ PressAt (history ss e) m) ∧
    (∀ e, outs.flatten.count e = (List.range ss.length).countP fun m => PressAt (history ss e) m) := by
  intro outs
  have houts : outs = (List.range ss.length).map fun n => order.filter fun e => edge (history ss e) n :=
    polls_new buf ss
  rw [houts]
  refine ⟨by simp, fun out hout => ?_, fun e n => ?_, fun e => ?_⟩
  · obtain ⟨n, -, rfl⟩ := List.mem_map.mp hout
    exact ⟨List.filter_sublist, nodup_order.filter _⟩
  · rw [← edge_iff]
    by_cases hn : n < ss.length
    · simp [List.getD_eq_getElem?_getD, hn, mem_order]
    · -- no press ends after the last sample
      have hedge : ¬edge (history ss e) n = true := by
        rw [edge_iff]
        rintro ⟨m, rfl, ⟨-, hnext⟩, -⟩
        rw [List.getElem?_eq_none (by rw [history, List.length_map]; omega)] at hnext
        cases hnext
      simp [List.getD_eq_getElem?_getD, hn, hedge]
  · have hlen : (history ss e).length = ss.length := List.length_map _
    rw [count_flatten, ← hlen, countP_edge]

/-- A bouncing press of Ok, held with a glitch, while Up is tapped. -/
example : new.polls (.replicate 4 .back) [⟨false, false, true, false⟩, ⟨false, false, false, false⟩,
    ⟨true, false, true, false⟩, ⟨true, false, true, false⟩, ⟨false, false, false, false⟩,
    ⟨false, false, true, false⟩, ⟨false, false, true, false⟩] = [[], [], [], [.up, .ok], [], [], []] := by
  decide

end ButtonPanel
end RpKeyer
