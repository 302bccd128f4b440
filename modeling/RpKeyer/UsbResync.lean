/-
# After a release that failed

On a style switch the emit task discards the release's error and resets its
caches all the same: "on Err the next edge in the new style will eventually
re-sync host state on its own". So caches and host start apart, and only the
edges delivered since (`edges`) bring them together (`Mended`).

On the CDC transport they do, because a packet carries both bits, and on MIDI
in Paddle style as well, once both notes had an edge. In Keyed style no MIDI
packet carries note 62, so what it was at the switch it remains
(`resync_iff`): held there, it stays on.
-/
import RpKeyer.UsbHost

namespace RpKeyer
namespace UsbResync

open UsbEmit UsbHost

/-! ### The signals with a delivered edge -/

structure Edges where
  dit : Bool
  dah : Bool
  key : Bool

/-- The signals whose edge the iteration's write delivers. -/
def delivered (p : Prev) (x : Input) : Edges :=
  match x.snap.emitStyle with
  | .paddle => ⟨x.okWrite && x.snap.ditPressed != p.dit, x.okWrite && x.snap.dahPressed != p.dah, false⟩
  | .keyed => ⟨false, false, x.okWrite && x.snap.liveKey != p.key⟩

def Edges.or (e f : Edges) : Edges := ⟨e.dit || f.dit, e.dah || f.dah, e.key || f.key⟩

/-- The caches after the iteration's edge write. -/
def after (p : Prev) (x : Input) : Prev :=
  if edge p x.snap && x.okWrite then Prev.caught p x.snap else p

/-- The signals that had a delivered edge since the caches were `p`. -/
def edges : Prev → List Input → Edges
  | _, [] => ⟨false, false, false⟩
  | p, x :: xs => (delivered p x).or (edges (after p x) xs)

/-- Every signal the style carries had one. -/
def Carried (style : UsbEmitStyle) (e : Edges) : Prop :=
  match style with
  | .paddle => e.dit = true ∧ e.dah = true
  | .keyed => e.key = true

instance (style : UsbEmitStyle) (e : Edges) : Decidable (Carried style e) := by
  unfold Carried
  split <;> infer_instance

/-! ### Iterations without a switch -/

/-- The edge writes of iterations in one style. -/
def segment (W : Wire) : Prev → List Input → Prev × List Write
  | p, [] => (p, [])
  | p, x :: xs =>
    let s := W.fut p x.snap x.okWrite
    let r := segment W s.1 xs
    (r.1, s.2 ++ r.2)

theorem fut_after (W : Wire) (p : Prev) (x : Input) : (W.fut p x.snap x.okWrite).1 = after p x := by
  unfold Wire.fut after
  cases edge p x.snap <;> cases x.okWrite <;> rfl

theorem run_stay (W : Wire) {style : UsbEmitStyle} : ∀ (xs : List Input) (p : Prev),
    (∀ x ∈ xs, x.snap.emitStyle = style) →
    W.run ⟨p, some style⟩ xs = (⟨(segment W p xs).1, some style⟩, (segment W p xs).2)
  | [], _, _ => rfl
  | x :: xs, p, hst => by
    have hx := hst x List.mem_cons_self
    simp only [Wire.run, Wire.next, Wire.step, Wire.switched, hx, bne_self_eq_false,
      Bool.false_eq_true, ↓reduceIte, List.nil_append, segment]
    rw [run_stay W xs _ fun y hy => hst y (List.mem_cons_of_mem x hy)]

/-- A switch whose release fails, and the iterations in the new style: the
caches restart at off, the host keeps what it shows. -/
theorem run_switch (W : Wire) {c : Caches} {x : Input} {seg : List Input}
    (hsw : (c.style != some x.snap.emitStyle) = true)
    (hst : ∀ y ∈ seg, y.snap.emitStyle = x.snap.emitStyle) (hfail : x.okRelease = false) (h : Bits) :
    (W.run c (x :: seg)).1.prev = (segment W .off (x :: seg)).1 ∧
    receiveAll W.receive h (W.run c (x :: seg)).2 =
      receiveAll W.receive h (segment W .off (x :: seg)).2 := by
  simp only [Wire.run, Wire.next, Wire.step, Wire.switched, hsw, hfail, ↓reduceIte, segment]
  rw [run_stay W seg _ hst]
  exact ⟨rfl, rfl⟩

/-- An iteration none of whose ordinary writes failed leaves no edge. -/
theorem next_caught (W : Wire) {c : Caches} {x : Input} (hu : Unfailed (W.next c x).2) :
    edge (W.next c x).1.prev x.snap = false := by
  unfold Wire.next Wire.step at hu ⊢
  generalize W.switched (c.style != some x.snap.emitStyle) c.prev x.okRelease = r at hu ⊢
  simp only at hu ⊢
  rw [fut_after]
  unfold after
  unfold Wire.fut at hu
  cases he : edge r.1 x.snap with
  | false => exact he
  | true =>
    rw [he] at hu
    have hok : x.okWrite = true := hu _ (List.mem_append_right _ List.mem_cons_self) rfl
    simp only [hok, Bool.and_self, ↓reduceIte]
    unfold edge Prev.caught
    cases x.snap.emitStyle <;> simp

/-! ### What edges mend -/

/-- What a delivered edge packet does to a host that need not agree with the
caches; `clears` says whether a Keyed packet clears the second bit. -/
def Mends (W : Wire) (clears : Bool) : Prop :=
  ∀ h p snap,
    let h' := W.receive h (W.packet p snap)
    match snap.emitStyle with
    | .paddle =>
      (h'.first = snap.ditPressed ∨ snap.ditPressed = p.dit ∧ h'.first = h.first) ∧
      (h'.second = snap.dahPressed ∨ snap.dahPressed = p.dah ∧ h'.second = h.second)
    | .keyed => h'.first = snap.liveKey ∧ h'.second = if clears then false else h.second

theorem mends_cdc (iface : UInt8) : Mends (cdc iface) true := by
  intro h p snap
  have e : (cdc iface).receive h ((cdc iface).packet p snap) = target snap :=
    serReceive_packet h iface (target snap).first (target snap).second
  simp only [e]
  unfold target
  cases snap.emitStyle <;> simp

theorem mends_midi : Mends midiWire false := by
  intro h p snap
  have e : midiWire.receive h (midiWire.packet p snap) = _ := midiReceive_packet h p snap
  simp only [e]
  cases snap.emitStyle with
  | paddle =>
    by_cases hd : snap.ditPressed = p.dit <;> by_cases ha : snap.dahPressed = p.dah <;> simp [hd, ha]
  | keyed => simp

/-- The host against the caches, since a switch at which it showed `h₀`. -/
def Mended (style : UsbEmitStyle) (clears : Bool) (h₀ : Bits) (e : Edges) (p : Prev) (h : Bits) : Prop :=
  match style with
  | .paddle => (e.dit = true → h.first = p.dit) ∧ (e.dah = true → h.second = p.dah)
  | .keyed => (e.key = true → h.first = p.key) ∧ h.second = if clears && e.key then false else h₀.second

/-- The host after an iteration's edge write, if there was one. -/
theorem host_fut (W : Wire) (h : Bits) (p : Prev) (x : Input) :
    receiveAll W.receive h (W.fut p x.snap x.okWrite).2 =
      if edge p x.snap && x.okWrite then W.receive h (W.packet p x.snap) else h := by
  unfold Wire.fut
  cases edge p x.snap <;> cases x.okWrite <;> rfl

/-- Without a delivered write no signal had an edge. -/
theorem delivered_none {p : Prev} {x : Input} (hn : (edge p x.snap && x.okWrite) = false) :
    delivered p x = ⟨false, false, false⟩ := by
  unfold edge at hn
  unfold delivered
  cases hs : x.snap.emitStyle with
  | paddle =>
    rw [hs] at hn
    cases hok : x.okWrite <;> simp_all
  | keyed =>
    rw [hs] at hn
    cases hok : x.okWrite <;> simp_all

/-- An iteration in the style keeps what was mended and adds what it delivers. -/
theorem mended_fut {W : Wire} {clears : Bool} (hW : Mends W clears) {h₀ h : Bits} {e : Edges}
    {p : Prev} {x : Input} (hM : Mended x.snap.emitStyle clears h₀ e p h) :
    Mended x.snap.emitStyle clears h₀ (e.or (delivered p x)) (after p x)
      (receiveAll W.receive h (W.fut p x.snap x.okWrite).2) := by
  rw [host_fut]
  unfold after
  cases hd : edge p x.snap && x.okWrite with
  | false =>
    rw [delivered_none hd]
    simpa [Edges.or] using hM
  | true =>
    have hp := hW h p x.snap
    have hok : x.okWrite = true := (Bool.and_eq_true_iff.mp hd).2
    have hedge : edge p x.snap = true := (Bool.and_eq_true_iff.mp hd).1
    simp only [↓reduceIte]
    unfold Mended delivered Edges.or Prev.caught at *
    unfold edge at hedge
    cases hs : x.snap.emitStyle with
    | paddle =>
      simp only [hs] at hp hM ⊢
      obtain ⟨hfirst, hsecond⟩ := hp
      refine ⟨fun hdit => ?_, fun hdah => ?_⟩
      · rcases hfirst with hf | ⟨hsame, hkept⟩
        · exact hf
        · have hold : e.dit = true := by simpa [hsame] using hdit
          rw [hkept, hM.1 hold, hsame]
      · rcases hsecond with hf | ⟨hsame, hkept⟩
        · exact hf
        · have hold : e.dah = true := by simpa [hsame] using hdah
          rw [hkept, hM.2 hold, hsame]
    | keyed =>
      simp only [hs] at hp hM hedge ⊢
      obtain ⟨hfirst, hsecond⟩ := hp
      refine ⟨fun _ => hfirst, ?_⟩
      rw [hsecond, hM.2, hok, hedge]
      cases clears <;> simp

/-- The same for the iterations of a segment. -/
theorem mended_segment {W : Wire} {clears : Bool} (hW : Mends W clears) {style : UsbEmitStyle} {h₀ : Bits} :
    ∀ (xs : List Input) {e : Edges} {p : Prev} {h : Bits}, (∀ x ∈ xs, x.snap.emitStyle = style) →
      Mended style clears h₀ e p h →
      Mended style clears h₀ (e.or (edges p xs)) (segment W p xs).1
        (receiveAll W.receive h (segment W p xs).2)
  | [], e, _, _, _, hM => by
    have hor : e.or ⟨false, false, false⟩ = e := by simp [Edges.or]
    simp only [edges, segment, hor]
    exact hM
  | x :: xs, e, p, h, hst, hM => by
    have hx := hst x List.mem_cons_self
    have hstep := mended_fut hW (hx.symm ▸ hM)
    rw [hx] at hstep
    have ih := mended_segment hW xs (fun y hy => hst y (List.mem_cons_of_mem x hy)) hstep
    have hor : (e.or (delivered p x)).or (edges (after p x) xs) = e.or (edges p (x :: xs)) := by
      simp [Edges.or, edges, Bool.or_assoc]
    simp only [segment, receiveAll_append, fut_after]
    rwa [hor] at ih

/-- Mended caches without an edge: the host is at the target but for a Keyed
second bit that is still what it was at the switch. -/
theorem mended_target {clears : Bool} {h₀ h : Bits} {e : Edges} {p : Prev} {snap : UsbSnapshot}
    (hM : Mended snap.emitStyle clears h₀ e p h) (hc : Carried snap.emitStyle e)
    (hedge : edge p snap = false) :
    h = target snap ↔ clears = true ∨ snap.emitStyle = .paddle ∨ h₀.second = false := by
  unfold Mended at hM
  unfold Carried at hc
  unfold edge at hedge
  unfold target
  cases hs : snap.emitStyle with
  | paddle =>
    simp only [hs] at hM hc hedge ⊢
    have h1 := hM.1 hc.1
    have h2 := hM.2 hc.2
    simp only [Bool.or_eq_false_iff, bne_eq_false_iff_eq] at hedge
    refine ⟨fun _ => .inr (.inl trivial), fun _ => ?_⟩
    rw [hedge.1, hedge.2, ← h1, ← h2]
  | keyed =>
    simp only [hs] at hM hc hedge ⊢
    have h1 := hM.1 hc
    have h2 := hM.2
    simp only [bne_eq_false_iff_eq] at hedge
    obtain ⟨first, second⟩ := h
    simp only [hc, Bool.and_true] at h1 h2
    subst h1 h2
    cases clears <;> simp [hedge]

/-! ### The theorem -/

/-- The last iteration of a run that ends in a segment is one of the segment. -/
theorem mem_of_last {α : Type} {pre seg xs : List α} {x y : α} (h : pre ++ x :: seg = xs ++ [y]) :
    y ∈ x :: seg := by
  have hlast := congrArg List.getLast? h
  rw [List.getLast?_append_of_ne_nil pre (List.cons_ne_nil x seg), List.getLast?_concat] at hlast
  exact List.mem_of_getLast? hlast

/-- On one wire: a failed release is made up for, but for a second bit that
the edge packets of the style leave alone. -/
theorem wire_resync {W : Wire} {clears : Bool} (hW : Mends W clears) (h : Bits) {pre seg xs : List Input}
    {x y : Input} (hrun : pre ++ x :: seg = xs ++ [y])
    (hsw : ((W.run .start pre).1.style != some x.snap.emitStyle) = true)
    (hst : ∀ z ∈ seg, z.snap.emitStyle = x.snap.emitStyle) (hfail : x.okRelease = false)
    (hc : Carried x.snap.emitStyle (edges .off (x :: seg)))
    (hu : Unfailed (W.next (W.run .start xs).1 y).2) :
    receiveAll W.receive h (W.run .start (pre ++ x :: seg)).2 = target y.snap ↔
      clears = true ∨ x.snap.emitStyle = .paddle ∨
        (receiveAll W.receive h (W.run .start pre).2).second = false := by
  have hall : ∀ z ∈ x :: seg, z.snap.emitStyle = x.snap.emitStyle := by
    intro z hz
    rcases List.mem_cons.mp hz with rfl | hz
    · rfl
    · exact hst z hz
  have hy : y.snap.emitStyle = x.snap.emitStyle := hall y (mem_of_last hrun)
  obtain ⟨hprev, hhost⟩ := run_switch W hsw hst hfail (receiveAll W.receive h (W.run .start pre).2)
  have hstart : Mended x.snap.emitStyle clears (receiveAll W.receive h (W.run .start pre).2)
      ⟨false, false, false⟩ .off (receiveAll W.receive h (W.run .start pre).2) := by
    unfold Mended
    cases x.snap.emitStyle <;> simp
  have hM := mended_segment hW (x :: seg) hall hstart
  have hcaught := next_caught W hu
  have hend : (W.next (W.run .start xs).1 y).1.prev = (segment W .off (x :: seg)).1 := by
    rw [← hprev, ← W.run_singleton]
    have e := congrArg (fun zs => (W.run .start zs).1.prev) hrun
    simp only [W.run_append] at e
    exact e.symm
  rw [hend] at hcaught
  rw [W.run_append, receiveAll_append, hhost]
  rw [← hy] at hM hc ⊢
  have hor : ∀ e : Edges, Edges.or ⟨false, false, false⟩ e = e := fun e => by simp [Edges.or]
  rw [hor] at hM
  exact mended_target hM hc hcaught

/-- **Re-sync.** After a switch whose release failed, once every signal of the
style had a delivered edge and the current write did not fail: the CDC host is
at the target; the MIDI host is, if and only if the switch was into Paddle
style or note 62 was off when the release was sent. -/
theorem resync_iff (app : App) (hostSer hostMidi : Bits) (pre seg xs : List (UsbSnapshot × Outcomes))
    (x y : UsbSnapshot × Outcomes) (hrun : pre ++ x :: seg = xs ++ [y])
    (hsw : (run app .start pre).1.switches x.1 = true)
    (hst : ∀ z ∈ seg, z.1.emitStyle = x.1.emitStyle) :
    let r := run app .start (pre ++ x :: seg)
    let last := (step app (run app .start xs).1 y.1 y.2).2
    (∀ iface, app.serial = .present iface → x.2.serRelease = false →
      Carried x.1.emitStyle (edges .off ((x :: seg).map serInput)) → Unfailed last.ser →
      receiveAll serReceive hostSer r.2.ser = target y.1) ∧
    (app.midi = .present () → x.2.midiRelease = false →
      Carried x.1.emitStyle (edges .off ((x :: seg).map midiInput)) → Unfailed last.midi →
      (receiveAll midiReceive hostMidi r.2.midi = target y.1 ↔
        x.1.emitStyle = .paddle ∨
          (receiveAll midiReceive hostMidi (run app .start pre).2.midi).second = false)) := by
  intro r last
  refine ⟨fun iface h hfail hc hu => ?_, fun h hfail hc hu => ?_⟩
  · have hrun' := congrArg (List.map serInput) hrun
    simp only [List.map_append, List.map_cons, List.map_nil] at hrun'
    have hst' : ∀ z ∈ seg.map serInput, z.snap.emitStyle = (serInput x).snap.emitStyle := by
      intro z hz
      obtain ⟨w, hw, rfl⟩ := List.mem_map.mp hz
      exact hst w hw
    have hw := wire_resync (mends_cdc iface) hostSer hrun' (by rw [run_ser_start h]; exact hsw) hst' hfail hc
      (by rw [run_ser_start h, next_ser h]; exact hu)
    rw [← List.map_cons, ← List.map_append, run_ser_start h] at hw
    exact hw.mpr (.inl rfl)
  · have hrun' := congrArg (List.map midiInput) hrun
    simp only [List.map_append, List.map_cons, List.map_nil] at hrun'
    have hst' : ∀ z ∈ seg.map midiInput, z.snap.emitStyle = (midiInput x).snap.emitStyle := by
      intro z hz
      obtain ⟨w, hw, rfl⟩ := List.mem_map.mp hz
      exact hst w hw
    have hw := wire_resync mends_midi hostMidi hrun' (by rw [run_midi_start h]; exact hsw) hst' hfail hc
      (by rw [run_midi_start h, next_midi h]; exact hu)
    rw [← List.map_cons, ← List.map_append, run_midi_start h, run_midi_start h] at hw
    simp only [Bool.false_eq_true, false_or] at hw
    exact hw

/-- The dah held, a switch to Keyed style while note 62 is on, the release
lost: the keyed line had its edge, and note 62 is still on. -/
theorem note_62_stuck :
    let app : App := ⟨.present 0, .present ()⟩
    let pre := [(⟨false, true, false, .paddle⟩, ⟨true, true, true, true⟩)]
    let x := (⟨false, true, true, .keyed⟩, ⟨true, false, true, true⟩)
    let r := run app .start (pre ++ [x])
    ((run app .start pre).1.switches x.1 = true ∧ x.2.midiRelease = false ∧
      Carried x.1.emitStyle (edges .off ([x].map midiInput)) ∧
      Unfailed (step app (run app .start pre).1 x.1 x.2).2.midi) ∧
    receiveAll midiReceive ⟨false, false⟩ r.2.midi ≠ target x.1 := by
  decide

/-- The same switch with only the dit held: the host is at the target. -/
theorem resync_iff_dit_held :
    let app : App := ⟨.present 0, .present ()⟩
    let pre := [(⟨true, false, false, .paddle⟩, ⟨true, true, true, true⟩)]
    let x := (⟨true, false, true, .keyed⟩, ⟨false, false, true, true⟩)
    let r := run app .start (pre ++ [x])
    receiveAll serReceive ⟨false, false⟩ r.2.ser = target x.1 ∧
    receiveAll midiReceive ⟨false, false⟩ r.2.midi = target x.1 := by
  intro app pre x r
  have h := resync_iff app ⟨false, false⟩ ⟨false, false⟩ pre [] pre x x rfl (by decide) (by simp)
  exact ⟨h.1 0 rfl rfl (by decide) (by decide),
    (h.2 rfl rfl (by decide) (by decide)).mpr (.inr (by decide))⟩

end UsbResync
end RpKeyer
