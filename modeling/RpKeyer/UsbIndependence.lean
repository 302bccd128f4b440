/-
# The USB transports do not interfere

The emit task between its awaits, on any choice of transports, each write
with the result it completes with; the two writes of the join complete in any
order. A transport that is compiled out or absent writes nothing.

What a transport does alone is `Transport.alone`: it is fed the snapshots,
and its `n`-th write succeeds or not as `σ n` says. Whatever the other
transport is and does, a transport of the task is where it would be alone
(`along_run`), so two runs of two builds fed the same snapshots write the same
(`transports_independent`).
-/
import RpKeyer.UsbChannel

namespace RpKeyer
namespace UsbIndependence

open UsbEmit UsbHost
open UsbChannel (Pc Phase joined phase_joined)

/-! ### Transports -/

/-- At most one write, with the result given; without one the result does not
matter. -/
def Answers (f : Bool → Prev × List Write) : Prop :=
  (∃ p, ∀ ok, f ok = (p, [])) ∨ ∀ ok, ∃ w : Write, (f ok).2 = [w] ∧ w.ok = ok

/-- The release of a style switch and the edge write, from the caches and the
result of the write. -/
structure Transport where
  release : Prev → Bool → Prev × List Write
  write : UsbSnapshot → Prev → Bool → Prev × List Write
  release_answers : ∀ p, Answers (release p)
  write_answers : ∀ snap p, Answers (write snap p)

/-- An edge write on a wire answers. -/
theorem fut_answers (W : Wire) (p : Prev) (snap : UsbSnapshot) : Answers (W.fut p snap) := by
  unfold Answers Wire.fut
  by_cases hedge : edge p snap = true
  · refine .inr fun ok => ?_
    rw [if_pos hedge]
    exact ⟨_, rfl, rfl⟩
  · refine .inl ⟨p, fun ok => ?_⟩
    rw [if_neg hedge]

theorem serFut_answers (iface : UInt8) (snap : UsbSnapshot) (p : Prev) : Answers (serFut iface snap p) := by
  have hwire : serFut iface snap p = (cdc iface).fut p snap := funext (serFut_eq iface snap p)
  rw [hwire]
  exact fut_answers (cdc iface) p snap

theorem midiFut_answers (snap : UsbSnapshot) (p : Prev) : Answers (midiFut snap p) := by
  have hwire : midiFut snap p = midiWire.fut p snap := funext (midiFut_eq snap p)
  rw [hwire]
  exact fut_answers midiWire p snap

/-- Nothing there to write to. -/
def Transport.absent : Transport where
  release p _ := (p, [])
  write _ p _ := (p, [])
  release_answers p := .inl ⟨p, fun _ => rfl⟩
  write_answers _ p := .inl ⟨p, fun _ => rfl⟩

/-- The CDC transport of an app. -/
def serTransport : Port UInt8 → Transport
  | .present iface =>
    { release := fun _ ok => serRelease iface ok
      write := serFut iface
      release_answers := fun _ => .inr fun _ => ⟨_, rfl, rfl⟩
      write_answers := serFut_answers iface }
  | _ => .absent

/-- The MIDI transport of an app. -/
def midiTransport : Port Unit → Transport
  | .present _ =>
    { release := fun _ ok => midiRelease ok
      write := midiFut
      release_answers := fun _ => .inr fun _ => ⟨_, rfl, rfl⟩
      write_answers := midiFut_answers }
  | _ => .absent

/-! ### The emit task -/

/-- The task at an await, with the writes completed so far. -/
structure State where
  pc : Pc
  l : Locals
  ser : List Write
  midi : List Write

def State.start : State := ⟨.wait, .start, [], []⟩

/-- A snapshot taken, or a write completed with its result. -/
inductive Label
  | take (snap : UsbSnapshot)
  | serReleased (ok : Bool)
  | midiReleased (ok : Bool)
  | serDone (ok : Bool)
  | midiDone (ok : Bool)

/-- The task up to its next await. -/
def emitStep (app : App) (s : State) : Label → Option State
  | .take snap =>
    match s.pc with
    | .wait => some { s with pc := if s.l.switches snap then .serRelease snap else .join snap true true }
    | _ => none
  | .serReleased ok =>
    match s.pc with
    | .serRelease snap =>
      let r := (serTransport app.serial).release s.l.ser ok
      some { s with pc := .midiRelease snap, l := { s.l with ser := r.1 }, ser := s.ser ++ r.2 }
    | _ => none
  | .midiReleased ok =>
    match s.pc with
    | .midiRelease snap =>
      let r := (midiTransport app.midi).release s.l.midi ok
      some { s with
        pc := .join snap true true
        l := { s.l with midi := r.1, prevStyle := some snap.emitStyle }
        midi := s.midi ++ r.2 }
    | _ => none
  | .serDone ok =>
    match s.pc with
    | .join snap true midi =>
      let r := (serTransport app.serial).write snap s.l.ser ok
      some { s with pc := joined snap false midi, l := { s.l with ser := r.1 }, ser := s.ser ++ r.2 }
    | _ => none
  | .midiDone ok =>
    match s.pc with
    | .join snap ser true =>
      let r := (midiTransport app.midi).write snap s.l.midi ok
      some { s with pc := joined snap ser false, l := { s.l with midi := r.1 }, midi := s.midi ++ r.2 }
    | _ => none

/-- The snapshot a step takes. -/
def Label.snapshot? : Label → Option UsbSnapshot
  | .take snap => some snap
  | _ => none

/-- The snapshots a run takes. -/
def snapshots (ls : List Label) : List UsbSnapshot := ls.filterMap Label.snapshot?

/-- The labels of an iteration, the two writes of the join in either order. -/
def iteration (l : Locals) (snap : UsbSnapshot) (o : Outcomes) (midiFirst : Bool) : List Label :=
  .take snap ::
    (if l.switches snap then [.serReleased o.serRelease, .midiReleased o.midiRelease] else []) ++
    if midiFirst then [.midiDone o.midiWrite, .serDone o.serWrite]
    else [.serDone o.serWrite, .midiDone o.midiWrite]

theorem serStep_transport (app : App) (l : Locals) (snap : UsbSnapshot) (o : Outcomes) :
    serStep app l snap o =
      let T := serTransport app.serial
      let r := if l.switches snap then T.release l.ser o.serRelease else (l.ser, [])
      ((T.write snap r.1 o.serWrite).1, r.2 ++ (T.write snap r.1 o.serWrite).2) := by
  unfold serStep serTransport
  rcases app.serial with _ | _ | iface
  · cases l.switches snap <;> rfl
  · cases l.switches snap <;> rfl
  · rfl

theorem midiStep_transport (app : App) (l : Locals) (snap : UsbSnapshot) (o : Outcomes) :
    midiStep app l snap o =
      let T := midiTransport app.midi
      let r := if l.switches snap then T.release l.midi o.midiRelease else (l.midi, [])
      ((T.write snap r.1 o.midiWrite).1, r.2 ++ (T.write snap r.1 o.midiWrite).2) := by
  unfold midiStep midiTransport
  rcases app.midi with _ | _ | u
  · cases l.switches snap <;> rfl
  · cases l.switches snap <;> rfl
  · rfl

/-- They are one iteration of the loop. -/
theorem run_iteration (app : App) (l : Locals) (ser midi : List Write) (snap : UsbSnapshot) (o : Outcomes)
    (midiFirst : Bool) :
    StepRun.run (emitStep app) ⟨.wait, l, ser, midi⟩ (iteration l snap o midiFirst) =
      some ⟨.wait, (step app l snap o).1, ser ++ (step app l snap o).2.ser,
        midi ++ (step app l snap o).2.midi⟩ := by
  unfold step
  rw [serStep_transport, midiStep_transport]
  cases hsw : l.switches snap with
  | true =>
    cases midiFirst <;>
      simp [iteration, hsw, StepRun.run_cons, StepRun.run_nil, emitStep, joined]
  | false =>
    have hstyle : l.prevStyle = some snap.emitStyle := by simpa [Locals.switches] using hsw
    cases midiFirst <;>
      simp [iteration, hsw, StepRun.run_cons, StepRun.run_nil, emitStep, joined, hstyle]

/-! ### A transport alone -/

/-- The `n`-th write has the result `σ n`. -/
def Follows (σ : ℕ → Bool) (ws : List Write) : Prop := ∀ n w, ws[n]? = some w → w.ok = σ n

/-- A transport's caches, the last style, and its writes. -/
structure Solo where
  prev : Prev
  style : Option UsbEmitStyle
  log : List Write

section Alone

variable (T : Transport) (σ : ℕ → Bool)

/-- What is done, with the result of the next write. -/
def Solo.write (t : Solo) (f : Bool → Prev × List Write) : Solo :=
  let r := f (σ t.log.length)
  { t with prev := r.1, log := t.log ++ r.2 }

/-- The release, if the snapshot is a style switch. -/
def Transport.readied (t : Solo) (snap : UsbSnapshot) : Solo :=
  { if t.style = some snap.emitStyle then t else t.write σ (T.release t.prev) with style := some snap.emitStyle }

/-- One snapshot. -/
def Transport.next (t : Solo) (snap : UsbSnapshot) : Solo :=
  (T.readied σ t snap).write σ (T.write snap (T.readied σ t snap).prev)

/-- The transport alone, fed the snapshots. -/
def Transport.alone (snaps : List UsbSnapshot) : Solo := snaps.foldl (T.next σ) ⟨.off, none, []⟩

theorem alone_concat (snaps : List UsbSnapshot) (snap : UsbSnapshot) :
    T.alone σ (snaps ++ [snap]) = T.next σ (T.alone σ snaps) snap :=
  List.foldl_concat ..

/-- The style of the last snapshot. -/
def lastStyle (snaps : List UsbSnapshot) : Option UsbEmitStyle := snaps.getLast?.map (·.emitStyle)

theorem lastStyle_concat (snaps : List UsbSnapshot) (snap : UsbSnapshot) :
    lastStyle (snaps ++ [snap]) = some snap.emitStyle := by
  unfold lastStyle
  rw [List.getLast?_concat]
  rfl

theorem alone_style (snaps : List UsbSnapshot) : (T.alone σ snaps).style = lastStyle snaps := by
  induction snaps using List.reverseRecOn with
  | nil => rfl
  | append_singleton snaps snap _ =>
    rw [alone_concat, lastStyle_concat]
    rfl

variable {T σ}

/-- A write whose result follows `σ` is the one `σ` makes. -/
theorem Follows.answer {f : Bool → Prev × List Write} (hf : Answers f) {log : List Write} {ok : Bool}
    (h : Follows σ (log ++ (f ok).2)) : f ok = f (σ log.length) := by
  rcases hf with ⟨p, hsilent⟩ | hone
  · rw [hsilent, hsilent]
  · obtain ⟨w, hw, hok⟩ := hone ok
    have hnew : w.ok = σ log.length := by
      apply h
      rw [hw, List.getElem?_append_right le_rfl, Nat.sub_self]
      rfl
    rw [← hnew, hok]

theorem Follows.of_append {ws ws' : List Write} (h : Follows σ (ws ++ ws')) : Follows σ ws := fun n w hw =>
  h n w (List.getElem?_append_left (List.getElem?_eq_some_iff.mp hw).1 ▸ hw)

/-- How far a transport is: with the snapshots but the last one, that one's
release included, or all of them. -/
def Along (T : Transport) (σ : ℕ → Bool) (taken : List UsbSnapshot) (ph : Phase) (prev : Prev) (log : List Write) :
    Prop :=
  match ph with
  | .done => prev = (T.alone σ taken).prev ∧ log = (T.alone σ taken).log
  | .ready => ∃ snaps snap, taken = snaps ++ [snap] ∧
      prev = (T.readied σ (T.alone σ snaps) snap).prev ∧ log = (T.readied σ (T.alone σ snaps) snap).log
  | .stale => ∃ snaps snap, taken = snaps ++ [snap] ∧ lastStyle snaps ≠ some snap.emitStyle ∧
      prev = (T.alone σ snaps).prev ∧ log = (T.alone σ snaps).log

theorem Along.take {taken : List UsbSnapshot} {prev : Prev} {log : List Write}
    (h : Along T σ taken .done prev log) (snap : UsbSnapshot) :
    Along T σ (taken ++ [snap]) (if lastStyle taken = some snap.emitStyle then .ready else .stale) prev log := by
  split
  · rename_i hsame
    have hready : T.readied σ (T.alone σ taken) snap = { T.alone σ taken with style := some snap.emitStyle } := by
      unfold Transport.readied
      rw [if_pos ((alone_style T σ taken).trans hsame)]
    exact ⟨taken, snap, rfl, by rw [hready]; exact h⟩
  · rename_i hswitch
    exact ⟨taken, snap, rfl, hswitch, h⟩

theorem Along.release {taken : List UsbSnapshot} {prev : Prev} {log : List Write} {ok : Bool}
    (h : Along T σ taken .stale prev log) (hf : Follows σ (log ++ (T.release prev ok).2)) :
    Along T σ taken .ready (T.release prev ok).1 (log ++ (T.release prev ok).2) := by
  obtain ⟨snaps, snap, rfl, hswitch, rfl, rfl⟩ := h
  have hready : T.readied σ (T.alone σ snaps) snap =
      { (T.alone σ snaps).write σ (T.release (T.alone σ snaps).prev) with style := some snap.emitStyle } := by
    unfold Transport.readied
    rw [if_neg fun hsame => hswitch ((alone_style T σ snaps).symm.trans hsame)]
  rw [hf.answer (T.release_answers _)]
  exact ⟨snaps, snap, rfl, by rw [hready]; exact ⟨rfl, rfl⟩⟩

theorem Along.write {taken : List UsbSnapshot} {snap : UsbSnapshot} {prev : Prev} {log : List Write} {ok : Bool}
    (h : Along T σ taken .ready prev log) (hsnap : taken.getLast? = some snap)
    (hf : Follows σ (log ++ (T.write snap prev ok).2)) :
    Along T σ taken .done (T.write snap prev ok).1 (log ++ (T.write snap prev ok).2) := by
  obtain ⟨snaps, snap', rfl, rfl, rfl⟩ := h
  obtain rfl : snap' = snap := by simpa using hsnap
  rw [hf.answer (T.write_answers _ _)]
  show _ = (T.alone σ (snaps ++ [snap'])).prev ∧ _ = (T.alone σ (snaps ++ [snap'])).log
  rw [alone_concat]
  exact ⟨rfl, rfl⟩

theorem log_readied (t : Solo) (snap : UsbSnapshot) : t.log <+: (T.readied σ t snap).log := by
  unfold Transport.readied
  simp only
  split
  · exact List.prefix_rfl
  · exact List.prefix_append _ _

/-- Whatever the phase, what is written is a start of what is written alone. -/
theorem Along.prefix_alone {taken : List UsbSnapshot} {ph : Phase} {prev : Prev} {log : List Write}
    (h : Along T σ taken ph prev log) : log <+: (T.alone σ taken).log := by
  cases ph with
  | done => exact h.2 ▸ List.prefix_rfl
  | ready =>
    obtain ⟨snaps, snap, rfl, -, rfl⟩ := h
    rw [alone_concat]
    exact List.prefix_append _ _
  | stale =>
    obtain ⟨snaps, snap, rfl, -, -, rfl⟩ := h
    rw [alone_concat]
    exact (log_readied _ snap).trans (List.prefix_append _ _)

end Alone

/-! ### The task -/

/-- The snapshot in hand and the last style, `taken` being the snapshots so far. -/
structure Current (taken : List UsbSnapshot) (s : State) : Prop where
  snap : ∀ snap, s.pc.snap = some snap → taken.getLast? = some snap
  style : s.pc.phaseMidi ≠ .stale → s.l.prevStyle = lastStyle taken

/-- Both transports are where they would be alone, as long as their results
follow `σ`. -/
structure Inv (app : App) (σ : ℕ → Bool) (taken : List UsbSnapshot) (s : State) : Prop where
  current : Current taken s
  ser : Follows σ s.ser → Along (serTransport app.serial) σ taken s.pc.phaseSer s.l.ser s.ser
  midi : Follows σ s.midi → Along (midiTransport app.midi) σ taken s.pc.phaseMidi s.l.midi s.midi

theorem snap_joined {snap snap' : UsbSnapshot} {a b : Bool} (h : (joined snap a b).snap = some snap') :
    snap' = snap := by
  unfold joined at h
  split at h
  · exact (Option.some.inj h).symm
  · cases h

theorem snapshots_append (ls ls' : List Label) : snapshots (ls ++ ls') = snapshots ls ++ snapshots ls' :=
  List.filterMap_append

/-- A write takes no snapshot. -/
theorem snapshots_write (ls : List Label) {a : Label} (h : a.snapshot? = none) :
    snapshots (ls ++ [a]) = snapshots ls := by
  rw [snapshots_append, snapshots, snapshots, List.filterMap_cons_none h, List.filterMap_nil, List.append_nil]

/-- A snapshot taken: a release comes first exactly on a style switch. -/
theorem Inv.take {app : App} {σ : ℕ → Bool} {taken : List UsbSnapshot} {l : Locals} {ser midi : List Write}
    (hI : Inv app σ taken ⟨.wait, l, ser, midi⟩) (snap : UsbSnapshot) :
    Inv app σ (taken ++ [snap])
      ⟨if l.switches snap then .serRelease snap else .join snap true true, l, ser, midi⟩ := by
  have hstyle : l.prevStyle = lastStyle taken := hI.current.style (by intro h; cases h)
  have hser := fun hf => (hI.ser hf).take snap
  have hmidi := fun hf => (hI.midi hf).take snap
  by_cases hsame : lastStyle taken = some snap.emitStyle
  · have hsw : l.switches snap = false := by simp [Locals.switches, hstyle, hsame]
    rw [if_pos hsame] at hser hmidi
    rw [hsw]
    refine ⟨⟨fun snap' h => ?_, fun _ => ?_⟩, hser, hmidi⟩
    · rw [← Option.some.inj h]
      exact List.getLast?_concat
    · rw [lastStyle_concat]
      exact hstyle.trans hsame
  · have hsw : l.switches snap = true := by simp [Locals.switches, hstyle, hsame]
    rw [if_neg hsame] at hser hmidi
    rw [hsw]
    refine ⟨⟨fun snap' h => ?_, fun h => absurd rfl h⟩, hser, hmidi⟩
    rw [← Option.some.inj h]
    exact List.getLast?_concat

/-- One step, one case for each await; the other transport is not touched. -/
theorem inv_step {app : App} {σ : ℕ → Bool} {ls : List Label} {s s' : State} {a : Label}
    (hI : Inv app σ (snapshots ls) s) (h : emitStep app s a = some s') :
    Inv app σ (snapshots (ls ++ [a])) s' := by
  obtain ⟨pc, l, ser, midi⟩ := s
  cases a with
  | take snap =>
    simp only [emitStep] at h
    split at h
    · obtain rfl := Option.some.inj h
      rw [snapshots_append]
      exact hI.take snap
    · cases h
  | serReleased ok =>
    obtain ⟨⟨hsnap, hstyle⟩, hser, hmidi⟩ := hI
    simp only [emitStep] at h
    split at h
    · obtain rfl := Option.some.inj h
      rw [snapshots_write ls rfl]
      exact ⟨⟨hsnap, fun hne => absurd rfl hne⟩, fun hf => (hser hf.of_append).release hf, hmidi⟩
    · cases h
  | midiReleased ok =>
    obtain ⟨⟨hsnap, hstyle⟩, hser, hmidi⟩ := hI
    simp only [emitStep] at h
    split at h
    · rename_i snap
      obtain rfl := Option.some.inj h
      rw [snapshots_write ls rfl]
      have hlast : lastStyle (snapshots ls) = some snap.emitStyle := by
        unfold lastStyle
        rw [hsnap snap rfl]
        rfl
      exact ⟨⟨hsnap, fun _ => hlast.symm⟩, hser, fun hf => (hmidi hf.of_append).release hf⟩
    · cases h
  | serDone ok =>
    obtain ⟨⟨hsnap, hstyle⟩, hser, hmidi⟩ := hI
    simp only [emitStep] at h
    split at h
    · rename_i snap m
      obtain rfl := Option.some.inj h
      rw [snapshots_write ls rfl]
      obtain ⟨hphaseSer, hphaseMidi⟩ := phase_joined snap false m
      refine ⟨⟨fun snap' hs => ?_, fun _ => hstyle ?_⟩, fun hf => ?_, fun hf => ?_⟩
      · rw [snap_joined hs]
        exact hsnap snap rfl
      · cases m <;> intro hstale <;> cases hstale
      · show Along _ σ _ (joined snap false m).phaseSer _ _
        rw [hphaseSer]
        exact (hser hf.of_append).write (hsnap snap rfl) hf
      · show Along _ σ _ (joined snap false m).phaseMidi _ _
        rw [hphaseMidi]
        exact hmidi hf
    · cases h
  | midiDone ok =>
    obtain ⟨⟨hsnap, hstyle⟩, hser, hmidi⟩ := hI
    simp only [emitStep] at h
    split at h
    · rename_i snap r
      obtain rfl := Option.some.inj h
      rw [snapshots_write ls rfl]
      obtain ⟨hphaseSer, hphaseMidi⟩ := phase_joined snap r false
      refine ⟨⟨fun snap' hs => ?_, fun _ => hstyle ?_⟩, fun hf => ?_, fun hf => ?_⟩
      · rw [snap_joined hs]
        exact hsnap snap rfl
      · intro hstale
        cases hstale
      · show Along _ σ _ (joined snap r false).phaseSer _ _
        rw [hphaseSer]
        exact hser hf
      · show Along _ σ _ (joined snap r false).phaseMidi _ _
        rw [hphaseMidi]
        exact (hmidi hf.of_append).write (hsnap snap rfl) hf
    · cases h

theorem inv_start (app : App) (σ : ℕ → Bool) : Inv app σ (snapshots []) .start where
  current := ⟨fun _ h => (nomatch h), fun _ => rfl⟩
  ser _ := ⟨rfl, rfl⟩
  midi _ := ⟨rfl, rfl⟩

/-- In every reachable state, both transports are where they would be alone. -/
theorem along_run {app : App} {ls : List Label} {s : State}
    (h : StepRun.run (emitStep app) .start ls = some s) (σ : ℕ → Bool) : Inv app σ (snapshots ls) s :=
  StepRun.run_inv_hist (I := fun ls s => Inv app σ (snapshots ls) s) (emitStep app)
    (fun _ _ _ _ hI hs => inv_step hI hs) ls [] .start s (inv_start app σ) h

/-- Two transports in step with the same one alone have written the same, as
far as both are. -/
theorem Along.agree {T : Transport} {σ : ℕ → Bool} {taken : List UsbSnapshot} {ph₁ ph₂ : Phase}
    {prev₁ prev₂ : Prev} {log₁ log₂ : List Write} (h₁ : Along T σ taken ph₁ prev₁ log₁)
    (h₂ : Along T σ taken ph₂ prev₂ log₂) :
    (log₁ <+: log₂ ∨ log₂ <+: log₁) ∧ (ph₁ = .done → ph₂ = .done → log₁ = log₂) := by
  refine ⟨List.prefix_or_prefix_of_prefix h₁.prefix_alone h₂.prefix_alone, ?_⟩
  rintro rfl rfl
  exact h₁.2.trans h₂.2.symm

theorem Follows.append {σ : ℕ → Bool} {log : List Write} (h : Follows σ log) {f : Bool → Prev × List Write}
    (hf : Answers f) : Follows σ (log ++ (f (σ log.length)).2) := by
  rcases hf with ⟨p, hsilent⟩ | hone
  · rw [hsilent, List.append_nil]
    exact h
  · obtain ⟨w, hw, hok⟩ := hone (σ log.length)
    rw [hw]
    intro n w' hn
    rcases Nat.lt_or_ge n log.length with hlt | hge
    · rw [List.getElem?_append_left hlt] at hn
      exact h n w' hn
    · rw [List.getElem?_append_right hge] at hn
      obtain ⟨hlen, hget⟩ := List.getElem?_eq_some_iff.mp hn
      rw [List.length_singleton] at hlen
      obtain rfl : n = log.length := by omega
      rw [← hok, ← hget]
      simp

/-- A transport's writes in one iteration, its results following `σ`. -/
theorem Follows.iteration {σ : ℕ → Bool} {log : List Write} (h : Follows σ log) (T : Transport) (switch : Bool)
    (p : Prev) (snap : UsbSnapshot) :
    let r := if switch then T.release p (σ log.length) else (p, [])
    Follows σ (log ++ (r.2 ++ (T.write snap r.1 (σ (log ++ r.2).length)).2)) := by
  intro r
  have hrelease : Follows σ (log ++ r.2) := by
    show Follows σ (log ++ (if switch then T.release p (σ log.length) else (p, [])).2)
    split
    · exact h.append (T.release_answers p)
    · rw [List.append_nil]
      exact h
  rw [← List.append_assoc]
  exact hrelease.append (T.write_answers snap r.1)

/-- Every build can take any snapshots, with any results of its writes. -/
theorem run_exists (app : App) (σSer σMidi : ℕ → Bool) (snaps : List UsbSnapshot) : ∃ ls s,
    StepRun.run (emitStep app) .start ls = some s ∧ snapshots ls = snaps ∧ s.pc = .wait ∧
      Follows σSer s.ser ∧ Follows σMidi s.midi := by
  induction snaps using List.reverseRecOn with
  | nil => exact ⟨[], .start, rfl, rfl, rfl, fun _ _ h => (nomatch h), fun _ _ h => (nomatch h)⟩
  | append_singleton snaps snap ih =>
    obtain ⟨ls, ⟨pc, l, ser, midi⟩, hrun, hsnaps, hpc, hser, hmidi⟩ := ih
    obtain rfl : pc = .wait := hpc
    let rs := if l.switches snap then (serTransport app.serial).release l.ser (σSer ser.length) else (l.ser, [])
    let rm := if l.switches snap then (midiTransport app.midi).release l.midi (σMidi midi.length) else (l.midi, [])
    let o : Outcomes := ⟨σSer ser.length, σMidi midi.length, σSer (ser ++ rs.2).length,
      σMidi (midi ++ rm.2).length⟩
    have hnext := run_iteration app l ser midi snap o false
    refine ⟨ls ++ iteration l snap o false, _, (StepRun.run_append_some _).mpr ⟨_, hrun, hnext⟩, ?_, rfl, ?_, ?_⟩
    · rw [snapshots_append, hsnaps]
      unfold iteration
      split <;> rfl
    · show Follows σSer (ser ++ (serStep app l snap o).2)
      rw [serStep_transport]
      exact hser.iteration (serTransport app.serial) (l.switches snap) l.ser snap
    · show Follows σMidi (midi ++ (midiStep app l snap o).2)
      rw [midiStep_transport]
      exact hmidi.iteration (midiTransport app.midi) (l.switches snap) l.midi snap

/-- **No interference.** Two builds take the same snapshots, in any order of
their writes. If they have the same MIDI transport, and in both its `n`-th
write succeeds or not as `σ n` says, then the MIDI writes of one are a start
of the other's, and the same, packets and results, once both are done with
the last snapshot; whatever the CDC transports are and do. The same holds of
the CDC writes. Every build can take any snapshots with any results; and from
one wait to the next, in either order of the join's writes, it does what an
iteration of `run` does and writes what that writes. -/
theorem transports_independent (app₁ app₂ : App) (ls₁ ls₂ : List Label) (s₁ s₂ : State)
    (h₁ : StepRun.run (emitStep app₁) .start ls₁ = some s₁)
    (h₂ : StepRun.run (emitStep app₂) .start ls₂ = some s₂) (hsnaps : snapshots ls₁ = snapshots ls₂) :
    (∀ σ, app₁.midi = app₂.midi → Follows σ s₁.midi → Follows σ s₂.midi →
      (s₁.midi <+: s₂.midi ∨ s₂.midi <+: s₁.midi) ∧
      (s₁.pc.phaseMidi = .done → s₂.pc.phaseMidi = .done → s₁.midi = s₂.midi)) ∧
    (∀ σ, app₁.serial = app₂.serial → Follows σ s₁.ser → Follows σ s₂.ser →
      (s₁.ser <+: s₂.ser ∨ s₂.ser <+: s₁.ser) ∧
      (s₁.pc.phaseSer = .done → s₂.pc.phaseSer = .done → s₁.ser = s₂.ser)) ∧
    (∀ app σSer σMidi snaps, ∃ ls s, StepRun.run (emitStep app) .start ls = some s ∧ snapshots ls = snaps ∧
      s.pc = .wait ∧ Follows σSer s.ser ∧ Follows σMidi s.midi) ∧
    ∀ app s snap o midiFirst, s.pc = .wait → StepRun.run (emitStep app) s (iteration s.l snap o midiFirst) =
      some ⟨.wait, (step app s.l snap o).1, s.ser ++ (step app s.l snap o).2.ser,
        s.midi ++ (step app s.l snap o).2.midi⟩ := by
  refine ⟨fun σ hmidi hf₁ hf₂ => ?_, fun σ hser hf₁ hf₂ => ?_, run_exists, fun app s snap o midiFirst hpc => ?_⟩
  · have halong₁ := (along_run h₁ σ).midi hf₁
    have halong₂ := (along_run h₂ σ).midi hf₂
    rw [hsnaps, hmidi] at halong₁
    exact halong₁.agree halong₂
  · have halong₁ := (along_run h₁ σ).ser hf₁
    have halong₂ := (along_run h₂ σ).ser hf₂
    rw [hsnaps, hser] at halong₁
    exact halong₁.agree halong₂
  · obtain ⟨pc, l, ser, midi⟩ := s
    obtain rfl : pc = .wait := hpc
    exact run_iteration app l ser midi snap o midiFirst

/-- A dit pressed: the build with a CDC transport whose writes all fail, its
MIDI write completing first, and the build without one. Both write the release
of the two notes and the dit's note on. -/
theorem transports_independent_dit :
    let snap : UsbSnapshot := ⟨true, false, true, .paddle⟩
    let ls₁ : List Label := [.take snap, .serReleased false, .midiReleased true, .midiDone true, .serDone false]
    let ls₂ : List Label := [.take snap, .serReleased true, .midiReleased true, .serDone true, .midiDone true]
    ∃ s₁ s₂, StepRun.run (emitStep ⟨.present 0, .present ()⟩) .start ls₁ = some s₁ ∧
      StepRun.run (emitStep ⟨.compiledOut, .present ()⟩) .start ls₂ = some s₂ ∧
      s₁.ser = [⟨serialStatePacket 0 false false, true, false⟩, ⟨serialStatePacket 0 true false, false, false⟩] ∧
      s₂.ser = [] ∧ s₁.midi = s₂.midi ∧
      s₁.midi = [⟨noteEvent midiNoteDit false ++ noteEvent midiNoteDah false, true, true⟩,
        ⟨noteEvent midiNoteDit true, false, true⟩] := by
  intro snap ls₁ ls₂
  obtain ⟨hmidi, -, -, hiteration⟩ := transports_independent ⟨.present 0, .present ()⟩
    ⟨.compiledOut, .present ()⟩ ls₁ ls₂ _ _ rfl rfl rfl
  have hall : ∀ ws : List Write, (∀ w ∈ ws, w.ok = true) → Follows (fun _ => true) ws := fun ws h n w hn =>
    h w (List.mem_of_getElem? hn)
  obtain ⟨-, hsame⟩ := hmidi (fun _ => true) rfl (hall _ (by decide)) (hall _ (by decide))
  have hrun := hiteration ⟨.present 0, .present ()⟩ .start snap ⟨false, true, false, true⟩ true rfl
  exact ⟨_, _, hrun, rfl, rfl, rfl, hsame rfl rfl, rfl⟩

end UsbIndependence
end RpKeyer
