/-
# The snapshot channel

The keyer and the emit task as two parties over the one-slot `UsbStateSignal`.
The keyer moves section by section (`Loop.loopStep`, with edits of the config
and of the save lock in between); the emit task moves between its await
points: the wait, the two release writes of a style switch, and the two
writes of the join, which complete in any order. All writes succeed, and a
write reaches the host when it completes.

The transport's invariant is by phase (`Side`): before its release nothing is
known of the host, then caches and host agree, and after its edge write the
host is at the target of the snapshot. `no_final_state_lost` is the theorem.
-/
import RpKeyer.Loop
import RpKeyer.StraightKey
import RpKeyer.UsbHost

namespace RpKeyer
namespace UsbChannel

open UsbEmit UsbHost

variable {ε : Type} (E : Engine ε) (app : App)

/-! ### The emit task between its awaits -/

/-- Where the emit task is suspended; in the join, which futures are pending. -/
inductive Pc
  | wait
  | serRelease (snap : UsbSnapshot)
  | midiRelease (snap : UsbSnapshot)
  | join (snap : UsbSnapshot) (ser midi : Bool)
  deriving DecidableEq, Repr

/-- The emit task and the two hosts. -/
structure Emit where
  pc : Pc
  l : Locals
  hostSer : Bits
  hostMidi : Bits

structure Sys (ε : Type) where
  keyer : Loop.State ε
  emit : Emit

/-- The channel. -/
def Sys.chan (s : Sys ε) : Signal UsbSnapshot := s.keyer.st.usbSignal

/-- A section of the keyer, or the emit task up to its next await. -/
inductive Label
  | keyer (a : Loop.Label)
  | take
  | serReleased
  | midiReleased
  | serDone
  | midiDone

/-- The CDC release, where there is a CDC transport. -/
def releaseSer (p : Prev) : Prev × List Write :=
  match app.serial with
  | .present iface => UsbEmit.serRelease iface true
  | _ => (p, [])

def releaseMidi (p : Prev) : Prev × List Write :=
  match app.midi with
  | .present _ => UsbEmit.midiRelease true
  | _ => (p, [])

/-- The CDC future, where there is a CDC transport. -/
def writeSer (snap : UsbSnapshot) (p : Prev) : Prev × List Write :=
  match app.serial with
  | .present iface => serFut iface snap p true
  | _ => (p, [])

def writeMidi (snap : UsbSnapshot) (p : Prev) : Prev × List Write :=
  match app.midi with
  | .present _ => midiFut snap p true
  | _ => (p, [])

/-- The join goes on until both futures are done. -/
def joined (snap : UsbSnapshot) (ser midi : Bool) : Pc := if ser || midi then .join snap ser midi else .wait

/-- After the wait: on a style switch the releases come first. -/
def taken (snap : UsbSnapshot) (e : Emit) : Emit :=
  { e with pc := if e.l.switches snap then .serRelease snap else .join snap true true }

def serReleased (snap : UsbSnapshot) (e : Emit) : Emit :=
  { e with
    pc := .midiRelease snap
    l := { e.l with ser := (releaseSer app e.l.ser).1 }
    hostSer := receiveAll serReceive e.hostSer (releaseSer app e.l.ser).2 }

def midiReleased (snap : UsbSnapshot) (e : Emit) : Emit :=
  { e with
    pc := .join snap true true
    l := { e.l with midi := (releaseMidi app e.l.midi).1, prevStyle := some snap.emitStyle }
    hostMidi := receiveAll midiReceive e.hostMidi (releaseMidi app e.l.midi).2 }

def serDone (snap : UsbSnapshot) (midi : Bool) (e : Emit) : Emit :=
  { e with
    pc := joined snap false midi
    l := { e.l with ser := (writeSer app snap e.l.ser).1 }
    hostSer := receiveAll serReceive e.hostSer (writeSer app snap e.l.ser).2 }

def midiDone (snap : UsbSnapshot) (ser : Bool) (e : Emit) : Emit :=
  { e with
    pc := joined snap ser false
    l := { e.l with midi := (writeMidi app snap e.l.midi).1 }
    hostMidi := receiveAll midiReceive e.hostMidi (writeMidi app snap e.l.midi).2 }

/-- The system with another channel and another emit state. -/
def Sys.received (s : Sys ε) (c : Signal UsbSnapshot) (e : Emit) : Sys ε :=
  ⟨{ s.keyer with st := { s.keyer.st with usbSignal := c } }, e⟩

def sysStep (s : Sys ε) : Label → Option (Sys ε)
  | .keyer a => (Loop.loopStep E s.keyer a).map fun k => ⟨k, s.emit⟩
  | .take =>
    match s.emit.pc with
    | .wait => s.chan.take.map fun r => s.received r.2 (taken r.1 s.emit)
    | _ => none
  | .serReleased =>
    match s.emit.pc with
    | .serRelease snap => some ⟨s.keyer, serReleased app snap s.emit⟩
    | _ => none
  | .midiReleased =>
    match s.emit.pc with
    | .midiRelease snap => some ⟨s.keyer, midiReleased app snap s.emit⟩
    | _ => none
  | .serDone =>
    match s.emit.pc with
    | .join snap true midi => some ⟨s.keyer, serDone app snap midi s.emit⟩
    | _ => none
  | .midiDone =>
    match s.emit.pc with
    | .join snap ser true => some ⟨s.keyer, midiDone app snap ser s.emit⟩
    | _ => none

/-- The results of the writes of an iteration that all succeed. -/
def allOk : Outcomes := ⟨true, true, true, true⟩

/-- The labels from a wait to the next one, the CDC future first. -/
def labels (l : Locals) (snap : UsbSnapshot) : List Label :=
  .take :: (if l.switches snap then [.serReleased, .midiReleased] else []) ++ [.serDone, .midiDone]

theorem serStep_allOk (l : Locals) (snap : UsbSnapshot) :
    serStep app l snap allOk =
      let r := if l.switches snap then releaseSer app l.ser else (l.ser, [])
      ((writeSer app snap r.1).1, r.2 ++ (writeSer app snap r.1).2) := by
  unfold serStep releaseSer writeSer
  rcases app.serial with _ | _ | iface
  · cases l.switches snap <;> rfl
  · cases l.switches snap <;> rfl
  · rfl

theorem midiStep_allOk (l : Locals) (snap : UsbSnapshot) :
    midiStep app l snap allOk =
      let r := if l.switches snap then releaseMidi app l.midi else (l.midi, [])
      ((writeMidi app snap r.1).1, r.2 ++ (writeMidi app snap r.1).2) := by
  unfold midiStep releaseMidi writeMidi
  rcases app.midi with _ | _ | u
  · cases l.switches snap <;> rfl
  · cases l.switches snap <;> rfl
  · rfl

/-- Taken without interruption, the steps from a wait to the next are one
iteration of the emit task. -/
theorem emit_iteration (s : Sys ε) (hpc : s.emit.pc = .wait) {snap : UsbSnapshot} {c : Signal UsbSnapshot}
    (ht : s.chan.take = some (snap, c)) :
    let r := UsbEmit.step app s.emit.l snap allOk
    StepRun.run (sysStep E app) s (labels s.emit.l snap) =
      some (s.received c ⟨.wait, r.1, receiveAll serReceive s.emit.hostSer r.2.ser,
        receiveAll midiReceive s.emit.hostMidi r.2.midi⟩) := by
  obtain ⟨keyer, pc, l, hostSer, hostMidi⟩ := s
  obtain rfl : pc = .wait := hpc
  intro r
  have hser := serStep_allOk app l snap
  have hmidi := midiStep_allOk app l snap
  have hr : r = (⟨(serStep app l snap allOk).1, (midiStep app l snap allOk).1, some snap.emitStyle⟩,
      ⟨(serStep app l snap allOk).2, (midiStep app l snap allOk).2⟩) := rfl
  rw [hr, hser, hmidi]
  cases hsw : l.switches snap with
  | true =>
    simp [labels, hsw, StepRun.run_cons, StepRun.run_nil, sysStep, ht, taken, serReleased, midiReleased,
      serDone, midiDone, joined, Sys.received, receiveAll_append]
  | false =>
    have hstyle : l.prevStyle = some snap.emitStyle := by simpa [Locals.switches] using hsw
    simp [labels, hsw, StepRun.run_cons, StepRun.run_nil, sysStep, ht, taken, serDone, midiDone, joined,
      Sys.received, hstyle]

/-! ### The keyer's side -/

/-- After the signalling step the last snapshot is the current one, and it
was posted if it is new. -/
theorem poll_signal (k : Keyer ε) (st : Statics) (a b : Bool) :
    (k.poll E st a b).1.lastSignaled = some (k.snapshot a b) ∧
    (k.poll E st a b).2.usbSignal =
      if some (k.snapshot a b) ≠ k.lastSignaled then st.usbSignal.post (k.snapshot a b) else st.usbSignal := by
  unfold Keyer.poll
  by_cases hnew : some (k.snapshot a b) ≠ k.lastSignaled
  · simp [hnew]
  · have hsame : k.lastSignaled = some (k.snapshot a b) := (not_not.mp hnew).symm
    simp [hsame]

theorem refresh_signal (k : Keyer ε) (st : Statics) :
    (k.refresh E st).1.lastSignaled = k.lastSignaled ∧ (k.refresh E st).2.usbSignal = st.usbSignal := by
  unfold Keyer.refresh
  refine ⟨rfl, ?_⟩
  simp only
  split <;> rfl

theorem key_signal (k : Keyer ε) (st : Statics) (on : Bool) (n : ℕ) :
    (k.key st on n).1.lastSignaled = k.lastSignaled ∧ (k.key st on n).2.usbSignal = st.usbSignal := by
  unfold Keyer.key Keyer.feedDecoder
  refine ⟨rfl, ?_⟩
  simp only
  split <;> rfl

theorem act_signal (k : Keyer ε) (st : Statics) (n : ℕ) (o : Option KeyerOutput) :
    (k.act st n o).1.lastSignaled = k.lastSignaled ∧ (k.act st n o).2.usbSignal = st.usbSignal :=
  Keyer.act_rule (P := fun r => r.1.lastSignaled = k.lastSignaled ∧ r.2.usbSignal = st.usbSignal) ⟨rfl, rfl⟩
    (fun on => key_signal k st on n) o

/-- A section of the keyer leaves the channel alone or posts a snapshot it
then holds as the last one. -/
theorem loop_signal {s s' : Loop.State ε} {a : Loop.Label} (h : Loop.loopStep E s a = some s') :
    (s'.k.lastSignaled = s.k.lastSignaled ∧ s'.st.usbSignal = s.st.usbSignal) ∨
    ∃ snap, s'.k.lastSignaled = some snap ∧ s'.st.usbSignal = s.st.usbSignal.post snap := by
  have hc := Loop.loopStep_cases E h
  cases a with
  | edit c =>
    obtain rfl : s' = _ := hc
    exact .inl ⟨rfl, rfl⟩
  | saveLock b =>
    obtain rfl : s' = _ := hc
    exact .inl ⟨rfl, rfl⟩
  | park =>
    obtain ⟨-, rfl⟩ := hc
    exact .inl ⟨rfl, rfl⟩
  | poll a b =>
    obtain ⟨-, rfl⟩ := hc
    obtain ⟨hlast, hsig⟩ := poll_signal E s.k s.st a b
    by_cases hnew : some (s.k.snapshot a b) ≠ s.k.lastSignaled
    · rw [if_pos hnew] at hsig
      exact .inr ⟨s.k.snapshot a b, hlast, hsig⟩
    · rw [if_neg hnew] at hsig
      exact .inl ⟨hlast.trans (not_not.mp hnew), hsig⟩
  | count =>
    obtain ⟨-, rfl⟩ := hc
    refine .inl ⟨?_, rfl⟩
    simp only [Keyer.count]
    split <;> rfl
  | refresh =>
    obtain ⟨-, rfl⟩ := hc
    exact .inl (refresh_signal E s.k s.st)
  | tick n =>
    obtain ⟨-, rfl⟩ := hc
    exact .inl (act_signal { s.k with engine := (E.tick s.k.engine).1 } s.st n (E.tick s.k.engine).2)

/-! ### The invariant -/

/-- How far a transport is with the snapshot in hand. -/
inductive Phase
  | stale | ready | done

def Pc.phaseSer : Pc → Phase
  | .serRelease _ => .stale
  | .midiRelease _ => .ready
  | .join _ ser _ => if ser then .ready else .done
  | .wait => .done

def Pc.phaseMidi : Pc → Phase
  | .serRelease _ | .midiRelease _ => .stale
  | .join _ _ midi => if midi then .ready else .done
  | .wait => .done

/-- A transport in a phase: its caches against the host, and the host against
the snapshot's target. -/
def Side (ph : Phase) (snap : UsbSnapshot) (p : Prev) (h : Bits) : Prop :=
  match ph with
  | .stale => True
  | .ready => Agrees snap.emitStyle p h
  | .done => Agrees snap.emitStyle p h ∧ h = target snap

/-- The emit task, `snap` being the last snapshot it took. -/
structure At (e : Emit) (snap : UsbSnapshot) : Prop where
  pc : e.pc = .wait ∨ e.pc = .serRelease snap ∨ e.pc = .midiRelease snap ∨ ∃ a b, e.pc = .join snap a b
  style : e.pc ≠ .serRelease snap → e.pc ≠ .midiRelease snap → e.l.prevStyle = some snap.emitStyle
  ser : ∀ iface, app.serial = .present iface → Side e.pc.phaseSer snap e.l.ser e.hostSer
  midi : app.midi = .present () → Side e.pc.phaseMidi snap e.l.midi e.hostMidi

structure Inv (s : Sys ε) : Prop where
  chan : s.chan.Ok
  last : s.keyer.k.lastSignaled = s.chan.posted.getLast?
  first : s.chan.taken = [] → s.emit.pc = .wait ∧ s.emit.l.prevStyle = none
  cur : ∀ snap, s.chan.taken.getLast? = some snap → At app s.emit snap

/-- On a wire, the release makes a transport ready. -/
theorem side_release (W : Wire) (snap : UsbSnapshot) (h : Bits) :
    Side .ready snap .off (receiveAll W.receive h [⟨W.release, true, true⟩]) := by
  have hr : receiveAll W.receive h [⟨W.release, true, true⟩] = ⟨false, false⟩ := W.receive_release h
  rw [hr]
  exact agrees_off snap.emitStyle

/-- On a wire, the edge write brings a ready transport to the target. -/
theorem side_write (W : Wire) {snap : UsbSnapshot} {p : Prev} {h : Bits} (hs : Side .ready snap p h) :
    Side .done snap (W.fut p snap true).1 (receiveAll W.receive h (W.fut p snap true).2) := by
  obtain ⟨hA, ht⟩ := W.fut_agrees hs true
  refine ⟨hA, ht fun w hw _ => ?_⟩
  unfold Wire.fut at hw
  split at hw
  · rw [List.mem_singleton.mp hw]
  · exact absurd hw List.not_mem_nil

theorem side_releaseSer {iface : UInt8} (happ : app.serial = .present iface) (snap : UsbSnapshot) (p : Prev)
    (h : Bits) :
    Side .ready snap (releaseSer app p).1 (receiveAll serReceive h (releaseSer app p).2) := by
  unfold releaseSer
  rw [happ]
  exact side_release (cdc iface) snap h

theorem side_releaseMidi (happ : app.midi = .present ()) (snap : UsbSnapshot) (p : Prev) (h : Bits) :
    Side .ready snap (releaseMidi app p).1 (receiveAll midiReceive h (releaseMidi app p).2) := by
  unfold releaseMidi
  rw [happ]
  exact side_release midiWire snap h

theorem side_writeSer {iface : UInt8} (happ : app.serial = .present iface) {snap : UsbSnapshot} {p : Prev}
    {h : Bits} (hs : Side .ready snap p h) :
    Side .done snap (writeSer app snap p).1 (receiveAll serReceive h (writeSer app snap p).2) := by
  unfold writeSer
  rw [happ]
  simp only [serFut_eq]
  exact side_write (cdc iface) hs

theorem side_writeMidi (happ : app.midi = .present ()) {snap : UsbSnapshot} {p : Prev} {h : Bits}
    (hs : Side .ready snap p h) :
    Side .done snap (writeMidi app snap p).1 (receiveAll midiReceive h (writeMidi app snap p).2) := by
  unfold writeMidi
  rw [happ]
  simp only [midiFut_eq]
  exact side_write midiWire hs

/-! ### One step of the emit task -/

/-- Taking a snapshot from an idle task whose last one was `old`. -/
theorem at_taken {e : Emit} (hpc : e.pc = .wait) (snap : UsbSnapshot)
    (hold : e.l.prevStyle = none ∨ ∃ old, At app e old) : At app (taken snap e) snap := by
  unfold taken
  cases hsw : e.l.switches snap with
  | true =>
    exact
      { pc := .inr (.inl rfl)
        style := fun h => absurd rfl h
        ser := fun _ _ => trivial
        midi := fun _ => trivial }
  | false =>
    have hstyle : e.l.prevStyle = some snap.emitStyle := by simpa [Locals.switches] using hsw
    rcases hold with hnone | ⟨old, hat⟩
    · rw [hnone] at hstyle
      cases hstyle
    · have hne : e.pc ≠ .serRelease old ∧ e.pc ≠ .midiRelease old := by simp [hpc]
      have heq : snap.emitStyle = old.emitStyle :=
        Option.some.inj (hstyle.symm.trans (hat.style hne.1 hne.2))
      refine
        { pc := .inr (.inr (.inr ⟨true, true, rfl⟩))
          style := fun _ _ => hstyle
          ser := fun iface happ => ?_
          midi := fun happ => ?_ }
      · have hs := hat.ser iface happ
        rw [hpc] at hs
        show Agrees snap.emitStyle e.l.ser e.hostSer
        rw [heq]
        exact hs.1
      · have hs := hat.midi happ
        rw [hpc] at hs
        show Agrees snap.emitStyle e.l.midi e.hostMidi
        rw [heq]
        exact hs.1

theorem at_serReleased {e : Emit} {snap : UsbSnapshot} : At app (serReleased app snap e) snap where
  pc := .inr (.inr (.inl rfl))
  style := fun _ h => absurd rfl h
  ser := fun _ happ => side_releaseSer app happ snap _ _
  midi := fun _ => trivial

theorem at_midiReleased {e : Emit} {snap : UsbSnapshot} (hpc : e.pc = .midiRelease snap)
    (hat : At app e snap) : At app (midiReleased app snap e) snap where
  pc := .inr (.inr (.inr ⟨true, true, rfl⟩))
  style := fun _ _ => rfl
  ser := fun iface happ => by
    have hs := hat.ser iface happ
    rw [hpc] at hs
    exact hs
  midi := fun happ => side_releaseMidi app happ snap _ _

theorem phase_joined (snap : UsbSnapshot) (a b : Bool) :
    (joined snap a b).phaseSer = (if a then .ready else .done) ∧
    (joined snap a b).phaseMidi = (if b then .ready else .done) := by
  cases a <;> cases b <;> exact ⟨rfl, rfl⟩

/-- After a write of the join, the join or the wait. -/
theorem At.joined {e : Emit} {snap : UsbSnapshot} {a b : Bool} (hpc : e.pc = joined snap a b)
    (hstyle : e.l.prevStyle = some snap.emitStyle)
    (hser : ∀ iface, app.serial = .present iface → Side (if a then .ready else .done) snap e.l.ser e.hostSer)
    (hmidi : app.midi = .present () → Side (if b then .ready else .done) snap e.l.midi e.hostMidi) :
    At app e snap := by
  obtain ⟨hphaseSer, hphaseMidi⟩ := phase_joined snap a b
  refine { pc := ?_, style := fun _ _ => hstyle, ser := fun iface happ => ?_, midi := fun happ => ?_ }
  · rw [hpc]
    unfold UsbChannel.joined
    split
    · exact .inr (.inr (.inr ⟨a, b, rfl⟩))
    · exact .inl rfl
  · rw [hpc, hphaseSer]
    exact hser iface happ
  · rw [hpc, hphaseMidi]
    exact hmidi happ

theorem at_serDone {e : Emit} {snap : UsbSnapshot} {midi : Bool} (hpc : e.pc = .join snap true midi)
    (hat : At app e snap) : At app (serDone app snap midi e) snap := by
  have hstyle : e.l.prevStyle = some snap.emitStyle := hat.style (by simp [hpc]) (by simp [hpc])
  refine At.joined app rfl hstyle (fun iface happ => ?_) (fun happ => ?_)
  · have hs := hat.ser iface happ
    rw [hpc] at hs
    exact side_writeSer app happ hs
  · have hs := hat.midi happ
    rw [hpc] at hs
    exact hs

theorem at_midiDone {e : Emit} {snap : UsbSnapshot} {ser : Bool} (hpc : e.pc = .join snap ser true)
    (hat : At app e snap) : At app (midiDone app snap ser e) snap := by
  have hstyle : e.l.prevStyle = some snap.emitStyle := hat.style (by simp [hpc]) (by simp [hpc])
  refine At.joined app rfl hstyle (fun iface happ => ?_) (fun happ => ?_)
  · have hs := hat.ser iface happ
    rw [hpc] at hs
    exact hs
  · have hs := hat.midi happ
    rw [hpc] at hs
    exact side_writeMidi app happ hs

/-! ### The system -/

/-- The snapshot in hand. -/
def Pc.snap : Pc → Option UsbSnapshot
  | .wait => none
  | .serRelease snap | .midiRelease snap | .join snap _ _ => some snap

/-- The snapshot in hand is the last one taken. -/
theorem Inv.current {s : Sys ε} (hI : Inv app s) {snap : UsbSnapshot} (hsnap : s.emit.pc.snap = some snap) :
    s.chan.taken.getLast? = some snap ∧ At app s.emit snap := by
  rcases ht : s.chan.taken.getLast? with _ | old
  · have hpc := (hI.first (List.getLast?_eq_none_iff.mp ht)).1
    rw [hpc] at hsnap
    cases hsnap
  · have hat := hI.cur old ht
    have heq : old = snap := by
      rcases hat.pc with hpc | hpc | hpc | ⟨a, b, hpc⟩ <;> rw [hpc] at hsnap
      · cases hsnap
      · exact Option.some.inj hsnap
      · exact Option.some.inj hsnap
      · exact Option.some.inj hsnap
    exact heq ▸ ⟨rfl, hat⟩

/-- A step that only moves the emit task, on to a state fit for the snapshot
in hand. -/
theorem Inv.move {s : Sys ε} (hI : Inv app s) {snap : UsbSnapshot} (hsnap : s.emit.pc.snap = some snap)
    {e : Emit} (hat : At app s.emit snap → At app e snap) : Inv app ⟨s.keyer, e⟩ := by
  obtain ⟨hlast, hcur⟩ := hI.current app hsnap
  refine
    { chan := hI.chan
      last := hI.last
      first := fun hnil => ?_
      cur := fun snap' hlast' => ?_ }
  · have hnil' : s.chan.taken = [] := hnil
    rw [hnil'] at hlast
    cases hlast
  · obtain rfl : snap = snap' := Option.some.inj (hlast.symm.trans hlast')
    exact hat hcur

theorem inv_step {s s' : Sys ε} {a : Label} (hI : Inv app s) (h : sysStep E app s a = some s') :
    Inv app s' := by
  cases a with
  | keyer a =>
    obtain ⟨k, hk, rfl⟩ := Option.map_eq_some_iff.mp h
    rcases loop_signal E hk with ⟨hlast, hsig⟩ | ⟨snap, hlast, hsig⟩
    · have hchan : (⟨k, s.emit⟩ : Sys ε).chan = s.chan := hsig
      exact
        { chan := hchan ▸ hI.chan
          last := hchan ▸ hlast.trans hI.last
          first := hchan ▸ hI.first
          cur := hchan ▸ hI.cur }
    · have hchan : (⟨k, s.emit⟩ : Sys ε).chan = s.chan.post snap := hsig
      have hposted : (s.chan.post snap).posted.getLast? = some snap := List.getLast?_concat
      exact
        { chan := hchan ▸ hI.chan.post snap
          last := hchan ▸ hlast.trans hposted.symm
          first := hchan ▸ hI.first
          cur := hchan ▸ hI.cur }
  | take =>
    simp only [sysStep] at h
    split at h
    · rename_i hpc
      obtain ⟨⟨snap, c⟩, ht, rfl⟩ := Option.map_eq_some_iff.mp h
      have hok := hI.chan.take ht
      obtain ⟨-, rfl⟩ := LatestWins.Chan.take_some ht
      have hold : s.emit.l.prevStyle = none ∨ ∃ old, At app s.emit old := by
        rcases hl : s.chan.taken.getLast? with _ | old
        · exact .inl (hI.first (List.getLast?_eq_none_iff.mp hl)).2
        · exact .inr ⟨old, hI.cur old hl⟩
      refine
        { chan := hok
          last := hI.last
          first := fun hnil => absurd hnil (by simp [Sys.chan, Sys.received])
          cur := fun snap' hlast => ?_ }
      have heq : snap = snap' := by simpa [Sys.chan, Sys.received] using hlast
      exact heq ▸ at_taken app hpc snap hold
    · cases h
  | serReleased =>
    simp only [sysStep] at h
    split at h
    · rename_i snap hpc
      obtain rfl := Option.some.inj h
      exact hI.move app (by rw [hpc]; rfl) fun _ => at_serReleased app
    · cases h
  | midiReleased =>
    simp only [sysStep] at h
    split at h
    · rename_i snap hpc
      obtain rfl := Option.some.inj h
      exact hI.move app (by rw [hpc]; rfl) (at_midiReleased app hpc)
    · cases h
  | serDone =>
    simp only [sysStep] at h
    split at h
    · rename_i snap midi hpc
      obtain rfl := Option.some.inj h
      exact hI.move app (by rw [hpc]; rfl) (at_serDone app hpc)
    · cases h
  | midiDone =>
    simp only [sysStep] at h
    split at h
    · rename_i snap ser hpc
      obtain rfl := Option.some.inj h
      exact hI.move app (by rw [hpc]; rfl) (at_midiDone app hpc)
    · cases h

/-- Boot: the keyer before its first iteration, the emit task in its wait, and
hosts that show anything. -/
def boot (c₀ : KeyerConfig) (bz : Buzzer) (hostSer hostMidi : Bits) : Sys ε :=
  ⟨Loop.boot E c₀ bz, ⟨.wait, .start, hostSer, hostMidi⟩⟩

theorem inv_boot (c₀ : KeyerConfig) (bz : Buzzer) (hostSer hostMidi : Bits) :
    Inv app (boot E c₀ bz hostSer hostMidi) where
  chan := LatestWins.Chan.ok_empty
  last := rfl
  first _ := ⟨rfl, rfl⟩
  cur _ h := by cases h

/-- **No final state is lost.** In every reachable state the snapshots taken
are a subsequence of those posted; after every signalling step the last
snapshot is the current one; and when the slot is empty and the emit task
waits, both hosts are at the target of the last snapshot. -/
theorem no_final_state_lost (c₀ : KeyerConfig) (bz : Buzzer) (hostSer hostMidi : Bits) (ls : List Label)
    (s : Sys ε) (h : StepRun.run (sysStep E app) (boot E c₀ bz hostSer hostMidi) ls = some s) :
    s.chan.taken.Sublist s.chan.posted ∧
    (∀ a b s', sysStep E app s (.keyer (.poll a b)) = some s' →
      s'.keyer.k.lastSignaled = some (s.keyer.k.snapshot a b)) ∧
    (s.chan.slot = none → s.emit.pc = .wait → s.chan.posted ≠ [] →
      ∃ snap, s.keyer.k.lastSignaled = some snap ∧
        (∀ iface, app.serial = .present iface → s.emit.hostSer = target snap) ∧
        (app.midi = .present () → s.emit.hostMidi = target snap)) := by
  have hI : Inv app s := StepRun.run_inv (sysStep E app) (fun _ _ _ hI hs => inv_step E app hI hs)
    (inv_boot E app c₀ bz hostSer hostMidi) h
  refine ⟨hI.chan.taken_sublist, fun a b s' hs => ?_, fun hslot hpc hposted => ?_⟩
  · obtain ⟨k, hk, rfl⟩ := Option.map_eq_some_iff.mp hs
    obtain ⟨-, rfl⟩ := Loop.loopStep_cases E hk
    exact (poll_signal E s.keyer.k s.keyer.st a b).1
  · have hsame := hI.chan.last_taken hslot
    rcases hl : s.chan.posted.getLast? with _ | snap
    · exact absurd (List.getLast?_eq_none_iff.mp hl) hposted
    · have hat := hI.cur snap (hsame.trans hl)
      refine ⟨snap, hI.last.trans hl, fun iface happ => ?_, fun happ => ?_⟩
      · have hs := hat.ser iface happ
        rw [hpc] at hs
        exact hs.2
      · have hs := hat.midi happ
        rw [hpc] at hs
        exact hs.2

/-- A straight key with the dit paddle pressed from its second iteration on.
The debounced press is posted while the release of the first style switch is
under way, and unread when the snapshot with the key down overwrites it. -/
theorem no_final_state_lost_pressed :
    let app : App := ⟨.present 0, .present ()⟩
    let bz := Buzzer.new StraightKey.pwm StraightKey.pwm.config StraightKey.clkSysFreq
    let iteration (dit : Bool) (n : ℕ) : List Label := [.keyer (.poll dit false), .keyer .count, .keyer (.tick n)]
    let ls : List Label := [.keyer (.poll false false), .take, .keyer .count, .keyer (.tick 0)] ++
      ((List.range 10).flatMap fun i => iteration true (250 * (i + 1))) ++
      [.keyer (.poll true false), .serReleased, .keyer .count, .midiReleased, .midiDone, .serDone, .take,
        .serDone, .keyer (.tick 2750), .midiDone]
    let rest : UsbSnapshot := ⟨false, false, false, .paddle⟩
    let pressed : UsbSnapshot := ⟨true, false, false, .paddle⟩
    let keyed : UsbSnapshot := ⟨true, false, true, .paddle⟩
    ∃ s, StepRun.run (sysStep StraightKey.engine app)
        (boot StraightKey.engine StraightKey.config bz ⟨true, true⟩ ⟨true, true⟩) ls = some s ∧
      s.chan.posted = [rest, pressed, keyed] ∧ s.chan.taken = [rest, keyed] ∧
      s.chan.taken.Sublist s.chan.posted ∧ s.keyer.k.lastSignaled = some keyed ∧
      s.emit.hostSer = ⟨true, false⟩ ∧ s.emit.hostMidi = ⟨true, false⟩ := by
  intro app bz iteration ls rest pressed keyed
  let start := boot StraightKey.engine StraightKey.config bz ⟨true, true⟩ ⟨true, true⟩
  have hseen : (StepRun.run (sysStep StraightKey.engine app) start ls).map
      (fun s => (s.keyer.k.lastSignaled, s.chan.slot, s.emit.pc, s.chan.posted, s.chan.taken)) =
      some (some keyed, none, .wait, [rest, pressed, keyed], [rest, keyed]) := by
    decide +kernel
  obtain ⟨s, hs, hs'⟩ := Option.map_eq_some_iff.mp hseen
  simp only [Prod.mk.injEq] at hs'
  obtain ⟨hlast, hslot, hpc, hposted, htaken⟩ := hs'
  obtain ⟨hsub, -, hidle⟩ := no_final_state_lost StraightKey.engine app StraightKey.config bz ⟨true, true⟩
    ⟨true, true⟩ ls s hs
  obtain ⟨snap, hsnap, hser, hmidi⟩ := hidle hslot hpc (by simp [hposted])
  obtain rfl : keyed = snap := Option.some.inj (hlast.symm.trans hsnap)
  exact ⟨s, hs, hposted, htaken, hsub, hlast, hser 0 rfl, hmidi rfl⟩

end UsbChannel
end RpKeyer
