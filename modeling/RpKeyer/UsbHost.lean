/-
# What the USB host sees

The host keeps two bits for each transport: DCD and DSR, or MIDI notes 60 and
62. It decodes the packets delivered to it (`serReceive`, `midiReceive`); what
it should show for a snapshot is `target`.

`Wire` is what the emit task needs of a transport: its release clears both
bits, and an edge packet written from caches that agree with the host brings
the host to the target. Both transports are wires (`cdc`, `midiWire`), so both
keep the same invariant (`Agrees`) over any run whose releases are delivered,
whatever becomes of the other writes (`host_agrees`): the caches are what the
host shows, a snapshot none of whose writes failed leaves the host at its
target, and between two style switches the events on a MIDI note alternate.
-/
import RpKeyer.Lib.Levels
import RpKeyer.UsbEmit

namespace RpKeyer
namespace UsbHost

open UsbEmit Levels

/-! ### The host -/

/-- A transport's two bits at the host: `first` is DCD or note 60, `second`
is DSR or note 62. -/
structure Bits where
  first : Bool
  second : Bool
  deriving DecidableEq, Repr

/-- What a snapshot asks the host to show. -/
def target (snap : UsbSnapshot) : Bits :=
  match snap.emitStyle with
  | .paddle => ⟨snap.ditPressed, snap.dahPressed⟩
  | .keyed => ⟨snap.liveKey, false⟩

/-- A SERIAL_STATE packet sets both bits; anything else is ignored. -/
def serReceive (h : Bits) (packet : List UInt8) : Bits :=
  match packet with
  | [0xA1, 0x20, _, _, _, _, _, _, state, _] => ⟨state &&& 1 != 0, state &&& 2 != 0⟩
  | _ => h

/-- The note events in a MIDI packet: the note and whether it goes on. A note
on with velocity 0 is a note off. -/
def midiEvents : List UInt8 → List (UInt8 × Bool)
  | cin :: status :: note :: vel :: rest =>
    (if cin == 0x09 && status == 0x90 then [(note, vel != 0)]
      else if cin == 0x08 && status == 0x80 then [(note, false)] else []) ++ midiEvents rest
  | _ => []

/-- One event sets or clears its note. -/
def midiApply (h : Bits) (ev : UInt8 × Bool) : Bits :=
  if ev.1 = 60 then { h with first := ev.2 } else if ev.1 = 62 then { h with second := ev.2 } else h

def midiReceive (h : Bits) (packet : List UInt8) : Bits := (midiEvents packet).foldl midiApply h

/-- The host after the writes that were delivered. -/
def receiveAll (receive : Bits → List UInt8 → Bits) (h : Bits) (ws : List Write) : Bits :=
  ws.foldl (fun h w => if w.ok then receive h w.data else h) h

/-! ### Wires -/

/-- Has the snapshot an edge against the caches, in its own style? -/
def edge (p : Prev) (snap : UsbSnapshot) : Bool :=
  match snap.emitStyle with
  | .paddle => snap.ditPressed != p.dit || snap.dahPressed != p.dah
  | .keyed => snap.liveKey != p.key

/-- The caches after a delivered edge write. -/
def Prev.caught (p : Prev) (snap : UsbSnapshot) : Prev :=
  match snap.emitStyle with
  | .paddle => { p with dit := snap.ditPressed, dah := snap.dahPressed }
  | .keyed => { p with key := snap.liveKey }

/-- The caches of the current style are what the host shows. -/
def Agrees (style : UsbEmitStyle) (p : Prev) (h : Bits) : Prop :=
  match style with
  | .paddle => h = ⟨p.dit, p.dah⟩
  | .keyed => h = ⟨p.key, false⟩

/-- A transport: its release packet, its edge packets, how the host reads
them, and that they do what the emit task relies on. -/
structure Wire where
  release : List UInt8
  packet : Prev → UsbSnapshot → List UInt8
  receive : Bits → List UInt8 → Bits
  receive_release : ∀ h, receive h release = ⟨false, false⟩
  receive_packet : ∀ h p snap, Agrees snap.emitStyle p h → receive h (packet p snap) = target snap

/-- The edge write on a wire, if there is an edge. -/
def Wire.fut (W : Wire) (p : Prev) (snap : UsbSnapshot) (ok : Bool) : Prev × List Write :=
  if edge p snap then (if ok then Prev.caught p snap else p, [⟨W.packet p snap, false, ok⟩]) else (p, [])

/-- The caches and the writes after a style switch's release, if it is one. -/
def Wire.switched (W : Wire) (switch : Bool) (p : Prev) (ok : Bool) : Prev × List Write :=
  if switch then (.off, [⟨W.release, true, ok⟩]) else (p, [])

/-- One iteration on a wire: the release on a style switch, then the edge. -/
def Wire.step (W : Wire) (switch : Bool) (p : Prev) (snap : UsbSnapshot) (okRelease okWrite : Bool) :
    Prev × List Write :=
  let r := W.switched switch p okRelease
  let w := W.fut r.1 snap okWrite
  (w.1, r.2 ++ w.2)

/-! ### The two transports are wires -/

/-- The CDC packet of an edge. -/
def serPacket (iface : UInt8) (_ : Prev) (snap : UsbSnapshot) : List UInt8 :=
  serialStatePacket iface (target snap).first (target snap).second

/-- The MIDI packet of an edge: an event per changed note. -/
def midiPacket (p : Prev) (snap : UsbSnapshot) : List UInt8 :=
  match snap.emitStyle with
  | .paddle =>
    (if snap.ditPressed ≠ p.dit then noteEvent midiNoteDit snap.ditPressed else []) ++
      (if snap.dahPressed ≠ p.dah then noteEvent midiNoteDah snap.dahPressed else [])
  | .keyed => noteEvent midiNoteDit snap.liveKey

theorem serReceive_packet (h : Bits) (iface : UInt8) (dcd dsr : Bool) :
    serReceive h (serialStatePacket iface dcd dsr) = ⟨dcd, dsr⟩ := by
  cases dcd <;> cases dsr <;> rfl

theorem midiEvents_noteEvent (note : UInt8) (on : Bool) (rest : List UInt8) :
    midiEvents (noteEvent note on ++ rest) = (note, on) :: midiEvents rest := by
  cases on <;> rfl

/-- The CDC transport as a wire. -/
def cdc (iface : UInt8) : Wire where
  release := serialStatePacket iface false false
  packet := serPacket iface
  receive := serReceive
  receive_release h := serReceive_packet h iface false false
  receive_packet h _ _ _ := serReceive_packet h iface _ _

/-- The events of a MIDI edge packet. -/
theorem midiEvents_packet (p : Prev) (snap : UsbSnapshot) : midiEvents (midiPacket p snap) =
    match snap.emitStyle with
    | .paddle => (if snap.ditPressed ≠ p.dit then [(midiNoteDit, snap.ditPressed)] else []) ++
        (if snap.dahPressed ≠ p.dah then [(midiNoteDah, snap.dahPressed)] else [])
    | .keyed => [(midiNoteDit, snap.liveKey)] := by
  have hlast := fun note on => midiEvents_noteEvent note on []
  simp only [List.append_nil, midiEvents] at hlast
  unfold midiPacket
  cases snap.emitStyle with
  | paddle =>
    simp only
    split_ifs <;> simp [midiEvents_noteEvent, hlast, midiEvents]
  | keyed => exact hlast _ _

theorem midiApply_dit (h : Bits) (on : Bool) : midiApply h (midiNoteDit, on) = { h with first := on } := rfl

theorem midiApply_dah (h : Bits) (on : Bool) : midiApply h (midiNoteDah, on) = { h with second := on } := rfl

/-- The host after a MIDI edge packet: the changed notes are set. -/
theorem midiReceive_packet (h : Bits) (p : Prev) (snap : UsbSnapshot) :
    midiReceive h (midiPacket p snap) =
      match snap.emitStyle with
      | .paddle => ⟨if snap.ditPressed ≠ p.dit then snap.ditPressed else h.first,
          if snap.dahPressed ≠ p.dah then snap.dahPressed else h.second⟩
      | .keyed => ⟨snap.liveKey, h.second⟩ := by
  unfold midiReceive
  rw [midiEvents_packet]
  cases snap.emitStyle with
  | paddle =>
    simp only
    split_ifs <;> simp [midiApply_dit, midiApply_dah]
  | keyed => rfl

/-- The MIDI transport as a wire. -/
def midiWire : Wire where
  release := noteEvent midiNoteDit false ++ noteEvent midiNoteDah false
  packet := midiPacket
  receive := midiReceive
  receive_release _ := rfl
  receive_packet h p snap hA := by
    rw [midiReceive_packet]
    unfold Agrees at hA
    unfold target
    cases hs : snap.emitStyle with
    | paddle =>
      rw [hs] at hA
      simp only at hA ⊢
      subst hA
      split_ifs <;> simp_all
    | keyed =>
      rw [hs] at hA
      simp only at hA ⊢
      rw [hA]

theorem serFut_eq (iface : UInt8) (snap : UsbSnapshot) (p : Prev) (ok : Bool) :
    serFut iface snap p ok = (cdc iface).fut p snap ok := by
  obtain ⟨dit, dah, live, style⟩ := snap
  cases style with
  | paddle => by_cases hd : dit = p.dit <;> by_cases ha : dah = p.dah <;>
      simp [serFut, Wire.fut, edge, Prev.caught, cdc, serPacket, target, hd, ha]
  | keyed => by_cases hk : live = p.key <;>
      simp [serFut, Wire.fut, edge, Prev.caught, cdc, serPacket, target, hk]

theorem midiFut_eq (snap : UsbSnapshot) (p : Prev) (ok : Bool) :
    midiFut snap p ok = midiWire.fut p snap ok := by
  obtain ⟨dit, dah, live, style⟩ := snap
  cases style with
  | paddle => by_cases hd : dit = p.dit <;> by_cases ha : dah = p.dah <;>
      simp [midiFut, Wire.fut, edge, Prev.caught, midiWire, midiPacket, hd, ha]
  | keyed => by_cases hk : live = p.key <;>
      simp [midiFut, Wire.fut, edge, Prev.caught, midiWire, midiPacket, hk]

/-- The CDC part of an iteration is the wire's. -/
theorem serStep_eq {app : App} {iface : UInt8} (h : app.serial = .present iface) (l : Locals)
    (snap : UsbSnapshot) (o : Outcomes) :
    serStep app l snap o = (cdc iface).step (l.switches snap) l.ser snap o.serRelease o.serWrite := by
  unfold serStep Wire.step
  rw [h]
  simp only [serFut_eq]
  rfl

/-- The MIDI part of an iteration is the wire's. -/
theorem midiStep_eq {app : App} (h : app.midi = .present ()) (l : Locals) (snap : UsbSnapshot)
    (o : Outcomes) :
    midiStep app l snap o = midiWire.step (l.switches snap) l.midi snap o.midiRelease o.midiWrite := by
  unfold midiStep Wire.step
  rw [h]
  simp only [midiFut_eq]
  rfl

/-! ### Runs on a wire -/

/-- What one iteration takes: a snapshot, and the results of its release and
of its edge write. -/
structure Input where
  snap : UsbSnapshot
  okRelease : Bool
  okWrite : Bool

/-- A transport's caches with the last style. -/
structure Caches where
  prev : Prev
  style : Option UsbEmitStyle

def Caches.start : Caches := ⟨.off, none⟩

def Wire.next (W : Wire) (c : Caches) (x : Input) : Caches × List Write :=
  let s := W.step (c.style != some x.snap.emitStyle) c.prev x.snap x.okRelease x.okWrite
  (⟨s.1, some x.snap.emitStyle⟩, s.2)

def Wire.run (W : Wire) : Caches → List Input → Caches × List Write
  | c, [] => (c, [])
  | c, x :: xs =>
    let s := W.next c x
    let r := W.run s.1 xs
    (r.1, s.2 ++ r.2)

def serInput (x : UsbSnapshot × Outcomes) : Input := ⟨x.1, x.2.serRelease, x.2.serWrite⟩

def midiInput (x : UsbSnapshot × Outcomes) : Input := ⟨x.1, x.2.midiRelease, x.2.midiWrite⟩

theorem next_ser {app : App} {iface : UInt8} (h : app.serial = .present iface) (l : Locals)
    (x : UsbSnapshot × Outcomes) :
    (cdc iface).next ⟨l.ser, l.prevStyle⟩ (serInput x) =
      (⟨(step app l x.1 x.2).1.ser, some x.1.emitStyle⟩, (step app l x.1 x.2).2.ser) := by
  unfold step Wire.next
  rw [serStep_eq h]
  rfl

theorem next_midi {app : App} (h : app.midi = .present ()) (l : Locals) (x : UsbSnapshot × Outcomes) :
    midiWire.next ⟨l.midi, l.prevStyle⟩ (midiInput x) =
      (⟨(step app l x.1 x.2).1.midi, some x.1.emitStyle⟩, (step app l x.1 x.2).2.midi) := by
  unfold step Wire.next
  rw [midiStep_eq h]
  rfl

/-- The CDC part of a run is the wire's. -/
theorem run_ser {app : App} {iface : UInt8} (h : app.serial = .present iface) :
    ∀ (xs : List (UsbSnapshot × Outcomes)) (l : Locals),
      (cdc iface).run ⟨l.ser, l.prevStyle⟩ (xs.map serInput) =
        (⟨(run app l xs).1.ser, (run app l xs).1.prevStyle⟩, (run app l xs).2.ser)
  | [], _ => rfl
  | x :: xs, l => by
    have ih := run_ser h xs (step app l x.1 x.2).1
    simp only [List.map_cons, Wire.run, next_ser h, run]
    simp only [step] at ih ⊢
    rw [ih]

/-- The MIDI part of a run is the wire's. -/
theorem run_midi {app : App} (h : app.midi = .present ()) :
    ∀ (xs : List (UsbSnapshot × Outcomes)) (l : Locals),
      midiWire.run ⟨l.midi, l.prevStyle⟩ (xs.map midiInput) =
        (⟨(run app l xs).1.midi, (run app l xs).1.prevStyle⟩, (run app l xs).2.midi)
  | [], _ => rfl
  | x :: xs, l => by
    have ih := run_midi h xs (step app l x.1 x.2).1
    simp only [List.map_cons, Wire.run, next_midi h, run]
    simp only [step] at ih ⊢
    rw [ih]

theorem run_ser_start {app : App} {iface : UInt8} (h : app.serial = .present iface)
    (xs : List (UsbSnapshot × Outcomes)) : (cdc iface).run .start (xs.map serInput) =
      (⟨(run app .start xs).1.ser, (run app .start xs).1.prevStyle⟩, (run app .start xs).2.ser) :=
  run_ser h xs .start

theorem run_midi_start {app : App} (h : app.midi = .present ()) (xs : List (UsbSnapshot × Outcomes)) :
    midiWire.run .start (xs.map midiInput) =
      (⟨(run app .start xs).1.midi, (run app .start xs).1.prevStyle⟩, (run app .start xs).2.midi) :=
  run_midi h xs .start

theorem Wire.run_append (W : Wire) : ∀ (xs ys : List Input) (c : Caches),
    W.run c (xs ++ ys) =
      ((W.run (W.run c xs).1 ys).1, (W.run c xs).2 ++ (W.run (W.run c xs).1 ys).2)
  | [], _, _ => rfl
  | x :: xs, ys, c => by
    simp only [List.cons_append, Wire.run, W.run_append xs ys, List.append_assoc]

theorem Wire.run_singleton (W : Wire) (c : Caches) (x : Input) : W.run c [x] = W.next c x := by
  simp only [Wire.run, List.append_nil]

theorem receiveAll_append (receive : Bits → List UInt8 → Bits) (h : Bits) (ws ws' : List Write) :
    receiveAll receive h (ws ++ ws') = receiveAll receive (receiveAll receive h ws) ws' :=
  List.foldl_append

/-! ### One iteration -/

/-- No ordinary write of these failed. -/
def Unfailed (ws : List Write) : Prop := ∀ w ∈ ws, w.release = false → w.ok = true

instance (ws : List Write) : Decidable (Unfailed ws) :=
  inferInstanceAs (Decidable (∀ w ∈ ws, w.release = false → w.ok = true))

/-- Caches that agree and have no edge: the host is at the target already. -/
theorem agrees_target {p : Prev} {h : Bits} {snap : UsbSnapshot} (hA : Agrees snap.emitStyle p h)
    (he : edge p snap = false) : h = target snap := by
  unfold Agrees at hA
  unfold edge at he
  unfold target
  cases hs : snap.emitStyle with
  | paddle => simp_all
  | keyed => simp_all

theorem agrees_caught (p : Prev) (snap : UsbSnapshot) :
    Agrees snap.emitStyle (Prev.caught p snap) (target snap) := by
  unfold Agrees Prev.caught target
  cases snap.emitStyle <;> rfl

theorem agrees_off (style : UsbEmitStyle) : Agrees style .off ⟨false, false⟩ := by
  cases style <;> rfl

/-- The edge write keeps caches and host together, delivered or not. -/
theorem Wire.fut_agrees (W : Wire) {p : Prev} {h : Bits} {snap : UsbSnapshot}
    (hA : Agrees snap.emitStyle p h) (ok : Bool) :
    Agrees snap.emitStyle (W.fut p snap ok).1 (receiveAll W.receive h (W.fut p snap ok).2) ∧
    (Unfailed (W.fut p snap ok).2 → receiveAll W.receive h (W.fut p snap ok).2 = target snap) := by
  unfold Wire.fut
  cases he : edge p snap with
  | false => exact ⟨hA, fun _ => agrees_target hA he⟩
  | true =>
    cases ok with
    | false => exact ⟨hA, fun hu => (Bool.false_ne_true (hu _ List.mem_cons_self rfl)).elim⟩
    | true =>
      have hr : receiveAll W.receive h [⟨W.packet p snap, false, true⟩] = target snap :=
        W.receive_packet h p snap hA
      refine ⟨?_, fun _ => hr⟩
      simp only [↓reduceIte, hr]
      exact agrees_caught p snap

/-- A delivered release brings caches and host together. -/
theorem Wire.switched_agrees (W : Wire) {switch : Bool} {p : Prev} {h : Bits} {style : UsbEmitStyle}
    (hA : switch = false → Agrees style p h) :
    Agrees style (W.switched switch p true).1 (receiveAll W.receive h (W.switched switch p true).2) := by
  unfold Wire.switched
  cases switch with
  | false => exact hA rfl
  | true =>
    have hr : receiveAll W.receive h [⟨W.release, true, true⟩] = ⟨false, false⟩ := W.receive_release h
    simp only [↓reduceIte, hr]
    exact agrees_off style

/-- The caches are what the host shows. -/
def Caches.Agree (c : Caches) (h : Bits) : Prop := ∀ style, c.style = some style → Agrees style c.prev h

/-- One iteration whose release is delivered. -/
theorem Wire.next_agree (W : Wire) {c : Caches} {h : Bits} (hA : c.Agree h) {x : Input}
    (hrel : x.okRelease = true) :
    (W.next c x).1.Agree (receiveAll W.receive h (W.next c x).2) ∧
    (Unfailed (W.next c x).2 → receiveAll W.receive h (W.next c x).2 = target x.snap) := by
  have hsw : (c.style != some x.snap.emitStyle) = false → Agrees x.snap.emitStyle c.prev h :=
    fun hs => hA _ (by simpa using hs)
  have h1 := W.switched_agrees hsw
  have h2 := W.fut_agrees h1 x.okWrite
  unfold Wire.next Wire.step
  simp only [hrel, receiveAll_append]
  refine ⟨fun style hs => Option.some.inj hs ▸ h2.1, fun hu => h2.2 fun w hw => hu w ?_⟩
  exact List.mem_append_right _ hw

/-! ### A run -/

theorem Wire.run_agree (W : Wire) : ∀ (xs : List Input) {c : Caches} {h : Bits}, c.Agree h →
    (∀ x ∈ xs, x.okRelease = true) → (W.run c xs).1.Agree (receiveAll W.receive h (W.run c xs).2)
  | [], _, _, hA, _ => hA
  | x :: xs, c, h, hA, hrel => by
    simp only [Wire.run, receiveAll_append]
    exact W.run_agree xs (W.next_agree hA (hrel x List.mem_cons_self)).1
      fun y hy => hrel y (List.mem_cons_of_mem x hy)

theorem agree_start (h : Bits) : Caches.start.Agree h := fun _ hs => by cases hs

/-- A run from the start, and the iteration after it. -/
theorem Wire.run_last (W : Wire) (h : Bits) (xs : List Input) (x : Input)
    (hxs : ∀ y ∈ xs, y.okRelease = true) (hx : x.okRelease = true) :
    let r := W.run .start (xs ++ [x])
    Agrees x.snap.emitStyle r.1.prev (receiveAll W.receive h r.2) ∧
    (Unfailed (W.next (W.run .start xs).1 x).2 → receiveAll W.receive h r.2 = target x.snap) := by
  intro r
  have hn := W.next_agree (W.run_agree xs (agree_start h) hxs) hx
  have hr : r = ((W.next (W.run .start xs).1 x).1,
      (W.run .start xs).2 ++ (W.next (W.run .start xs).1 x).2) := by
    rw [← W.run_singleton, ← W.run_append]
  rw [hr, receiveAll_append]
  exact ⟨hn.1 _ rfl, hn.2⟩

/-! ### Alternation on a MIDI note -/

/-- The levels a write sets on a note, if it was delivered. -/
def flags (note : UInt8) (w : Write) : List Bool :=
  if w.ok then (midiEvents w.data).filterMap fun ev => if ev.1 = note then some ev.2 else none
  else []

/-- From level `b` of the note, each delivered ordinary event is a change:
on and off alternate, from off after a release. -/
def Alternates (note : UInt8) : Bool → List Write → Prop
  | _, [] => True
  | b, w :: ws =>
    (w.release = false → Toggles b (flags note w)) ∧
      Alternates note (if w.release then false else level b (flags note w)) ws

/-- The host's bit of a note. -/
def Bits.note (h : Bits) (note : UInt8) : Bool := if note = midiNoteDit then h.first else h.second

theorem note_midiApply (h : Bits) (ev : UInt8 × Bool) {note : UInt8}
    (hn : note = midiNoteDit ∨ note = midiNoteDah) :
    (midiApply h ev).note note = if ev.1 = note then ev.2 else h.note note := by
  obtain ⟨n, on⟩ := ev
  unfold midiApply Bits.note
  rcases hn with rfl | rfl
  · by_cases h0 : n = 60
    · simp [h0, midiNoteDit]
    · by_cases h2 : n = 62 <;> simp [h0, h2, midiNoteDit]
  · by_cases h0 : n = 60
    · simp [h0, midiNoteDit, midiNoteDah]
    · by_cases h2 : n = 62 <;> simp [h0, h2, midiNoteDit, midiNoteDah]

/-- The host's bit of a note follows the events on it. -/
theorem note_midiReceive {note : UInt8} (hn : note = midiNoteDit ∨ note = midiNoteDah) :
    ∀ (evs : List (UInt8 × Bool)) (h : Bits), (evs.foldl midiApply h).note note =
      level (h.note note) (evs.filterMap fun ev => if ev.1 = note then some ev.2 else none)
  | [], _ => rfl
  | ev :: evs, h => by
    rw [List.foldl_cons, note_midiReceive hn evs, note_midiApply h ev hn, List.filterMap_cons]
    by_cases he : ev.1 = note
    · simp only [he, ↓reduceIte, level_cons]
    · simp only [he, ↓reduceIte]

/-- An edge packet's events on a note are a change of what the host shows. -/
theorem toggles_edge {p : Prev} {h : Bits} {snap : UsbSnapshot} (hA : Agrees snap.emitStyle p h)
    (he : edge p snap = true) {note : UInt8} (hn : note = midiNoteDit ∨ note = midiNoteDah) :
    Toggles (h.note note) (flags note ⟨midiPacket p snap, false, true⟩) := by
  have hdah : midiNoteDit ≠ midiNoteDah := by decide
  unfold flags
  simp only [↓reduceIte, midiEvents_packet]
  unfold Agrees at hA
  unfold edge at he
  cases hs : snap.emitStyle with
  | paddle =>
    rw [hs] at hA
    simp only at hA ⊢
    subst hA
    rcases hn with rfl | rfl
    · by_cases hd : snap.ditPressed = p.dit <;> by_cases ha : snap.dahPressed = p.dah <;>
        simp [hd, ha, toggles_nil, toggles_cons, Bits.note, hdah.symm, eq_comm (a := p.dit)]
    · by_cases hd : snap.ditPressed = p.dit <;> by_cases ha : snap.dahPressed = p.dah <;>
        simp [hd, ha, toggles_nil, toggles_cons, Bits.note, hdah, hdah.symm, eq_comm (a := p.dah)]
  | keyed =>
    rw [hs] at hA he
    simp only at hA he ⊢
    subst hA
    rcases hn with rfl | rfl
    · simpa [toggles_nil, toggles_cons, Bits.note, eq_comm (a := p.key)] using he
    · simp [toggles_nil, Bits.note, hdah]

/-- An ordinary write before `ws`. -/
theorem alternates_cons {note : UInt8} (hn : note = midiNoteDit ∨ note = midiNoteDah) {h : Bits}
    {data : List UInt8} {ok : Bool} {ws : List Write}
    (ht : Toggles (h.note note) (flags note ⟨data, false, ok⟩))
    (hws : Alternates note ((receiveAll midiReceive h [⟨data, false, ok⟩]).note note) ws) :
    Alternates note (h.note note) (⟨data, false, ok⟩ :: ws) := by
  refine ⟨fun _ => ht, ?_⟩
  cases ok with
  | false => exact hws
  | true =>
    have e := note_midiReceive hn (midiEvents data) h
    simp only [flags, ↓reduceIte, Bool.false_eq_true, ← e]
    exact hws

theorem alternates_fut {note : UInt8} (hn : note = midiNoteDit ∨ note = midiNoteDah) {p : Prev}
    {h : Bits} {snap : UsbSnapshot} (hA : Agrees snap.emitStyle p h) (ok : Bool) {ws : List Write}
    (hws : Alternates note ((receiveAll midiReceive h (midiWire.fut p snap ok).2).note note) ws) :
    Alternates note (h.note note) ((midiWire.fut p snap ok).2 ++ ws) := by
  unfold Wire.fut at hws ⊢
  cases he : edge p snap with
  | false =>
    rw [he] at hws
    exact hws
  | true =>
    rw [he] at hws
    refine alternates_cons hn ?_ hws
    cases ok with
    | false => exact toggles_nil _
    | true => exact toggles_edge hA he hn

theorem alternates_switched {note : UInt8} (switch : Bool) (p : Prev) {h : Bits} {ws : List Write}
    (hws : Alternates note ((receiveAll midiReceive h (midiWire.switched switch p true).2).note note) ws) :
    Alternates note (h.note note) ((midiWire.switched switch p true).2 ++ ws) := by
  unfold Wire.switched at hws ⊢
  cases switch with
  | false => exact hws
  | true =>
    refine ⟨fun hf => (Bool.false_ne_true hf.symm).elim, ?_⟩
    have hr : receiveAll midiReceive h [⟨midiWire.release, true, true⟩] = ⟨false, false⟩ := rfl
    simp only [↓reduceIte, hr] at hws
    simpa [Bits.note] using hws

/-- A run whose releases are delivered alternates on both notes. -/
theorem alternates_run {note : UInt8} (hn : note = midiNoteDit ∨ note = midiNoteDah) :
    ∀ (xs : List Input) {c : Caches} {h : Bits}, c.Agree h → (∀ x ∈ xs, x.okRelease = true) →
      Alternates note (h.note note) (midiWire.run c xs).2
  | [], _, _, _, _ => trivial
  | x :: xs, c, h, hA, hrel => by
    have hx := hrel x List.mem_cons_self
    have hnext := (midiWire.next_agree hA hx).1
    have hsw : (c.style != some x.snap.emitStyle) = false → Agrees x.snap.emitStyle c.prev h :=
      fun hs => hA _ (by simpa using hs)
    have ih := alternates_run hn xs hnext fun y hy => hrel y (List.mem_cons_of_mem x hy)
    simp only [Wire.run, Wire.next, Wire.step, hx, List.append_assoc] at ih hnext ⊢
    rw [receiveAll_append] at ih
    exact alternates_switched _ _ (alternates_fut hn (midiWire.switched_agrees hsw) _ ih)

/-! ### The theorem -/

/-- **The host agrees.** In every run whose releases are delivered, whatever
the other writes do and whatever the host showed before: after each snapshot
the current caches are what the host shows, a snapshot with no failed write
leaves the host at its target, and the delivered MIDI events alternate. -/
theorem host_agrees (app : App) (hostSer hostMidi : Bits) (xs : List (UsbSnapshot × Outcomes))
    (x : UsbSnapshot × Outcomes)
    (hrel : ∀ y ∈ xs ++ [x], y.2.serRelease = true ∧ y.2.midiRelease = true) :
    let r := run app .start (xs ++ [x])
    let last := (step app (run app .start xs).1 x.1 x.2).2
    (∀ iface, app.serial = .present iface →
      Agrees x.1.emitStyle r.1.ser (receiveAll serReceive hostSer r.2.ser) ∧
      (Unfailed last.ser → receiveAll serReceive hostSer r.2.ser = target x.1)) ∧
    (app.midi = .present () →
      Agrees x.1.emitStyle r.1.midi (receiveAll midiReceive hostMidi r.2.midi) ∧
      (Unfailed last.midi → receiveAll midiReceive hostMidi r.2.midi = target x.1) ∧
      Alternates midiNoteDit hostMidi.first r.2.midi ∧
      Alternates midiNoteDah hostMidi.second r.2.midi) := by
  intro r last
  refine ⟨fun iface h => ?_, fun h => ?_⟩
  · have hin : ∀ z ∈ xs.map serInput, z.okRelease = true := by
      intro z hz
      obtain ⟨w, hw, rfl⟩ := List.mem_map.mp hz
      exact (hrel w (List.mem_append_left _ hw)).1
    have hlast := (cdc iface).run_last hostSer _ (serInput x) hin (hrel x (by simp)).1
    rwa [← List.map_singleton, ← List.map_append, run_ser_start h, run_ser_start h, next_ser h] at hlast
  · have hin : ∀ z ∈ (xs ++ [x]).map midiInput, z.okRelease = true := by
      intro z hz
      obtain ⟨w, hw, rfl⟩ := List.mem_map.mp hz
      exact (hrel w hw).2
    have hlast := midiWire.run_last hostMidi (xs.map midiInput) (midiInput x)
      (fun z hz => hin z (by rw [List.map_append]; exact List.mem_append_left _ hz)) (hrel x (by simp)).2
    rw [← List.map_singleton, ← List.map_append, run_midi_start h, run_midi_start h, next_midi h] at hlast
    have halt : ∀ note, note = midiNoteDit ∨ note = midiNoteDah → Alternates note (hostMidi.note note)
        (midiWire.run .start ((xs ++ [x]).map midiInput)).2 :=
      fun note hn => alternates_run hn _ (agree_start hostMidi) hin
    rw [run_midi_start h] at halt
    exact ⟨hlast.1, hlast.2, halt midiNoteDit (.inl rfl), halt midiNoteDah (.inr rfl)⟩

/-- A press whose CDC write fails is written again with the next snapshot. -/
theorem host_agrees_after_failure :
    let app : App := ⟨.present 0, .present ()⟩
    let xs := [(⟨true, false, false, .paddle⟩, ⟨true, true, false, true⟩),
      (⟨true, false, true, .paddle⟩, ⟨true, true, true, true⟩)]
    receiveAll serReceive ⟨true, true⟩ (run app .start xs).2.ser = ⟨true, false⟩ ∧
    receiveAll midiReceive ⟨true, true⟩ (run app .start xs).2.midi = ⟨true, false⟩ := by
  intro app xs
  have h := host_agrees app ⟨true, true⟩ ⟨true, true⟩
    [(⟨true, false, false, .paddle⟩, ⟨true, true, false, true⟩)]
    (⟨true, false, true, .paddle⟩, ⟨true, true, true, true⟩) (by decide)
  exact ⟨(h.1 0 rfl).2 (by decide), (h.2 rfl).2.1 (by decide)⟩

end UsbHost
end RpKeyer
