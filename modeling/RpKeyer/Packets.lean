/-
# What goes over the wire

The wire contract at the head of `usb_emit_task.rs`, read off the writes
themselves, whatever becomes of them. A packet is read strictly, every byte
checked: `parseSerialState` and `parseEvents` accept exactly what their
encoders write (`parseSerialState_iff`, `parseEvents_iff`), and the events they
read are those the host of `UsbHost` acts on (`midiEvents_of_parse`).

`Turns` is the grammar of one transport's log: turn by turn, a release exactly
when the style is new, then at most one packet, and it says what the snapshot
of that turn is. Both transports speak it in every run (`wire_contract`): two
notes and two bits in Paddle style, note 60 and DCD alone in Keyed style.
-/
import RpKeyer.UsbHost

namespace RpKeyer
namespace Packets

open UsbEmit UsbHost

/-! ### SERIAL_STATE -/

/-- What a notification says. -/
structure SerialState where
  iface : UInt8
  dcd : Bool
  dsr : Bool
  deriving DecidableEq, Repr

/-- A notification, with every field of the request header checked and no
state bit but the two. -/
def parseSerialState : List UInt8 → Option SerialState
  | [requestType, code, value, value', iface, index', length, length', state, state'] =>
    if [requestType, code, value, value'] = [0xA1, 0x20, 0, 0] ∧ [index', length, length'] = [0, 2, 0] ∧
        state < 4 ∧ state' = 0 then
      some ⟨iface, state &&& 1 != 0, state &&& 2 != 0⟩
    else none
  | _ => none

theorem lt_four_cases {b : UInt8} (h : b < 4) : b = 0 ∨ b = 1 ∨ b = 2 ∨ b = 3 := by
  have hlt : b.toNat < 4 := UInt8.lt_iff_toNat_lt.mp h
  have hcases : b.toNat = 0 ∨ b.toNat = 1 ∨ b.toNat = 2 ∨ b.toNat = 3 := by omega
  rcases hcases with h | h | h | h
  · exact .inl (UInt8.toNat.inj h)
  · exact .inr (.inl (UInt8.toNat.inj h))
  · exact .inr (.inr (.inl (UInt8.toNat.inj h)))
  · exact .inr (.inr (.inr (UInt8.toNat.inj h)))

/-- A state byte without other bits is the one its two bits make. -/
theorem packet_state (iface : UInt8) {b : UInt8} (h : b < 4) :
    serialStatePacket iface (b &&& 1 != 0) (b &&& 2 != 0) = [0xA1, 0x20, 0, 0, iface, 0, 2, 0, b, 0] := by
  have hbytes : ∀ b ∈ [(0 : UInt8), 1, 2, 3],
      (serialStatePacket 0 (b &&& 1 != 0) (b &&& 2 != 0)).drop 8 = [b, 0] := by decide +kernel
  have hdata := hbytes b (by simpa using lt_four_cases h)
  exact congrArg ([0xA1, 0x20, 0, 0, iface, 0, 2, 0] ++ ·) hdata

theorem parseSerialState_packet (iface : UInt8) (dcd dsr : Bool) :
    parseSerialState (serialStatePacket iface dcd dsr) = some ⟨iface, dcd, dsr⟩ := by
  cases dcd <;> cases dsr <;> rfl

/-- The notifications a strict host accepts are those the class sends. -/
theorem parseSerialState_iff {data : List UInt8} {s : SerialState} :
    parseSerialState data = some s ↔ data = serialStatePacket s.iface s.dcd s.dsr := by
  constructor
  · intro h
    unfold parseSerialState at h
    split at h
    · split at h
      · rename_i hfields
        obtain ⟨hhead, hlength, hstate, rfl⟩ := hfields
        simp only [List.cons.injEq, and_true] at hhead hlength
        obtain ⟨rfl, rfl, rfl, rfl⟩ := hhead
        obtain ⟨rfl, rfl, rfl⟩ := hlength
        obtain rfl := Option.some.inj h
        exact (packet_state _ hstate).symm
      · cases h
    · cases h
  · rintro rfl
    exact parseSerialState_packet s.iface s.dcd s.dsr

/-! ### USB-MIDI -/

/-- A note event on cable 0, channel 0. -/
structure NoteEvent where
  note : UInt8
  velocity : UInt8
  on : Bool
  deriving DecidableEq, Repr

/-- Its four bytes: code index number, status, note, velocity. -/
def NoteEvent.encode (e : NoteEvent) : List UInt8 :=
  (if e.on then [0x09, 0x90] else [0x08, 0x80]) ++ [e.note, e.velocity]

/-- Both data bytes are seven bits. -/
def NoteEvent.Valid (e : NoteEvent) : Prop := e.note < 128 ∧ e.velocity < 128

instance (e : NoteEvent) : Decidable e.Valid := inferInstanceAs (Decidable (_ ∧ _))

/-- A packet of note events: nothing else, nothing left over, the code index
number that of the status, the data bytes seven bits. -/
def parseEvents : List UInt8 → Option (List NoteEvent)
  | [] => some []
  | cin :: status :: note :: velocity :: rest =>
    if ([cin, status] = [0x09, 0x90] ∨ [cin, status] = [0x08, 0x80]) ∧ note < 128 ∧ velocity < 128 then
      (parseEvents rest).map (⟨note, velocity, cin == 0x09⟩ :: ·)
    else none
  | _ => none

theorem parseEvents_encode {e : NoteEvent} (he : e.Valid) (rest : List UInt8) :
    parseEvents (e.encode ++ rest) = (parseEvents rest).map (e :: ·) := by
  obtain ⟨note, velocity, on⟩ := e
  cases on with
  | false => exact if_pos ⟨.inr rfl, he⟩
  | true => exact if_pos ⟨.inl rfl, he⟩

theorem parseEvents_flatMap : ∀ {es : List NoteEvent}, (∀ e ∈ es, e.Valid) →
    parseEvents (es.flatMap NoteEvent.encode) = some es
  | [], _ => rfl
  | e :: es, h => by
    obtain ⟨he, hes⟩ := List.forall_mem_cons.mp h
    rw [List.flatMap_cons, parseEvents_encode he, parseEvents_flatMap hes]
    rfl

/-- The packets a strict host accepts are the encodings of valid events. -/
theorem parseEvents_iff {data : List UInt8} {es : List NoteEvent} :
    parseEvents data = some es ↔ data = es.flatMap NoteEvent.encode ∧ ∀ e ∈ es, e.Valid := by
  constructor
  · intro h
    fun_induction parseEvents data generalizing es with
    | case1 =>
      obtain rfl := Option.some.inj h
      exact ⟨rfl, fun e he => by cases he⟩
    | case2 cin status note velocity rest hfields ih =>
      obtain ⟨es', hes', rfl⟩ := Option.map_eq_some_iff.mp h
      obtain ⟨hrest, hvalid⟩ := ih hes'
      refine ⟨?_, List.forall_mem_cons.mpr ⟨hfields.2, hvalid⟩⟩
      rw [List.flatMap_cons, ← hrest]
      rcases hfields.1 with hhead | hhead
      all_goals
        simp only [List.cons.injEq, and_true] at hhead
        obtain ⟨rfl, rfl⟩ := hhead
        rfl
    | case3 => cases h
    | case4 => cases h
  · rintro ⟨rfl, hvalid⟩
    exact parseEvents_flatMap hvalid

/-- What is read strictly is what the host acts on. -/
theorem midiEvents_of_parse {data : List UInt8} {es : List NoteEvent} (h : parseEvents data = some es) :
    midiEvents data = es.map fun e => (e.note, e.on && e.velocity != 0) := by
  obtain ⟨rfl, -⟩ := parseEvents_iff.mp h
  clear h
  induction es with
  | nil => rfl
  | cons e es ih =>
    obtain ⟨note, velocity, on⟩ := e
    rw [List.flatMap_cons, List.map_cons, ← ih]
    cases on <;> rfl

/-! ### What a packet says -/

/-- The event of a note of the task: on at full velocity, or off. -/
def level (note : UInt8) (on : Bool) : NoteEvent := ⟨note, if on then 0x7F else 0, on⟩

theorem noteEvent_eq (note : UInt8) (on : Bool) : noteEvent note on = (level note on).encode := by
  cases on <;> rfl

/-- What the notes are in a snapshot, in its style. -/
def notes (snap : UsbSnapshot) : List NoteEvent :=
  match snap.emitStyle with
  | .paddle => [level midiNoteDit snap.ditPressed, level midiNoteDah snap.dahPressed]
  | .keyed => [level midiNoteDit snap.liveKey]

/-- A CDC packet fills the notification endpoint and says what the snapshot
is, for the class's own interface. -/
def SaysSer (iface : UInt8) (snap : UsbSnapshot) (data : List UInt8) : Prop :=
  data.length = 10 ∧ parseSerialState data = some ⟨iface, (target snap).first, (target snap).second⟩

/-- A MIDI packet is one or two events, some of the snapshot's notes, each
once and in their order. -/
def SaysMidi (snap : UsbSnapshot) (data : List UInt8) : Prop :=
  ∃ es, parseEvents data = some es ∧ es ≠ [] ∧ es.Sublist (notes snap) ∧ data.length = 4 * es.length

/-- Nothing held, on CDC. -/
def ReleasesSer (iface : UInt8) (data : List UInt8) : Prop :=
  data.length = 10 ∧ parseSerialState data = some ⟨iface, false, false⟩

/-- Both notes off, on MIDI. -/
def ReleasesMidi (data : List UInt8) : Prop :=
  parseEvents data = some [level midiNoteDit false, level midiNoteDah false] ∧ data.length = 8

/-! ### The grammar of a log -/

/-- A transport's log over the snapshots, from the style of the last one. -/
inductive Turns (Releases : List UInt8 → Prop) (Says : UsbSnapshot → List UInt8 → Prop) :
    Option UsbEmitStyle → List UsbSnapshot → List Write → Prop
  | nil {style : Option UsbEmitStyle} : Turns Releases Says style [] []
  | turn {style : Option UsbEmitStyle} {snap : UsbSnapshot} {snaps : List UsbSnapshot}
      {released edges ws : List Write}
      (hreleased : if style = some snap.emitStyle then released = []
        else ∃ w, released = [w] ∧ w.release = true ∧ Releases w.data)
      (hedges : edges = [] ∨ ∃ w, edges = [w] ∧ w.release = false ∧ Says snap w.data)
      (hrest : Turns Releases Says (some snap.emitStyle) snaps ws) :
      Turns Releases Says style (snap :: snaps) (released ++ edges ++ ws)

section Wires

variable {W : Wire} {Releases : List UInt8 → Prop} {Says : UsbSnapshot → List UInt8 → Prop}

/-- A wire whose packets say what they should speaks the grammar. -/
theorem turns_run (hrelease : Releases W.release)
    (hpacket : ∀ p snap, edge p snap = true → Says snap (W.packet p snap)) :
    ∀ (xs : List Input) (c : Caches), Turns Releases Says c.style (xs.map (·.snap)) (W.run c xs).2
  | [], _ => .nil
  | x :: xs, c => by
    have ih := turns_run hrelease hpacket xs (W.next c x).1
    have hswitched : if c.style = some x.snap.emitStyle then
        (W.switched (c.style != some x.snap.emitStyle) c.prev x.okRelease).2 = []
        else ∃ w, (W.switched (c.style != some x.snap.emitStyle) c.prev x.okRelease).2 = [w] ∧
          w.release = true ∧ Releases w.data := by
      unfold Wire.switched
      by_cases hs : c.style = some x.snap.emitStyle
      · rw [if_pos hs, hs, bne_self_eq_false]
        rfl
      · rw [if_neg hs, bne_iff_ne.mpr hs]
        exact ⟨_, rfl, rfl, hrelease⟩
    have hfut : ∀ p, (W.fut p x.snap x.okWrite).2 = [] ∨
        ∃ w, (W.fut p x.snap x.okWrite).2 = [w] ∧ w.release = false ∧ Says x.snap w.data := by
      intro p
      unfold Wire.fut
      cases he : edge p x.snap with
      | false => exact .inl rfl
      | true => exact .inr ⟨_, rfl, rfl, hpacket p x.snap he⟩
    exact .turn hswitched (hfut _) ih

end Wires

theorem saysSer_packet (iface : UInt8) (p : Prev) (snap : UsbSnapshot) :
    SaysSer iface snap ((cdc iface).packet p snap) :=
  ⟨rfl, parseSerialState_packet iface _ _⟩

theorem releasesSer_release (iface : UInt8) : ReleasesSer iface (cdc iface).release :=
  ⟨rfl, parseSerialState_packet iface false false⟩

theorem valid_notes (snap : UsbSnapshot) : ∀ e ∈ notes snap, e.Valid := by
  obtain ⟨dit, dah, live, style⟩ := snap
  cases style <;> cases dit <;> cases dah <;> cases live <;> decide

theorem length_flatMap_encode : ∀ es : List NoteEvent,
    (es.flatMap NoteEvent.encode).length = 4 * es.length
  | [] => rfl
  | e :: es => by
    have hlen : e.encode.length = 4 := by
      obtain ⟨note, velocity, on⟩ := e
      cases on <;> rfl
    rw [List.flatMap_cons, List.length_append, hlen, length_flatMap_encode es, List.length_cons]
    omega

/-- Some of the snapshot's notes, encoded. -/
theorem saysMidi_flatMap {snap : UsbSnapshot} {es : List NoteEvent} (hne : es ≠ [])
    (hsub : es.Sublist (notes snap)) : SaysMidi snap (es.flatMap NoteEvent.encode) :=
  ⟨es, parseEvents_flatMap fun e he => valid_notes snap e (hsub.subset he), hne, hsub,
    length_flatMap_encode es⟩

/-- The events of an edge: the notes that changed. -/
def changed (p : Prev) (snap : UsbSnapshot) : List NoteEvent :=
  match snap.emitStyle with
  | .paddle =>
    (if snap.ditPressed ≠ p.dit then [level midiNoteDit snap.ditPressed] else []) ++
      (if snap.dahPressed ≠ p.dah then [level midiNoteDah snap.dahPressed] else [])
  | .keyed => [level midiNoteDit snap.liveKey]

theorem midiPacket_eq (p : Prev) (snap : UsbSnapshot) :
    midiPacket p snap = (changed p snap).flatMap NoteEvent.encode := by
  unfold midiPacket changed
  cases snap.emitStyle with
  | paddle =>
    simp only [noteEvent_eq, List.flatMap_append]
    split <;> split <;> simp
  | keyed =>
    simp only [noteEvent_eq, List.flatMap_cons, List.flatMap_nil, List.append_nil]

theorem saysMidi_packet {p : Prev} {snap : UsbSnapshot} (he : edge p snap = true) :
    SaysMidi snap (midiPacket p snap) := by
  rw [midiPacket_eq]
  unfold edge at he
  refine saysMidi_flatMap ?_ ?_
  · unfold changed
    cases hs : snap.emitStyle with
    | paddle =>
      rw [hs] at he
      by_cases hd : snap.ditPressed = p.dit
      · have ha : snap.dahPressed ≠ p.dah := by simpa [hd] using he
        simp [ha]
      · simp [hd]
    | keyed => exact List.cons_ne_nil _ _
  · unfold changed notes
    cases snap.emitStyle with
    | paddle =>
      refine List.Sublist.append (?_ : List.Sublist _ [level midiNoteDit snap.ditPressed]) ?_
      · split
        · exact .refl _
        · exact List.nil_sublist _
      · split
        · exact .refl _
        · exact List.nil_sublist _
    | keyed => exact .refl _

theorem releasesMidi_release : ReleasesMidi midiWire.release := ⟨rfl, rfl⟩

/-! ### The theorem -/

/-- A transport that writes in no iteration writes in no run. -/
theorem run_silent {app : App} {log : Writes → List Write} (hlog : log = Writes.ser ∨ log = Writes.midi)
    (hstep : ∀ l snap o, log (step app l snap o).2 = []) (xs : List (UsbSnapshot × Outcomes)) (l : Locals) :
    log (run app l xs).2 = [] := by
  induction xs generalizing l with
  | nil => rcases hlog with rfl | rfl <;> rfl
  | cons x xs ih =>
    have hcons : log (run app l (x :: xs)).2 =
        log (step app l x.1 x.2).2 ++ log (run app (step app l x.1 x.2).1 xs).2 := by
      rcases hlog with rfl | rfl <;> rfl
    rw [hcons, hstep, ih, List.append_nil]

theorem serStep_absent {app : App} (h : ∀ iface, app.serial ≠ .present iface) (l : Locals) (snap : UsbSnapshot)
    (o : Outcomes) : (serStep app l snap o).2 = [] := by
  unfold serStep
  cases hp : app.serial with
  | compiledOut => rfl
  | absent => rfl
  | present iface => exact absurd hp (h iface)

theorem midiStep_absent {app : App} (h : app.midi ≠ .present ()) (l : Locals) (snap : UsbSnapshot)
    (o : Outcomes) : (midiStep app l snap o).2 = [] := by
  unfold midiStep
  cases hp : app.midi with
  | compiledOut => rfl
  | absent => rfl
  | present a => exact absurd hp h

/-- **The wire contract.** In every run, whatever becomes of the writes, each
transport's log is turn by turn a release exactly when the style is new, then
at most one packet, and it says what the snapshot of that turn is; a transport
that is not there writes nothing. -/
theorem wire_contract (app : App) (xs : List (UsbSnapshot × Outcomes)) :
    let ws := (run app .start xs).2
    (∀ iface, app.serial = .present iface →
      Turns (ReleasesSer iface) (SaysSer iface) none (xs.map (·.1)) ws.ser) ∧
    ((∀ iface, app.serial ≠ .present iface) → ws.ser = []) ∧
    (app.midi = .present () → Turns ReleasesMidi SaysMidi none (xs.map (·.1)) ws.midi) ∧
    (app.midi ≠ .present () → ws.midi = []) := by
  intro ws
  refine ⟨fun iface h => ?_, fun h => run_silent (.inl rfl) (serStep_absent h) xs .start, fun h => ?_,
    fun h => run_silent (.inr rfl) (midiStep_absent h) xs .start⟩
  · have hturns := turns_run (W := cdc iface) (releasesSer_release iface)
      (fun p snap _ => saysSer_packet iface p snap) (xs.map serInput) .start
    rw [run_ser_start h, List.map_map] at hturns
    exact hturns
  · have hturns := turns_run (W := midiWire) releasesMidi_release
      (fun p snap he => saysMidi_packet he) (xs.map midiInput) .start
    rw [run_midi_start h, List.map_map] at hturns
    exact hturns

/-- A press and a style switch, the first CDC packet not delivered. -/
theorem wire_contract_switch :
    let xs := [((⟨true, false, false, .paddle⟩ : UsbSnapshot), (⟨true, true, false, true⟩ : Outcomes)),
      (⟨true, false, true, .keyed⟩, ⟨true, true, true, true⟩)]
    let ws := (run ⟨.present 0, .present ()⟩ .start xs).2
    Turns (ReleasesSer 0) (SaysSer 0) none (xs.map (·.1)) ws.ser ∧
    Turns ReleasesMidi SaysMidi none (xs.map (·.1)) ws.midi ∧ ws.ser.length = 4 ∧ ws.midi.length = 4 := by
  intro xs ws
  have h := wire_contract ⟨.present 0, .present ()⟩ xs
  exact ⟨h.1 0 rfl, h.2.2.1 rfl, by decide, by decide⟩

end Packets
end RpKeyer
