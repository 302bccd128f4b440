/-
# The USB emit task

`usb_emit_task.rs` and `CdcWithSerialState::send_serial_state`: the task takes
a `UsbSnapshot`, releases everything on a style switch, and writes what
changed against its `prev_*` caches, on the CDC transport as a SERIAL_STATE
packet and on the MIDI transport as note events. A cache is updated only when
the write succeeded.

Writes are lists of bytes; each write takes its result from outside
(`Outcomes`), and a run keeps every attempt with that result. The two futures
of the join touch disjoint state, so each transport has its own log.
-/
import RpKeyer.Config

namespace RpKeyer
namespace UsbEmit

/-! ### Packets -/

def notifSerialState : UInt8 := 0x20
def serialStateDcd : UInt16 := (1 : UInt16) <<< 0
def serialStateDsr : UInt16 := (1 : UInt16) <<< 1

/-- The 10-byte SERIAL_STATE notification of `send_serial_state`. -/
def serialStatePacket (iface : UInt8) (dcd dsr : Bool) : List UInt8 :=
  let state : UInt16 := (if dcd then serialStateDcd else 0) ||| (if dsr then serialStateDsr else 0)
  [0xA1, notifSerialState, 0x00, 0x00, iface, 0x00, 0x02, 0x00,
    (state &&& 0xFF).toUInt8, (state >>> 8).toUInt8]

def midiNoteDit : UInt8 := 60
def midiNoteDah : UInt8 := 62
def midiNoteOn : UInt8 := 0x90
def midiNoteOff : UInt8 := 0x80
def midiCinNoteOn : UInt8 := 0x09
def midiCinNoteOff : UInt8 := 0x08

/-- One USB-MIDI event: a note on at full velocity, or off. -/
def noteEvent (note : UInt8) (on : Bool) : List UInt8 :=
  if on then [midiCinNoteOn, midiNoteOn, note, 0x7F] else [midiCinNoteOff, midiNoteOff, note, 0x00]

/-! ### The state of `run` -/

/-- A transport of the app: left out by its cargo feature, `None`, or there. -/
inductive Port (α : Type)
  | compiledOut
  | absent
  | present (a : α)

/-- The transports: the CDC class with its interface number, the MIDI class. -/
structure App where
  serial : Port UInt8
  midi : Port Unit

/-- The caches of one transport, `prev_dit_*`, `prev_dah_*` and `prev_key_*`. -/
structure Prev where
  dit : Bool
  dah : Bool
  key : Bool
  deriving DecidableEq, Repr

/-- Nothing held. -/
def Prev.off : Prev := ⟨false, false, false⟩

/-- The locals of `run`. -/
structure Locals where
  ser : Prev
  midi : Prev
  prevStyle : Option UsbEmitStyle

def Locals.start : Locals := ⟨.off, .off, none⟩

/-- A write: its bytes, whether it is a style switch's release, its result. -/
structure Write where
  data : List UInt8
  release : Bool
  ok : Bool
  deriving DecidableEq, Repr

/-- The results of the writes of one iteration, should they be attempted. -/
structure Outcomes where
  serRelease : Bool
  midiRelease : Bool
  serWrite : Bool
  midiWrite : Bool
  deriving DecidableEq, Repr

/-! ### The two futures -/

/-- `ser_fut`. -/
def serFut (iface : UInt8) (snap : UsbSnapshot) (p : Prev) (ok : Bool) : Prev × List Write :=
  match snap.emitStyle with
  | .paddle =>
    if snap.ditPressed ≠ p.dit ∨ snap.dahPressed ≠ p.dah then
      (if ok then { p with dit := snap.ditPressed, dah := snap.dahPressed } else p,
        [⟨serialStatePacket iface snap.ditPressed snap.dahPressed, false, ok⟩])
    else (p, [])
  | .keyed =>
    if snap.liveKey ≠ p.key then
      (if ok then { p with key := snap.liveKey } else p,
        [⟨serialStatePacket iface snap.liveKey false, false, ok⟩])
    else (p, [])

/-- `midi_fut`: in Paddle style one packet with an event per changed note. -/
def midiFut (snap : UsbSnapshot) (p : Prev) (ok : Bool) : Prev × List Write :=
  match snap.emitStyle with
  | .paddle =>
    let ditChanged := snap.ditPressed ≠ p.dit
    let dahChanged := snap.dahPressed ≠ p.dah
    if ditChanged ∨ dahChanged then
      let buf := (if ditChanged then noteEvent midiNoteDit snap.ditPressed else []) ++
        (if dahChanged then noteEvent midiNoteDah snap.dahPressed else [])
      (if ok then
        { p with
          dit := if ditChanged then snap.ditPressed else p.dit
          dah := if dahChanged then snap.dahPressed else p.dah }
      else p, [⟨buf, false, ok⟩])
    else (p, [])
  | .keyed =>
    if snap.liveKey ≠ p.key then
      (if ok then { p with key := snap.liveKey } else p,
        [⟨noteEvent midiNoteDit snap.liveKey, false, ok⟩])
    else (p, [])

/-! ### The style switch -/

/-- The CDC release; its error is discarded and the caches reset anyway. -/
def serRelease (iface : UInt8) (ok : Bool) : Prev × List Write :=
  (.off, [⟨serialStatePacket iface false false, true, ok⟩])

/-- The MIDI release of both notes, likewise. -/
def midiRelease (ok : Bool) : Prev × List Write :=
  (.off, [⟨noteEvent midiNoteDit false ++ noteEvent midiNoteDah false, true, ok⟩])

/-- Is this snapshot a style switch? -/
def Locals.switches (l : Locals) (snap : UsbSnapshot) : Bool :=
  l.prevStyle != some snap.emitStyle

/-! ### The loop -/

/-- The writes of an iteration or a run, by transport. -/
structure Writes where
  ser : List Write
  midi : List Write

/-- The CDC transport's part of one iteration. -/
def serStep (app : App) (l : Locals) (snap : UsbSnapshot) (o : Outcomes) : Prev × List Write :=
  match app.serial with
  | .present iface =>
    let r := if l.switches snap then serRelease iface o.serRelease else (l.ser, [])
    let w := serFut iface snap r.1 o.serWrite
    (w.1, r.2 ++ w.2)
  | _ => (l.ser, [])

/-- The MIDI transport's part of one iteration. -/
def midiStep (app : App) (l : Locals) (snap : UsbSnapshot) (o : Outcomes) : Prev × List Write :=
  match app.midi with
  | .present _ =>
    let r := if l.switches snap then midiRelease o.midiRelease else (l.midi, [])
    let w := midiFut snap r.1 o.midiWrite
    (w.1, r.2 ++ w.2)
  | _ => (l.midi, [])

/-- One iteration of the loop on a snapshot. -/
def step (app : App) (l : Locals) (snap : UsbSnapshot) (o : Outcomes) : Locals × Writes :=
  (⟨(serStep app l snap o).1, (midiStep app l snap o).1, some snap.emitStyle⟩,
    ⟨(serStep app l snap o).2, (midiStep app l snap o).2⟩)

/-- A run on the snapshots taken from the signal, with the results of its
writes. -/
def run (app : App) : Locals → List (UsbSnapshot × Outcomes) → Locals × Writes
  | l, [] => (l, ⟨[], []⟩)
  | l, x :: xs =>
    let s := step app l x.1 x.2
    let r := run app s.1 xs
    (r.1, ⟨s.2.ser ++ r.2.ser, s.2.midi ++ r.2.midi⟩)

end UsbEmit
end RpKeyer
