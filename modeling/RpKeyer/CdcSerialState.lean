/-
# The CDC class

`cdc_serial_state.rs`: the descriptors `CdcWithSerialState::new` hands to the
builder, the control requests its handler answers, and the notifications it
sends. The interface number is kept twice, by the handler and, for
`send_serial_state`, in the state it shares with the class.

The line coding is a constant, whatever the host sets; DTR and RTS are a
register written by SET_CONTROL_LINE_STATE and by a bus reset (`lines`). Over
any requests (`control_requests`) nothing panics as long as the control buffer
is what `new` asserts, the class answers exactly the requests to its own
interface, accepting those it knows (`Answered`), and its notifications name
that interface.
-/
import RpKeyer.Lib.Bytes
import RpKeyer.Lib.Register
import RpKeyer.Lib.StepRun
import RpKeyer.Packets

namespace RpKeyer
namespace CdcSerialState

open UsbEmit

/-! ### Constants -/

def usbClassCdc : UInt8 := 0x02
def usbClassCdcData : UInt8 := 0x0a
def cdcSubclassAcm : UInt8 := 0x02
def cdcProtocolNone : UInt8 := 0x00
def csInterface : UInt8 := 0x24
def cdcTypeHeader : UInt8 := 0x00
def cdcTypeAcm : UInt8 := 0x02
def cdcTypeUnion : UInt8 := 0x06
def reqSendEncapsulatedCommand : UInt8 := 0x00
def reqSetLineCoding : UInt8 := 0x20
def reqGetLineCoding : UInt8 := 0x21
def reqSetControlLineState : UInt8 := 0x22

/-! ### Requests -/

inductive RequestType
  | standard
  | cls
  | vendor
  | reserved
  deriving DecidableEq, Repr

inductive Recipient
  | device
  | interface
  | endpoint
  | other
  | reserved
  deriving DecidableEq, Repr

/-- A control request, as far as the handler reads it. -/
structure Request where
  requestType : RequestType
  recipient : Recipient
  request : UInt8
  value : UInt16
  index : UInt16
  length : UInt16
  deriving DecidableEq, Repr

inductive OutResponse
  | accepted
  | rejected
  deriving DecidableEq, Repr

inductive InResponse
  | accepted (data : List UInt8)
  | rejected
  deriving DecidableEq, Repr

/-! ### The handler -/

structure ControlShared where
  dtr : Bool
  rts : Bool
  commIf : UInt8
  deriving DecidableEq, Repr

def ControlShared.default : ControlShared := ⟨false, false, 0⟩

/-- The handler, with the state it shares with the class. -/
structure Control where
  commIf : UInt8
  shared : ControlShared
  deriving DecidableEq, Repr

/-- A bus reset. -/
def Control.reset (c : Control) : Control := { c with shared := { c.shared with dtr := false, rts := false } }

/-- Is the request for a class on this interface? -/
def addressed (commIf : UInt8) (req : Request) : Bool :=
  (req.requestType, req.recipient, req.index) == (.cls, .interface, commIf.toUInt16)

def Control.controlOut (c : Control) (req : Request) (data : List UInt8) : Control × Option OutResponse :=
  if addressed c.commIf req then
    if req.request = reqSendEncapsulatedCommand then (c, some .accepted)
    else if req.request = reqSetLineCoding ∧ 7 ≤ data.length then (c, some .accepted)
    else if req.request = reqSetControlLineState then
      ({ c with shared := { c.shared with dtr := req.value &&& 0x0001 != 0, rts := req.value &&& 0x0002 != 0 } },
        some .accepted)
    else (c, some .rejected)
  else (c, none)

/-- The default coding written into the buffer: data rate, stop bits, parity,
data bits. -/
def lineCoding (buf : List UInt8) : List UInt8 :=
  ((((Bytes.overwrite buf 0 (Bytes.le 4 9600)).set 4 0).set 5 0).set 6 8).take 7

/-- The outer `none` is the panic of the buffer's assertion. -/
def Control.controlIn (c : Control) (req : Request) (buf : List UInt8) : Option (Option InResponse) :=
  if addressed c.commIf req then
    if req.request = reqGetLineCoding ∧ req.length = 7 then
      if 7 ≤ buf.length then some (some (.accepted (lineCoding buf))) else none
    else some (some .rejected)
  else some none

/-- The class's own reads of the shared state. -/
def Control.dtr (c : Control) : Bool := c.shared.dtr

def Control.rts (c : Control) : Bool := c.shared.rts

/-- The packet of `send_serial_state`. -/
def Control.sendSerialState (c : Control) (dcd dsr : Bool) : List UInt8 :=
  serialStatePacket c.shared.commIf dcd dsr

/-! ### What `new` emits -/

/-- What is handed to the builder after an interface's setting. -/
inductive Descriptor
  | descriptor (kind : UInt8) (body : List UInt8)
  | endpointInterruptIn (maxPacketSize : UInt16) (pollMs : UInt8)
  | endpointBulkOut (maxPacketSize : UInt16)
  | endpointBulkIn (maxPacketSize : UInt16)
  deriving DecidableEq, Repr

structure AltSetting where
  cls : UInt8
  subclass : UInt8
  protocol : UInt8
  descriptors : List Descriptor
  deriving DecidableEq, Repr

/-- The control interface: header, capabilities, union with the data
interface, and the notification endpoint. -/
def controlInterface (commIf : UInt8) : AltSetting :=
  let dataIf := commIf + 1
  ⟨usbClassCdc, cdcSubclassAcm, cdcProtocolNone,
    [.descriptor csInterface [cdcTypeHeader, 0x10, 0x01],
      .descriptor csInterface [cdcTypeAcm, 0x02],
      .descriptor csInterface [cdcTypeUnion, commIf, dataIf],
      .endpointInterruptIn 10 1]⟩

def dataInterface (maxPacketSize : UInt16) : AltSetting :=
  ⟨usbClassCdcData, 0x00, cdcProtocolNone, [.endpointBulkOut maxPacketSize, .endpointBulkIn maxPacketSize]⟩

/-- The two interfaces and the handler; `none` is the panic of the control
buffer's assertion. -/
def new (controlBufLen : ℕ) (commIf : UInt8) (maxPacketSize : UInt16) :
    Option ((AltSetting × AltSetting) × Control) :=
  if 7 ≤ controlBufLen then
    some ((controlInterface commIf, dataInterface maxPacketSize),
      ⟨commIf, { ControlShared.default with commIf }⟩)
  else none

/-! ### Runs -/

/-- What reaches the handler: a reset, a request with its data, a request with
the buffer for the answer. -/
inductive Event
  | reset
  | out (req : Request) (data : List UInt8)
  | inn (req : Request) (buf : List UInt8)
  deriving DecidableEq, Repr

/-- What comes back; a reset and a request for someone else get nothing. -/
inductive Answer
  | out (response : OutResponse)
  | inn (response : InResponse)
  deriving DecidableEq, Repr

def step (c : Control) : Event → Option (Control × Option Answer)
  | .reset => some (c.reset, none)
  | .out req data => some ((c.controlOut req data).1, (c.controlOut req data).2.map .out)
  | .inn req buf => (c.controlIn req buf).map fun response => (c, response.map .inn)

/-- A run over what reaches the handler, with the answers. -/
def run (c : Control) : List Event → Option (Control × List (Option Answer))
  | [] => some (c, [])
  | e :: es => (step c e).bind fun s => (run s.1 es).map fun r => (r.1, s.2 :: r.2)

/-! ### What the handler does with an event -/

/-- Is the event a request to the class on this interface? -/
def Event.addressed (commIf : UInt8) : Event → Bool
  | .reset => false
  | .out req _ => CdcSerialState.addressed commIf req
  | .inn req _ => CdcSerialState.addressed commIf req

/-- The buffer of an IN request holds a line coding. -/
def Event.Buffered : Event → Prop
  | .inn _ buf => 7 ≤ buf.length
  | _ => True

/-- DTR and RTS as an event sets them, if it does. -/
def lines (commIf : UInt8) : Event → Option (Bool × Bool)
  | .reset => some (false, false)
  | .out req _ =>
    if CdcSerialState.addressed commIf req ∧ req.request = reqSetControlLineState then
      some (req.value &&& 0x0001 != 0, req.value &&& 0x0002 != 0)
    else none
  | .inn _ _ => none

/-- A line coding as the host reads it. -/
structure LineCoding where
  rate : ℕ
  stopBits : UInt8
  parity : UInt8
  dataBits : UInt8
  deriving DecidableEq, Repr

def readLineCoding : List UInt8 → Option LineCoding
  | [b0, b1, b2, b3, stopBits, parity, dataBits] =>
    some ⟨Bytes.ofLe [b0, b1, b2, b3], stopBits, parity, dataBits⟩
  | _ => none

theorem readLineCoding_lineCoding {buf : List UInt8} (h : 7 ≤ buf.length) :
    readLineCoding (lineCoding buf) = some ⟨9600, 0, 0, 8⟩ := by
  match buf, h with
  | b0 :: b1 :: b2 :: b3 :: b4 :: b5 :: b6 :: rest, _ => rfl

/-- A handler whose two copies of the interface number are `commIf`. -/
structure On (commIf : UInt8) (c : Control) : Prop where
  handler : c.commIf = commIf
  shared : c.shared.commIf = commIf

/-- The OUT requests the class knows: an encapsulated command, a line coding with
all its bytes, the control line state. -/
def Request.Known (req : Request) (data : List UInt8) : Prop :=
  req.request = reqSendEncapsulatedCommand ∨ req.request = reqSetLineCoding ∧ 7 ≤ data.length ∨
    req.request = reqSetControlLineState

/-- A host asks for the line coding, all of it. -/
def Request.AsksCoding (req : Request) : Prop := req.request = reqGetLineCoding ∧ req.length = 7

/-- How an event is answered on interface `commIf`. -/
inductive Answered (commIf : UInt8) : Event → Option Answer → Prop
  /-- a reset, or a request for someone else -/
  | silent {e : Event} (h : e.addressed commIf = false) : Answered commIf e none
  | accepted {req : Request} {data : List UInt8} (h : addressed commIf req = true) (hreq : req.Known data) :
      Answered commIf (.out req data) (some (.out .accepted))
  | rejected {req : Request} {data : List UInt8} (h : addressed commIf req = true) (hreq : ¬req.Known data) :
      Answered commIf (.out req data) (some (.out .rejected))
  /-- the line coding: 9600 baud, one stop bit, no parity, eight data bits -/
  | coding {req : Request} {buf bytes : List UInt8} (h : addressed commIf req = true) (hreq : req.AsksCoding)
      (hbytes : readLineCoding bytes = some ⟨9600, 0, 0, 8⟩) :
      Answered commIf (.inn req buf) (some (.inn (.accepted bytes)))
  | nothing {req : Request} {buf : List UInt8} (h : addressed commIf req = true) (hreq : ¬req.AsksCoding) :
      Answered commIf (.inn req buf) (some (.inn .rejected))

theorem lines_out (commIf : UInt8) (req : Request) (data : List UInt8) : lines commIf (.out req data) =
    if addressed commIf req ∧ req.request = reqSetControlLineState then
      some (req.value &&& 0x0001 != 0, req.value &&& 0x0002 != 0)
    else none := rfl

/-- An OUT request: its answer, and the lines it leaves. -/
theorem controlOut_spec (c : Control) (req : Request) (data : List UInt8) :
    Answered c.commIf (.out req data) ((c.controlOut req data).2.map .out) ∧
    (c.controlOut req data).1.commIf = c.commIf ∧
    (c.controlOut req data).1.shared.commIf = c.shared.commIf ∧
    ((c.controlOut req data).1.dtr, (c.controlOut req data).1.rts) =
      (lines c.commIf (.out req data)).getD (c.dtr, c.rts) := by
  rw [lines_out]
  unfold Control.controlOut
  cases ha : addressed c.commIf req with
  | false =>
    rw [if_neg Bool.false_ne_true, if_neg fun h => Bool.false_ne_true h.1]
    exact ⟨.silent ha, rfl, rfl, rfl⟩
  | true =>
    rw [if_pos rfl]
    by_cases h0 : req.request = reqSendEncapsulatedCommand
    · rw [if_pos h0, if_neg fun h => absurd (h0.symm.trans h.2) (by decide)]
      exact ⟨.accepted ha (.inl h0), rfl, rfl, rfl⟩
    · rw [if_neg h0]
      by_cases h1 : req.request = reqSetLineCoding ∧ 7 ≤ data.length
      · rw [if_pos h1, if_neg fun h => absurd (h1.1.symm.trans h.2) (by decide)]
        exact ⟨.accepted ha (.inr (.inl h1)), rfl, rfl, rfl⟩
      · rw [if_neg h1]
        by_cases h2 : req.request = reqSetControlLineState
        · rw [if_pos h2, if_pos ⟨rfl, h2⟩]
          exact ⟨.accepted ha (.inr (.inr h2)), rfl, rfl, rfl⟩
        · rw [if_neg h2, if_neg fun h => h2 h.2]
          refine ⟨.rejected ha ?_, rfl, rfl, rfl⟩
          rintro (hknown | hknown | hknown)
          · exact h0 hknown
          · exact h1 hknown
          · exact h2 hknown

/-- An IN request with the buffer it was promised does not panic. -/
theorem controlIn_spec (c : Control) (req : Request) {buf : List UInt8} (h : 7 ≤ buf.length) :
    ∃ response, c.controlIn req buf = some response ∧ Answered c.commIf (.inn req buf) (response.map .inn) := by
  unfold Control.controlIn
  cases ha : addressed c.commIf req with
  | false =>
    rw [if_neg Bool.false_ne_true]
    exact ⟨_, rfl, .silent ha⟩
  | true =>
    rw [if_pos rfl]
    by_cases hreq : req.request = reqGetLineCoding ∧ req.length = 7
    · rw [if_pos hreq, if_pos h]
      exact ⟨_, rfl, .coding ha hreq (readLineCoding_lineCoding h)⟩
    · rw [if_neg hreq]
      exact ⟨_, rfl, .nothing ha hreq⟩

/-- One event: no panic, the lines written as `lines` says, answered as it
should be. -/
theorem step_spec {commIf : UInt8} {c : Control} (hc : On commIf c) {e : Event} (he : e.Buffered) :
    ∃ c' a, step c e = some (c', a) ∧ On commIf c' ∧
      (c'.dtr, c'.rts) = (lines commIf e).getD (c.dtr, c.rts) ∧ Answered commIf e a := by
  obtain ⟨rfl, hshared⟩ := hc
  cases e with
  | reset => exact ⟨_, _, rfl, ⟨rfl, hshared⟩, rfl, .silent rfl⟩
  | out req data =>
    obtain ⟨hanswered, hhandler, hsame, hlines⟩ := controlOut_spec c req data
    exact ⟨_, _, rfl, ⟨hhandler, hsame.trans hshared⟩, hlines, hanswered⟩
  | inn req buf =>
    obtain ⟨response, hresponse, hanswered⟩ := controlIn_spec c req he
    refine ⟨c, response.map .inn, ?_, ⟨rfl, hshared⟩, rfl, hanswered⟩
    show (c.controlIn req buf).map _ = _
    rw [hresponse]
    rfl

theorem run_spec {commIf : UInt8} : ∀ {es : List Event} {c : Control}, On commIf c →
    (∀ e ∈ es, e.Buffered) → ∃ c' as, run c es = some (c', as) ∧ On commIf c' ∧
      (c'.dtr, c'.rts) = Register.after (lines commIf) (c.dtr, c.rts) es ∧
      List.Forall₂ (Answered commIf) es as
  | [], c, hc, _ => ⟨c, [], rfl, hc, rfl, .nil⟩
  | e :: es, c, hc, h => by
    obtain ⟨he, hes⟩ := List.forall_mem_cons.mp h
    obtain ⟨c₁, a, hstep, hc₁, hlines, ha⟩ := step_spec hc he
    obtain ⟨c', as, hrun, hc', hafter, has⟩ := run_spec hc₁ hes
    refine ⟨c', a :: as, ?_, hc', ?_, .cons ha has⟩
    · unfold run
      rw [hstep, Option.bind_some, hrun]
      rfl
    · rw [hafter, Register.after_cons, hlines]

/-! ### The theorem -/

/-- **The control requests.** From `new`, over any resets and requests, nothing
panics. A request to the class's interface is answered and no other: an
encapsulated command, a line coding and a control line state are accepted and
every other OUT request is rejected; a host that asks for the line coding gets
9600 baud 8N1, and one that asks for anything else is rejected. DTR and RTS are
the bits of the last SET_CONTROL_LINE_STATE to that interface since the last
reset, and off if there was none; and a notification names the interface that
answers. -/
theorem control_requests {controlBufLen : ℕ} {commIf : UInt8} {maxPacketSize : UInt16}
    {ifs : AltSetting × AltSetting} {c : Control} (hnew : new controlBufLen commIf maxPacketSize = some (ifs, c))
    {es : List Event} (hes : ∀ req buf, .inn req buf ∈ es → buf.length = controlBufLen) :
    ∃ c' as, run c es = some (c', as) ∧ List.Forall₂ (Answered commIf) es as ∧
      (∀ dtr rts, (c'.dtr, c'.rts) = (dtr, rts) ↔ Register.LastWrite (lines commIf) (dtr, rts) es ∨
        ((∀ e ∈ es, lines commIf e = none) ∧ dtr = false ∧ rts = false)) ∧
      ∀ dcd dsr, Packets.parseSerialState (c'.sendSerialState dcd dsr) = some ⟨c'.commIf, dcd, dsr⟩ := by
  unfold new at hnew
  obtain ⟨hbuf, hc⟩ := StepRun.guard_some hnew
  obtain ⟨-, rfl⟩ := Prod.mk.inj hc
  have hon : On commIf ⟨commIf, { ControlShared.default with commIf }⟩ := ⟨rfl, rfl⟩
  have hbuffered : ∀ e ∈ es, e.Buffered := by
    intro e he
    cases e with
    | reset => trivial
    | out req data => trivial
    | inn req buf =>
      have hlen := hes req buf he
      show 7 ≤ buf.length
      omega
  obtain ⟨c', as, hrun, hc', hafter, has⟩ := run_spec hon hbuffered
  refine ⟨c', as, hrun, has, fun dtr rts => ?_, fun dcd dsr => ?_⟩
  · rw [hafter, Register.after_eq_iff]
    refine or_congr_right (and_congr_right fun _ => ?_)
    show (false, false) = (dtr, rts) ↔ _
    rw [Prod.mk.injEq]
    exact and_congr eq_comm eq_comm
  · rw [hc'.handler, ← hc'.shared]
    exact Packets.parseSerialState_packet _ dcd dsr

/-- A terminal opens the port, sets a coding and reads one back, asks for a
break, and asks another interface for its coding; then the bus is reset. -/
theorem control_requests_reset :
    let ask (request : UInt8) (value index length : UInt16) : Request := ⟨.cls, .interface, request, value, index, length⟩
    let buf : List UInt8 := .replicate 64 0
    let es : List Event := [.out (ask 0x22 3 0 0) [], .out (ask 0x20 0 0 7) [0, 194, 1, 0, 0, 0, 8],
      .inn (ask 0x21 0 0 7) buf, .out (ask 0x23 0 0 0) [], .inn (ask 0x21 0 1 7) buf, .reset]
    ∃ c' bytes, run ⟨0, ControlShared.default⟩ es = some (c', [some (.out .accepted), some (.out .accepted),
        some (.inn (.accepted bytes)), some (.out .rejected), none, none]) ∧
      readLineCoding bytes = some ⟨9600, 0, 0, 8⟩ ∧ c'.dtr = false ∧ c'.rts = false := by
  intro ask buf es
  have hnew : new 64 0 64 = some ((controlInterface 0, dataInterface 64), ⟨0, ControlShared.default⟩) := rfl
  have hbufs : ∀ req buf', .inn req buf' ∈ es → buf'.length = 64 := by
    intro req buf' hmem
    simp only [es, List.mem_cons, Event.inn.injEq, reduceCtorEq, List.not_mem_nil, false_or, or_false] at hmem
    rcases hmem with ⟨-, rfl⟩ | ⟨-, rfl⟩ <;> rfl
  have hanswers : (run ⟨0, ControlShared.default⟩ es).map Prod.snd = some [some (.out .accepted),
      some (.out .accepted), some (.inn (.accepted [128, 37, 0, 0, 0, 0, 8])), some (.out .rejected), none, none] := by
    decide +kernel
  obtain ⟨c', as, hrun, has, hlines, -⟩ := control_requests hnew hbufs
  rw [hrun, Option.map_some] at hanswers
  obtain rfl := Option.some.inj hanswers
  have hoff := (hlines false false).mpr (.inl ⟨es.dropLast, .reset, [], rfl, rfl, fun e he => by cases he⟩)
  obtain ⟨hdtr, hrts⟩ := Prod.mk.inj hoff
  have hcoding : Answered 0 (.inn (ask 0x21 0 0 7) buf) (some (.inn (.accepted [128, 37, 0, 0, 0, 0, 8]))) := by
    obtain ⟨-, has⟩ := List.forall₂_cons.mp has
    obtain ⟨-, has⟩ := List.forall₂_cons.mp has
    exact (List.forall₂_cons.mp has).1
  cases hcoding with
  | coding h hreq hbytes => exact ⟨c', _, hrun, hbytes, hdtr, hrts⟩

end CdcSerialState
end RpKeyer
