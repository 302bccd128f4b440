/-
# The configuration descriptors

What a host reads of the descriptors that the two classes hand to the builder.
The builder and the driver below it are not part of this repository: `Builder`
is what the classes rely on, that a function's interfaces are numbered one
after the other, that an interface descriptor carries its number and its
setting, and an endpoint descriptor its endpoint; addresses, strings and
associations are free.

The host walks the bytes, cuts them at the interface descriptors and finds the
interfaces as they were set up (`readConfiguration_configuration`). In a
configuration made of these classes, in any number and order, each class's two
interfaces are then linked as its specification asks (`composite_reads`): the
union and the header were written from a number guessed before the second
interface had one, and the MIDIStreaming header counts the bytes behind it
before any of them is written.
-/
import RpKeyer.CdcSerialState
import RpKeyer.Lib.Tlv
import RpKeyer.MidiInterrupt

namespace RpKeyer
namespace Descriptors

open Tlv (Record)

/-! ### What is handed to the builder -/

inductive Direction
  | inn
  | out
  deriving DecidableEq, Repr

inductive Transfer
  | bulk
  | interrupt
  deriving DecidableEq, Repr

structure Endpoint where
  direction : Direction
  transfer : Transfer
  maxPacketSize : UInt16
  interval : UInt8
  deriving DecidableEq, Repr

inductive Item
  | descriptor (kind : UInt8) (body : List UInt8)
  | endpoint (e : Endpoint)
  deriving DecidableEq, Repr

/-- An interface with its one setting. -/
structure Setting where
  cls : UInt8
  subclass : UInt8
  protocol : UInt8
  items : List Item
  deriving DecidableEq, Repr

/-- A function of the device and its interfaces. -/
structure UsbFunction where
  cls : UInt8
  subclass : UInt8
  protocol : UInt8
  settings : List Setting
  deriving DecidableEq, Repr

def ofCdcDescriptor : CdcSerialState.Descriptor → Item
  | .descriptor kind body => .descriptor kind body
  | .endpointInterruptIn maxPacketSize pollMs => .endpoint ⟨.inn, .interrupt, maxPacketSize, pollMs⟩
  | .endpointBulkOut maxPacketSize => .endpoint ⟨.out, .bulk, maxPacketSize, 0⟩
  | .endpointBulkIn maxPacketSize => .endpoint ⟨.inn, .bulk, maxPacketSize, 0⟩

def ofCdc (s : CdcSerialState.AltSetting) : Setting :=
  ⟨s.cls, s.subclass, s.protocol, s.descriptors.map ofCdcDescriptor⟩

def ofMidiDescriptor : MidiInterrupt.Descriptor → Item
  | .descriptor kind body => .descriptor kind body
  | .endpointInterruptOut maxPacketSize pollMs => .endpoint ⟨.out, .interrupt, maxPacketSize, pollMs⟩
  | .endpointInterruptIn maxPacketSize pollMs => .endpoint ⟨.inn, .interrupt, maxPacketSize, pollMs⟩

def ofMidi (s : MidiInterrupt.AltSetting) : Setting :=
  ⟨s.cls, s.subclass, s.protocol, s.descriptors.map ofMidiDescriptor⟩

/-- The function `CdcWithSerialState::new` opens. -/
def cdcFunction (controlBufLen : ℕ) (commIf : UInt8) (maxPacketSize : UInt16) : Option UsbFunction :=
  (CdcSerialState.new controlBufLen commIf maxPacketSize).map fun c =>
    ⟨CdcSerialState.usbClassCdc, CdcSerialState.cdcSubclassAcm, CdcSerialState.cdcProtocolNone,
      [ofCdc c.1.1, ofCdc c.1.2]⟩

/-- The function `MidiInterruptClass::new` opens. -/
def midiFunction (audioIf nInJacks nOutJacks : UInt8) (maxPacketSize : UInt16) (pollMs : UInt8) :
    Option UsbFunction :=
  (MidiInterrupt.new audioIf nInJacks nOutJacks maxPacketSize pollMs).map fun c =>
    ⟨MidiInterrupt.usbAudioClass, MidiInterrupt.usbAudiocontrolSubclass, MidiInterrupt.protocolNone,
      [ofMidi c.1, ofMidi c.2]⟩

/-- The functions `main` opens, by the cargo features `serial` and `midi`; the
numbers are those the builder has come to. -/
def mainFunctions (serial midi : Bool) : Option (List UsbFunction) :=
  (if serial then (cdcFunction 64 0 64).map ([·]) else some []).bind fun cdc =>
    let audioIf := UInt8.ofNat (cdc.flatMap (·.settings)).length
    (if midi then (midiFunction audioIf 1 0 64 1).map ([·]) else some []).map (cdc ++ ·)

/-! ### What a host reads -/

def interfaceKind : UInt8 := 0x04
def endpointKind : UInt8 := 0x05
def associationKind : UInt8 := 0x0b

/-- Number, class, subclass and protocol of an interface descriptor. -/
def readSetting (r : Record) : Option (UInt8 × UInt8 × UInt8 × UInt8) :=
  match r.body with
  | [number, _, _, cls, subclass, protocol, _] =>
    if r.kind = interfaceKind then some (number, cls, subclass, protocol) else none
  | _ => none

def readEndpoint (r : Record) : Option Endpoint :=
  match r.body with
  | [address, attributes, size, size', interval] =>
    if r.kind = endpointKind then
      some ⟨if address &&& 0x80 = 0 then .out else .inn, if attributes &&& 3 = 2 then .bulk else .interrupt,
        UInt16.ofNat (Bytes.ofLe [size, size']), interval⟩
    else none
  | _ => none

/-- An interface, with the records up to the next. -/
structure Interface where
  number : UInt8
  cls : UInt8
  subclass : UInt8
  protocol : UInt8
  records : List Record
  deriving DecidableEq, Repr

def isInterface (r : Record) : Bool := r.kind == interfaceKind

def readInterface (section_ : Record × List Record) : Option Interface :=
  (readSetting section_.1).map fun s => ⟨s.1, s.2.1, s.2.2.1, s.2.2.2, section_.2⟩

/-- The interfaces in the bytes; associations are passed over. -/
def readConfiguration (data : List UInt8) : Option (List Interface) :=
  (Tlv.walk data).bind fun rs =>
    (Tlv.sections isInterface (rs.filter (·.kind != associationKind))).mapM readInterface

/-- The endpoints of an interface. -/
def Interface.endpoints (i : Interface) : List Endpoint := i.records.filterMap readEndpoint

/-- The two numbers of a union. -/
def Interface.union (i : Interface) : Option (UInt8 × UInt8) :=
  i.records.findSome? fun r =>
    match r.body with
    | [subtype, control, subordinate] =>
      if r.kind = CdcSerialState.csInterface ∧ subtype = CdcSerialState.cdcTypeUnion then
        some (control, subordinate)
      else none
    | _ => none

/-- The interface that an audio control header collects. -/
def Interface.collected (i : Interface) : Option UInt8 :=
  i.records.findSome? fun r =>
    match r.body with
    | [subtype, _, _, _, _, _, number] =>
      if r.kind = MidiInterrupt.csInterface ∧ subtype = MidiInterrupt.headerSubtype then some number else none
    | _ => none

/-- The length that a MIDIStreaming header announces. -/
def Interface.announced (i : Interface) : Option ℕ :=
  i.records.findSome? fun r =>
    match r.body with
    | [subtype, _, _, total, total'] =>
      if r.kind = MidiInterrupt.csInterface ∧ subtype = MidiInterrupt.msHeaderSubtype then
        some (Bytes.ofLe [total, total'])
      else none
    | _ => none

/-! ### The builder -/

/-- The records the builder makes: of an interface by its number, of its
endpoints by their place in it. -/
structure Builder where
  association : ℕ → UsbFunction → List Record
  interface : ℕ → Setting → Record
  endpoint : ℕ → ℕ → Endpoint → Record
  association_kind : ∀ n f, ∀ r ∈ association n f, r.kind = associationKind
  association_size : ∀ n f, Tlv.size (association n f) ≤ 8
  interface_kind : ∀ n s, (interface n s).kind = interfaceKind
  interface_length : ∀ n s, (interface n s).length = 9
  interface_read : ∀ n s, readSetting (interface n s) = some (UInt8.ofNat n, s.cls, s.subclass, s.protocol)
  endpoint_kind : ∀ n k e, (endpoint n k e).kind = endpointKind
  endpoint_length : ∀ n k e, (endpoint n k e).length = 7
  endpoint_read : ∀ n k e, readEndpoint (endpoint n k e) = some e

section Records

variable (B : Builder)

/-- The records of an interface's items, from its `k`-th endpoint on. -/
def itemRecords (n : ℕ) : ℕ → List Item → List Record
  | _, [] => []
  | k, .descriptor kind body :: is => ⟨kind, body⟩ :: itemRecords n k is
  | k, .endpoint e :: is => B.endpoint n k e :: itemRecords n (k + 1) is

/-- The records of interfaces numbered from `n` on. -/
def settingRecords : ℕ → List Setting → List Record
  | _, [] => []
  | n, s :: ss => B.interface n s :: (itemRecords B n 0 s.items ++ settingRecords (n + 1) ss)

def functionRecords : ℕ → List UsbFunction → List Record
  | _, [] => []
  | n, f :: fs => B.association n f ++ settingRecords B n f.settings ++ functionRecords (n + f.settings.length) fs

/-- The bytes behind the configuration descriptor. -/
def configuration (fs : List UsbFunction) : List UInt8 := Tlv.encodeAll (functionRecords B 0 fs)

/-- The interfaces as they were set up. -/
def interfaces : ℕ → List Setting → List Interface
  | _, [] => []
  | n, s :: ss =>
    ⟨UInt8.ofNat n, s.cls, s.subclass, s.protocol, itemRecords B n 0 s.items⟩ :: interfaces (n + 1) ss

end Records

/-- A class descriptor of no standard kind, whose length fits its byte. -/
def Item.Plain : Item → Prop
  | .descriptor kind body =>
    (kind ≠ interfaceKind ∧ kind ≠ endpointKind ∧ kind ≠ associationKind) ∧ 2 + body.length < 256
  | .endpoint _ => True

/-- Its bytes. -/
def Item.length : Item → ℕ
  | .descriptor _ body => 2 + body.length
  | .endpoint _ => 7

def Setting.Plain (s : Setting) : Prop := ∀ i ∈ s.items, i.Plain

/-! ### Reading back -/

section Reading

variable (B : Builder)

theorem itemRecords_plain (n : ℕ) : ∀ {is : List Item} {k : ℕ}, (∀ i ∈ is, i.Plain) →
    ∀ r ∈ itemRecords B n k is, r.kind ≠ interfaceKind ∧ r.kind ≠ associationKind ∧ r.Fits
  | [], _, _ => fun r hr => by cases hr
  | .descriptor kind body :: is, k, h => by
    obtain ⟨⟨⟨hi, -, ha⟩, hfits⟩, his⟩ := List.forall_mem_cons.mp h
    exact List.forall_mem_cons.mpr ⟨⟨hi, ha, hfits⟩, itemRecords_plain n his⟩
  | .endpoint e :: is, k, h => by
    obtain ⟨-, his⟩ := List.forall_mem_cons.mp h
    have hkind := B.endpoint_kind n k e
    have hlen := B.endpoint_length n k e
    have hfits : (B.endpoint n k e).Fits := by
      unfold Tlv.Record.Fits
      omega
    refine List.forall_mem_cons.mpr ⟨?_, itemRecords_plain n his⟩
    rw [hkind]
    exact ⟨by decide, by decide, hfits⟩

theorem size_itemRecords (n : ℕ) : ∀ (is : List Item) (k : ℕ),
    Tlv.size (itemRecords B n k is) = (is.map Item.length).sum
  | [], _ => rfl
  | .descriptor kind body :: is, k => by
    have ih := size_itemRecords n is k
    unfold Tlv.size at ih ⊢
    show ((_ :: itemRecords B n k is).map Tlv.Record.length).sum = _
    rw [List.map_cons, List.sum_cons, ih]
    rfl
  | .endpoint e :: is, k => by
    have ih := size_itemRecords n is (k + 1)
    unfold Tlv.size at ih ⊢
    show ((_ :: itemRecords B n (k + 1) is).map Tlv.Record.length).sum = _
    rw [List.map_cons, List.sum_cons, ih, B.endpoint_length]
    rfl

/-- The item's endpoint, if it is one. -/
def Item.endpoint? : Item → Option Endpoint
  | .descriptor _ _ => none
  | .endpoint e => some e

/-- The endpoints come back, and nothing else reads as one. -/
theorem filterMap_itemRecords (n : ℕ) : ∀ {is : List Item} {k : ℕ}, (∀ i ∈ is, i.Plain) →
    (itemRecords B n k is).filterMap readEndpoint = is.filterMap Item.endpoint?
  | [], _, _ => rfl
  | .descriptor kind body :: is, k, h => by
    obtain ⟨⟨⟨-, he, -⟩, -⟩, his⟩ := List.forall_mem_cons.mp h
    have hnone : readEndpoint ⟨kind, body⟩ = none := by
      unfold readEndpoint
      split
      · exact if_neg he
      · rfl
    unfold itemRecords
    rw [List.filterMap_cons_none hnone, List.filterMap_cons_none rfl, filterMap_itemRecords n his]
  | .endpoint e :: is, k, h => by
    obtain ⟨-, his⟩ := List.forall_mem_cons.mp h
    have hsome : (Item.endpoint e).endpoint? = some e := rfl
    unfold itemRecords
    rw [List.filterMap_cons_some (B.endpoint_read n k e), List.filterMap_cons_some hsome,
      filterMap_itemRecords n his]

theorem settingRecords_append : ∀ (ss ss' : List Setting) (n : ℕ),
    settingRecords B n (ss ++ ss') = settingRecords B n ss ++ settingRecords B (n + ss.length) ss'
  | [], _, _ => rfl
  | s :: ss, ss', n => by
    have ih := settingRecords_append ss ss' (n + 1)
    have hlen : n + 1 + ss.length = n + (s :: ss).length := by
      rw [List.length_cons]
      omega
    show _ :: (_ ++ settingRecords B (n + 1) (ss ++ ss')) = _ :: (_ ++ settingRecords B (n + 1) ss) ++ _
    rw [ih, hlen, List.cons_append, List.append_assoc]

theorem size_settingRecords : ∀ (ss : List Setting) (n : ℕ),
    Tlv.size (settingRecords B n ss) = (ss.map fun s => 9 + (s.items.map Item.length).sum).sum
  | [], _ => rfl
  | s :: ss, n => by
    have hlen := B.interface_length n s
    have hitems := size_itemRecords B n s.items 0
    have ih := size_settingRecords ss (n + 1)
    unfold settingRecords
    rw [Tlv.size_cons, Tlv.size_append, hlen, hitems, ih, List.map_cons, List.sum_cons]
    omega

/-- No record of the interfaces is an association, and all fit. -/
theorem settingRecords_plain : ∀ {ss : List Setting} {n : ℕ}, (∀ s ∈ ss, s.Plain) →
    ∀ r ∈ settingRecords B n ss, r.kind ≠ associationKind ∧ r.Fits
  | [], _, _ => fun r hr => by cases hr
  | s :: ss, n, h => by
    obtain ⟨hs, hss⟩ := List.forall_mem_cons.mp h
    have hkind : (B.interface n s).kind ≠ associationKind := by
      rw [B.interface_kind]
      decide
    have hfits : (B.interface n s).Fits := by
      unfold Tlv.Record.Fits
      rw [B.interface_length]
      decide
    refine List.forall_mem_cons.mpr ⟨⟨hkind, hfits⟩, fun r hr => ?_⟩
    rcases List.mem_append.mp hr with hr | hr
    · exact (itemRecords_plain B n hs r hr).2
    · exact settingRecords_plain hss r hr

theorem functionRecords_fits : ∀ {fs : List UsbFunction} {n : ℕ}, (∀ s ∈ fs.flatMap (·.settings), s.Plain) →
    ∀ r ∈ functionRecords B n fs, r.Fits
  | [], _, _ => fun r hr => by cases hr
  | f :: fs, n, h => by
    rw [List.flatMap_cons] at h
    obtain ⟨hf, hfs⟩ := List.forall_mem_append.mp h
    intro r hr
    rcases List.mem_append.mp hr with hr | hr
    · rcases List.mem_append.mp hr with hr | hr
      · have hle := Tlv.length_le_size hr
        have hsize := B.association_size n f
        unfold Tlv.Record.Fits
        omega
      · exact (settingRecords_plain B hf r hr).2
    · exact functionRecords_fits hfs r hr

/-- Without its associations, the device is its interfaces in order. -/
theorem filter_functionRecords : ∀ {fs : List UsbFunction} {n : ℕ}, (∀ s ∈ fs.flatMap (·.settings), s.Plain) →
    (functionRecords B n fs).filter (·.kind != associationKind) =
      settingRecords B n (fs.flatMap (·.settings))
  | [], _, _ => rfl
  | f :: fs, n, h => by
    rw [List.flatMap_cons] at h
    obtain ⟨hf, hfs⟩ := List.forall_mem_append.mp h
    have hassoc : (B.association n f).filter (·.kind != associationKind) = [] := by
      apply List.filter_eq_nil_iff.mpr
      intro r hr
      rw [B.association_kind n f r hr]
      decide
    have hsettings : (settingRecords B n f.settings).filter (·.kind != associationKind) =
        settingRecords B n f.settings := by
      apply List.filter_eq_self.mpr
      intro r hr
      exact bne_iff_ne.mpr (settingRecords_plain B hf r hr).1
    unfold functionRecords
    rw [List.filter_append, List.filter_append, hassoc, hsettings, List.nil_append,
      filter_functionRecords hfs, List.flatMap_cons, settingRecords_append]

theorem head_settingRecords (n : ℕ) (ss : List Setting) :
    ∀ r, (settingRecords B n ss).head? = some r → isInterface r = true := by
  intro r hr
  cases ss with
  | nil => cases hr
  | cons s ss =>
    obtain rfl := Option.some.inj hr
    exact beq_iff_eq.mpr (B.interface_kind n s)

/-- The sections of the records are the interfaces. -/
theorem sections_settingRecords : ∀ {ss : List Setting} {n : ℕ}, (∀ s ∈ ss, s.Plain) →
    (Tlv.sections isInterface (settingRecords B n ss)).mapM readInterface = some (interfaces B n ss)
  | [], _, _ => rfl
  | s :: ss, n, h => by
    obtain ⟨hs, hss⟩ := List.forall_mem_cons.mp h
    have hplain : ∀ r ∈ itemRecords B n 0 s.items, isInterface r = false :=
      fun r hr => beq_eq_false_iff_ne.mpr (itemRecords_plain B n hs r hr).1
    have hhead : isInterface (B.interface n s) = true := beq_iff_eq.mpr (B.interface_kind n s)
    have hsections := Tlv.sections_cons hhead hplain (head_settingRecords B (n + 1) ss)
    have hread : readInterface (B.interface n s, itemRecords B n 0 s.items) =
        some ⟨UInt8.ofNat n, s.cls, s.subclass, s.protocol, itemRecords B n 0 s.items⟩ := by
      unfold readInterface
      rw [B.interface_read]
      rfl
    unfold settingRecords
    rw [hsections, List.mapM_cons, hread, sections_settingRecords hss]
    rfl

/-- **The host finds the interfaces as they were set up.** -/
theorem readConfiguration_configuration {fs : List UsbFunction} (h : ∀ s ∈ fs.flatMap (·.settings), s.Plain) :
    readConfiguration (configuration B fs) = some (interfaces B 0 (fs.flatMap (·.settings))) := by
  unfold readConfiguration configuration
  rw [Tlv.walk_encodeAll (functionRecords_fits B h), Option.bind_some, filter_functionRecords B h,
    sections_settingRecords B h]

/-- The bytes of the device, with an association before each function. -/
theorem size_functionRecords_le : ∀ (fs : List UsbFunction) (n : ℕ), Tlv.size (functionRecords B n fs) ≤
    (fs.map fun f => 8 + (f.settings.map fun s => 9 + (s.items.map Item.length).sum).sum).sum
  | [], _ => Nat.le_refl 0
  | f :: fs, n => by
    have ih := size_functionRecords_le fs (n + f.settings.length)
    have hassoc := B.association_size n f
    have hsettings := size_settingRecords B f.settings n
    unfold functionRecords
    rw [Tlv.size_append, Tlv.size_append, hsettings, List.map_cons, List.sum_cons]
    omega

end Reading

/-! ### The links between a class's interfaces -/

/-- The union names the control interface itself and the data interface; the
notification endpoint is polled every millisecond and takes a notification. -/
structure CdcLinked (control data : Interface) : Prop where
  control_class : (control.cls, control.subclass) = (CdcSerialState.usbClassCdc, CdcSerialState.cdcSubclassAcm)
  data_class : data.cls = CdcSerialState.usbClassCdcData
  union : control.union = some (control.number, data.number)
  notifications : control.endpoints = [⟨.inn, .interrupt, 10, 1⟩]

/-- The header collects the streaming interface, whose own header counts every
byte behind its interface descriptor; its endpoints are interrupt endpoints. -/
structure MidiLinked (control streaming : Interface) : Prop where
  control_class : (control.cls, control.subclass) =
    (MidiInterrupt.usbAudioClass, MidiInterrupt.usbAudiocontrolSubclass)
  streaming_class : (streaming.cls, streaming.subclass) =
    (MidiInterrupt.usbAudioClass, MidiInterrupt.usbMidistreamingSubclass)
  collected : control.collected = some streaming.number
  announced : streaming.announced = some (Tlv.size streaming.records)
  interrupt : ∀ e ∈ streaming.endpoints, e.transfer = .interrupt

/-- The two interfaces of a function of this repository. -/
def Linked (f : UsbFunction) (p : Interface × Interface) : Prop :=
  (f.cls = CdcSerialState.usbClassCdc ∧ CdcLinked p.1 p.2) ∨
    (f.cls = MidiInterrupt.usbAudioClass ∧ MidiLinked p.1 p.2)

/-- A device of these classes, numbered from `n` on. -/
inductive Composite : ℕ → List UsbFunction → Prop
  | nil {n : ℕ} : Composite n []
  | cdc {n controlBufLen : ℕ} {maxPacketSize : UInt16} {f : UsbFunction} {fs : List UsbFunction}
      (hf : cdcFunction controlBufLen (UInt8.ofNat n) maxPacketSize = some f) (hfs : Composite (n + 2) fs) :
      Composite n (f :: fs)
  | midi {n : ℕ} {nInJacks nOutJacks pollMs : UInt8} {maxPacketSize : UInt16} {f : UsbFunction}
      {fs : List UsbFunction} (hf : midiFunction (UInt8.ofNat n) nInJacks nOutJacks maxPacketSize pollMs = some f)
      (hfs : Composite (n + 2) fs) : Composite n (f :: fs)

/-- What a function of this repository is to the host. -/
structure Reads (B : Builder) (n : ℕ) (f : UsbFunction) (p : Interface × Interface) : Prop where
  interfaces : interfaces B n f.settings = [p.1, p.2]
  settings : f.settings.length = 2
  plain : ∀ s ∈ f.settings, s.Plain
  linked : Linked f p

theorem ofNat_succ (n : ℕ) : UInt8.ofNat n + 1 = UInt8.ofNat (n + 1) := by
  rw [UInt8.ofNat_add]
  rfl

/-- The kinds of the two classes' descriptors are not standard ones. -/
theorem plain_class {kind : UInt8} {body : List UInt8} (hkind : kind = 0x24 ∨ kind = 0x25)
    (hlen : body.length ≤ 253) : (Item.descriptor kind body).Plain := by
  refine ⟨?_, by omega⟩
  rcases hkind with rfl | rfl
  · decide
  · decide

/-- Up to 16 jacks, no descriptor of the MIDIStreaming interface is too long. -/
theorem plain_stream {nIn nOut : UInt8} (hIn : nIn.toNat ≤ 16) (hOut : nOut.toNat ≤ 16) (maxPacketSize : UInt16)
    (pollMs : UInt8) :
    ∀ d ∈ MidiInterrupt.streamDescriptors nIn nOut maxPacketSize pollMs, (ofMidiDescriptor d).Plain := by
  have hendpoint : ∀ {n : UInt8} {id : UInt8 → UInt8} {ep : MidiInterrupt.Descriptor}, n.toNat ≤ 16 →
      ∀ d ∈ MidiInterrupt.endpointDescriptors n id ep, (ofMidiDescriptor ep).Plain →
      (ofMidiDescriptor d).Plain := by
    intro n id ep hn d hd hep
    unfold MidiInterrupt.endpointDescriptors at hd
    split at hd
    · rcases List.mem_pair.mp hd with rfl | rfl
      · exact hep
      · refine plain_class (.inr rfl) ?_
        simp only [List.length_cons, List.length_map, MidiInterrupt.length_upTo]
        omega
    · cases hd
  intro d hd
  unfold MidiInterrupt.streamDescriptors MidiInterrupt.jacks at hd
  simp only [List.mem_append, List.mem_cons, List.mem_map] at hd
  rcases hd with ((rfl | ((⟨i, -, rfl⟩ | ⟨i, -, rfl⟩) | ⟨i, -, rfl⟩) | ⟨i, -, rfl⟩) | hd) | hd
  · exact plain_class (.inl rfl) (by simp)
  · exact plain_class (.inl rfl) (by simp)
  · exact plain_class (.inl rfl) (by simp)
  · exact plain_class (.inl rfl) (by simp)
  · exact plain_class (.inl rfl) (by simp)
  · exact hendpoint hOut d hd trivial
  · exact hendpoint hIn d hd trivial

theorem length_ofMidiDescriptor (d : MidiInterrupt.Descriptor) : (ofMidiDescriptor d).length = d.length := by
  cases d <;> rfl

section Links

variable (B : Builder) (n : ℕ)

theorem cdc_reads {controlBufLen : ℕ} {maxPacketSize : UInt16} {f : UsbFunction}
    (hf : cdcFunction controlBufLen (UInt8.ofNat n) maxPacketSize = some f) : ∃ p, Reads B n f p := by
  obtain ⟨⟨ifs, c⟩, hnew, rfl⟩ := Option.map_eq_some_iff.mp hf
  unfold CdcSerialState.new at hnew
  obtain ⟨-, hifs⟩ := StepRun.guard_some hnew
  obtain ⟨rfl, -⟩ := Prod.mk.inj hifs
  have hplain : ∀ s ∈ [ofCdc (CdcSerialState.controlInterface (UInt8.ofNat n)),
      ofCdc (CdcSerialState.dataInterface maxPacketSize)], s.Plain := by
    intro s hs i hi
    rcases List.mem_pair.mp hs with rfl | rfl
    · simp only [ofCdc, CdcSerialState.controlInterface, List.map_cons, List.map_nil, List.mem_cons,
        List.not_mem_nil, or_false] at hi
      rcases hi with rfl | rfl | rfl | rfl
      · exact plain_class (.inl rfl) (by simp)
      · exact plain_class (.inl rfl) (by simp)
      · exact plain_class (.inl rfl) (by simp)
      · trivial
    · simp only [ofCdc, CdcSerialState.dataInterface, List.map_cons, List.map_nil, List.mem_cons,
        List.not_mem_nil, or_false] at hi
      rcases hi with rfl | rfl
      · trivial
      · trivial
  have hcontrol := hplain _ List.mem_cons_self
  refine ⟨(⟨_, _, _, _, _⟩, ⟨_, _, _, _, _⟩), rfl, rfl, hplain, .inl ⟨rfl, rfl, rfl, ?_, ?_⟩⟩
  · show some (UInt8.ofNat n, UInt8.ofNat n + 1) = some (UInt8.ofNat n, UInt8.ofNat (n + 1))
    rw [ofNat_succ]
  · exact filterMap_itemRecords B n hcontrol

theorem midi_reads {nIn nOut pollMs : UInt8} {maxPacketSize : UInt16} {f : UsbFunction}
    (hf : midiFunction (UInt8.ofNat n) nIn nOut maxPacketSize pollMs = some f) : ∃ p, Reads B n f p := by
  obtain ⟨ifs, hnew, rfl⟩ := Option.map_eq_some_iff.mp hf
  obtain ⟨hIn, hOut⟩ := MidiInterrupt.new_bounds hnew
  rw [MidiInterrupt.new_eq hIn hOut] at hnew
  obtain rfl := Option.some.inj hnew
  have hstream : ∀ i ∈ (MidiInterrupt.streamDescriptors nIn nOut maxPacketSize pollMs).map ofMidiDescriptor,
      i.Plain := by
    intro i hi
    obtain ⟨d, hd, rfl⟩ := List.mem_map.mp hi
    exact plain_stream hIn hOut maxPacketSize pollMs d hd
  refine ⟨(⟨_, _, _, _, _⟩, ⟨_, _, _, _, _⟩), rfl, rfl, ?_, .inr ⟨rfl, rfl, rfl, ?_, ?_, ?_⟩⟩
  · intro s hs
    rcases List.mem_pair.mp hs with rfl | rfl
    · intro i hi
      obtain rfl := List.mem_singleton.mp hi
      exact plain_class (.inl rfl) (by simp)
    · exact hstream
  · show some (UInt8.ofNat n + 1) = some (UInt8.ofNat (n + 1))
    rw [ofNat_succ]
  · have hlengths : ((MidiInterrupt.streamDescriptors nIn nOut maxPacketSize pollMs).map ofMidiDescriptor).map
        Item.length = (MidiInterrupt.streamDescriptors nIn nOut maxPacketSize pollMs).map
        MidiInterrupt.Descriptor.length := by
      rw [List.map_map]
      exact List.map_congr_left fun d _ => length_ofMidiDescriptor d
    have hsize := size_itemRecords B (n + 1)
      ((MidiInterrupt.streamDescriptors nIn nOut maxPacketSize pollMs).map ofMidiDescriptor) 0
    rw [hlengths, MidiInterrupt.total_length] at hsize
    have hbytes := MidiInterrupt.bytes_eq (MidiInterrupt.total_length_lt hIn hOut)
    rw [← hsize] at hbytes
    show some (Bytes.ofLe [MidiInterrupt.lowByte (MidiInterrupt.midiStreamingTotalLength nIn nOut),
      MidiInterrupt.highByte (MidiInterrupt.midiStreamingTotalLength nIn nOut)]) = _
    rw [← hsize]
    exact congrArg some hbytes
  · intro e he
    have hread : _ = ((MidiInterrupt.streamDescriptors nIn nOut maxPacketSize pollMs).map
      ofMidiDescriptor).filterMap Item.endpoint? := filterMap_itemRecords B (n + 1) (k := 0) hstream
    have hmem : e ∈ ((MidiInterrupt.streamDescriptors nIn nOut maxPacketSize pollMs).map
      ofMidiDescriptor).filterMap Item.endpoint? := hread ▸ he
    obtain ⟨i, hi, hsome⟩ := List.mem_filterMap.mp hmem
    obtain ⟨d, -, rfl⟩ := List.mem_map.mp hi
    cases d with
    | descriptor kind body => cases hsome
    | endpointInterruptOut size poll =>
      obtain rfl := Option.some.inj hsome
      rfl
    | endpointInterruptIn size poll =>
      obtain rfl := Option.some.inj hsome
      rfl

end Links

theorem interfaces_append (B : Builder) : ∀ (ss ss' : List Setting) (n : ℕ),
    interfaces B n (ss ++ ss') = interfaces B n ss ++ interfaces B (n + ss.length) ss'
  | [], _, _ => rfl
  | s :: ss, ss', n => by
    have hlen : n + 1 + ss.length = n + (s :: ss).length := by
      rw [List.length_cons]
      omega
    show _ :: interfaces B (n + 1) (ss ++ ss') = _ :: interfaces B (n + 1) ss ++ _
    rw [interfaces_append B ss ss', hlen, List.cons_append]

theorem numbers_interfaces (B : Builder) : ∀ (ss : List Setting) (n : ℕ),
    (interfaces B n ss).map (·.number) = (List.range' n ss.length).map UInt8.ofNat
  | [], _ => rfl
  | s :: ss, n => by
    rw [List.length_cons, List.range'_succ, List.map_cons, ← numbers_interfaces B ss (n + 1)]
    rfl

/-- Function by function. -/
theorem composite_interfaces (B : Builder) {n : ℕ} {fs : List UsbFunction} (h : Composite n fs) :
    ∃ ps : List (Interface × Interface),
      interfaces B n (fs.flatMap (·.settings)) = ps.flatMap (fun p => [p.1, p.2]) ∧
      List.Forall₂ Linked fs ps ∧ (fs.flatMap (·.settings)).length = 2 * fs.length ∧
      ∀ s ∈ fs.flatMap (·.settings), s.Plain := by
  have hcons : ∀ {n : ℕ} {f : UsbFunction} {fs : List UsbFunction} {p : Interface × Interface}
      {ps : List (Interface × Interface)}, Reads B n f p →
      interfaces B (n + 2) (fs.flatMap (·.settings)) = ps.flatMap (fun p => [p.1, p.2]) →
      interfaces B n ((f :: fs).flatMap (·.settings)) = (p :: ps).flatMap fun p => [p.1, p.2] := by
    intro n f fs p ps hp hps
    rw [List.flatMap_cons, List.flatMap_cons, interfaces_append, hp.interfaces, hp.settings, hps]
  have hlength : ∀ {f : UsbFunction} {fs : List UsbFunction}, f.settings.length = 2 →
      (fs.flatMap (·.settings)).length = 2 * fs.length →
      ((f :: fs).flatMap (·.settings)).length = 2 * (f :: fs).length := by
    intro f fs hf hfs
    rw [List.flatMap_cons, List.length_append, hf, hfs, List.length_cons]
    omega
  induction h with
  | nil => exact ⟨[], rfl, .nil, rfl, fun s hs => by cases hs⟩
  | cdc hf _ ih =>
    obtain ⟨p, hp⟩ := cdc_reads B _ hf
    obtain ⟨ps, hps, hlinked, hlen, hplain⟩ := ih
    refine ⟨p :: ps, hcons hp hps, .cons hp.linked hlinked, hlength hp.settings hlen, ?_⟩
    rw [List.flatMap_cons]
    exact List.forall_mem_append.mpr ⟨hp.plain, hplain⟩
  | midi hf _ ih =>
    obtain ⟨p, hp⟩ := midi_reads B _ hf
    obtain ⟨ps, hps, hlinked, hlen, hplain⟩ := ih
    refine ⟨p :: ps, hcons hp hps, .cons hp.linked hlinked, hlength hp.settings hlen, ?_⟩
    rw [List.flatMap_cons]
    exact List.forall_mem_append.mpr ⟨hp.plain, hplain⟩

/-! ### The theorem -/

/-- **The configuration reads back.** Of a device made of these classes, with
any numbers of jacks, the host finds two interfaces for each function, numbered
from 0 on, and in each pair the references from one interface to the other and
the announced length are right. -/
theorem composite_reads (B : Builder) {fs : List UsbFunction} (h : Composite 0 fs) :
    ∃ ps : List (Interface × Interface),
      readConfiguration (configuration B fs) = some (ps.flatMap fun p => [p.1, p.2]) ∧
      (ps.flatMap fun p => [p.1, p.2]).map (·.number) = (List.range (2 * fs.length)).map UInt8.ofNat ∧
      List.Forall₂ Linked fs ps := by
  obtain ⟨ps, hps, hlinked, hlen, hplain⟩ := composite_interfaces B h
  refine ⟨ps, ?_, ?_, hlinked⟩
  · rw [readConfiguration_configuration B hplain, hps]
  · rw [← hps, numbers_interfaces, hlen, List.range_eq_range']

/-! ### The device of `main` -/

/-- `main` opens the classes with the numbers the builder has come to. -/
theorem mainFunctions_composite (B : Builder) {serial midi : Bool} {fs : List UsbFunction}
    (h : mainFunctions serial midi = some fs) : Composite 0 fs := by
  obtain ⟨cdc, hcdc, h⟩ := Option.bind_eq_some_iff.mp h
  obtain ⟨midiClass, hmidi, rfl⟩ := Option.map_eq_some_iff.mp h
  have hrest : ∀ n, UInt8.ofNat (cdc.flatMap (·.settings)).length = UInt8.ofNat n → Composite n midiClass := by
    intro n hn
    cases midi with
    | false =>
      obtain rfl := Option.some.inj hmidi
      exact .nil
    | true =>
      rw [if_pos rfl] at hmidi
      obtain ⟨g, hg, rfl⟩ := Option.map_eq_some_iff.mp hmidi
      rw [hn] at hg
      exact .midi hg .nil
  cases serial with
  | false =>
    obtain rfl := Option.some.inj hcdc
    exact hrest 0 rfl
  | true =>
    rw [if_pos rfl] at hcdc
    obtain ⟨f, hf, rfl⟩ := Option.map_eq_some_iff.mp hcdc
    obtain ⟨p, hp⟩ := cdc_reads B 0 hf
    refine .cdc hf (hrest 2 ?_)
    rw [List.flatMap_singleton, hp.settings]

/-- The room the functions take, associations included. -/
def room (fs : List UsbFunction) : ℕ :=
  (fs.map fun f => 8 + (f.settings.map fun s => 9 + (s.items.map Item.length).sum).sum).sum

theorem room_main : ∀ serial midi, (mainFunctions serial midi).any (fun fs => 9 + room fs ≤ 512) = true := by
  decide +kernel

/-- Behind the configuration descriptor's own 9 bytes, the functions fit its
buffer, whatever the features. -/
theorem main_fits (B : Builder) (serial midi : Bool) :
    ∃ fs, mainFunctions serial midi = some fs ∧ Composite 0 fs ∧ 9 + (configuration B fs).length ≤ 512 := by
  obtain ⟨fs, hfs, hroom⟩ := (Option.any_eq_true _ _).mp (room_main serial midi)
  have hle := of_decide_eq_true hroom
  have hsize := size_functionRecords_le B fs 0
  refine ⟨fs, hfs, mainFunctions_composite B hfs, ?_⟩
  unfold configuration
  rw [Tlv.length_encodeAll]
  unfold room at hle
  omega

/-- An endpoint's address, chosen by its interface. In the device of `main` with
both classes or the CDC class it is the next free one in its direction; with
the MIDI class alone the next free one is `0x81`, and this is `0x82`. -/
def address (n : ℕ) : Direction → UInt8
  | .out => 0x01
  | .inn => if n = 0 then 0x81 else if n = 1 then 0x82 else 0x83

def attributes : Transfer → UInt8
  | .bulk => 2
  | .interrupt => 3

theorem read_address (n : ℕ) (d : Direction) :
    (if address n d &&& 0x80 = 0 then Direction.out else .inn) = d := by
  have hout : address n .out &&& 0x80 = 0 := by
    show (0x01 : UInt8) &&& 0x80 = 0
    decide
  have hinn : address n .inn &&& 0x80 ≠ 0 := by
    show (if n = 0 then (0x81 : UInt8) else if n = 1 then 0x82 else 0x83) &&& 0x80 ≠ 0
    by_cases h0 : n = 0
    · rw [if_pos h0]
      decide
    · rw [if_neg h0]
      by_cases h1 : n = 1
      · rw [if_pos h1]
        decide
      · rw [if_neg h1]
        decide
  cases d with
  | out => exact if_pos hout
  | inn => exact if_neg hinn

theorem read_attributes (t : Transfer) : (if attributes t &&& 3 = 2 then Transfer.bulk else .interrupt) = t := by
  cases t <;> rfl

/-- A builder as USB 2.0 lays the descriptors out. -/
def standard : Builder where
  association n f :=
    [⟨associationKind, [UInt8.ofNat n, UInt8.ofNat f.settings.length, f.cls, f.subclass, f.protocol, 0]⟩]
  interface n s :=
    ⟨interfaceKind, [UInt8.ofNat n, 0, UInt8.ofNat (s.items.filterMap Item.endpoint?).length, s.cls, s.subclass,
      s.protocol, 0]⟩
  endpoint n _ e :=
    ⟨endpointKind, address n e.direction :: attributes e.transfer ::
      (Bytes.le 2 e.maxPacketSize.toNat ++ [e.interval])⟩
  association_kind _ _ _ hr := (List.mem_singleton.mp hr) ▸ rfl
  association_size _ _ := Nat.le_refl 8
  interface_kind _ _ := rfl
  interface_length _ _ := rfl
  interface_read _ _ := rfl
  endpoint_kind _ _ _ := rfl
  endpoint_length _ _ _ := rfl
  endpoint_read n _ e := by
    have hsize : UInt16.ofNat (Bytes.ofLe (Bytes.le 2 e.maxPacketSize.toNat)) = e.maxPacketSize := by
      rw [Bytes.ofLe_le e.maxPacketSize.toNat_lt, UInt16.ofNat_toNat]
    show some (Endpoint.mk (if address n e.direction &&& 0x80 = 0 then .out else .inn)
      (if attributes e.transfer &&& 3 = 2 then .bulk else .interrupt)
      (UInt16.ofNat (Bytes.ofLe (Bytes.le 2 e.maxPacketSize.toNat))) e.interval) = _
    rw [read_address, read_attributes, hsize]

/-- The device of `main` with both classes. -/
theorem composite_reads_main : ∃ fs ps, mainFunctions true true = some fs ∧
    readConfiguration (configuration standard fs) = some (ps.flatMap fun p => [p.1, p.2]) ∧
    (ps.flatMap fun p => [p.1, p.2]).map (·.number) = [0, 1, 2, 3] ∧ List.Forall₂ Linked fs ps ∧
    9 + (configuration standard fs).length ≤ 512 := by
  obtain ⟨fs, hfs, hcomposite, hfits⟩ := main_fits standard true true
  obtain ⟨ps, hread, hnumbers, hlinked⟩ := composite_reads standard hcomposite
  have hlength : (mainFunctions true true).map List.length = some 2 := by decide +kernel
  have hfs2 : fs.length = 2 := by
    rw [hfs] at hlength
    exact Option.some.inj hlength
  refine ⟨fs, ps, hfs, hread, ?_, hlinked, hfits⟩
  rw [hnumbers, hfs2]
  rfl

end Descriptors
end RpKeyer
