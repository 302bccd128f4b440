/-
# The MIDI class descriptors

`midi_interrupt.rs`: `MidiInterruptClass::new` writes the total length of the
MIDIStreaming descriptors into their header before it emits them: four loops
over the jacks, and an endpoint in each direction that has a jack, its list of
embedded jacks filled into one shared buffer of 18 bytes. The buffer is
indexed with bounds checks, so more than 16 jacks of a direction panic
(`endpointBlock_eq`); up to 16 the lengths add up (`total_length`) and the jack
ids are the numbers from 1 on (`jackIds_perm`).

A descriptor is what is handed to the builder: a class descriptor is its kind
and body, behind two bytes of length and kind; a standard endpoint descriptor
is 7 bytes.
-/
import Mathlib.Data.List.Nodup
import Mathlib.Data.List.Range
import RpKeyer.Lib.Bytes

namespace RpKeyer
namespace MidiInterrupt

/-! ### Constants -/

def usbAudioClass : UInt8 := 0x01
def usbAudiocontrolSubclass : UInt8 := 0x01
def usbMidistreamingSubclass : UInt8 := 0x03
def midiInJackSubtype : UInt8 := 0x02
def midiOutJackSubtype : UInt8 := 0x03
def embedded : UInt8 := 0x01
def external : UInt8 := 0x02
def csInterface : UInt8 := 0x24
def csEndpoint : UInt8 := 0x25
def headerSubtype : UInt8 := 0x01
def msHeaderSubtype : UInt8 := 0x01
def msGeneral : UInt8 := 0x01
def protocolNone : UInt8 := 0x00
def midiInSize : UInt8 := 0x06
def midiOutSize : UInt8 := 0x09

/-! ### What is emitted -/

inductive Descriptor
  | descriptor (kind : UInt8) (body : List UInt8)
  | endpointInterruptOut (maxPacketSize : UInt16) (pollMs : UInt8)
  | endpointInterruptIn (maxPacketSize : UInt16) (pollMs : UInt8)
  deriving DecidableEq, Repr

/-- Its bytes. -/
def Descriptor.length : Descriptor → ℕ
  | .descriptor _ body => 2 + body.length
  | .endpointInterruptOut _ _ => 7
  | .endpointInterruptIn _ _ => 7

/-- An interface's setting and the descriptors that follow it. -/
structure AltSetting where
  cls : UInt8
  subclass : UInt8
  protocol : UInt8
  descriptors : List Descriptor
  deriving DecidableEq, Repr

/-- `(n & 0xFF) as u8`. -/
def lowByte (n : ℕ) : UInt8 := UInt8.ofNat (n &&& 0xFF)

/-- `((n >> 8) & 0xFF) as u8`. -/
def highByte (n : ℕ) : UInt8 := UInt8.ofNat (n >>> 8 &&& 0xFF)

/-- `0..n`. -/
def upTo (n : UInt8) : List UInt8 := (List.range n.toNat).map UInt8.ofNat

/-- `data[i] = b`; `none` is the panic of an index out of bounds. -/
def store (data : List UInt8) (i : ℕ) (b : UInt8) : Option (List UInt8) :=
  if i < data.length then some (data.set i b) else none

/-- `&data[0..n]`; `none` is the panic. -/
def prefixOf (data : List UInt8) (n : ℕ) : Option (List UInt8) :=
  if n ≤ data.length then some (data.take n) else none

/-- The audio control interface: one header. -/
def audioControl (audioIf : UInt8) : AltSetting :=
  let nCollections : UInt8 := 1
  let acTotalLen := 8 + nCollections.toNat
  ⟨usbAudioClass, usbAudiocontrolSubclass, protocolNone,
    [.descriptor csInterface
      [headerSubtype, 0x00, 0x01, lowByte acTotalLen, highByte acTotalLen, nCollections, audioIf + 1]]⟩

section Jacks

variable (nInJacks nOutJacks : UInt8)

/-- The length the header announces. -/
def midiStreamingTotalLength : ℕ :=
  7 + (nInJacks.toNat + nOutJacks.toNat) * (midiInSize.toNat + midiOutSize.toNat) +
    (if 0 < nOutJacks then 7 + (4 + nOutJacks.toNat) else 0) +
    (if 0 < nInJacks then 7 + (4 + nInJacks.toNat) else 0)

def inJackIdExt (index : UInt8) : UInt8 := 2 * index + 1
def outJackIdEmb (index : UInt8) : UInt8 := 2 * index + 2
def outJackIdExt (index : UInt8) : UInt8 := 2 * nInJacks + 2 * index + 1
def inJackIdEmb (index : UInt8) : UInt8 := 2 * nInJacks + 2 * index + 2

def msHeader : Descriptor :=
  .descriptor csInterface [msHeaderSubtype, 0x00, 0x01,
    lowByte (midiStreamingTotalLength nInJacks nOutJacks), highByte (midiStreamingTotalLength nInJacks nOutJacks)]

def inJack (kind id : UInt8) : Descriptor :=
  .descriptor csInterface [midiInJackSubtype, kind, id, 0x00]

def outJack (kind id source : UInt8) : Descriptor :=
  .descriptor csInterface [midiOutJackSubtype, kind, id, 0x01, source, 0x01, 0x00]

/-- The four loops. -/
def jacks : List Descriptor :=
  (upTo nInJacks).map (fun i => inJack external (inJackIdExt i)) ++
  (upTo nOutJacks).map (fun i => inJack embedded (inJackIdEmb nInJacks i)) ++
  (upTo nOutJacks).map (fun i => outJack external (outJackIdExt nInJacks i) (inJackIdEmb nInJacks i)) ++
  (upTo nInJacks).map (fun i => outJack embedded (outJackIdEmb i) (inJackIdExt i))

/-- The block of one direction with `n` jacks: count and ids into the shared
buffer, the endpoint, and the front of the buffer as its class descriptor. -/
def endpointBlock (endpointData : List UInt8) (n : UInt8) (id : UInt8 → UInt8) (ep : Descriptor) :
    Option (List UInt8 × List Descriptor) :=
  if 0 < n then do
    let counted ← store endpointData 1 n
    let filled ← (upTo n).foldlM (fun data i => store data (2 + i.toNat) (id i)) counted
    let body ← prefixOf filled (2 + n.toNat)
    some (filled, [ep, .descriptor csEndpoint body])
  else some (endpointData, [])

/-- The shared buffer: subtype, number of jacks, 16 jack mappings. -/
def endpointData : List UInt8 := msGeneral :: 0 :: List.replicate 16 0

/-- The MIDIStreaming interface. -/
def midiStreaming (maxPacketSize : UInt16) (pollMs : UInt8) : Option AltSetting := do
  let (shared, out) ←
    endpointBlock endpointData nOutJacks (inJackIdEmb nInJacks) (.endpointInterruptOut maxPacketSize pollMs)
  let (_, inn) ← endpointBlock shared nInJacks outJackIdEmb (.endpointInterruptIn maxPacketSize pollMs)
  some ⟨usbAudioClass, usbMidistreamingSubclass, protocolNone,
    msHeader nInJacks nOutJacks :: jacks nInJacks nOutJacks ++ out ++ inn⟩

/-- The settings of the two interfaces; `none` is a panic. -/
def new (audioIf nInJacks nOutJacks : UInt8) (maxPacketSize : UInt16) (pollMs : UInt8) :
    Option (AltSetting × AltSetting) := do
  let ms ← midiStreaming nInJacks nOutJacks maxPacketSize pollMs
  some (audioControl audioIf, ms)

end Jacks

/-! ### What a host reads -/

/-- Kind and id of an IN jack. -/
def Descriptor.inJack? : Descriptor → Option (UInt8 × UInt8)
  | .descriptor kind [subtype, jack, id, _] =>
    if kind = csInterface ∧ subtype = midiInJackSubtype then some (jack, id) else none
  | _ => none

/-- Kind, id and source of an OUT jack. -/
def Descriptor.outJack? : Descriptor → Option (UInt8 × UInt8 × UInt8)
  | .descriptor kind [subtype, jack, id, _, source, _, _] =>
    if kind = csInterface ∧ subtype = midiOutJackSubtype then some (jack, id, source) else none
  | _ => none

def inJacks (ds : List Descriptor) : List (UInt8 × UInt8) := ds.filterMap Descriptor.inJack?

def outJacks (ds : List Descriptor) : List (UInt8 × UInt8 × UInt8) := ds.filterMap Descriptor.outJack?

/-- The ids of all jacks. -/
def jackIds (ds : List Descriptor) : List UInt8 :=
  (inJacks ds).map (·.2) ++ (outJacks ds).map (·.2.1)

/-- The ids of the embedded jacks of a direction. -/
def embeddedIn (ds : List Descriptor) : List UInt8 := ((inJacks ds).filter (·.1 = embedded)).map (·.2)

def embeddedOut (ds : List Descriptor) : List UInt8 := ((outJacks ds).filter (·.1 = embedded)).map (·.2.1)

def Descriptor.isOut : Descriptor → Bool
  | .endpointInterruptOut _ _ => true
  | _ => false

def Descriptor.isIn : Descriptor → Bool
  | .endpointInterruptIn _ _ => true
  | _ => false

/-- What follows each descriptor that `p` picks. -/
def following (p : Descriptor → Bool) : List Descriptor → List (Option Descriptor)
  | [] => []
  | d :: ds => if p d then ds.head? :: following p ds else following p ds

/-! ### The shared buffer -/

@[simp] theorem length_upTo (n : UInt8) : (upTo n).length = n.toNat := by
  rw [upTo, List.length_map, List.length_range]

theorem toNat_ofNat_lt {n : UInt8} {i : ℕ} (h : i < n.toNat) : (UInt8.ofNat i).toNat = i := by
  have hn := n.toNat_lt
  rw [UInt8.toNat_ofNat']
  omega

/-- The ids, in bounds, are the bytes from the third on. -/
theorem foldlM_store (id : UInt8 → UInt8) (data : List UInt8) : ∀ (n : ℕ), n < 256 → 2 + n ≤ data.length →
    ((List.range n).map UInt8.ofNat).foldlM (fun data i => store data (2 + i.toNat) (id i)) data =
      some (Bytes.overwrite data 2 (((List.range n).map UInt8.ofNat).map id))
  | 0, _, _ => congrArg some (Bytes.overwrite_nil data 2).symm
  | n + 1, hn, hlen => by
    have ih := foldlM_store id data n (by omega) (by omega)
    have hids : (((List.range n).map UInt8.ofNat).map id).length = n := by simp
    have hi : (UInt8.ofNat n).toNat = n := by
      rw [UInt8.toNat_ofNat']
      omega
    have hin : 2 + n < (Bytes.overwrite data 2 (((List.range n).map UInt8.ofNat).map id)).length := by
      rw [Bytes.length_overwrite (by omega)]
      omega
    have hset := Bytes.set_overwrite (by omega : 2 + (((List.range n).map UInt8.ofNat).map id).length < data.length)
      (id (UInt8.ofNat n))
    rw [hids] at hset
    rw [List.range_succ, List.map_append, List.foldlM_append, ih, List.map_append]
    show (store _ (2 + (UInt8.ofNat n).toNat) (id (UInt8.ofNat n))).bind some = _
    rw [hi, store, if_pos hin, hset]
    rfl

/-- An id out of bounds panics. -/
theorem foldlM_store_bounds {id : UInt8 → UInt8} : ∀ {is data data' : List UInt8},
    is.foldlM (fun data i => store data (2 + i.toNat) (id i)) data = some data' →
      ∀ i ∈ is, 2 + i.toNat < data.length
  | [], _, _, _ => fun i hi => by cases hi
  | i :: is, data, data', h => by
    rw [List.foldlM_cons] at h
    obtain ⟨data₁, hstore, hrest⟩ := Option.bind_eq_some_iff.mp h
    unfold store at hstore
    split at hstore
    · rename_i hin
      obtain rfl := Option.some.inj hstore
      have hbounds := foldlM_store_bounds hrest
      rw [List.length_set] at hbounds
      exact List.forall_mem_cons.mpr ⟨hin, hbounds⟩
    · cases hstore

/-- The two descriptors of a direction that has a jack. -/
def endpointDescriptors (n : UInt8) (id : UInt8 → UInt8) (ep : Descriptor) : List Descriptor :=
  if 0 < n then [ep, .descriptor csEndpoint (msGeneral :: n :: (upTo n).map id)] else []

/-- Whatever the buffer held, up to 16 jacks are listed and nothing else. -/
theorem endpointBlock_eq {m n : UInt8} {rest : List UInt8} (hrest : rest.length = 16) (hn : n.toNat ≤ 16)
    (id : UInt8 → UInt8) (ep : Descriptor) : ∃ m' rest', rest'.length = 16 ∧
      endpointBlock (msGeneral :: m :: rest) n id ep =
        some (msGeneral :: m' :: rest', endpointDescriptors n id ep) := by
  unfold endpointBlock endpointDescriptors
  by_cases hpos : 0 < n
  · refine ⟨n, (upTo n).map id ++ rest.drop n.toNat, ?_, ?_⟩
    · rw [List.length_append, List.length_map, length_upTo, List.length_drop]
      omega
    · have hfill := foldlM_store id (msGeneral :: n :: rest) n.toNat (by omega)
        (by rw [List.length_cons, List.length_cons]; omega)
      have hfilled : Bytes.overwrite (msGeneral :: n :: rest) 2 ((upTo n).map id) =
          msGeneral :: n :: ((upTo n).map id ++ rest.drop n.toNat) := by
        unfold Bytes.overwrite
        rw [List.length_map, length_upTo, Nat.add_comm 2]
        rfl
      have hbody : prefixOf (msGeneral :: n :: ((upTo n).map id ++ rest.drop n.toNat)) (2 + n.toNat) =
          some (msGeneral :: n :: (upTo n).map id) := by
        have hin : 2 + n.toNat ≤ (msGeneral :: n :: ((upTo n).map id ++ rest.drop n.toNat)).length := by
          rw [List.length_cons, List.length_cons, List.length_append, List.length_map, length_upTo]
          omega
        have htake : ((upTo n).map id ++ rest.drop n.toNat).take n.toNat = (upTo n).map id := by
          rw [List.take_append_of_le_length (by simp), List.take_of_length_le (by simp)]
        unfold prefixOf
        rw [if_pos hin, Nat.add_comm, List.take_succ_cons, List.take_succ_cons, htake]
      have hstore : store (msGeneral :: m :: rest) 1 n = some (msGeneral :: n :: rest) := if_pos (by simp)
      rw [if_pos hpos, if_pos hpos]
      simp only [hstore, Option.bind_eq_bind, Option.bind_some]
      rw [upTo, hfill, Option.bind_some, ← upTo, hfilled, hbody, Option.bind_some]
  · exact ⟨m, rest, hrest, by rw [if_neg hpos, if_neg hpos]⟩

theorem endpointBlock_bounds {m n : UInt8} {rest : List UInt8} {id : UInt8 → UInt8} {ep : Descriptor}
    {r : List UInt8 × List Descriptor} (hrest : rest.length = 16)
    (h : endpointBlock (msGeneral :: m :: rest) n id ep = some r) : n.toNat ≤ 16 := by
  unfold endpointBlock at h
  split at h
  · obtain ⟨counted, hcounted, hrun⟩ := Option.bind_eq_some_iff.mp h
    obtain ⟨filled, hfilled, -⟩ := Option.bind_eq_some_iff.mp hrun
    obtain rfl : msGeneral :: n :: rest = counted := Option.some.inj hcounted
    by_contra hbig
    have hmem : UInt8.ofNat 16 ∈ upTo n :=
      List.mem_map_of_mem (List.mem_range.mpr (by omega))
    have hin := foldlM_store_bounds hfilled _ hmem
    rw [List.length_cons, List.length_cons, hrest] at hin
    exact absurd hin (by decide)
  · rename_i hpos
    have hzero : n.toNat = 0 := by
      have hnot : ¬0 < n.toNat := fun hlt => hpos (UInt8.lt_iff_toNat_lt.mpr hlt)
      omega
    omega

/-! ### The whole interface -/

/-- The descriptors of the MIDIStreaming interface, for up to 16 jacks a direction. -/
def streamDescriptors (nIn nOut : UInt8) (maxPacketSize : UInt16) (pollMs : UInt8) : List Descriptor :=
  msHeader nIn nOut :: jacks nIn nOut ++
    endpointDescriptors nOut (inJackIdEmb nIn) (.endpointInterruptOut maxPacketSize pollMs) ++
    endpointDescriptors nIn outJackIdEmb (.endpointInterruptIn maxPacketSize pollMs)

theorem new_eq {nIn nOut : UInt8} (hIn : nIn.toNat ≤ 16) (hOut : nOut.toNat ≤ 16) (audioIf : UInt8)
    (maxPacketSize : UInt16) (pollMs : UInt8) :
    new audioIf nIn nOut maxPacketSize pollMs =
      some (audioControl audioIf, ⟨usbAudioClass, usbMidistreamingSubclass, protocolNone,
        streamDescriptors nIn nOut maxPacketSize pollMs⟩) := by
  have hzeros : (List.replicate 16 (0 : UInt8)).length = 16 := List.length_replicate
  obtain ⟨m', rest', hlen, hout⟩ := endpointBlock_eq (m := 0) hzeros hOut
    (inJackIdEmb nIn) (.endpointInterruptOut maxPacketSize pollMs)
  obtain ⟨m'', rest'', -, hinn⟩ := endpointBlock_eq (m := m') hlen hIn
    outJackIdEmb (.endpointInterruptIn maxPacketSize pollMs)
  have hout' : endpointBlock endpointData nOut (inJackIdEmb nIn) (.endpointInterruptOut maxPacketSize pollMs) =
    some (msGeneral :: m' :: rest', _) := hout
  unfold new midiStreaming
  simp only [hout', hinn, Option.bind_eq_bind, Option.bind_some]
  rfl

theorem new_bounds {audioIf nIn nOut : UInt8} {maxPacketSize : UInt16} {pollMs : UInt8}
    {c : AltSetting × AltSetting} (h : new audioIf nIn nOut maxPacketSize pollMs = some c) :
    nIn.toNat ≤ 16 ∧ nOut.toNat ≤ 16 := by
  have hzeros : (List.replicate 16 (0 : UInt8)).length = 16 := List.length_replicate
  obtain ⟨ms, hms, -⟩ := Option.bind_eq_some_iff.mp h
  obtain ⟨⟨shared, out⟩, hout, hrest⟩ := Option.bind_eq_some_iff.mp hms
  obtain ⟨⟨final, inn⟩, hinn, -⟩ := Option.bind_eq_some_iff.mp hrest
  have hOut : nOut.toNat ≤ 16 := endpointBlock_bounds hzeros hout
  obtain ⟨m', rest', hlen, heq⟩ := endpointBlock_eq (m := 0) hzeros hOut
    (inJackIdEmb nIn) (.endpointInterruptOut maxPacketSize pollMs)
  obtain ⟨rfl, -⟩ := Prod.mk.inj (Option.some.inj (hout.symm.trans heq))
  exact ⟨endpointBlock_bounds hlen hinn, hOut⟩

/-! ### Total length -/

theorem sum_length_map {f : UInt8 → Descriptor} {c : ℕ} (h : ∀ i, (f i).length = c) (is : List UInt8) :
    ((is.map f).map Descriptor.length).sum = is.length * c := by
  have hconst : (is.map f).map Descriptor.length = is.map fun _ => c := by
    rw [List.map_map]
    exact List.map_congr_left fun i _ => h i
  rw [hconst, List.map_const', List.sum_replicate_nat]

theorem sum_length_jacks (nIn nOut : UInt8) :
    ((jacks nIn nOut).map Descriptor.length).sum = (nIn.toNat + nOut.toNat) * 15 := by
  have hin : ∀ kind id, (inJack kind id).length = 6 := fun _ _ => rfl
  have hout : ∀ kind id source, (outJack kind id source).length = 9 := fun _ _ _ => rfl
  unfold jacks
  simp only [List.map_append, List.sum_append]
  rw [sum_length_map (fun i => hin external (inJackIdExt i)),
    sum_length_map (fun i => hin embedded (inJackIdEmb nIn i)),
    sum_length_map (fun i => hout external (outJackIdExt nIn i) (inJackIdEmb nIn i)),
    sum_length_map (fun i => hout embedded (outJackIdEmb i) (inJackIdExt i)), length_upTo, length_upTo]
  omega

theorem sum_length_endpoint (n : UInt8) (id : UInt8 → UInt8) {ep : Descriptor} (hep : ep.length = 7) :
    ((endpointDescriptors n id ep).map Descriptor.length).sum = if 0 < n then 7 + (4 + n.toNat) else 0 := by
  have hlisting : (Descriptor.descriptor csEndpoint (msGeneral :: n :: (upTo n).map id)).length =
      4 + n.toNat := by
    show 2 + ((upTo n).map id).length.succ.succ = _
    rw [List.length_map, length_upTo]
    omega
  unfold endpointDescriptors
  split
  · rw [List.map_cons, List.map_cons, List.sum_cons, List.sum_cons, hep, hlisting]
    rfl
  · rfl

/-- The announced length is the length emitted. -/
theorem total_length (nIn nOut : UInt8) (maxPacketSize : UInt16) (pollMs : UInt8) :
    ((streamDescriptors nIn nOut maxPacketSize pollMs).map Descriptor.length).sum =
      midiStreamingTotalLength nIn nOut := by
  have hheader : (msHeader nIn nOut).length = 7 := rfl
  have hsizes : midiInSize.toNat + midiOutSize.toNat = 15 := rfl
  unfold streamDescriptors midiStreamingTotalLength
  rw [List.map_append, List.sum_append, List.map_append, List.sum_append, List.map_cons, List.sum_cons,
    hheader, sum_length_jacks, sum_length_endpoint _ _ rfl, sum_length_endpoint _ _ rfl, hsizes]

theorem total_length_lt {nIn nOut : UInt8} (hIn : nIn.toNat ≤ 16) (hOut : nOut.toNat ≤ 16) :
    midiStreamingTotalLength nIn nOut < 2 ^ 16 := by
  have hsizes : midiInSize.toNat + midiOutSize.toNat = 15 := rfl
  unfold midiStreamingTotalLength
  rw [hsizes]
  split <;> split <;> omega

/-- A number below 2 ^ 16 is written in full. -/
theorem bytes_eq {n : ℕ} (h : n < 2 ^ 16) : Bytes.ofLe [lowByte n, highByte n] = n := by
  have hlow : n &&& 0xFF = n % 256 := Nat.and_two_pow_sub_one_eq_mod n 8
  have hhigh : n >>> 8 &&& 0xFF = n / 256 % 256 := by
    rw [Nat.shiftRight_eq_div_pow]
    exact Nat.and_two_pow_sub_one_eq_mod _ 8
  show (lowByte n).toNat + 256 * ((highByte n).toNat + 256 * 0) = n
  unfold lowByte highByte
  rw [hlow, hhigh, UInt8.toNat_ofNat', UInt8.toNat_ofNat']
  omega

/-! ### Jacks -/

theorem filterMap_map_some {β : Type} {g : Descriptor → Option β} {f : UInt8 → Descriptor} {h : UInt8 → β}
    (hsome : ∀ i, g (f i) = some (h i)) (is : List UInt8) : (is.map f).filterMap g = is.map h := by
  rw [List.filterMap_map, ← List.filterMap_eq_map]
  exact List.filterMap_congr fun i _ => hsome i

theorem filterMap_map_none {β : Type} {g : Descriptor → Option β} {f : UInt8 → Descriptor}
    (hnone : ∀ i, g (f i) = none) (is : List UInt8) : (is.map f).filterMap g = [] := by
  rw [List.filterMap_map]
  exact List.filterMap_eq_nil_iff.mpr fun i _ => hnone i

theorem inJack?_inJack (kind id : UInt8) : (inJack kind id).inJack? = some (kind, id) := rfl

theorem outJack?_outJack (kind id source : UInt8) :
    (outJack kind id source).outJack? = some (kind, id, source) := rfl

theorem inJack?_csEndpoint (body : List UInt8) : (Descriptor.descriptor csEndpoint body).inJack? = none := by
  unfold Descriptor.inJack?
  split
  · rename_i heq
    rw [← (Descriptor.descriptor.inj heq).1]
    rfl
  · rfl

theorem outJack?_csEndpoint (body : List UInt8) : (Descriptor.descriptor csEndpoint body).outJack? = none := by
  unfold Descriptor.outJack?
  split
  · rename_i heq
    rw [← (Descriptor.descriptor.inj heq).1]
    rfl
  · rfl

/-- The endpoints' descriptors are no jacks. -/
theorem filterMap_endpoint {β : Type} {g : Descriptor → Option β} {ep : Descriptor} (hep : g ep = none)
    (hcs : ∀ body, g (.descriptor csEndpoint body) = none) (n : UInt8) (id : UInt8 → UInt8) :
    (endpointDescriptors n id ep).filterMap g = [] := by
  unfold endpointDescriptors
  split
  · rw [List.filterMap_cons_none hep, List.filterMap_cons_none (hcs _), List.filterMap_nil]
  · rfl

theorem inJacks_eq (nIn nOut : UInt8) (maxPacketSize : UInt16) (pollMs : UInt8) :
    inJacks (streamDescriptors nIn nOut maxPacketSize pollMs) =
      (upTo nIn).map (fun i => (external, inJackIdExt i)) ++
      (upTo nOut).map (fun i => (embedded, inJackIdEmb nIn i)) := by
  unfold inJacks streamDescriptors jacks
  rw [List.filterMap_append, List.filterMap_append, List.filterMap_cons_none rfl, List.filterMap_append,
    List.filterMap_append, List.filterMap_append,
    filterMap_map_some (fun i => inJack?_inJack external (inJackIdExt i)),
    filterMap_map_some (fun i => inJack?_inJack embedded (inJackIdEmb nIn i)),
    filterMap_map_none (fun i => rfl), filterMap_map_none (fun i => rfl),
    filterMap_endpoint rfl inJack?_csEndpoint, filterMap_endpoint rfl inJack?_csEndpoint]
  simp only [List.append_nil]

theorem outJacks_eq (nIn nOut : UInt8) (maxPacketSize : UInt16) (pollMs : UInt8) :
    outJacks (streamDescriptors nIn nOut maxPacketSize pollMs) =
      (upTo nOut).map (fun i => (external, outJackIdExt nIn i, inJackIdEmb nIn i)) ++
      (upTo nIn).map (fun i => (embedded, outJackIdEmb i, inJackIdExt i)) := by
  unfold outJacks streamDescriptors jacks
  rw [List.filterMap_append, List.filterMap_append, List.filterMap_cons_none rfl, List.filterMap_append,
    List.filterMap_append, List.filterMap_append,
    filterMap_map_none (fun i => rfl), filterMap_map_none (fun i => rfl),
    filterMap_map_some (fun i => outJack?_outJack external (outJackIdExt nIn i) (inJackIdEmb nIn i)),
    filterMap_map_some (fun i => outJack?_outJack embedded (outJackIdEmb i) (inJackIdExt i)),
    filterMap_endpoint rfl outJack?_csEndpoint, filterMap_endpoint rfl outJack?_csEndpoint]
  simp only [List.append_nil, List.nil_append]

/-! ### Ids -/

/-- Odds and evens from `b` on. -/
theorem interleave_perm (b : ℕ) : ∀ n : ℕ,
    ((List.range n).map (fun i => 2 * i + b) ++ (List.range n).map (fun i => 2 * i + (b + 1))).Perm
      (List.range' b (2 * n))
  | 0 => .refl _
  | n + 1 => by
    have ih := interleave_perm b n
    have hrange : List.range' b (2 * (n + 1)) = List.range' b (2 * n) ++ ([2 * n + b] ++ [2 * n + (b + 1)]) := by
      have hb : b + 2 * n = 2 * n + b := by omega
      have hb1 : b + (2 * n + 1) = 2 * n + (b + 1) := by omega
      rw [Nat.mul_succ, List.range'_1_concat, List.range'_1_concat, List.append_assoc, hb, hb1]
    have hcomm : ([2 * n + b] ++ (List.range n).map fun i => 2 * i + (b + 1)).Perm
        (((List.range n).map fun i => 2 * i + (b + 1)) ++ [2 * n + b]) := List.perm_append_comm
    have hswap := hcomm.append_right [2 * n + (b + 1)]
    rw [hrange, List.range_succ, List.map_append, List.map_append]
    refine .trans ?_ (ih.append_right _)
    rw [List.append_assoc, List.append_assoc]
    apply List.Perm.append_left
    rwa [List.append_assoc, List.append_assoc] at hswap

/-- Ids that do not wrap. -/
theorem map_toNat {n : UInt8} {f : UInt8 → UInt8} {b : ℕ} (hb : 2 * n.toNat + b ≤ 257)
    (hf : ∀ i : UInt8, (f i).toNat = (2 * i.toNat + b) % 256) :
    ((upTo n).map f).map UInt8.toNat = (List.range n.toNat).map fun i => 2 * i + b := by
  unfold upTo
  rw [List.map_map, List.map_map]
  apply List.map_congr_left
  intro i hi
  have hlt := List.mem_range.mp hi
  show (f (UInt8.ofNat i)).toNat = _
  rw [hf, toNat_ofNat_lt hlt]
  omega

/-- The formulas of the ids, wrapped at 256. -/
theorem toNat_id (i c : UInt8) : (2 * i + c).toNat = (2 * i.toNat + c.toNat) % 256 := by
  rw [UInt8.toNat_add, UInt8.toNat_mul]
  show (2 * i.toNat % 256 + c.toNat) % 256 = _
  omega

theorem toNat_id_after (n i c : UInt8) :
    (2 * n + 2 * i + c).toNat = (2 * i.toNat + (2 * n.toNat + c.toNat)) % 256 := by
  rw [UInt8.toNat_add, UInt8.toNat_add, UInt8.toNat_mul, UInt8.toNat_mul]
  show ((2 * n.toNat % 256 + 2 * i.toNat % 256) % 256 + c.toNat) % 256 = _
  omega

theorem jackIds_eq (nIn nOut : UInt8) (maxPacketSize : UInt16) (pollMs : UInt8) :
    jackIds (streamDescriptors nIn nOut maxPacketSize pollMs) =
      (upTo nIn).map inJackIdExt ++ (upTo nOut).map (inJackIdEmb nIn) ++
        ((upTo nOut).map (outJackIdExt nIn) ++ (upTo nIn).map outJackIdEmb) := by
  unfold jackIds
  rw [inJacks_eq, outJacks_eq]
  simp [Function.comp_def]

/-- The four formulas share the numbers from 1 on between them. -/
theorem jackIds_perm {nIn nOut : UInt8} (hIn : nIn.toNat ≤ 16) (hOut : nOut.toNat ≤ 16)
    (maxPacketSize : UInt16) (pollMs : UInt8) :
    ((jackIds (streamDescriptors nIn nOut maxPacketSize pollMs)).map UInt8.toNat).Perm
      (List.range' 1 (2 * (nIn.toNat + nOut.toNat))) := by
  have hlow := interleave_perm 1 nIn.toNat
  have hhigh := interleave_perm (2 * nIn.toNat + 1) nOut.toNat
  have hext := map_toNat (n := nIn) (f := inJackIdExt) (b := 1) (by omega) fun i => toNat_id i 1
  have hemb := map_toNat (n := nIn) (f := outJackIdEmb) (b := 2) (by omega) fun i => toNat_id i 2
  have hoext := map_toNat (n := nOut) (f := outJackIdExt nIn) (b := 2 * nIn.toNat + 1) (by omega)
    fun i => toNat_id_after nIn i 1
  have hoemb := map_toNat (n := nOut) (f := inJackIdEmb nIn) (b := 2 * nIn.toNat + 2) (by omega)
    fun i => toNat_id_after nIn i 2
  have hrange : List.range' 1 (2 * (nIn.toNat + nOut.toNat)) =
      List.range' 1 (2 * nIn.toNat) ++ List.range' (2 * nIn.toNat + 1) (2 * nOut.toNat) := by
    rw [Nat.mul_add, ← List.range'_append_1, Nat.add_comm 1]
  rw [jackIds_eq, hrange, List.map_append, List.map_append, List.map_append, hext, hoemb, hoext, hemb]
  refine .trans ?_ (hlow.append hhigh)
  rw [List.append_assoc, List.append_assoc]
  apply List.Perm.append_left
  refine .trans ?_ List.perm_append_comm
  rw [← List.append_assoc]
  exact List.perm_append_comm.append_right _

/-! ### Endpoints -/

theorem following_append {p : Descriptor → Bool} : ∀ {ds : List Descriptor}, (∀ d ∈ ds, p d = false) →
    ∀ ds', following p (ds ++ ds') = following p ds'
  | [], _, _ => rfl
  | d :: ds, h, ds' => by
    obtain ⟨hd, hds⟩ := List.forall_mem_cons.mp h
    show (if p d then (ds ++ ds').head? :: following p (ds ++ ds') else following p (ds ++ ds')) = _
    rw [hd]
    exact following_append hds ds'

/-- Header and jacks are class descriptors. -/
theorem header_jacks_class (nIn nOut : UInt8) :
    ∀ d ∈ msHeader nIn nOut :: jacks nIn nOut, ∃ kind body, d = .descriptor kind body := by
  intro d hd
  unfold jacks at hd
  simp only [List.mem_cons, List.mem_append, List.mem_map] at hd
  rcases hd with rfl | ((⟨i, -, rfl⟩ | ⟨i, -, rfl⟩) | ⟨i, -, rfl⟩) | ⟨i, -, rfl⟩ <;> exact ⟨_, _, rfl⟩

theorem following_stream {p : Descriptor → Bool} (hclass : ∀ kind body, p (.descriptor kind body) = false)
    (nIn nOut : UInt8) (maxPacketSize : UInt16) (pollMs : UInt8) :
    following p (streamDescriptors nIn nOut maxPacketSize pollMs) =
      following p (endpointDescriptors nOut (inJackIdEmb nIn) (.endpointInterruptOut maxPacketSize pollMs) ++
        endpointDescriptors nIn outJackIdEmb (.endpointInterruptIn maxPacketSize pollMs)) := by
  unfold streamDescriptors
  rw [List.append_assoc]
  apply following_append
  intro d hd
  obtain ⟨kind, body, rfl⟩ := header_jacks_class nIn nOut d hd
  exact hclass kind body

/-- The class descriptor after the endpoint of a direction. -/
def listing (n : UInt8) (ids : List UInt8) : List (Option Descriptor) :=
  if 0 < n then [some (.descriptor csEndpoint (msGeneral :: n :: ids))] else []

theorem following_endpoint {p : Descriptor → Bool} (hclass : ∀ kind body, p (.descriptor kind body) = false)
    (n : UInt8) (id : UInt8 → UInt8) (ep : Descriptor) (ds : List Descriptor) :
    following p (endpointDescriptors n id ep ++ ds) =
      (if p ep then listing n ((upTo n).map id) else []) ++ following p ds := by
  unfold endpointDescriptors listing
  by_cases hn : 0 < n
  · rw [if_pos hn, if_pos hn]
    show (if p ep then _ :: (if p (.descriptor csEndpoint _) then _ else _)
      else (if p (.descriptor csEndpoint _) then _ else _)) = _
    rw [hclass]
    split <;> rfl
  · rw [if_neg hn, if_neg hn]
    split <;> rfl

theorem embeddedIn_eq (nIn nOut : UInt8) (maxPacketSize : UInt16) (pollMs : UInt8) :
    embeddedIn (streamDescriptors nIn nOut maxPacketSize pollMs) = (upTo nOut).map (inJackIdEmb nIn) := by
  have hkinds : external ≠ embedded := by decide
  unfold embeddedIn
  rw [inJacks_eq]
  simp [List.filter_map, Function.comp_def, hkinds]

theorem embeddedOut_eq (nIn nOut : UInt8) (maxPacketSize : UInt16) (pollMs : UInt8) :
    embeddedOut (streamDescriptors nIn nOut maxPacketSize pollMs) = (upTo nIn).map outJackIdEmb := by
  have hkinds : external ≠ embedded := by decide
  unfold embeddedOut
  rw [outJacks_eq]
  simp [List.filter_map, Function.comp_def, hkinds]

theorem following_out (nIn nOut : UInt8) (maxPacketSize : UInt16) (pollMs : UInt8) :
    following Descriptor.isOut (streamDescriptors nIn nOut maxPacketSize pollMs) =
      listing nOut (embeddedIn (streamDescriptors nIn nOut maxPacketSize pollMs)) := by
  have hclass : ∀ kind body, Descriptor.isOut (.descriptor kind body) = false := fun _ _ => rfl
  have hlast := following_endpoint hclass nIn outJackIdEmb (.endpointInterruptIn maxPacketSize pollMs) []
  rw [List.append_nil] at hlast
  rw [following_stream hclass, following_endpoint hclass, hlast, embeddedIn_eq]
  exact List.append_nil _

theorem following_in (nIn nOut : UInt8) (maxPacketSize : UInt16) (pollMs : UInt8) :
    following Descriptor.isIn (streamDescriptors nIn nOut maxPacketSize pollMs) =
      listing nIn (embeddedOut (streamDescriptors nIn nOut maxPacketSize pollMs)) := by
  have hclass : ∀ kind body, Descriptor.isIn (.descriptor kind body) = false := fun _ _ => rfl
  have hlast := following_endpoint hclass nIn outJackIdEmb (.endpointInterruptIn maxPacketSize pollMs) []
  rw [List.append_nil] at hlast
  rw [following_stream hclass, following_endpoint hclass, hlast, embeddedOut_eq]
  exact List.append_nil _

/-- The source of an OUT jack is an IN jack of the other kind. -/
theorem source_opposite (nIn nOut : UInt8) (maxPacketSize : UInt16) (pollMs : UInt8) {kind id source : UInt8}
    (h : (kind, id, source) ∈ outJacks (streamDescriptors nIn nOut maxPacketSize pollMs)) :
    kind = embedded ∧ (external, source) ∈ inJacks (streamDescriptors nIn nOut maxPacketSize pollMs) ∨
    kind = external ∧ (embedded, source) ∈ inJacks (streamDescriptors nIn nOut maxPacketSize pollMs) := by
  rw [outJacks_eq] at h
  rw [inJacks_eq]
  rcases List.mem_append.mp h with hext | hemb
  · obtain ⟨i, hi, heq⟩ := List.mem_map.mp hext
    obtain ⟨rfl, hrest⟩ := Prod.mk.inj heq
    obtain ⟨-, rfl⟩ := Prod.mk.inj hrest
    exact .inr ⟨rfl, List.mem_append_right _ (List.mem_map_of_mem hi)⟩
  · obtain ⟨i, hi, heq⟩ := List.mem_map.mp hemb
    obtain ⟨rfl, hrest⟩ := Prod.mk.inj heq
    obtain ⟨-, rfl⟩ := Prod.mk.inj hrest
    exact .inl ⟨rfl, List.mem_append_left _ (List.mem_map_of_mem hi)⟩

/-- **Self-consistent.** `new` completes exactly for up to 16 jacks of each
direction, and then: the header announces the bytes that it and the rest
take; the jack ids are the numbers from 1 on, each once; the source of an OUT
jack is an IN jack of the other kind; and each endpoint lists the embedded
jacks it serves, each once and nothing else. -/
theorem descriptors_consistent (audioIf nIn nOut : UInt8) (maxPacketSize : UInt16) (pollMs : UInt8) :
    ((new audioIf nIn nOut maxPacketSize pollMs).isSome ↔ nIn.toNat ≤ 16 ∧ nOut.toNat ≤ 16) ∧
    ∀ c, new audioIf nIn nOut maxPacketSize pollMs = some c →
      let ds := c.2.descriptors
      let total := (ds.map Descriptor.length).sum
      (∃ lo hi rest, ds = .descriptor csInterface [msHeaderSubtype, 0x00, 0x01, lo, hi] :: rest ∧
        Bytes.ofLe [lo, hi] = total ∧ total < 2 ^ 16) ∧
      ((jackIds ds).map UInt8.toNat).Perm (List.range' 1 (2 * (nIn.toNat + nOut.toNat))) ∧
      (jackIds ds).Nodup ∧ 0 ∉ jackIds ds ∧
      (∀ kind id source, (kind, id, source) ∈ outJacks ds →
        kind = embedded ∧ (external, source) ∈ inJacks ds ∨
        kind = external ∧ (embedded, source) ∈ inJacks ds) ∧
      (following Descriptor.isOut ds = listing nOut (embeddedIn ds) ∧
        (embeddedIn ds).length = nOut.toNat ∧ (embeddedIn ds).Nodup) ∧
      (following Descriptor.isIn ds = listing nIn (embeddedOut ds) ∧
        (embeddedOut ds).length = nIn.toNat ∧ (embeddedOut ds).Nodup) := by
  refine ⟨⟨fun h => ?_, fun h => ?_⟩, fun c h => ?_⟩
  · obtain ⟨c, hc⟩ := Option.isSome_iff_exists.mp h
    exact new_bounds hc
  · rw [new_eq h.1 h.2]
    rfl
  · obtain ⟨hIn, hOut⟩ := new_bounds h
    have hc := Option.some.inj (h.symm.trans (new_eq hIn hOut audioIf maxPacketSize pollMs))
    obtain rfl := hc
    have hperm := jackIds_perm hIn hOut maxPacketSize pollMs
    have hnodup := List.Nodup.of_map _ (hperm.nodup_iff.mpr List.nodup_range')
    have hids := hnodup
    rw [jackIds_eq] at hids
    have htotal := total_length nIn nOut maxPacketSize pollMs
    have hlt := total_length_lt hIn hOut
    refine ⟨⟨_, _, _, rfl, ?_, ?_⟩, hperm, hnodup, fun hzero => ?_,
      fun kind id source hmem => source_opposite nIn nOut maxPacketSize pollMs hmem,
      ⟨following_out nIn nOut maxPacketSize pollMs, ?_, ?_⟩, following_in nIn nOut maxPacketSize pollMs, ?_, ?_⟩
    · rw [htotal, bytes_eq hlt]
    · rwa [htotal]
    · have hmem := hperm.mem_iff.mp (List.mem_map_of_mem (f := UInt8.toNat) hzero)
      have hone := (List.mem_range'_1.mp hmem).1
      exact absurd hone (by decide)
    · rw [embeddedIn_eq, List.length_map, length_upTo]
    · rw [embeddedIn_eq]
      exact (List.nodup_append.mp (List.nodup_append.mp hids).1).2.1
    · rw [embeddedOut_eq, List.length_map, length_upTo]
    · rw [embeddedOut_eq]
      exact (List.nodup_append.mp (List.nodup_append.mp hids).2.1).2.1

/-- One IN jack, as the firmware asks for: 34 bytes, ids 1 and 2. -/
theorem descriptors_consistent_one_in : ∃ c, new 0 1 0 64 1 = some c ∧
    (c.2.descriptors.map Descriptor.length).sum = 34 ∧
    ((jackIds c.2.descriptors).map UInt8.toNat).Perm [1, 2] ∧
    following Descriptor.isIn c.2.descriptors = listing 1 (embeddedOut c.2.descriptors) := by
  obtain ⟨-, hall⟩ := descriptors_consistent 0 1 0 64 1
  obtain ⟨-, hperm, -, -, -, -, hin, -, -⟩ := hall _ rfl
  exact ⟨_, rfl, by decide, hperm, hin⟩

end MidiInterrupt
end RpKeyer
