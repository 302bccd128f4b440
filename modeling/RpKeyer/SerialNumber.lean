/-
# The USB serial number

`read_flash_serial_into` of `bin/rp2040.rs`: the flash chip's unique id as hex
digits, written two at a time into a static buffer, or a fixed text when the id
cannot be read. The buffer is handed on as a string without a check, so every
byte of it has to be ASCII; and it is the host's key for the device, so it has
to give the id back (`serial_reads_back`).

`none` is the panic of an index out of bounds, or of two slices of different
length.
-/
import RpKeyer.MidiInterrupt

namespace RpKeyer
namespace SerialNumber

open MidiInterrupt (store)

/-! ### The code -/

/-- `b"0123456789abcdef"`. -/
def hex : List UInt8 :=
  [0x30, 0x31, 0x32, 0x33, 0x34, 0x35, 0x36, 0x37, 0x38, 0x39, 0x61, 0x62, 0x63, 0x64, 0x65, 0x66]

/-- `b"rpk-rp2040-0000\0"`. -/
def fallback : List UInt8 :=
  [0x72, 0x70, 0x6b, 0x2d, 0x72, 0x70, 0x32, 0x30, 0x34, 0x30, 0x2d, 0x30, 0x30, 0x30, 0x30, 0x00]

/-- One byte of the id and its index: its two digits into the buffer. -/
def writeDigits (buf : List UInt8) (p : UInt8 × ℕ) : Option (List UInt8) := do
  let hi ← hex[(p.1 >>> 4).toNat]?
  let buf ← store buf (2 * p.2) hi
  let lo ← hex[(p.1 &&& 0x0F).toNat]?
  store buf (2 * p.2 + 1) lo

/-- The id is `none` when the flash read failed. -/
def readFlashSerialInto (uid : Option (List UInt8)) (buf : List UInt8) : Option (List UInt8) :=
  match uid with
  | some uid => uid.zipIdx.foldlM writeDigits buf
  | none => if buf.length = fallback.length then some fallback else none

/-- The id in a serial number, if it is all digits. -/
def readSerial : List UInt8 → Option (List UInt8)
  | [] => some []
  | hi :: lo :: rest =>
    (hex.idxOf? hi).bind fun h => (hex.idxOf? lo).bind fun l =>
      (readSerial rest).map (UInt8.ofNat (16 * h + l) :: ·)
  | [_] => none

/-! ### Digits -/

/-- The two digits of a byte. -/
def digits (b : UInt8) : List UInt8 := [hex.getD (b.toNat / 16) 0, hex.getD (b.toNat % 16) 0]

theorem hi_toNat (b : UInt8) : (b >>> 4).toNat = b.toNat / 16 := by
  rw [UInt8.toNat_shiftRight]
  exact Nat.shiftRight_eq_div_pow b.toNat 4

theorem lo_toNat (b : UInt8) : (b &&& 0x0F).toNat = b.toNat % 16 := by
  rw [UInt8.toNat_and]
  exact Nat.and_two_pow_sub_one_eq_mod b.toNat 4

/-- A digit is in the table, reads back, and is ASCII. -/
theorem hex_digit : ∀ n < 16, hex[n]? = some (hex.getD n 0) ∧ hex.idxOf? (hex.getD n 0) = some n ∧
    hex.getD n 0 < 128 := by
  decide

theorem readSerial_digits (b : UInt8) (rest : List UInt8) :
    readSerial (digits b ++ rest) = (readSerial rest).map (b :: ·) := by
  have hlt := b.toNat_lt
  have hhi := (hex_digit (b.toNat / 16) (by omega)).2.1
  have hlo := (hex_digit (b.toNat % 16) (by omega)).2.1
  have hbyte : UInt8.ofNat (16 * (b.toNat / 16) + b.toNat % 16) = b := by
    rw [Nat.div_add_mod, UInt8.ofNat_toNat]
  show (hex.idxOf? _).bind _ = _
  rw [hhi, Option.bind_some, hlo, Option.bind_some, hbyte]
  rfl

theorem readSerial_flatMap : ∀ uid : List UInt8, readSerial (uid.flatMap digits) = some uid
  | [] => rfl
  | b :: uid => by
    rw [List.flatMap_cons, readSerial_digits, readSerial_flatMap uid]
    rfl

theorem ascii_flatMap (uid : List UInt8) : ∀ c ∈ uid.flatMap digits, c < 128 := by
  intro c hc
  obtain ⟨b, -, hb⟩ := List.mem_flatMap.mp hc
  have hlt := b.toNat_lt
  rcases List.mem_pair.mp hb with rfl | rfl
  · exact (hex_digit (b.toNat / 16) (by omega)).2.2
  · exact (hex_digit (b.toNat % 16) (by omega)).2.2

/-! ### The loop -/

/-- The next byte of the id takes the next two places of the buffer. -/
theorem writeDigits_next {done rest : List UInt8} {k : ℕ} (hdone : done.length = 2 * k) (b x y : UInt8) :
    writeDigits (done ++ x :: y :: rest) (b, k) = some ((done ++ digits b) ++ rest) := by
  have hlt := b.toNat_lt
  have hhi := (hex_digit (b.toNat / 16) (by omega)).1
  have hlo := (hex_digit (b.toNat % 16) (by omega)).1
  have hfirst : ∀ c, store (done ++ x :: y :: rest) (2 * k) c = some (done ++ c :: y :: rest) := by
    intro c
    have hin : 2 * k < (done ++ x :: y :: rest).length := by
      rw [List.length_append, List.length_cons]
      omega
    unfold store
    rw [if_pos hin, ← hdone, List.set_append_right _ _ (Nat.le_refl _), Nat.sub_self]
    rfl
  have hsecond : ∀ c d, store (done ++ c :: y :: rest) (2 * k + 1) d = some (done ++ c :: d :: rest) := by
    intro c d
    have hin : 2 * k + 1 < (done ++ c :: y :: rest).length := by
      rw [List.length_append, List.length_cons, List.length_cons]
      omega
    unfold store
    have hplace : 2 * k + 1 - done.length = 1 := by omega
    rw [if_pos hin, List.set_append_right _ _ (by omega), hplace]
    rfl
  unfold writeDigits
  simp only [hi_toNat, lo_toNat, hhi, hlo, hfirst, hsecond, Option.bind_eq_bind, Option.bind_some]
  rw [List.append_assoc]
  rfl

/-- The loop from the `k`-th byte on, in a buffer with room for the rest. -/
theorem foldlM_writeDigits : ∀ (uid : List UInt8) {k : ℕ} (done : List UInt8) {rest : List UInt8}, done.length = 2 * k →
    rest.length = 2 * uid.length →
    (uid.zipIdx k).foldlM writeDigits (done ++ rest) = some (done ++ uid.flatMap digits)
  | [], _, done, rest, _, hrest => by
    obtain rfl := List.length_eq_zero_iff.mp hrest
    rfl
  | b :: uid, k, done, rest, hdone, hrest => by
    match rest, hrest with
    | x :: y :: rest, hrest =>
      have hlen : rest.length = 2 * uid.length := by
        rw [List.length_cons, List.length_cons, List.length_cons] at hrest
        omega
      have hdone' : (done ++ digits b).length = 2 * (k + 1) := by
        rw [List.length_append, hdone]
        rfl
      have ih := foldlM_writeDigits uid _ hdone' hlen
      rw [List.zipIdx_cons, List.foldlM_cons, writeDigits_next hdone, List.flatMap_cons, ← List.append_assoc]
      exact ih

/-! ### The theorem -/

/-- **The serial number.** Whatever was in the buffer, and whether the flash
was read or not, nothing panics, the 16 bytes are ASCII, and they give back the
id that was read, or that none was: two chips never share a serial number, nor
does one ever get the fallback. -/
theorem serial_reads_back {uid : Option (List UInt8)} {buf : List UInt8} (hbuf : buf.length = 16)
    (huid : ∀ u, uid = some u → u.length = 8) :
    ∃ s, readFlashSerialInto uid buf = some s ∧ s.length = 16 ∧ (∀ c ∈ s, c < 128) ∧ readSerial s = uid := by
  cases uid with
  | none => exact ⟨fallback, if_pos hbuf, rfl, by decide +kernel, by decide +kernel⟩
  | some u =>
    have hu := huid u rfl
    have hlen : (u.flatMap digits).length = 16 := by
      have hpair : (fun b => (digits b).length) = fun _ => 2 := rfl
      rw [List.length_flatMap, hpair, List.map_const', List.sum_replicate_nat, hu]
    have hloop := foldlM_writeDigits u (k := 0) [] rfl (by omega : buf.length = 2 * u.length)
    exact ⟨u.flatMap digits, hloop, hlen, ascii_flatMap u, readSerial_flatMap u⟩

/-- An id, and a read that failed. -/
theorem serial_reads_back_both :
    let uid : List UInt8 := [0xe6, 0x60, 0x58, 0x38, 0x83, 0x0f, 0xa1, 0x2b]
    (∃ s, readFlashSerialInto (some uid) (List.replicate 16 0) = some s ∧ readSerial s = some uid) ∧
    ∃ s, readFlashSerialInto none (List.replicate 16 0) = some s ∧ readSerial s = none := by
  intro uid
  have hbuf : (List.replicate 16 (0 : UInt8)).length = 16 := List.length_replicate
  have huid : ∀ u, some uid = some u → u.length = 8 := fun u hu => Option.some.inj hu ▸ rfl
  have hnone : ∀ u : List UInt8, none = some u → u.length = 8 := fun u hu => by cases hu
  obtain ⟨s, hs, -, -, hread⟩ := serial_reads_back hbuf huid
  obtain ⟨t, ht, -, -, hfailed⟩ := serial_reads_back hbuf hnone
  exact ⟨⟨s, hs, hread⟩, ⟨t, ht, hfailed⟩⟩

end SerialNumber
end RpKeyer
