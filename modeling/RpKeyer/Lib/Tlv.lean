/-
# Chains of records

A record is a kind and a body behind a byte that counts all of it. A chain is
walked record by record, and the walk reads back every chain of records that
fit (`walk_encodeAll`). A chain is cut into sections, each behind a record that
heads one (`sections`).
-/
import Mathlib.Algebra.Order.BigOperators.Group.List
import Mathlib.Algebra.Order.Ring.Nat

namespace Tlv

structure Record where
  kind : UInt8
  body : List UInt8
  deriving DecidableEq, Repr

/-- All of it: the count, the kind and the body. -/
def Record.length (r : Record) : ℕ := 2 + r.body.length

/-- Does the count fit its byte? -/
def Record.Fits (r : Record) : Prop := r.length < 256

instance (r : Record) : Decidable r.Fits := inferInstanceAs (Decidable (_ < _))

def Record.encode (r : Record) : List UInt8 := UInt8.ofNat r.length :: r.kind :: r.body

/-- The chain of the records. -/
def encodeAll (rs : List Record) : List UInt8 := rs.flatMap Record.encode

/-- The bytes of the records. -/
def size (rs : List Record) : ℕ := (rs.map Record.length).sum

/-- The record at the front, and what follows it. -/
def next : List UInt8 → Option (Record × List UInt8)
  | count :: kind :: rest =>
    if 2 ≤ count.toNat ∧ count.toNat ≤ 2 + rest.length then
      some (⟨kind, rest.take (count.toNat - 2)⟩, rest.drop (count.toNat - 2))
    else none
  | _ => none

def walkFuel : ℕ → List UInt8 → Option (List Record)
  | _, [] => some []
  | 0, _ :: _ => none
  | fuel + 1, b :: bs => (next (b :: bs)).bind fun r => (walkFuel fuel r.2).map (r.1 :: ·)

/-- The records of a chain; `none` if it is none. -/
def walk (data : List UInt8) : Option (List Record) := walkFuel data.length data

@[simp] theorem length_encode (r : Record) : r.encode.length = r.length := by
  show r.body.length + 1 + 1 = 2 + r.body.length
  omega

theorem encodeAll_cons (r : Record) (rs : List Record) : encodeAll (r :: rs) = r.encode ++ encodeAll rs :=
  List.flatMap_cons

theorem length_encodeAll : ∀ rs : List Record, (encodeAll rs).length = size rs
  | [] => rfl
  | r :: rs => by
    rw [encodeAll_cons, List.length_append, length_encode, length_encodeAll rs]
    rfl

theorem size_append (rs rs' : List Record) : size (rs ++ rs') = size rs + size rs' := by
  unfold size
  rw [List.map_append, List.sum_append]

theorem size_cons (r : Record) (rs : List Record) : size (r :: rs) = r.length + size rs := List.sum_cons

theorem length_le_size {r : Record} {rs : List Record} (h : r ∈ rs) : r.length ≤ size rs :=
  List.le_sum_of_mem (List.mem_map_of_mem h)

/-! ### One record -/

theorem toNat_count {r : Record} (h : r.Fits) : (UInt8.ofNat r.length).toNat = r.length := by
  unfold Record.Fits at h
  rw [UInt8.toNat_ofNat']
  omega

/-- A record that fits is read back from the front. -/
theorem next_encode {r : Record} (h : r.Fits) (rest : List UInt8) : next (r.encode ++ rest) = some (r, rest) := by
  have hcount := toNat_count h
  have hlen : r.length - 2 = r.body.length := by
    unfold Record.length
    omega
  have hin : 2 ≤ r.length ∧ r.length ≤ 2 + (r.body ++ rest).length := by
    unfold Record.length
    rw [List.length_append]
    omega
  have hnext : next (r.encode ++ rest) =
      if 2 ≤ (UInt8.ofNat r.length).toNat ∧ (UInt8.ofNat r.length).toNat ≤ 2 + (r.body ++ rest).length then
        some (⟨r.kind, (r.body ++ rest).take ((UInt8.ofNat r.length).toNat - 2)⟩,
          (r.body ++ rest).drop ((UInt8.ofNat r.length).toNat - 2))
      else none := rfl
  rw [hnext, hcount, if_pos hin, hlen, List.take_left, List.drop_left]

/-! ### Chains -/

theorem walkFuel_encodeAll : ∀ {rs : List Record} {fuel : ℕ}, (∀ r ∈ rs, r.Fits) → size rs ≤ fuel →
    walkFuel fuel (encodeAll rs) = some rs
  | [], 0, _, _ => rfl
  | [], _ + 1, _, _ => rfl
  | r :: rs, fuel, h, hfuel => by
    obtain ⟨hr, hrs⟩ := List.forall_mem_cons.mp h
    have hsize := size_cons r rs
    have hpos : 2 ≤ r.length := Nat.le_add_right 2 _
    cases fuel with
    | zero => omega
    | succ fuel =>
      have hrest := walkFuel_encodeAll hrs (by omega : size rs ≤ fuel)
      rw [encodeAll_cons]
      show (next (r.encode ++ encodeAll rs)).bind _ = _
      rw [next_encode hr, Option.bind_some, hrest]
      rfl

/-- **A chain is read back.** -/
theorem walk_encodeAll {rs : List Record} (h : ∀ r ∈ rs, r.Fits) : walk (encodeAll rs) = some rs :=
  walkFuel_encodeAll h (Nat.le_of_eq (length_encodeAll rs).symm)

/-! ### Sections -/

/-- Each record that heads a section, with the records up to the next head. -/
def sections (head : Record → Bool) : List Record → List (Record × List Record)
  | [] => []
  | r :: rs => if head r then (r, rs.takeWhile (!head ·)) :: sections head rs else sections head rs

theorem sections_plain {head : Record → Bool} : ∀ {rs : List Record}, (∀ r ∈ rs, head r = false) →
    ∀ rs', sections head (rs ++ rs') = sections head rs'
  | [], _, _ => rfl
  | r :: rs, h, rs' => by
    obtain ⟨hr, hrs⟩ := List.forall_mem_cons.mp h
    show (if head r then _ else sections head (rs ++ rs')) = _
    rw [hr]
    exact sections_plain hrs rs'

/-- One section before the rest, which has nothing before its first head. -/
theorem sections_cons {head : Record → Bool} {r : Record} {rs rs' : List Record} (hr : head r = true)
    (hrs : ∀ x ∈ rs, head x = false) (hrs' : ∀ x, rs'.head? = some x → head x = true) :
    sections head (r :: (rs ++ rs')) = (r, rs) :: sections head rs' := by
  have hplain : ∀ x ∈ rs, (!head x) = true := fun x hx => by rw [hrs x hx]; rfl
  have htake : (rs ++ rs').takeWhile (!head ·) = rs := by
    rw [List.takeWhile_append_of_pos hplain]
    cases rs' with
    | nil => exact List.append_nil rs
    | cons x xs =>
      have hx : ¬(!head x) = true := by rw [hrs' x rfl]; decide
      rw [List.takeWhile_cons_of_neg (p := fun a => !head a) hx, List.append_nil]
  show (if head r then _ else _) = _
  rw [hr, if_pos rfl, htake, sections_plain hrs]

end Tlv
