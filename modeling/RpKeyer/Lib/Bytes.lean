/-
# Fields of a byte buffer

Numbers in little-endian order (`le`, `ofLe`), read from and written to a
buffer at an offset (`unpack`, `pack`), and the same field written in each of
the first `k` records of a buffer of fixed-size records (`stamp`): one more
write is one more record (`overwrite_stamp`), the field reads as what was
written (`unpack_stamp`) and a word outside it as before
(`unpack_stamp_of_outside`), and a later stamp hides an earlier one
(`stamp_stamp`).
-/
import Mathlib.Data.List.GetD
import Mathlib.Tactic.Ring

namespace Bytes

/-! ### Little-endian numbers -/

/-- The `n` low bytes of `v`, the least significant first. -/
def le : ℕ → ℕ → List UInt8
  | 0, _ => []
  | n + 1, v => UInt8.ofNat v :: le n (v / 256)

/-- The number the bytes stand for, the least significant first. -/
def ofLe : List UInt8 → ℕ
  | [] => 0
  | b :: bs => b.toNat + 256 * ofLe bs

@[simp] theorem length_le : ∀ n v, (le n v).length = n
  | 0, _ => rfl
  | n + 1, v => congrArg (· + 1) (length_le n (v / 256))

theorem ofLe_le : ∀ {n v : ℕ}, v < 256 ^ n → ofLe (le n v) = v
  | 0, v, h => by
    rw [Nat.pow_zero] at h
    show 0 = v
    omega
  | n + 1, v, h => by
    have hdiv : v / 256 < 256 ^ n := by
      rw [Nat.div_lt_iff_lt_mul (by omega), ← Nat.pow_succ]
      exact h
    show (UInt8.ofNat v).toNat + 256 * ofLe (le n (v / 256)) = v
    rw [ofLe_le hdiv, UInt8.toNat_ofNat']
    omega

/-! ### Fields -/

/-- The `n`-byte number at `off`; `none` if the buffer ends before it does. -/
def unpack (n : ℕ) (data : List UInt8) (off : ℕ) : Option ℕ :=
  if off + n ≤ data.length then some (ofLe ((data.drop off).take n)) else none

/-- `bs` in place of the bytes at `off`. -/
def overwrite (data : List UInt8) (off : ℕ) (bs : List UInt8) : List UInt8 :=
  data.take off ++ bs ++ data.drop (off + bs.length)

/-- Write `v` in `n` bytes at `off`; `none` if it does not fit them, or they
the buffer. -/
def pack (n : ℕ) (data : List UInt8) (off v : ℕ) : Option (List UInt8) :=
  if v < 256 ^ n ∧ off + n ≤ data.length then some (overwrite data off (le n v)) else none

theorem getElem?_overwrite {data bs : List UInt8} {off : ℕ} (h : off + bs.length ≤ data.length) (i : ℕ) :
    (overwrite data off bs)[i]? = if off ≤ i ∧ i < off + bs.length then bs[i - off]? else data[i]? := by
  have htake : (data.take off).length = off := by rw [List.length_take]; omega
  unfold overwrite
  rw [List.append_assoc, List.getElem?_append, htake]
  by_cases hi : i < off
  · rw [if_pos hi, if_neg (by omega), List.getElem?_take_of_lt hi]
  · rw [if_neg hi, List.getElem?_append]
    by_cases hin : i - off < bs.length
    · rw [if_pos hin, if_pos (by omega)]
    · rw [if_neg hin, if_neg (by omega), List.getElem?_drop]
      congr 1
      omega

theorem overwrite_nil (data : List UInt8) (off : ℕ) : overwrite data off [] = data := by
  unfold overwrite
  rw [List.append_nil]
  exact List.take_append_drop off data

theorem length_overwrite {data bs : List UInt8} {off : ℕ} (h : off + bs.length ≤ data.length) :
    (overwrite data off bs).length = data.length := by
  unfold overwrite
  rw [List.length_append, List.length_append, List.length_take, List.length_drop]
  omega

/-- The byte after the overwritten ones, overwritten as well. -/
theorem set_overwrite {data bs : List UInt8} {off : ℕ} (h : off + bs.length < data.length) (b : UInt8) :
    (overwrite data off bs).set (off + bs.length) b = overwrite data off (bs ++ [b]) := by
  have hlen : (bs ++ [b]).length = bs.length + 1 := List.length_append
  apply List.ext_getElem?
  intro i
  rw [List.getElem?_set, length_overwrite h.le, getElem?_overwrite h.le, getElem?_overwrite (by omega), hlen]
  by_cases hi : off + bs.length = i
  · rw [if_pos hi, if_pos (by omega), if_pos (by omega), List.getElem?_append_right (by omega)]
    rw [← hi, Nat.add_sub_cancel_left, Nat.sub_self]
    rfl
  · rw [if_neg hi]
    by_cases hin : off ≤ i ∧ i < off + bs.length
    · rw [if_pos hin, if_pos (by omega), List.getElem?_append_left (by omega)]
    · rw [if_neg hin, if_neg (by omega)]

/-- A field reads the same in two buffers that agree on its bytes. -/
theorem unpack_congr {n off : ℕ} {data data' : List UInt8} (hlen : data.length = data'.length)
    (h : ∀ j, j < n → data[off + j]? = data'[off + j]?) : unpack n data off = unpack n data' off := by
  have hbytes : (data.drop off).take n = (data'.drop off).take n := by
    apply List.ext_getElem?
    intro j
    by_cases hj : j < n
    · rw [List.getElem?_take_of_lt hj, List.getElem?_take_of_lt hj, List.getElem?_drop, List.getElem?_drop]
      exact h j hj
    · rw [List.getElem?_take_eq_none (by omega), List.getElem?_take_eq_none (by omega)]
  unfold unpack
  rw [hlen, hbytes]

/-! ### A field of every record -/

section Stamp

variable (size off : ℕ) (bs : List UInt8)

/-- `bs` at `off` in each of the first `k` records of `size` bytes. -/
def stamp (k : ℕ) (data : List UInt8) : List UInt8 :=
  data.mapIdx fun i b => if i < size * k ∧ off ≤ i % size then bs.getD (i % size - off) b else b

@[simp] theorem length_stamp (k : ℕ) (data : List UInt8) : (stamp size off bs k data).length = data.length :=
  List.length_mapIdx

theorem getElem?_stamp (k : ℕ) (data : List UInt8) (i : ℕ) :
    (stamp size off bs k data)[i]? =
      data[i]?.map fun b => if i < size * k ∧ off ≤ i % size then bs.getD (i % size - off) b else b :=
  List.getElem?_mapIdx

theorem stamp_zero (data : List UInt8) : stamp size off bs 0 data = data := by
  apply List.ext_getElem?
  intro i
  rw [getElem?_stamp]
  simp

/-- A byte outside the field, or in a record not reached, is left alone. -/
theorem getElem?_stamp_of_outside {k i : ℕ} (data : List UInt8)
    (h : size * k ≤ i ∨ i % size < off ∨ off + bs.length ≤ i % size) :
    (stamp size off bs k data)[i]? = data[i]? := by
  have hid : (fun b => if i < size * k ∧ off ≤ i % size then bs.getD (i % size - off) b else b) = id := by
    funext b
    split
    · exact List.getD_eq_default _ _ (by omega)
    · rfl
  rw [getElem?_stamp, hid, Option.map_id_apply]

variable {size off bs}

/-- A word of a record outside the field reads as before. -/
theorem unpack_stamp_of_outside {n o : ℕ} (k j : ℕ) (data : List UInt8) (hin : o + n ≤ size)
    (h : o + n ≤ off ∨ off + bs.length ≤ o) :
    unpack n (stamp size off bs k data) (size * j + o) = unpack n data (size * j + o) := by
  apply unpack_congr (length_stamp size off bs k data)
  intro m hm
  have hmod : (size * j + o + m) % size = o + m := by
    rw [Nat.add_assoc, Nat.mul_add_mod, Nat.mod_eq_of_lt (by omega)]
  apply getElem?_stamp_of_outside
  rw [hmod]
  omega

/-- A byte of the field, in a record reached. -/
theorem getElem?_stamp_field {k j m : ℕ} {data : List UInt8} (hin : off + bs.length ≤ size) (hj : j < k)
    (hlen : size * k ≤ data.length) (hm : m < bs.length) :
    (stamp size off bs k data)[size * j + off + m]? = bs[m]? := by
  have hle : size * (j + 1) ≤ size * k := Nat.mul_le_mul_left size hj
  rw [Nat.mul_succ] at hle
  have hmod : (size * j + off + m) % size = off + m := by
    rw [Nat.add_assoc, Nat.mul_add_mod, Nat.mod_eq_of_lt (by omega)]
  have hsome : size * j + off + m < data.length := by omega
  rw [getElem?_stamp, hmod, List.getElem?_eq_getElem hsome, Option.map_some, if_pos (by omega),
    Nat.add_sub_cancel_left, List.getD_eq_getElem _ _ hm, List.getElem?_eq_getElem hm]

/-- The field of a record reached reads as what was written. -/
theorem unpack_stamp {k j : ℕ} {data : List UInt8} (hin : off + bs.length ≤ size) (hj : j < k)
    (hlen : size * k ≤ data.length) :
    unpack bs.length (stamp size off bs k data) (size * j + off) = some (ofLe bs) := by
  have hle : size * (j + 1) ≤ size * k := Nat.mul_le_mul_left size hj
  rw [Nat.mul_succ] at hle
  have hbytes : ((stamp size off bs k data).drop (size * j + off)).take bs.length = bs := by
    apply List.ext_getElem?
    intro m
    by_cases hm : m < bs.length
    · rw [List.getElem?_take_of_lt hm, List.getElem?_drop]
      exact getElem?_stamp_field hin hj hlen hm
    · rw [List.getElem?_take_eq_none (by omega), List.getElem?_eq_none (by omega)]
  unfold unpack
  rw [if_pos (by rw [length_stamp]; omega), hbytes]

/-- The field written in one record more. -/
theorem overwrite_stamp {k : ℕ} {data : List UInt8} (hin : off + bs.length ≤ size)
    (hlen : size * (k + 1) ≤ data.length) :
    overwrite (stamp size off bs k data) (size * k + off) bs = stamp size off bs (k + 1) data := by
  rw [Nat.mul_succ] at hlen
  apply List.ext_getElem?
  intro i
  rw [getElem?_overwrite (by rw [length_stamp]; omega)]
  by_cases hi : size * k ≤ i ∧ i < size * k + size
  · obtain ⟨r, rfl⟩ := Nat.exists_eq_add_of_le hi.1
    have hr : r < size := by omega
    have hmod : (size * k + r) % size = r := by rw [Nat.mul_add_mod, Nat.mod_eq_of_lt hr]
    by_cases hfield : off ≤ r ∧ r < off + bs.length
    · have hsome : (size * k + r) < data.length := by omega
      have hget : r - off < bs.length := by omega
      rw [if_pos (by omega), getElem?_stamp, hmod, Nat.mul_succ, List.getElem?_eq_getElem hsome,
        Option.map_some, if_pos (by omega), List.getD_eq_getElem _ _ hget, Nat.add_sub_add_left,
        List.getElem?_eq_getElem hget]
    · rw [if_neg (by omega), getElem?_stamp_of_outside _ _ _ _ (.inl (by omega)),
        getElem?_stamp_of_outside _ _ _ _ (.inr (by rw [hmod]; omega))]
  · rw [if_neg (by omega), getElem?_stamp, getElem?_stamp, Nat.mul_succ]
    have hiff : i < size * k ↔ i < size * k + size := by omega
    simp only [hiff]

/-- A later stamp hides an earlier one. -/
theorem stamp_stamp {bs' : List UInt8} (hlen : bs.length = bs'.length) (k : ℕ) (data : List UInt8) :
    stamp size off bs' k (stamp size off bs k data) = stamp size off bs' k data := by
  apply List.ext_getElem?
  intro i
  by_cases hin : i < size * k ∧ off ≤ i % size ∧ i % size < off + bs.length
  · have hget : i % size - off < bs'.length := by omega
    rw [getElem?_stamp, getElem?_stamp, getElem?_stamp, Option.map_map]
    congr 1
    funext b
    simp only [Function.comp_apply, hin, true_and, if_true]
    rw [List.getD_eq_getElem _ _ hget, List.getD_eq_getElem _ _ hget]
  · rw [getElem?_stamp_of_outside _ _ _ _ (by omega), getElem?_stamp_of_outside _ _ _ _ (by omega),
      getElem?_stamp_of_outside _ _ _ _ (by omega)]

end Stamp

end Bytes
