/-
# Strings of one byte a character

A buffer of `n` bytes holds at most `n` characters (`length_le_size`), and as
many as it has bytes if all are ASCII (`Ascii`), as decimal numerals are
(`ascii_repr`).
-/
import Mathlib.Data.Nat.Notation

namespace Strings

/-- No character takes more than one byte. -/
def Ascii (s : String) : Prop := s.utf8ByteSize = s.length

instance (s : String) : Decidable (Ascii s) := inferInstanceAs (Decidable (_ = _))

theorem length_le_size (s : String) : s.length ≤ s.utf8ByteSize := by
  induction s using String.push_induction with
  | empty => exact Nat.le_refl 0
  | push s c ih =>
    have hc := c.utf8Size_pos
    rw [String.length_push, String.utf8ByteSize_push]
    omega

theorem ascii_append {s t : String} (hs : Ascii s) (ht : Ascii t) : Ascii (s ++ t) := by
  unfold Ascii at hs ht ⊢
  rw [String.utf8ByteSize_append, String.length_append, hs, ht]

theorem ascii_singleton {c : Char} (h : c.toNat < 128) : Ascii (String.singleton c) := by
  have hsize : c.utf8Size = 1 := by
    unfold Char.utf8Size
    rw [if_pos]
    exact UInt32.le_iff_toNat_le.mpr (Nat.le_of_lt_succ h)
  unfold Ascii
  rw [String.utf8ByteSize_singleton, String.length_singleton, hsize]

/-- Numerals have digits only. -/
theorem ascii_repr (n : ℕ) : Ascii n.repr := by
  have hdigit : ∀ d < 10, (Nat.digitChar d).toNat < 128 := by decide
  induction n using Nat.strongRecOn with
  | _ n ih =>
    rcases Nat.lt_or_ge n 10 with hone | hmore
    · rw [Nat.repr_of_lt hone]
      exact ascii_singleton (hdigit n hone)
    · rw [Nat.repr_of_ge hmore]
      exact ascii_append (ih (n / 10) (by omega)) (ascii_singleton (hdigit (n % 10) (by omega)))

end Strings
