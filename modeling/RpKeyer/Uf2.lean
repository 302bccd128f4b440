/-
# The UF2 family patch

`patch_uf2_family.py`: read a UF2 file, rewrite the family ID of every
512-byte block in the buffer and write the buffer out. A block is changed
while later ones are still to be checked, but the file is written after the
last (`patch`), so a block with a bad magic, however late, leaves the files
as they were (`patch_of_bad`); otherwise the output is the input with the
family field of every block replaced (`patch_of_good`, `patched_rewrite`).

A file is its bytes, a path names one file, and `struct.error` and a missing
input are the exceptions.
-/
import Mathlib.Data.Int.Notation
import Mathlib.Logic.Function.Basic
import RpKeyer.Lib.Bytes

namespace RpKeyer
namespace Uf2

open Bytes

/-! ### The script -/

def block : ℕ := 512
def familyOffset : ℕ := 28
def magic1 : ℕ := 0x0A324655
def magic2 : ℕ := 0x9E5D5157
def magicEnd : ℕ := 0x0AB16F30

/-- The default family. -/
def rp2350ArmS : ℤ := 0xE48BFF59

/-- The files, by path. -/
abbrev FileSystem := String → Option (List UInt8)

inductive Exception
  | fileNotFound | structError
  deriving DecidableEq, Repr

/-- What ends the loop early. -/
inductive Fault
  | badMagic (off : ℕ)
  | structError
  deriving DecidableEq, Repr

/-- What a call leaves, returns or raises, and prints. -/
structure Outcome where
  files : FileSystem
  result : Except Exception ℕ
  stdout : String
  stderr : String

/-- `struct.pack_into("<I", data, off, v)`: a value that does not fit raises. -/
def packInto (data : List UInt8) (off : ℕ) (v : ℤ) : Option (List UInt8) :=
  if v < 0 then none else pack 4 data off v.toNat

/-- The body of the loop: check the block at `off` and write its family. -/
def patchBlock (family : ℤ) (data : List UInt8) (off : ℕ) : Except Fault (List UInt8) :=
  match unpack 4 data off, unpack 4 data (off + 4), unpack 4 data (off + block - 4) with
  | some m1, some m2, some stop =>
    if m1 ≠ magic1 ∨ m2 ≠ magic2 ∨ stop ≠ magicEnd then .error (.badMagic off)
    else match packInto data (off + familyOffset) family with
      | some data' => .ok data'
      | none => .error .structError
  | _, _, _ => .error .structError

/-- `range(0, stop, step)`. -/
def range (stop step : ℕ) : List ℕ := (List.range ((stop + step - 1) / step)).map (step * ·)

/-- `f"{n:#x}"`, with at least `width` digits. -/
def hex (width n : ℕ) : String := "0x" ++ String.ofList ((Nat.toDigits 16 n).leftpad width '0')

def patch (files : FileSystem) (inputPath outputPath : String) (family : ℤ) : Outcome :=
  match files inputPath with
  | none => ⟨files, .error .fileNotFound, "", ""⟩
  | some data =>
    if data.length % block ≠ 0 ∨ data.length = 0 then
      ⟨files, .ok 1, "", "error: " ++ inputPath ++ " is not a multiple of " ++ toString block ++ " bytes\n"⟩
    else
      match (range data.length block).foldlM (patchBlock family) data with
      | .error (.badMagic off) => ⟨files, .ok 1, "", "error: bad UF2 magic at offset " ++ hex 1 off ++ "\n"⟩
      | .error .structError => ⟨files, .error .structError, "", ""⟩
      | .ok data' =>
        ⟨Function.update files outputPath (some data'), .ok 0,
          "patched " ++ toString (data'.length / block) ++ " blocks in " ++ outputPath ++ " -> family " ++
            hex 8 family.toNat ++ "\n", ""⟩

/-! ### What it is for -/

/-- The block at `off` carries the three magics. -/
def Magics (data : List UInt8) (off : ℕ) : Prop :=
  unpack 4 data off = some magic1 ∧ unpack 4 data (off + 4) = some magic2 ∧
    unpack 4 data (off + 508) = some magicEnd

/-- A UF2 file: one or more blocks, each with its magics. -/
structure Accepted (data : List UInt8) : Prop where
  nonempty : 0 < data.length
  blocks : 512 ∣ data.length
  magics : ∀ k, k < data.length / 512 → Magics data (512 * k)

/-- The family fits 32 unsigned bits. -/
def InRange (family : ℤ) : Prop := 0 ≤ family ∧ family < 2 ^ 32

/-- `out` is `data` with the little-endian family at bytes 28 to 31 of every
block. -/
structure Patched (data : List UInt8) (family : ℤ) (out : List UInt8) : Prop where
  length : out.length = data.length
  field : ∀ k, k < data.length / 512 → unpack 4 out (512 * k + 28) = some family.toNat
  others : ∀ i, ¬(28 ≤ i % 512 ∧ i % 512 < 32) → out[i]? = data[i]?

/-- The family written in every block. -/
def rewrite (family : ℤ) (data : List UInt8) : List UInt8 :=
  stamp block familyOffset (le 4 family.toNat) (data.length / block) data

/-! ### The loop -/

theorem packInto_eq_some {data out : List UInt8} {off : ℕ} {v : ℤ} (h : off + 4 ≤ data.length) :
    packInto data off v = some out ↔ InRange v ∧ out = overwrite data off (le 4 v.toNat) := by
  unfold packInto pack InRange
  by_cases hneg : v < 0
  · rw [if_pos hneg]
    refine ⟨fun hnone => (nomatch hnone), fun hin => ?_⟩
    omega
  · rw [if_neg hneg]
    by_cases hfits : v.toNat < 256 ^ 4
    · rw [if_pos ⟨hfits, h⟩, Option.some.injEq, eq_comm]
      exact ⟨fun hout => ⟨by omega, hout⟩, fun hout => hout.2⟩
    · rw [if_neg fun hboth => hfits hboth.1]
      refine ⟨fun hnone => (nomatch hnone), fun hin => ?_⟩
      omega

theorem patchBlock_ok {family : ℤ} {data out : List UInt8} {off : ℕ} (h : off + block ≤ data.length) :
    patchBlock family data off = .ok out ↔
      Magics data off ∧ InRange family ∧ out = overwrite data (off + familyOffset) (le 4 family.toNat) := by
  have hfield : off + familyOffset + 4 ≤ data.length := by
    have hsize : familyOffset + 4 ≤ block := by decide
    omega
  have hread : ∀ o, o + 4 ≤ block → ∃ v, unpack 4 data (off + o) = some v := fun o ho =>
    ⟨_, if_pos (by omega)⟩
  obtain ⟨m1, h1⟩ := hread 0 (by decide)
  obtain ⟨m2, h2⟩ := hread 4 (by decide)
  obtain ⟨stop, h3⟩ := hread 508 (by decide)
  have h3' : unpack 4 data (off + block - 4) = some stop := h3
  rw [Nat.add_zero] at h1
  unfold patchBlock Magics
  rw [h1, h2, h3, h3']
  simp only [Option.some.injEq]
  by_cases hbad : m1 ≠ magic1 ∨ m2 ≠ magic2 ∨ stop ≠ magicEnd
  · rw [if_pos hbad]
    refine ⟨fun herr => (nomatch herr), fun hgood => ?_⟩
    omega
  · have hgood : m1 = magic1 ∧ m2 = magic2 ∧ stop = magicEnd := by omega
    rw [if_neg hbad, ← packInto_eq_some hfield]
    cases hpack : packInto data (off + familyOffset) family with
    | none => exact ⟨fun herr => (nomatch herr), fun hsome => (nomatch hsome.2)⟩
    | some data' => simp [hgood]

/-- The magics are outside the family's field. -/
theorem magics_stamp (family : ℤ) (k j : ℕ) (data : List UInt8) :
    Magics (stamp block familyOffset (le 4 family.toNat) k data) (block * j) ↔ Magics data (block * j) := by
  have hword : ∀ o, o + 4 ≤ block → o + 4 ≤ familyOffset ∨ familyOffset + 4 ≤ o →
      unpack 4 (stamp block familyOffset (le 4 family.toNat) k data) (block * j + o) =
        unpack 4 data (block * j + o) := fun o hin hout =>
    unpack_stamp_of_outside k j data hin (by rwa [length_le])
  have h0 := hword 0 (by decide) (by decide)
  rw [Nat.add_zero] at h0
  unfold Magics
  rw [h0, hword 4 (by decide) (by decide), hword 508 (by decide) (by decide)]

/-- One more block. -/
theorem patchBlock_stamp {family : ℤ} {data out : List UInt8} {k : ℕ} (h : block * (k + 1) ≤ data.length) :
    patchBlock family (stamp block familyOffset (le 4 family.toNat) k data) (block * k) = .ok out ↔
      Magics data (block * k) ∧ InRange family ∧
        out = stamp block familyOffset (le 4 family.toNat) (k + 1) data := by
  have hin : familyOffset + (le 4 family.toNat).length ≤ block := by
    rw [length_le]
    decide
  rw [patchBlock_ok (by rw [length_stamp]; exact h), magics_stamp, overwrite_stamp hin h]

/-- The blocks from `k` on, in a buffer whose first `k` blocks are rewritten. -/
theorem patchBlocks_ok (family : ℤ) (data out : List UInt8) : ∀ (n k : ℕ), block * (k + n) ≤ data.length →
    (((List.range' k n).map (block * ·)).foldlM (patchBlock family)
        (stamp block familyOffset (le 4 family.toNat) k data) = .ok out ↔
      (∀ j, k ≤ j → j < k + n → Magics data (block * j)) ∧ (n = 0 ∨ InRange family) ∧
        out = stamp block familyOffset (le 4 family.toNat) (k + n) data)
  | 0, k, _ => by
    show Except.ok _ = Except.ok out ↔ _
    rw [Except.ok.injEq]
    exact ⟨fun hout => ⟨fun j hk hj => by omega, .inl rfl, hout.symm⟩, fun hout => hout.2.2.symm⟩
  | n + 1, k, hlen => by
    have hone : block * (k + 1) ≤ data.length := (Nat.mul_le_mul_left block (by omega)).trans hlen
    have ih := patchBlocks_ok family data out n (k + 1)
      (by rwa [Nat.add_right_comm, Nat.add_assoc])
    rw [List.range'_succ, List.map_cons, List.foldlM_cons]
    cases hstep : patchBlock family (stamp block familyOffset (le 4 family.toNat) k data) (block * k) with
    | error fault =>
      refine ⟨fun herr => (nomatch herr), fun hgood => ?_⟩
      have hmagics := hgood.1 k le_rfl (by omega)
      have hrange := hgood.2.1.resolve_left (by omega)
      have hok := (patchBlock_stamp hone).mpr ⟨hmagics, hrange, rfl⟩
      rw [hstep] at hok
      cases hok
    | ok data' =>
      obtain ⟨hmagics, hrange, rfl⟩ := (patchBlock_stamp hone).mp hstep
      refine ih.trans ⟨fun h => ⟨fun j hk hj => ?_, .inr hrange, ?_⟩, fun h => ⟨fun j hk hj => ?_, ?_, ?_⟩⟩
      · rcases Nat.eq_or_lt_of_le hk with rfl | hlt
        · exact hmagics
        · exact h.1 j hlt (by omega)
      · rw [h.2.2, Nat.add_right_comm, Nat.add_assoc]
      · exact h.1 j (by omega) (by omega)
      · exact .inr hrange
      · rw [h.2.2, Nat.add_right_comm, Nat.add_assoc]

/-- The whole loop, over a buffer of whole blocks. -/
theorem loop_ok {family : ℤ} {data out : List UInt8} (hpos : 0 < data.length) (hdvd : 512 ∣ data.length) :
    (range data.length block).foldlM (patchBlock family) data = .ok out ↔
      (∀ k, k < data.length / 512 → Magics data (512 * k)) ∧ InRange family ∧ out = rewrite family data := by
  obtain ⟨n, hn⟩ := hdvd
  have hdiv : data.length / 512 = n := by omega
  have hcount : (data.length + block - 1) / block = n := by
    show (data.length + 512 - 1) / 512 = n
    omega
  have hloop := patchBlocks_ok family data out n 0
    (by rw [Nat.zero_add]; exact hn.ge)
  rw [stamp_zero, Nat.zero_add, ← List.range_eq_range'] at hloop
  unfold range rewrite
  rw [hcount, hloop]
  show _ ↔ (∀ k, k < data.length / 512 → _) ∧ _ ∧ out = stamp block familyOffset _ (data.length / 512) data
  rw [hdiv]
  refine and_congr ⟨fun h k hk => h k (Nat.zero_le k) hk, fun h k _ hk => h k hk⟩ (and_congr ?_ Iff.rfl)
  exact or_iff_right (by omega)

/-! ### What it writes -/

theorem rewrite_length (family : ℤ) (data : List UInt8) : (rewrite family data).length = data.length :=
  length_stamp _ _ _ _ _

theorem accepted_rewrite {data : List UInt8} (family : ℤ) (h : Accepted data) :
    Accepted (rewrite family data) where
  nonempty := by
    rw [rewrite_length]
    exact h.nonempty
  blocks := by
    rw [rewrite_length]
    exact h.blocks
  magics k hk := by
    rw [rewrite_length] at hk
    exact (magics_stamp family _ k data).mpr (h.magics k hk)

/-- The later family is the one that stays. -/
theorem rewrite_rewrite (family family₂ : ℤ) (data : List UInt8) :
    rewrite family₂ (rewrite family data) = rewrite family₂ data := by
  unfold rewrite
  rw [length_stamp]
  exact stamp_stamp (by rw [length_le, length_le]) _ data

theorem patched_rewrite {family : ℤ} {data : List UInt8} (hrange : InRange family) :
    Patched data family (rewrite family data) where
  length := rewrite_length family data
  field k hk := by
    have hin : familyOffset + (le 4 family.toNat).length ≤ block := by
      rw [length_le]
      decide
    have hfits : family.toNat < 256 ^ 4 := by
      obtain ⟨h0, hlt⟩ := hrange
      omega
    have hword := unpack_stamp hin hk (Nat.mul_div_le data.length 512)
    rwa [length_le, ofLe_le hfits] at hword
  others i hi := by
    apply getElem?_stamp_of_outside
    rw [length_le]
    show _ ∨ i % 512 < 28 ∨ 28 + 4 ≤ i % 512
    omega

/-! ### Runs of `patch` -/

theorem patch_of_good {files : FileSystem} {input : String} {data : List UInt8} {family : ℤ}
    (hin : files input = some data) (hdata : Accepted data) (hrange : InRange family) (output : String) :
    (patch files input output family).result = .ok 0 ∧
    (patch files input output family).files = Function.update files output (some (rewrite family data)) := by
  have hloop := (loop_ok hdata.nonempty hdata.blocks).mpr ⟨hdata.magics, hrange, rfl⟩
  have hblocks : ¬(data.length % block ≠ 0 ∨ data.length = 0) := by
    have hpos := hdata.nonempty
    have hmod : data.length % block = 0 := Nat.mod_eq_zero_of_dvd hdata.blocks
    omega
  unfold patch
  rw [hin]
  simp only [if_neg hblocks, hloop, and_self]

theorem patch_of_bad {files : FileSystem} {input : String} {data : List UInt8} {family : ℤ}
    (hin : files input = some data) (hbad : ¬(Accepted data ∧ InRange family)) (output : String) :
    (patch files input output family).result ≠ .ok 0 ∧ (patch files input output family).files = files := by
  unfold patch
  rw [hin]
  by_cases hblocks : data.length % block ≠ 0 ∨ data.length = 0
  · simp only [if_pos hblocks]
    exact ⟨by simp, trivial⟩
  · simp only [if_neg hblocks]
    have hpos : 0 < data.length := by omega
    have hdvd : 512 ∣ data.length := by
      apply Nat.dvd_of_mod_eq_zero
      show data.length % block = 0
      omega
    cases hloop : (range data.length block).foldlM (patchBlock family) data with
    | ok out =>
      obtain ⟨hmagics, hrange, -⟩ := (loop_ok hpos hdvd).mp hloop
      exact absurd ⟨⟨hpos, hdvd, hmagics⟩, hrange⟩ hbad
    | error fault => cases fault <;> exact ⟨by simp, rfl⟩

/-- **Exact, all or nothing, idempotent.** The script returns 0 exactly when
the input is a UF2 file and the family fits; then the output is the input with
the family field of every block replaced, and otherwise no file changes. The
output is accepted again, and a later family replaces an earlier one. -/
theorem patch_exact (files : FileSystem) (input output : String) (family : ℤ) (data : List UInt8)
    (hin : files input = some data) :
    let out := patch files input output family
    (out.result = .ok 0 ↔ Accepted data ∧ InRange family) ∧
    (out.result = .ok 0 → ∃ bytes,
      out.files = Function.update files output (some bytes) ∧ Patched data family bytes ∧ Accepted bytes) ∧
    (out.result ≠ .ok 0 → out.files = files) ∧
    (out.result = .ok 0 → ∀ output₂ family₂, InRange family₂ →
      (patch out.files output output₂ family₂).result = .ok 0 ∧
      (patch out.files output output₂ family₂).files output₂ = (patch files input output₂ family₂).files output₂) ∧
    (out.result = .ok 0 → (patch out.files output output family).files = out.files) := by
  intro out
  by_cases hgood : Accepted data ∧ InRange family
  · obtain ⟨hdata, hrange⟩ := hgood
    obtain ⟨hresult, hfiles⟩ := patch_of_good hin hdata hrange output
    have hin₂ : out.files output = some (rewrite family data) := by
      show (patch files input output family).files output = _
      rw [hfiles, Function.update_self]
    have hdata₂ := accepted_rewrite family hdata
    refine ⟨⟨fun _ => ⟨hdata, hrange⟩, fun _ => hresult⟩, fun _ => ⟨_, hfiles, patched_rewrite hrange, hdata₂⟩,
      fun hne => absurd hresult hne, fun _ output₂ family₂ hrange₂ => ?_, fun _ => ?_⟩
    · obtain ⟨hresult₂, hfiles₂⟩ := patch_of_good hin₂ hdata₂ hrange₂ output₂
      rw [hfiles₂, (patch_of_good hin hdata hrange₂ output₂).2, Function.update_self, Function.update_self,
        rewrite_rewrite]
      exact ⟨hresult₂, rfl⟩
    · rw [(patch_of_good hin₂ hdata₂ hrange output).2, rewrite_rewrite, ← hin₂, Function.update_eq_self]
  · obtain ⟨hresult, hfiles⟩ := patch_of_bad hin hgood output
    exact ⟨⟨fun hok => absurd hok hresult, fun h => absurd h hgood⟩, fun hok => absurd hok hresult,
      fun _ => hfiles, fun hok => absurd hok hresult, fun hok => absurd hok hresult⟩

/-- A file of one empty block. -/
def emptyBlock : List UInt8 := le 4 magic1 ++ le 4 magic2 ++ List.replicate 500 0 ++ le 4 magicEnd

/-- The file of one block, patched in place. -/
theorem patch_exact_in_place :
    let out := patch (fun p => if p = "a.uf2" then some emptyBlock else none) "a.uf2" "a.uf2" rp2350ArmS
    out.result = .ok 0 ∧ (patch out.files "a.uf2" "a.uf2" rp2350ArmS).files = out.files := by
  intro out
  have hlen : emptyBlock.length = 512 := by decide +kernel
  have hdata : Accepted emptyBlock := by
    refine ⟨by omega, by omega, fun k hk => ?_⟩
    obtain rfl : k = 0 := by omega
    exact ⟨by decide +kernel, by decide +kernel, by decide +kernel⟩
  obtain ⟨hiff, -, -, -, htwice⟩ := patch_exact (fun p => if p = "a.uf2" then some emptyBlock else none)
    "a.uf2" "a.uf2" rp2350ArmS emptyBlock (if_pos rfl)
  have hok := hiff.mpr ⟨hdata, by decide, by decide⟩
  exact ⟨hok, htwice hok⟩

end Uf2
end RpKeyer
