/-
# Settings storage

`storage.rs`: the config is stored as `(SCHEMA_VERSION, config)` in postcard's
encoding, under the one key of a flash map. `save_config` encodes into a
scratch buffer first; `load_config` decodes the whole tuple and only then
looks at the version.

The flash map hands back the bytes of the last store that succeeded, and a
failed store leaves them. Postcard is any codec for `u16` and any for the config
of each schema version; every build of a version shares its codec.

Whatever builds saved in whatever order, a load is the last successful save
when that was made by the same version, and `None` otherwise
(`load_iff_last_saved`).
-/
import RpKeyer.Postcard
import RpKeyer.StraightKey

namespace RpKeyer
namespace Storage

open Codecs Postcard

/-! ### The flash map -/

/-- The flash map's one record. -/
structure Flash where
  record : Option (List UInt8)
  deriving DecidableEq, Repr

def Flash.empty : Flash := ⟨none⟩

/-- A fetch, which here does not fail. -/
def Flash.fetchItem (f : Flash) : Except Unit (Option (List UInt8)) := .ok f.record

/-- A store, with its result; a failed one keeps the record. -/
def Flash.storeItem (f : Flash) (bytes : List UInt8) (ok : Bool) : Flash × Bool :=
  if ok then (⟨some bytes⟩, true) else (f, false)

/-! ### Saving and loading -/

/-- `SCHEMA_VERSION` of this build. -/
def schemaVersion : UInt16 := 2

def scratchSize : ℕ := 256

/-- `postcard::to_slice` into the scratch buffer. -/
def toSlice (bytes : List UInt8) : Option (List UInt8) :=
  if bytes.length ≤ scratchSize then some bytes else none

section
variable {α : Type} (tag : Codec UInt16) (version : UInt16) (codec : Codec α)

/-- Load by a build of `version`. -/
def loadConfig (f : Flash) : Option α :=
  match f.fetchItem with
  | .ok (some bytes) =>
    match (tag.pair codec).decode bytes with
    | some ((stored, cfg), _) => if stored = version then some cfg else none
    | none => none
  | .ok none => none
  | .error _ => none

/-- Save a config; `ok` is the result of the store, should it come to it. -/
def saveConfig (f : Flash) (config : α) (ok : Bool) : Flash × Bool :=
  match toSlice ((tag.pair codec).encode (version, config)) with
  | some bytes => f.storeItem bytes ok
  | none => (f, false)

/-- A failed save changes nothing, a successful one stores the tuple. -/
theorem saveConfig_cases (f : Flash) (config : α) (ok : Bool) :
    saveConfig tag version codec f config ok = (f, false) ∨
    saveConfig tag version codec f config ok =
      (⟨some ((tag.pair codec).encode (version, config))⟩, true) := by
  unfold saveConfig toSlice Flash.storeItem
  by_cases hlen : ((tag.pair codec).encode (version, config)).length ≤ scratchSize
  · rw [if_pos hlen]
    cases ok with
    | true => exact .inr rfl
    | false => exact .inl rfl
  · rw [if_neg hlen]
    exact .inl rfl

/-- A save that failed leaves the flash as it was. -/
theorem saveConfig_err {f : Flash} {config : α} {ok : Bool}
    (h : (saveConfig tag version codec f config ok).2 = false) :
    (saveConfig tag version codec f config ok).1 = f := by
  rcases saveConfig_cases tag version codec f config ok with hs | hs
  · rw [hs]
  · rw [hs] at h
    cases h

theorem saveConfig_ok {f : Flash} {config : α} {ok : Bool}
    (h : (saveConfig tag version codec f config ok).2 = true) :
    (saveConfig tag version codec f config ok).1 =
      ⟨some ((tag.pair codec).encode (version, config))⟩ := by
  rcases saveConfig_cases tag version codec f config ok with hs | hs
  · rw [hs] at h
    cases h
  · rw [hs]

/-- A save succeeds if its encoding fits the scratch buffer and the store
succeeds. -/
theorem saveConfig_succeeds (f : Flash) (config : α) (ok : Bool) :
    (saveConfig tag version codec f config ok).2 = true ↔
      ((tag.pair codec).encode (version, config)).length ≤ scratchSize ∧ ok = true := by
  unfold saveConfig toSlice Flash.storeItem
  by_cases hlen : ((tag.pair codec).encode (version, config)).length ≤ scratchSize
  · rw [if_pos hlen]
    cases ok with
    | true => simp [hlen]
    | false => simp
  · rw [if_neg hlen]
    simp [hlen]

/-- Loading what the same version stored. -/
theorem loadConfig_same (config : α) :
    loadConfig tag version codec ⟨some ((tag.pair codec).encode (version, config))⟩ =
      some config := by
  unfold loadConfig Flash.fetchItem
  simp only [tag.pair_decode codec, ↓reduceIte]

end

/-- Loading what another version stored: whatever its bytes decode to. -/
theorem loadConfig_other {α β : Type} (tag : Codec UInt16) {v w : UInt16} (codecV : Codec α)
    (codecW : Codec β) (hvw : v ≠ w) (config : α) :
    loadConfig tag w codecW ⟨some ((tag.pair codecV).encode (v, config))⟩ = none := by
  unfold loadConfig Flash.fetchItem
  have hbytes : (tag.pair codecV).encode (v, config) = tag.encode v ++ codecV.encode config := rfl
  simp only [hbytes]
  rcases hd : (tag.pair codecW).decode (tag.encode v ++ codecV.encode config) with _ | ⟨⟨stored, cfg⟩, rest⟩
  · rfl
  · have hstored : stored = v := tag.pair_decode_fst codecW v _ hd
    simp only [hstored, if_neg hvw]

/-! ### Histories of builds -/

/-- A save by the build of a version, and what becomes of its store. -/
structure Save (Cfg : UInt16 → Type) where
  version : UInt16
  config : Cfg version
  ok : Bool

variable {Cfg : UInt16 → Type} (tag : Codec UInt16) (codec : ∀ v, Codec (Cfg v))

/-- One save; on the side, the last successful one. -/
def save (s : Flash × Option (Σ v, Cfg v)) (a : Save Cfg) : Flash × Option (Σ v, Cfg v) :=
  let r := saveConfig tag a.version (codec a.version) s.1 a.config a.ok
  (r.1, if r.2 then some ⟨a.version, a.config⟩ else s.2)

/-- The saves of a history, from an erased flash. -/
def saves (hist : List (Save Cfg)) : Flash × Option (Σ v, Cfg v) := hist.foldl (save tag codec) (.empty, none)

theorem saves_snoc (hist : List (Save Cfg)) (a : Save Cfg) :
    saves tag codec (hist ++ [a]) = save tag codec (saves tag codec hist) a := by
  unfold saves
  rw [List.foldl_append]
  rfl

/-- The flash holds the last successful save. -/
def Holds (s : Flash × Option (Σ v, Cfg v)) : Prop :=
  s.1.record = s.2.map fun c => (tag.pair (codec c.1)).encode (c.1, c.2)

theorem holds_save {s : Flash × Option (Σ v, Cfg v)} (h : Holds tag codec s) (a : Save Cfg) :
    Holds tag codec (save tag codec s a) := by
  unfold save
  rcases saveConfig_cases tag a.version (codec a.version) s.1 a.config a.ok with hs | hs
  · simp only [hs, Bool.false_eq_true, ↓reduceIte]
    exact h
  · simp only [hs, ↓reduceIte]
    rfl

theorem holds_saves (hist : List (Save Cfg)) : Holds tag codec (saves tag codec hist) := by
  have hall : ∀ (hist : List (Save Cfg)) (s : Flash × Option (Σ v, Cfg v)), Holds tag codec s →
      Holds tag codec (hist.foldl (save tag codec) s) := by
    intro hist
    induction hist with
    | nil => exact fun _ h => h
    | cons a hist ih => exact fun s h => ih _ (holds_save tag codec h a)
  exact hall hist _ rfl

/-- What a build loads from a flash that holds the last successful save. -/
theorem loadConfig_holds {s : Flash × Option (Σ v, Cfg v)} (h : Holds tag codec s) (w : UInt16) (c : Cfg w) :
    loadConfig tag w (codec w) s.1 = some c ↔ s.2 = some ⟨w, c⟩ := by
  obtain ⟨⟨record⟩, last⟩ := s
  have hrecord : record = last.map fun c => (tag.pair (codec c.1)).encode (c.1, c.2) := h
  subst hrecord
  rcases last with _ | ⟨v, d⟩
  · simp [loadConfig, Flash.fetchItem]
  · by_cases hvw : v = w
    · subst hvw
      have hload := loadConfig_same tag v (codec v) d
      simp only [Option.map_some] at hload ⊢
      rw [hload]
      simp
    · have hload := loadConfig_other tag (codec v) (codec w) hvw d
      simp only [Option.map_some] at hload ⊢
      rw [hload]
      simp [hvw]

/-- **Settings survive firmware versions.** After any history of saves, a
build loads `c` if and only if the last successful save was of `c` by a build
of its version; it loads nothing when that save was by another version; a
save that fails changes no build's load; and a save is successful exactly if
its encoding fits the scratch buffer and the store succeeds. -/
theorem load_iff_last_saved (hist : List (Save Cfg)) (w : UInt16) :
    (∀ c, loadConfig tag w (codec w) (saves tag codec hist).1 = some c ↔
      (saves tag codec hist).2 = some ⟨w, c⟩) ∧
    (∀ v c, (saves tag codec hist).2 = some ⟨v, c⟩ → v ≠ w →
      loadConfig tag w (codec w) (saves tag codec hist).1 = none) ∧
    (∀ a : Save Cfg,
      (saveConfig tag a.version (codec a.version) (saves tag codec hist).1 a.config a.ok).2 = false →
      loadConfig tag w (codec w) (saves tag codec (hist ++ [a])).1 =
        loadConfig tag w (codec w) (saves tag codec hist).1) ∧
    ∀ a : Save Cfg, (saves tag codec (hist ++ [a])).2 =
      if ((tag.pair (codec a.version)).encode (a.version, a.config)).length ≤ scratchSize ∧ a.ok = true then
        some ⟨a.version, a.config⟩
      else (saves tag codec hist).2 := by
  have hiff := loadConfig_holds tag codec (holds_saves tag codec hist) w
  refine ⟨hiff, fun v c hlast hvw => ?_, fun a herr => ?_, fun a => ?_⟩
  · rcases hl : loadConfig tag w (codec w) (saves tag codec hist).1 with _ | d
    · rfl
    · have hsame := hlast.symm.trans ((hiff d).mp hl)
      exact absurd (congrArg Sigma.fst (Option.some.inj hsame)) hvw
  · have hkeep := saveConfig_err tag a.version (codec a.version) herr
    have hsnoc : (saves tag codec (hist ++ [a])).1 =
        (saveConfig tag a.version (codec a.version) (saves tag codec hist).1 a.config a.ok).1 := by
      rw [saves_snoc]
      rfl
    rw [hsnoc, hkeep]
  · rw [saves_snoc]
    exact if_congr (saveConfig_succeeds tag a.version (codec a.version) _ a.config a.ok) rfl rfl

/-- Version 1 saves; version 2 loads nothing, its first save fails in the
flash, its second is loaded, and its third does not fit the scratch buffer. -/
theorem load_iff_last_saved_upgrade :
    let codec : ∀ _ : UInt16, Codec KeyerConfig := fun _ => config
    let old := StraightKey.config
    let new := { old with speedWpm := 25 }
    let large := { old with sidetoneVolume := .num (1 / 2 ^ 1750) }
    let failed : List (Save fun _ => KeyerConfig) := [⟨1, old, true⟩, ⟨2, new, false⟩]
    let saved := failed ++ [⟨2, new, true⟩]
    let load := fun (w : UInt16) (hist : List (Save fun _ => KeyerConfig)) =>
      loadConfig varint16 w config (saves varint16 codec hist).1
    load 1 failed = some old ∧ load 2 failed = none ∧ load 2 saved = some new ∧ load 1 saved = none ∧
    load 2 (saved ++ [⟨2, large, true⟩]) = some new := by
  intro codec old new large failed saved load
  have hone : (saves varint16 codec failed).2 = some ⟨1, old⟩ := by decide +kernel
  have htwo : (saves varint16 codec saved).2 = some ⟨2, new⟩ := by decide +kernel
  have hlarge : ¬ (((varint16.pair config).encode (2, large)).length ≤ scratchSize ∧ true = true) := by
    decide +kernel
  obtain ⟨hold, -⟩ := load_iff_last_saved varint16 codec failed 1
  obtain ⟨-, hnone, -⟩ := load_iff_last_saved varint16 codec failed 2
  obtain ⟨hnew, -, -, hnext⟩ := load_iff_last_saved varint16 codec saved 2
  obtain ⟨-, hother, -⟩ := load_iff_last_saved varint16 codec saved 1
  obtain ⟨hkept, -⟩ := load_iff_last_saved varint16 codec (saved ++ [⟨2, large, true⟩]) 2
  have hthird := hnext ⟨2, large, true⟩
  rw [if_neg hlarge] at hthird
  exact ⟨(hold old).mpr hone, hnone 1 old hone (by decide), (hnew new).mpr htwo, hother 2 new htwo (by decide),
    (hkept new).mpr (hthird.trans htwo)⟩

end Storage
end RpKeyer
