/-
# The keyer's configuration and the values the tasks exchange

`KeyerConfig`, `KeyerMode`, `UsbEmitStyle` and `KeyerOutput` are the types of
the keyer crate as the firmware uses them: of `KeyerConfig` the fields that
some function of the firmware reads or writes. The crate's engine itself is a
parameter (`Engine`), any transition system with these five operations.

A Rust `f32` is read as an exact rational or NaN (`F32`); its `as` casts
saturate and send NaN to 0.
-/
import Mathlib.Data.Rat.Floor

namespace RpKeyer

inductive KeyerMode
  | straight | iambicA | iambicB | bug | ultimatic | singlePaddle
  deriving DecidableEq, Repr

inductive UsbEmitStyle
  | paddle | keyed
  deriving DecidableEq, Repr

/-- An `f32`, read as an exact rational or NaN. -/
inductive F32
  | nan
  | num (q : ℚ)
  deriving DecidableEq

/-- The integer part, towards 0. -/
def trunc (q : ℚ) : ℤ := if 0 ≤ q then ⌊q⌋ else ⌈q⌉

/-- An integer clamped into a cast's target range. -/
def saturate (lo hi n : ℤ) : ℤ := max lo (min hi n)

namespace F32

/-- `x * k`. -/
def scale (k : ℚ) : F32 → F32
  | nan => nan
  | num q => num (q * k)

/-- `x as i32`. -/
def toI32 : F32 → ℤ
  | nan => 0
  | num q => saturate (-2 ^ 31) (2 ^ 31 - 1) (trunc q)

/-- `x as u32`. -/
def toU32 : F32 → ℕ
  | nan => 0
  | num q => (saturate 0 (2 ^ 32 - 1) (trunc q)).toNat

/-- `x as u16`. -/
def toU16 : F32 → ℕ
  | nan => 0
  | num q => (saturate 0 (2 ^ 16 - 1) (trunc q)).toNat

/-- `if x.is_nan() { 0.0 } else { x.clamp(0.0, 1.0) }`. -/
def clampUnit : F32 → ℚ
  | nan => 0
  | num q => max 0 (min 1 q)

/-- `f32::EPSILON`. -/
def epsilon : ℚ := 1 / 2 ^ 23

theorem epsilon_pos : 0 < epsilon := by norm_num [epsilon]

theorem clampUnit_nonneg (x : F32) : 0 ≤ x.clampUnit := by
  cases x with
  | nan => exact le_refl _
  | num q => exact le_max_left _ _

theorem clampUnit_le_one (x : F32) : x.clampUnit ≤ 1 := by
  cases x with
  | nan => exact zero_le_one
  | num q => exact max_le zero_le_one (min_le_left _ _)

end F32

structure KeyerConfig where
  mode : KeyerMode
  speedWpm : UInt8
  weight : UInt8
  sidetoneFreq : UInt32
  sidetoneVolume : F32
  hangTimeMs : UInt32
  keysReversed : Bool
  iambicBTimingPercent : UInt8
  farnsworthWpm : UInt8
  keyingCompensationMs : UInt8
  usbEmitStyle : UsbEmitStyle
  decoderEnabled : Bool
  deriving DecidableEq

/-- What one engine tick can report. -/
inductive KeyerOutput
  | keyDown
  | keyUp
  | pttRequest (on : Bool)
  deriving DecidableEq, Repr

/-- The keyer crate's engine, as the firmware calls it. -/
structure Engine (ε : Type) where
  newWithTick : KeyerConfig → UInt32 → ε
  setPaddle : ε → Bool → Bool → ε
  updateConfig : ε → KeyerConfig → ε
  tick : ε → ε × Option KeyerOutput
  isActive : ε → Bool

/-- The keyer's USB-facing state in one iteration; `ditPressed` and
`dahPressed` are logical, after the `keys_reversed` swap. -/
structure UsbSnapshot where
  ditPressed : Bool
  dahPressed : Bool
  liveKey : Bool
  emitStyle : UsbEmitStyle
  deriving DecidableEq, Repr

inductive ButtonEvent
  | up | down | ok | back
  deriving DecidableEq, Repr

end RpKeyer
