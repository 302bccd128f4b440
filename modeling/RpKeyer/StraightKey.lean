/-
# A straight key

The simplest engine there is: it keys while either paddle is held, with the
PTT opened one tick before the key-down and closed one tick after the key-up.
The results about every engine are applied to it where a concrete one is
called for.
-/
import RpKeyer.Keyer

namespace RpKeyer
namespace StraightKey

inductive Phase
  | idle | ptt | down | hang
  deriving DecidableEq, Repr

structure State where
  config : KeyerConfig
  held : Bool
  phase : Phase

def tick (e : State) : State × Option KeyerOutput :=
  match e.phase with
  | .idle => if e.held then ({ e with phase := .ptt }, some (.pttRequest true)) else (e, none)
  | .ptt => ({ e with phase := .down }, some .keyDown)
  | .down => if e.held then (e, none) else ({ e with phase := .hang }, some .keyUp)
  | .hang => ({ e with phase := .idle }, some (.pttRequest false))

/-- Active from the PTT's opening to its closing. -/
def engine : Engine State where
  newWithTick c _ := ⟨c, false, .idle⟩
  setPaddle e dit dah := { e with held := dit || dah }
  updateConfig e c := { e with config := c }
  tick := tick
  isActive e := e.phase != .idle

/-- The line it keys is down from the PTT's opening to the key-up. -/
def keying (e : State) : Prop := e.phase = .ptt ∨ e.phase = .down

/-- Some settings, in the menu's ranges. -/
def config : KeyerConfig where
  mode := .straight
  speedWpm := 18
  weight := 50
  sidetoneFreq := 600
  sidetoneVolume := .num (1 / 2)
  hangTimeMs := 300
  keysReversed := false
  iambicBTimingPercent := 60
  farnsworthWpm := 0
  keyingCompensationMs := 0
  usbEmitStyle := .paddle
  decoderEnabled := true

/-- A slice at its reset values, on a 125 MHz clock. -/
def pwm : Pwm := ⟨⟨1, 65535, 0⟩, 0⟩

def clkSysFreq : UInt32 := 125000000

end StraightKey
end RpKeyer
