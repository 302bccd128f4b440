/-
# Paddle reads with software debouncing

`paddle.rs`: a change of the raw input is accepted after it has read the new
state for `threshold` consecutive samples.
-/
import RpKeyer.Config

namespace RpKeyer

structure Debouncer where
  state : Bool
  integrationCounter : UInt8
  threshold : UInt8
  deriving DecidableEq, Repr

namespace Debouncer

def new (initialState : Bool) (threshold : UInt8) : Debouncer := ⟨initialState, 0, threshold⟩

/-- One sample; the result is the debounced state after it. -/
def update (d : Debouncer) (rawState : Bool) : Debouncer × Bool :=
  if rawState ≠ d.state then
    let counter := d.integrationCounter + 1
    if counter ≥ d.threshold then
      ({ d with state := rawState, integrationCounter := 0 }, rawState)
    else ({ d with integrationCounter := counter }, d.state)
  else ({ d with integrationCounter := 0 }, d.state)

end Debouncer
end RpKeyer
