/-
# The keyer loop

`keyer_task::run`, the high-priority loop: every 250 µs it reads the paddles,
posts a changed `UsbSnapshot`, passes the paddle to the engine, every
`CONFIG_REFRESH_TICKS` iterations re-reads the shared config, and ticks the
engine, whose outputs drive the key line. `save_lock` parks it.

The sections of the loop body are one definition each (`poll`, `count`,
`refresh`, `tick`); `iteration` is the whole body, taken at once. The only
await inside it is the config mutex, between `count` and `refresh`.
-/
import RpKeyer.Lib.StepRun
import RpKeyer.Lib.LatestWins
import RpKeyer.Buzzer
import RpKeyer.Paddle

namespace RpKeyer

/-- An embassy `Signal`: one slot, the latest value wins. -/
abbrev Signal := LatestWins.Chan

/-- The pin that keys the radio: high keys the carrier. -/
structure RadioKey where
  pin : Bool
  deriving DecidableEq, Repr

def RadioKey.set (_ : RadioKey) (on : Bool) : RadioKey := ⟨on⟩

/-- A call the keyer makes on the shared CW decoder. -/
inductive DecoderCall
  | clear
  | onTransition (nowUs : ℕ) (keyDown : Bool) (wpm : UInt8)
  deriving DecidableEq, Repr

/-- The statics the tasks share. `decoder` is the calls the keyer has made. -/
structure Statics where
  sharedConfig : KeyerConfig
  keyIndicator : Bool
  engineActive : Bool
  saveLock : Bool
  usbSignal : Signal UsbSnapshot
  configDirty : Signal Unit
  decoder : List DecoderCall

/-- The statics at boot, with the config restored from flash or the default. -/
def Statics.boot (config : KeyerConfig) : Statics where
  sharedConfig := config
  keyIndicator := false
  engineActive := false
  saveLock := false
  usbSignal := .empty
  configDirty := .empty
  decoder := []

/-- The locals of `run`. -/
structure Keyer (ε : Type) where
  keysReversed : Bool
  emitStyle : UsbEmitStyle
  wpm : UInt8
  decoderEnabled : Bool
  engine : ε
  ditDebounce : Debouncer
  dahDebounce : Debouncer
  liveKey : Bool
  lastSignaled : Option UsbSnapshot
  refreshCounter : UInt32
  radioKey : RadioKey
  buzzer : Buzzer

namespace Keyer

def pollIntervalUs : UInt32 := 250

def configRefreshTicks : UInt32 := (50 * 1000) / pollIntervalUs

variable {ε : Type} (E : Engine ε)

/-- Before the loop: the locals, seeded from the shared config. -/
def start (st : Statics) (radioKey : RadioKey) (buzzer : Buzzer) : Keyer ε where
  keysReversed := st.sharedConfig.keysReversed
  emitStyle := st.sharedConfig.usbEmitStyle
  wpm := st.sharedConfig.speedWpm
  decoderEnabled := st.sharedConfig.decoderEnabled
  engine := E.newWithTick st.sharedConfig pollIntervalUs
  ditDebounce := .new false 8
  dahDebounce := .new false 8
  liveKey := false
  lastSignaled := none
  refreshCounter := 0
  radioKey := radioKey
  buzzer := buzzer.updateSettings st.sharedConfig.sidetoneFreq st.sharedConfig.sidetoneVolume

/-- The debounced dit and dah inputs after a sample, before any swap. -/
def ditPhys (k : Keyer ε) (rawDit : Bool) : Bool := (k.ditDebounce.update rawDit).2

def dahPhys (k : Keyer ε) (rawDah : Bool) : Bool := (k.dahDebounce.update rawDah).2

/-- Sections 1 and 2: the paddle after `keys_reversed`, and the snapshot. -/
def snapshot (k : Keyer ε) (rawDit rawDah : Bool) : UsbSnapshot where
  ditPressed := if k.keysReversed then k.dahPhys rawDah else k.ditPhys rawDit
  dahPressed := if k.keysReversed then k.ditPhys rawDit else k.dahPhys rawDah
  liveKey := k.liveKey
  emitStyle := k.emitStyle

/-- Sections 1 to 3: read the paddle, post a changed snapshot, `set_paddle`. -/
def poll (k : Keyer ε) (st : Statics) (rawDit rawDah : Bool) : Keyer ε × Statics :=
  let s := k.snapshot rawDit rawDah
  ({ k with
      ditDebounce := (k.ditDebounce.update rawDit).1
      dahDebounce := (k.dahDebounce.update rawDah).1
      lastSignaled := if some s ≠ k.lastSignaled then some s else k.lastSignaled
      engine := E.setPaddle k.engine (k.ditPhys rawDit) (k.dahPhys rawDah) },
    if some s ≠ k.lastSignaled then { st with usbSignal := st.usbSignal.post s } else st)

/-- Section 4 up to the mutex: is a refresh due? -/
def count (k : Keyer ε) : Keyer ε × Bool :=
  let counter := k.refreshCounter + 1
  if counter ≥ configRefreshTicks then ({ k with refreshCounter := 0 }, true)
  else ({ k with refreshCounter := counter }, false)

/-- Section 4 with the mutex held: the shared config replaces the cached one. -/
def refresh (k : Keyer ε) (st : Statics) : Keyer ε × Statics :=
  let cfg := st.sharedConfig
  ({ k with
      keysReversed := cfg.keysReversed
      emitStyle := cfg.usbEmitStyle
      wpm := cfg.speedWpm
      decoderEnabled := cfg.decoderEnabled
      engine := E.updateConfig k.engine cfg
      buzzer := k.buzzer.updateSettings cfg.sidetoneFreq cfg.sidetoneVolume },
    if cfg.decoderEnabled && !k.decoderEnabled then
      { st with decoder := st.decoder ++ [.clear] }
    else st)

def feedDecoder (st : Statics) (nowUs : ℕ) (keyDown : Bool) (wpm : UInt8) : Statics :=
  { st with decoder := st.decoder ++ [.onTransition nowUs keyDown wpm] }

/-- Both key arms of section 5: the line, the tone, the indicator, the live
key, and the decoder when it is enabled. -/
def key (k : Keyer ε) (st : Statics) (on : Bool) (nowUs : ℕ) : Keyer ε × Statics :=
  let st' := { st with keyIndicator := on }
  ({ k with
      radioKey := k.radioKey.set on
      buzzer := k.buzzer.setKeyed on
      liveKey := on },
    if k.decoderEnabled then feedDecoder st' nowUs on k.wpm else st')

/-- The match on an engine output. -/
def act (k : Keyer ε) (st : Statics) (nowUs : ℕ) : Option KeyerOutput → Keyer ε × Statics
  | none => (k, st)
  | some .keyDown => k.key st true nowUs
  | some (.pttRequest true) => k.key st true nowUs
  | some .keyUp => k.key st false nowUs
  | some (.pttRequest false) => (k, st)

/-- Section 5: tick the engine, act on its output, publish `is_active`. -/
def tick (k : Keyer ε) (st : Statics) (nowUs : ℕ) : Keyer ε × Statics :=
  let t := E.tick k.engine
  let r := act { k with engine := t.1 } st nowUs t.2
  (r.1, { r.2 with engineActive := E.isActive r.1.engine })

/-- Section 4: count, and refresh when it is due. -/
def section4 (k : Keyer ε) (st : Statics) : Keyer ε × Statics :=
  if k.count.2 then refresh E k.count.1 st else (k.count.1, st)

/-- The state the engine is ticked in, in an unparked iteration. -/
def beforeTick (k : Keyer ε) (st : Statics) (rawDit rawDah : Bool) : Keyer ε × Statics :=
  section4 E (k.poll E st rawDit rawDah).1 (k.poll E st rawDit rawDah).2

/-- One iteration of the loop. -/
def iteration (k : Keyer ε) (st : Statics) (rawDit rawDah : Bool) (nowUs : ℕ) : Keyer ε × Statics :=
  if st.saveLock then (k, { st with engineActive := false })
  else tick E (k.beforeTick E st rawDit rawDah).1 (k.beforeTick E st rawDit rawDah).2 nowUs

/-- What the engine reports in one iteration; nothing when it is parked. -/
def output (k : Keyer ε) (st : Statics) (rawDit rawDah : Bool) : Option KeyerOutput :=
  if st.saveLock then none else (E.tick (k.beforeTick E st rawDit rawDah).1.engine).2

theorem iteration_parked (k : Keyer ε) {st : Statics} (h : st.saveLock = true) (a b : Bool) (n : ℕ) :
    k.iteration E st a b n = (k, { st with engineActive := false }) := by
  rw [iteration, if_pos h]

theorem iteration_unparked (k : Keyer ε) {st : Statics} (h : st.saveLock = false) (a b : Bool) (n : ℕ) :
    k.iteration E st a b n =
      tick E (k.beforeTick E st a b).1 (k.beforeTick E st a b).2 n := by
  rw [iteration, if_neg (by rw [h]; decide)]

/-! ### What the loop leaves alone -/

/-- What a key arm and doing nothing both give, the match on an output gives. -/
theorem act_rule {k : Keyer ε} {st : Statics} {n : ℕ} {P : Keyer ε × Statics → Prop} (hnone : P (k, st))
    (hkey : ∀ on, P (k.key st on n)) : ∀ o : Option KeyerOutput, P (k.act st n o)
  | none => hnone
  | some .keyDown => hkey true
  | some .keyUp => hkey false
  | some (.pttRequest true) => hkey true
  | some (.pttRequest false) => hnone

/-- The statics the keyer never writes. -/
structure Kept (st st' : Statics) : Prop where
  sharedConfig : st'.sharedConfig = st.sharedConfig
  saveLock : st'.saveLock = st.saveLock
  configDirty : st'.configDirty = st.configDirty

theorem Kept.trans {st st' st'' : Statics} (h : Kept st st') (h' : Kept st' st'') : Kept st st'' :=
  ⟨h'.sharedConfig.trans h.sharedConfig, h'.saveLock.trans h.saveLock, h'.configDirty.trans h.configDirty⟩

theorem kept_poll (k : Keyer ε) (st : Statics) (a b : Bool) : Kept st (k.poll E st a b).2 := by
  unfold poll
  simp only
  split <;> exact ⟨rfl, rfl, rfl⟩

theorem kept_refresh (k : Keyer ε) (st : Statics) : Kept st (k.refresh E st).2 := by
  unfold refresh
  simp only
  split <;> exact ⟨rfl, rfl, rfl⟩

theorem kept_key (k : Keyer ε) (st : Statics) (on : Bool) (n : ℕ) : Kept st (k.key st on n).2 := by
  unfold key feedDecoder
  simp only
  split <;> exact ⟨rfl, rfl, rfl⟩

theorem kept_act (k : Keyer ε) (st : Statics) (n : ℕ) (o : Option KeyerOutput) : Kept st (k.act st n o).2 :=
  act_rule (P := fun r => Kept st r.2) ⟨rfl, rfl, rfl⟩ (fun on => kept_key k st on n) o

theorem kept_tick (k : Keyer ε) (st : Statics) (n : ℕ) : Kept st (k.tick E st n).2 := by
  have hact := kept_act { k with engine := (E.tick k.engine).1 } st n (E.tick k.engine).2
  exact ⟨hact.sharedConfig, hact.saveLock, hact.configDirty⟩

theorem kept_iteration (k : Keyer ε) (st : Statics) (a b : Bool) (n : ℕ) :
    Kept st (k.iteration E st a b n).2 := by
  by_cases hlock : st.saveLock = true
  · rw [iteration_parked E k hlock]
    exact ⟨rfl, rfl, rfl⟩
  · rw [iteration_unparked E k (by simpa using hlock)]
    have hbefore : Kept st (k.beforeTick E st a b).2 := by
      unfold beforeTick section4
      split
      · exact (kept_poll E k st a b).trans (kept_refresh E _ _)
      · exact kept_poll E k st a b
    exact hbefore.trans (kept_tick E _ _ n)

end Keyer
end RpKeyer
