/-
# The decoder never sees a hole

The keyer feeds key transitions to the CW decoder while its cached
`decoder_enabled` is set, and samples that flag in the refresh, just before
the tick that may feed. The log of a run (`events`) says when a refresh set
the flag, and whether it cleared the decoder, which transitions the engine
produced, and which were fed. It is the log of a gated stream (`inv_step`), so
between two transitions fed with no clear between them nothing was left out
(`decoder_no_hole`), whatever the engine puts out, wherever edits of the
config land and whenever the loop is parked.
-/
import RpKeyer.KeyLine
import RpKeyer.Lib.Gate
import RpKeyer.Loop

namespace RpKeyer
namespace Decoder

open KeyLine Loop

variable {ε : Type} (E : Engine ε)

/-! ### The log -/

/-- The key going down or up, and the speed to decode it at. -/
abbrev Transition := Bool × UInt8

/-- A call on the decoder without its time; `none` is a clear. -/
def fed : DecoderCall → Option Transition
  | .clear => none
  | .onTransition _ keyDown wpm => some (keyDown, wpm)

/-- The calls on the decoder made since. -/
def newCalls (st st' : Statics) : List DecoderCall := st'.decoder.drop st.decoder.length

/-- What a section of the loop shows: the flag a refresh leaves, and whether
it cleared the decoder; the transition of a tick's output, at the speed of the
engine's own config, and the ones fed. -/
def events (held : ε → KeyerConfig) (s : State ε) : Label → List (Gate.Event Transition)
  | .refresh =>
    let r := s.k.refresh E s.st
    [.gate r.1.decoderEnabled (newCalls s.st r.2 = [.clear])]
  | .tick n =>
    let r := s.k.tick E s.st n
    ((E.tick s.k.engine).2.bind keyEvent).toList.map (fun on => .source (on, (held s.k.engine).speedWpm)) ++
      (newCalls s.st r.2).filterMap fun call => (fed call).map .copy
  | _ => []

/-- The calls an event stands for. -/
def calls : Gate.Event Transition → List (Option Transition)
  | .gate _ true => [none]
  | .copy x => [some x]
  | _ => []

/-! ### One section -/

/-- A refresh clears the decoder on the off-to-on edge of the flag. -/
theorem refresh_decoder (k : Keyer ε) (st : Statics) : (k.refresh E st).2.decoder =
    st.decoder ++ if st.sharedConfig.decoderEnabled && !k.decoderEnabled then [.clear] else [] := by
  unfold Keyer.refresh
  simp only
  split
  · rfl
  · exact (List.append_nil _).symm

/-- An output feeds its transition if the flag is set. -/
theorem act_decoder (k : Keyer ε) (st : Statics) (n : ℕ) (o : Option KeyerOutput) :
    (k.act st n o).2.decoder = st.decoder ++
      if k.decoderEnabled then (o.bind keyEvent).toList.map (fun on => .onTransition n on k.wpm) else [] := by
  have hkey : ∀ on, (k.key st on n).2.decoder =
      st.decoder ++ if k.decoderEnabled then [.onTransition n on k.wpm] else [] := by
    intro on
    unfold Keyer.key Keyer.feedDecoder
    simp only
    split
    · rfl
    · exact (List.append_nil _).symm
  have hnone : st.decoder = st.decoder ++ if k.decoderEnabled then ([] : List DecoderCall) else [] := by
    rw [ite_self, List.append_nil]
  match o with
  | none => exact hnone
  | some .keyDown => exact hkey true
  | some .keyUp => exact hkey false
  | some (.pttRequest true) => exact hkey true
  | some (.pttRequest false) => exact hnone

theorem newCalls_of_append {st st' : Statics} {new : List DecoderCall} (h : st'.decoder = st.decoder ++ new) :
    newCalls st st' = new := by
  unfold newCalls
  rw [h, List.drop_left]

/-- The cached speed and flag are not touched by an output. -/
theorem act_cached (k : Keyer ε) (st : Statics) (n : ℕ) (o : Option KeyerOutput) :
    (k.act st n o).1.wpm = k.wpm ∧ (k.act st n o).1.decoderEnabled = k.decoderEnabled ∧
      (k.act st n o).1.engine = k.engine :=
  Keyer.act_rule (P := fun r => r.1.wpm = k.wpm ∧ r.1.decoderEnabled = k.decoderEnabled ∧
    r.1.engine = k.engine) ⟨rfl, rfl, rfl⟩ (fun _ => ⟨rfl, rfl, rfl⟩) o

/-- Nor by the count. -/
theorem count_cached (k : Keyer ε) :
    k.count.1.wpm = k.wpm ∧ k.count.1.decoderEnabled = k.decoderEnabled ∧ k.count.1.engine = k.engine := by
  unfold Keyer.count
  simp only
  split <;> exact ⟨rfl, rfl, rfl⟩

/-! ### The invariant -/

/-- The log so far: a gated stream whose gate is the cached flag, and the
calls made on the decoder; and the cached speed is the engine's. -/
structure Inv (held : ε → KeyerConfig) (b : Bool) (log : List (Gate.Event Transition)) (s : State ε) : Prop where
  wpm : s.k.wpm = (held s.k.engine).speedWpm
  gated : StepRun.run Gate.next (.ofFlag b) log = some (.ofFlag s.k.decoderEnabled)
  called : s.st.decoder.map fed = log.flatMap calls

/-- A refresh sets the gate. -/
theorem events_refresh (held : ε → KeyerConfig) (s : State ε) :
    events E held s .refresh =
      [.gate s.st.sharedConfig.decoderEnabled (s.st.sharedConfig.decoderEnabled && !s.k.decoderEnabled)] := by
  show [Gate.Event.gate s.st.sharedConfig.decoderEnabled
    (decide (newCalls s.st (s.k.refresh E s.st).2 = [.clear]))] = _
  rw [newCalls_of_append (refresh_decoder E s.k s.st)]
  cases s.st.sharedConfig.decoderEnabled <;> cases s.k.decoderEnabled <;> rfl

/-- The transition of a tick, and its copy if it is fed. -/
def transition (feed : Bool) (x : Transition) : List (Gate.Event Transition) :=
  .source x :: if feed then [.copy x] else []

/-- A tick's transition is fed if the flag is set, at the engine's speed. -/
theorem events_tick {held : ε → KeyerConfig} {s : State ε} (hwpm : s.k.wpm = (held s.k.engine).speedWpm)
    (n : ℕ) : events E held s (.tick n) =
      ((E.tick s.k.engine).2.bind keyEvent).toList.flatMap fun on =>
        transition s.k.decoderEnabled (on, s.k.wpm) := by
  have hnew : newCalls s.st (s.k.tick E s.st n).2 = if s.k.decoderEnabled then
      ((E.tick s.k.engine).2.bind keyEvent).toList.map (fun on => .onTransition n on s.k.wpm) else [] :=
    newCalls_of_append (act_decoder { s.k with engine := (E.tick s.k.engine).1 } s.st n (E.tick s.k.engine).2)
  show (_ ++ (newCalls s.st (s.k.tick E s.st n).2).filterMap _) = _
  rw [hnew, ← hwpm]
  cases (E.tick s.k.engine).2.bind keyEvent with
  | none => cases s.k.decoderEnabled <;> rfl
  | some on => cases s.k.decoderEnabled <;> rfl

/-- A transition keeps the gate where it is. -/
theorem run_transition (b : Bool) (x : Transition) :
    StepRun.run Gate.next (.ofFlag b) (transition b x) = some (.ofFlag b) := by
  cases b with
  | false => rfl
  | true =>
    show StepRun.run Gate.next .opened [.source x, .copy x] = some .opened
    simp [StepRun.run_cons, StepRun.run_nil, Gate.next, Gate.State.owing, Gate.State.isOpen]

theorem run_gate (b isOpen : Bool) :
    StepRun.run Gate.next (.ofFlag b : Gate.State Transition) [.gate isOpen (isOpen && !b)] =
      some (.ofFlag isOpen) := by
  cases b <;> cases isOpen <;> rfl

variable {E}

/-- A section that shows nothing and leaves the decoder, the cached fields and
the engine's config alone. -/
theorem Inv.quiet {held : ε → KeyerConfig} {b : Bool} {log : List (Gate.Event Transition)} {s s' : State ε}
    (hI : Inv held b log s) (hwpm : s'.k.wpm = s.k.wpm) (hheld : held s'.k.engine = held s.k.engine)
    (hflag : s'.k.decoderEnabled = s.k.decoderEnabled) (hcalls : s'.st.decoder = s.st.decoder) :
    Inv held b (log ++ []) s' where
  wpm := by rw [hwpm, hheld, hI.wpm]
  gated := by rw [List.append_nil, hflag, hI.gated]
  called := by rw [List.append_nil, hcalls, hI.called]

/-- One section: the log stays that of a gated stream. -/
theorem inv_step {held : ε → KeyerConfig} (hE : Holds E held) (b : Bool) (log : List (Gate.Event Transition))
    (s : State ε) (a : Label) (s' : State ε) (hI : Inv held b log s) (h : loopStep E s a = some s') :
    Inv held b (log ++ events E held s a) s' := by
  have hc := loopStep_cases E h
  cases a with
  | edit c =>
    obtain rfl : s' = _ := hc
    exact hI.quiet rfl rfl rfl rfl
  | saveLock on =>
    obtain rfl : s' = _ := hc
    exact hI.quiet rfl rfl rfl rfl
  | park =>
    obtain ⟨-, rfl⟩ := hc
    exact hI.quiet rfl rfl rfl rfl
  | poll rawDit rawDah =>
    obtain ⟨-, rfl⟩ := hc
    refine hI.quiet rfl (hE.setPaddle _ _ _) rfl ?_
    unfold Keyer.poll
    simp only
    split <;> rfl
  | count =>
    obtain ⟨-, rfl⟩ := hc
    obtain ⟨hwpm, hflag, hengine⟩ := count_cached s.k
    exact hI.quiet hwpm (congrArg held hengine) hflag rfl
  | refresh =>
    obtain ⟨-, rfl⟩ := hc
    rw [events_refresh]
    refine ⟨?_, ?_, ?_⟩
    · show _ = (held (E.updateConfig _ _)).speedWpm
      rw [hE.updateConfig]
      rfl
    · rw [StepRun.run_append, hI.gated]
      exact run_gate _ _
    · show (s.k.refresh E s.st).2.decoder.map fed = _
      rw [refresh_decoder, List.map_append, hI.called, List.flatMap_append]
      cases s.st.sharedConfig.decoderEnabled <;> cases s.k.decoderEnabled <;> rfl
  | tick n =>
    obtain ⟨-, rfl⟩ := hc
    obtain ⟨hwpm, hflag, hengine⟩ :=
      act_cached { s.k with engine := (E.tick s.k.engine).1 } s.st n (E.tick s.k.engine).2
    have hcalls := act_decoder { s.k with engine := (E.tick s.k.engine).1 } s.st n (E.tick s.k.engine).2
    rw [events_tick E hI.wpm]
    refine ⟨?_, ?_, ?_⟩
    · show (Keyer.act _ _ _ _).1.wpm = (held (Keyer.act _ _ _ _).1.engine).speedWpm
      rw [hwpm, hengine, hE.tick]
      exact hI.wpm
    · show _ = some (Gate.State.ofFlag (Keyer.act _ _ _ _).1.decoderEnabled)
      rw [hflag, StepRun.run_append, hI.gated]
      cases (E.tick s.k.engine).2.bind keyEvent with
      | none => rfl
      | some on =>
        show StepRun.run Gate.next _ (transition _ _ ++ []) = _
        rw [List.append_nil]
        exact run_transition _ _
    · show (Keyer.act _ _ _ _).2.decoder.map fed = _
      rw [hcalls, List.map_append, hI.called, List.flatMap_append]
      cases (E.tick s.k.engine).2.bind keyEvent with
      | none => cases s.k.decoderEnabled <;> rfl
      | some on => cases s.k.decoderEnabled <;> rfl

theorem inv_boot {held : ε → KeyerConfig} (hE : Holds E held) (c₀ : KeyerConfig) (bz : Buzzer) :
    Inv held c₀.decoderEnabled [] (boot E c₀ bz) where
  wpm := (congrArg KeyerConfig.speedWpm (hE.new _ _)).symm
  gated := rfl
  called := rfl

/-! ### The theorem -/

variable (E)

/-- **No hole.** In every run the log is that of the calls made on the decoder
and of the cached flag, and in it: between two transitions fed with no clear
between them, the transitions the engine produced are those fed, in order and
once each; a transition is fed only with the flag set, just after the engine
produced it; and a refresh that sets a flag that was not set clears the
decoder. -/
theorem decoder_no_hole {held : ε → KeyerConfig} (hE : Holds E held) (c₀ : KeyerConfig) (bz : Buzzer)
    (ls : List Label) (s : State ε) (h : StepRun.run (loopStep E) (boot E c₀ bz) ls = some s) :
    let log := StepRun.trace (loopStep E) (events E held) (boot E c₀ bz) ls
    let flag := Gate.flag c₀.decoderEnabled
    s.st.decoder.map fed = log.flatMap calls ∧ s.k.decoderEnabled = flag log ∧
    (∀ before x mid y after, log = before ++ .copy x :: (mid ++ .copy y :: after) → Gate.Uncut mid →
      Gate.sources mid = Gate.copies mid ++ [y]) ∧
    (∀ before x after, log = before ++ .copy x :: after →
      flag before = true ∧ ∃ before', before = before' ++ [.source x]) ∧
    (∀ before cut after, log = before ++ .gate true cut :: after → flag before = false → cut = true) := by
  intro log flag
  have hI : Inv held c₀.decoderEnabled ([] ++ log) s :=
    StepRun.run_inv_trace (loopStep E) (inv_step hE c₀.decoderEnabled) ls [] _ s (inv_boot hE c₀ bz) h
  rw [List.nil_append] at hI
  have hgated := hI.gated
  have hflag := Gate.flag_run hgated
  rw [Gate.isOpen_ofFlag, Gate.isOpen_ofFlag] at hflag
  refine ⟨hI.called, hflag, fun before x mid y after hlog huncut => ?_, fun before x after hlog => ?_,
    fun before cut after hlog hclosed => ?_⟩
  · rw [hlog] at hgated
    exact Gate.no_hole hgated huncut
  · rw [hlog] at hgated
    have howed := (Gate.copied hgated).1
    have hopen := Gate.flag_run howed
    rw [Gate.isOpen_ofFlag] at hopen
    exact ⟨hopen.symm, Gate.owed_run howed⟩
  · rw [hlog] at hgated
    exact Gate.cut_of_opening hgated hclosed

/-- A dit held until it passes the debouncer: the PTT's opening and the
key-down are both fed. -/
theorem decoder_no_hole_dit :
    let bz := Buzzer.new StraightKey.pwm StraightKey.pwm.config StraightKey.clkSysFreq
    let ls := (List.replicate 9 [.poll true false, .count, .tick 0]).flatten
    ∃ s, StepRun.run (loopStep StraightKey.engine) (boot StraightKey.engine StraightKey.config bz) ls = some s ∧
      s.st.decoder.map fed = [some (true, 18), some (true, 18)] := by
  intro bz ls
  have hsome : (StepRun.run (loopStep StraightKey.engine)
      (boot StraightKey.engine StraightKey.config bz) ls).isSome = true := by
    decide +kernel
  obtain ⟨s, hs⟩ := Option.isSome_iff_exists.mp hsome
  obtain ⟨hcalled, -⟩ := decoder_no_hole StraightKey.engine straightKey_holds StraightKey.config bz ls s hs
  refine ⟨s, hs, hcalled.trans ?_⟩
  decide +kernel

end Decoder
end RpKeyer
