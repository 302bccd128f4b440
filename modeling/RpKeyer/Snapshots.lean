/-
# The snapshots the keyer posts

What the keyer finds and puts out over a run is a log (`events`): the paddle
samples, the configs its refreshes find, and the engine's outputs. A snapshot
is a function of the log (`snapshotOf`): the values the samples have settled
on, swapped or not as the config of the last refresh says, the key line after
the outputs, and that config's emit style.

The keyer posts a snapshot if it differs from the last one it made. So over
any run, whatever edits and parking come between, what it has posted is the
snapshots of all its samples without repetitions (`posts_changes`).
-/
import RpKeyer.Debounce
import RpKeyer.KeyLine
import RpKeyer.Lib.Changes
import RpKeyer.Loop
import RpKeyer.UsbChannel

namespace RpKeyer
namespace Snapshots

open KeyLine Loop Windows

variable {ε : Type} (E : Engine ε)

/-! ### The log -/

/-- A sample of the two paddle pins, the config a refresh finds, an output of
the engine. -/
inductive Event
  | sample (rawDit rawDah : Bool)
  | refresh (config : KeyerConfig)
  | output (o : KeyerOutput)
  deriving DecidableEq

/-- What a section of the loop finds and puts out. -/
def events (s : State ε) : Label → List Event
  | .poll a b => [.sample a b]
  | .refresh => [.refresh s.st.sharedConfig]
  | .tick _ => (E.tick s.k.engine).2.toList.map .output
  | .edit _ | .saveLock _ | .park | .count => []

def Event.sample? : Event → Option (Bool × Bool)
  | .sample a b => some (a, b)
  | _ => none

def Event.output? : Event → Option KeyerOutput
  | .output o => some o
  | _ => none

/-- The config in use after an event. -/
def Event.config (c : KeyerConfig) : Event → KeyerConfig
  | .refresh c' => c'
  | _ => c

/-- The samples of a log. -/
def samples (log : List Event) : List (Bool × Bool) := log.filterMap Event.sample?

/-- The outputs of a log. -/
def outs (log : List Event) : List KeyerOutput := log.filterMap Event.output?

/-- The config of the last refresh, or the one at boot. -/
def config (c₀ : KeyerConfig) (log : List Event) : KeyerConfig := log.foldl Event.config c₀

/-- Eight samples in a row settle a pin. -/
def pin (xs : List Bool) : Bool := settled 8 false xs

/-- The snapshot a log calls for. -/
def snapshotOf (c₀ : KeyerConfig) (log : List Event) : UsbSnapshot :=
  let dit := pin ((samples log).map Prod.fst)
  let dah := pin ((samples log).map Prod.snd)
  let c := config c₀ log
  { ditPressed := if c.keysReversed then dah else dit
    dahPressed := if c.keysReversed then dit else dah
    liveKey := lineOf (outs log)
    emitStyle := c.usbEmitStyle }

/-- The snapshot made at the end of a log, if that is a sample. -/
def made (c₀ : KeyerConfig) (log : List Event) : Option UsbSnapshot :=
  (log.getLast?.bind Event.sample?).map fun _ => snapshotOf c₀ log

/-- The snapshots made along a log, one for each sample. -/
def snapshots (c₀ : KeyerConfig) (log : List Event) : List UsbSnapshot := log.inits.filterMap (made c₀)

/-! ### The log, from its end -/

theorem samples_append (log log' : List Event) : samples (log ++ log') = samples log ++ samples log' :=
  List.filterMap_append

theorem outs_append (log log' : List Event) : outs (log ++ log') = outs log ++ outs log' :=
  List.filterMap_append

theorem config_concat (c₀ : KeyerConfig) (log : List Event) (e : Event) :
    config c₀ (log ++ [e]) = e.config (config c₀ log) :=
  List.foldl_concat ..

theorem snapshots_concat (c₀ : KeyerConfig) (log : List Event) (e : Event) :
    snapshots c₀ (log ++ [e]) = snapshots c₀ log ++ (made c₀ (log ++ [e])).toList := by
  have hlast : [log ++ [e]].filterMap (made c₀) = (made c₀ (log ++ [e])).toList := by
    cases h : made c₀ (log ++ [e]) <;> simp [h]
  unfold snapshots
  rw [List.inits_append, List.filterMap_append, ← hlast]
  rfl

/-- An event that is no sample makes no snapshot. -/
theorem snapshots_quiet (c₀ : KeyerConfig) (log : List Event) {e : Event} (h : e.sample? = none) :
    snapshots c₀ (log ++ [e]) = snapshots c₀ log := by
  rw [snapshots_concat, made, List.getLast?_concat, Option.bind_some, h, Option.map_none, Option.toList_none,
    List.append_nil]

theorem snapshots_sample (c₀ : KeyerConfig) (log : List Event) (a b : Bool) :
    snapshots c₀ (log ++ [.sample a b]) = snapshots c₀ log ++ [snapshotOf c₀ (log ++ [.sample a b])] := by
  rw [snapshots_concat, made, List.getLast?_concat]
  rfl

/-- The last snapshot made is that of the last sample. -/
theorem last_snapshot (c₀ : KeyerConfig) (log : List Event) (a b : Bool) (rest : List Event)
    (h : ∀ e ∈ rest, e.sample? = none) :
    (snapshots c₀ (log ++ .sample a b :: rest)).getLast? = some (snapshotOf c₀ (log ++ [.sample a b])) := by
  induction rest using List.reverseRecOn with
  | nil => rw [snapshots_sample, List.getLast?_concat]
  | append_singleton rest e ih =>
    rw [← List.cons_append, ← List.append_assoc, snapshots_quiet c₀ _ (h e (by simp))]
    exact ih fun e' he' => h e' (by simp [he'])

/-! ### The invariant -/

/-- The keyer is where its log puts it. -/
structure Inv (c₀ : KeyerConfig) (log : List Event) (s : State ε) : Prop where
  dit : s.k.ditDebounce = (Debouncer.new false 8).after ((samples log).map Prod.fst)
  dah : s.k.dahDebounce = (Debouncer.new false 8).after ((samples log).map Prod.snd)
  keysReversed : s.k.keysReversed = (config c₀ log).keysReversed
  emitStyle : s.k.emitStyle = (config c₀ log).usbEmitStyle
  coherent : Coherent (s.k, s.st) (lineOf (outs log))
  last : s.k.lastSignaled = s.st.usbSignal.posted.getLast?
  posted : s.st.usbSignal.posted = (snapshots c₀ log).destutter (· ≠ ·)

/-- A debouncer that has seen the samples returns what they have settled on. -/
theorem pin_concat (xs : List Bool) (x : Bool) :
    (((Debouncer.new false 8).after xs).update x).2 = pin (xs ++ [x]) :=
  (Debouncer.output_concat false 8 xs x).symm.trans (Debouncer.output_eq_settled false (by decide) (xs ++ [x]))

/-- The snapshot of a sample is the one its log calls for. -/
theorem Inv.snapshot {c₀ : KeyerConfig} {log : List Event} {s : State ε} (hI : Inv c₀ log s) (a b : Bool) :
    s.k.snapshot a b = snapshotOf c₀ (log ++ [.sample a b]) := by
  have hsamples : samples (log ++ [.sample a b]) = samples log ++ [(a, b)] := samples_append ..
  have houts : outs (log ++ [.sample a b]) = outs log := (outs_append ..).trans (List.append_nil _)
  have hlive : s.k.liveKey = lineOf (outs log) := congrArg (fun l => l.2.2.2) hI.coherent
  unfold Keyer.snapshot Keyer.ditPhys Keyer.dahPhys snapshotOf
  rw [config_concat, hsamples, houts, hI.dit, hI.dah, hI.keysReversed, hI.emitStyle, hlive, pin_concat, pin_concat,
    List.map_append, List.map_append]
  rfl

/-- A step that the log does not show, and that leaves these locals and the
channel alone. -/
theorem Inv.quiet {c₀ : KeyerConfig} {log : List Event} {s s' : State ε} (hI : Inv c₀ log s)
    (hdit : s'.k.ditDebounce = s.k.ditDebounce) (hdah : s'.k.dahDebounce = s.k.dahDebounce)
    (hkeys : s'.k.keysReversed = s.k.keysReversed) (hstyle : s'.k.emitStyle = s.k.emitStyle)
    (hlines : lines (s'.k, s'.st) = lines (s.k, s.st)) (hlast : s'.k.lastSignaled = s.k.lastSignaled)
    (hposted : s'.st.usbSignal.posted = s.st.usbSignal.posted) : Inv c₀ (log ++ []) s' := by
  rw [List.append_nil]
  exact ⟨hdit.trans hI.dit, hdah.trans hI.dah, hkeys.trans hI.keysReversed, hstyle.trans hI.emitStyle,
    hlines.trans hI.coherent, by rw [hlast, hposted]; exact hI.last, hposted.trans hI.posted⟩

/-- A sample: it is debounced, and its snapshot posted if it is a change. -/
theorem inv_poll {c₀ : KeyerConfig} {log : List Event} {s : State ε} (hI : Inv c₀ log s) (a b : Bool) :
    Inv c₀ (log ++ [.sample a b]) ⟨.count, (s.k.poll E s.st a b).1, (s.k.poll E s.st a b).2⟩ := by
  have hsamples : samples (log ++ [.sample a b]) = samples log ++ [(a, b)] := samples_append ..
  have houts : outs (log ++ [.sample a b]) = outs log := (outs_append ..).trans (List.append_nil _)
  obtain ⟨hlast, hsig⟩ := UsbChannel.poll_signal E s.k s.st a b
  have hsnap := hI.snapshot a b
  have hposted : (s.k.poll E s.st a b).2.usbSignal.posted =
      (snapshots c₀ (log ++ [.sample a b])).destutter (· ≠ ·) := by
    have hend : (snapshots c₀ log).getLast? = s.k.lastSignaled := by
      rw [hI.last, hI.posted, Changes.getLast?_destutter]
    rw [hsig, hsnap, snapshots_sample, Changes.destutter_concat, hend, ← hI.posted]
    by_cases hnew : s.k.lastSignaled = some (snapshotOf c₀ (log ++ [.sample a b]))
    · rw [if_pos hnew, if_neg (not_not.mpr hnew.symm)]
    · rw [if_neg hnew, if_pos (Ne.symm hnew)]
      rfl
  refine ⟨?_, ?_, ?_, ?_, ?_, ?_, hposted⟩
  · rw [hsamples, List.map_append]
    exact (congrArg (fun d => (d.update a).1) hI.dit).trans (Debouncer.after_concat _ _ _).symm
  · rw [hsamples, List.map_append]
    exact (congrArg (fun d => (d.update b).1) hI.dah).trans (Debouncer.after_concat _ _ _).symm
  · rw [config_concat]
    exact hI.keysReversed
  · rw [config_concat]
    exact hI.emitStyle
  · rw [houts]
    exact (lines_poll E s.k s.st a b).trans hI.coherent
  · refine hlast.trans ?_
    rw [hposted, Changes.getLast?_destutter, snapshots_sample, List.getLast?_concat, hsnap]

/-- A refresh: the config in use is the shared one. -/
theorem inv_refresh {c₀ : KeyerConfig} {log : List Event} {s : State ε} (hI : Inv c₀ log s) :
    Inv c₀ (log ++ [.refresh s.st.sharedConfig]) ⟨.tick, (s.k.refresh E s.st).1, (s.k.refresh E s.st).2⟩ := by
  have hsamples : samples (log ++ [.refresh s.st.sharedConfig]) = samples log :=
    (samples_append ..).trans (List.append_nil _)
  have houts : outs (log ++ [.refresh s.st.sharedConfig]) = outs log :=
    (outs_append ..).trans (List.append_nil _)
  obtain ⟨hlast, hsig⟩ := UsbChannel.refresh_signal E s.k s.st
  refine ⟨?_, ?_, ?_, ?_, ?_, ?_, ?_⟩
  · rw [hsamples]
    exact hI.dit
  · rw [hsamples]
    exact hI.dah
  · rw [config_concat]
    rfl
  · rw [config_concat]
    rfl
  · rw [houts]
    exact (lines_refresh E s.k s.st).trans hI.coherent
  · rw [hlast, hsig]
    exact hI.last
  · rw [hsig, snapshots_quiet c₀ log rfl]
    exact hI.posted

/-- An output touches neither the debouncers, nor the cached config, nor the
channel. -/
theorem act_kept (k : Keyer ε) (st : Statics) (n : ℕ) (o : Option KeyerOutput) :
    (k.act st n o).1.ditDebounce = k.ditDebounce ∧ (k.act st n o).1.dahDebounce = k.dahDebounce ∧
      (k.act st n o).1.keysReversed = k.keysReversed ∧ (k.act st n o).1.emitStyle = k.emitStyle :=
  Keyer.act_rule (P := fun r => r.1.ditDebounce = k.ditDebounce ∧ r.1.dahDebounce = k.dahDebounce ∧
    r.1.keysReversed = k.keysReversed ∧ r.1.emitStyle = k.emitStyle) ⟨rfl, rfl, rfl, rfl⟩
    (fun _ => ⟨rfl, rfl, rfl, rfl⟩) o

/-- A tick: the key line follows the output, if there is one. -/
theorem inv_tick {c₀ : KeyerConfig} {log : List Event} {s : State ε} (hI : Inv c₀ log s) (n : ℕ) :
    Inv c₀ (log ++ (E.tick s.k.engine).2.toList.map .output)
      ⟨.top, (s.k.tick E s.st n).1, (s.k.tick E s.st n).2⟩ := by
  obtain ⟨hdit, hdah, hkeys, hstyle⟩ := act_kept { s.k with engine := (E.tick s.k.engine).1 } s.st n
    (E.tick s.k.engine).2
  obtain ⟨hlast, hsig⟩ := UsbChannel.act_signal { s.k with engine := (E.tick s.k.engine).1 } s.st n
    (E.tick s.k.engine).2
  have hbefore : Coherent ({ s.k with engine := (E.tick s.k.engine).1 }, s.st) (lineOf (outs log)) := hI.coherent
  have hlines : Coherent (s.k.tick E s.st n) (((E.tick s.k.engine).2.bind keyEvent).getD (lineOf (outs log))) :=
    (lines_tick E s.k s.st n).trans (coherent_act hbefore n (E.tick s.k.engine).2)
  cases ho : (E.tick s.k.engine).2 with
  | none =>
    rw [ho] at hlines
    exact hI.quiet hdit hdah hkeys hstyle (hlines.trans hI.coherent.symm) hlast (congrArg (·.posted) hsig)
  | some o =>
    rw [ho] at hlines
    show Inv c₀ (log ++ [.output o]) _
    have hsamples : samples (log ++ [.output o]) = samples log := (samples_append ..).trans (List.append_nil _)
    have houts : outs (log ++ [.output o]) = outs log ++ [o] := outs_append ..
    refine ⟨?_, ?_, ?_, ?_, ?_, ?_, ?_⟩
    · rw [hsamples]
      exact hdit.trans hI.dit
    · rw [hsamples]
      exact hdah.trans hI.dah
    · rw [config_concat]
      exact hkeys.trans hI.keysReversed
    · rw [config_concat]
      exact hstyle.trans hI.emitStyle
    · rw [houts, lineOf_append]
      exact hlines
    · exact hlast.trans (hI.last.trans (congrArg (·.posted.getLast?) hsig).symm)
    · rw [snapshots_quiet c₀ log rfl]
      exact (congrArg (·.posted) hsig).trans hI.posted

theorem inv_step {c₀ : KeyerConfig} (log : List Event) (s : State ε) (a : Label) (s' : State ε)
    (hI : Inv c₀ log s) (h : loopStep E s a = some s') : Inv c₀ (log ++ events E s a) s' := by
  have hc := loopStep_cases E h
  cases a with
  | edit c =>
    obtain rfl : s' = _ := hc
    exact hI.quiet rfl rfl rfl rfl rfl rfl rfl
  | saveLock b =>
    obtain rfl : s' = _ := hc
    exact hI.quiet rfl rfl rfl rfl rfl rfl rfl
  | park =>
    obtain ⟨-, rfl⟩ := hc
    exact hI.quiet rfl rfl rfl rfl rfl rfl rfl
  | poll a b =>
    obtain ⟨-, rfl⟩ := hc
    exact inv_poll E hI a b
  | count =>
    obtain ⟨-, rfl⟩ := hc
    have hcount : s.k.count.1.ditDebounce = s.k.ditDebounce ∧ s.k.count.1.dahDebounce = s.k.dahDebounce ∧
        s.k.count.1.keysReversed = s.k.keysReversed ∧ s.k.count.1.emitStyle = s.k.emitStyle ∧
        s.k.count.1.lastSignaled = s.k.lastSignaled := by
      unfold Keyer.count
      simp only
      split <;> exact ⟨rfl, rfl, rfl, rfl, rfl⟩
    obtain ⟨hdit, hdah, hkeys, hstyle, hlast⟩ := hcount
    exact hI.quiet hdit hdah hkeys hstyle (lines_count s.k s.st) hlast rfl
  | refresh =>
    obtain ⟨-, rfl⟩ := hc
    exact inv_refresh E hI
  | tick n =>
    obtain ⟨-, rfl⟩ := hc
    exact inv_tick E hI n

theorem inv_boot (c₀ : KeyerConfig) {bz : Buzzer} (hbz : bz.keying = false) : Inv c₀ [] (boot E c₀ bz) := by
  refine ⟨rfl, rfl, rfl, rfl, ?_, rfl, rfl⟩
  show (false, (bz.updateSettings _ _).keying, false, false) = _
  rw [Buzzer.updateSettings_keying, hbz]
  rfl

theorem inv_run {c₀ : KeyerConfig} {bz : Buzzer} (hbz : bz.keying = false) {ls : List Label} {s : State ε}
    (h : StepRun.run (loopStep E) (boot E c₀ bz) ls = some s) :
    Inv c₀ (StepRun.trace (loopStep E) (events E) (boot E c₀ bz) ls) s :=
  StepRun.run_inv_trace (I := Inv c₀) (loopStep E) (inv_step E) ls [] _ s (inv_boot E c₀ hbz) h

/-! ### The theorem -/

theorem length_snapshots (c₀ : KeyerConfig) (log : List Event) :
    (snapshots c₀ log).length = (samples log).length := by
  induction log using List.reverseRecOn with
  | nil => rfl
  | append_singleton log e ih =>
    rw [samples_append, List.length_append, ← ih]
    cases e with
    | sample a b =>
      rw [snapshots_sample, List.length_append]
      rfl
    | refresh c =>
      rw [snapshots_quiet c₀ log rfl]
      rfl
    | output o =>
      rw [snapshots_quiet c₀ log rfl]
      rfl

/-- **The keyer posts the changes.** Over every run from boot, wherever edits
of the config and of the lock land, the channel has been posted the snapshots
of all the samples, one for each, in order and without repetitions: each a
function of the samples, the engine's outputs and the config of the last
refresh before it. No snapshot is posted twice in a row. -/
theorem posts_changes (c₀ : KeyerConfig) (pwm : Pwm) (dflt : PwmConfig) (clk : UInt32) (ls : List Label)
    (s : State ε) (h : StepRun.run (loopStep E) (boot E c₀ (.new pwm dflt clk)) ls = some s) :
    let log := StepRun.trace (loopStep E) (events E) (boot E c₀ (.new pwm dflt clk)) ls
    s.st.usbSignal.posted = (snapshots c₀ log).destutter (· ≠ ·) ∧
    s.st.usbSignal.posted.IsChain (· ≠ ·) ∧
    (snapshots c₀ log).length = (samples log).length := by
  intro log
  have hI : Inv c₀ log s := inv_run E rfl h
  exact ⟨hI.posted, hI.posted ▸ List.isChain_destutter _ _, length_snapshots c₀ log⟩

/-- A straight key held for nine samples: one post for the idle line, one when
the eighth sample settles it, one when the engine has keyed. -/
theorem posts_changes_press :
    let ls := (List.replicate 9 [Label.poll true false, .count, .tick 0]).flatten
    ∃ s, StepRun.run (loopStep StraightKey.engine)
        (boot StraightKey.engine StraightKey.config
          (.new StraightKey.pwm StraightKey.pwm.config StraightKey.clkSysFreq)) ls = some s ∧
      s.st.usbSignal.posted =
        [⟨false, false, false, .paddle⟩, ⟨true, false, false, .paddle⟩, ⟨true, false, true, .paddle⟩] := by
  intro ls
  have hsome : (StepRun.run (loopStep StraightKey.engine)
      (boot StraightKey.engine StraightKey.config
        (.new StraightKey.pwm StraightKey.pwm.config StraightKey.clkSysFreq)) ls).isSome = true := by
    decide +kernel
  obtain ⟨s, hs⟩ := Option.isSome_iff_exists.mp hsome
  obtain ⟨hposted, -, -⟩ := posts_changes StraightKey.engine StraightKey.config StraightKey.pwm
    StraightKey.pwm.config StraightKey.clkSysFreq ls s hs
  refine ⟨s, hs, hposted.trans ?_⟩
  decide +kernel

end Snapshots
end RpKeyer
