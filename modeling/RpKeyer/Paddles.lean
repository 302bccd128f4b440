/-
# From the paddles to the host

The firmware end to end, from the samples of the paddle pins to the two bits
of each transport at the host, with writes that fail.

A transport whose releases are delivered keeps the host where its caches are
(`host_alone`), so at the emit task's wait the host is at the target of the
last snapshot it took, unless its last write failed. The channel does not lose
a final snapshot, and the keyer posts every change (`Snapshots`). So whenever
the emit task waits on an empty slot, however all tasks of the firmware came
to interleave, the host shows what the last sample calls for
(`paddles_reach_host`).
-/
import RpKeyer.Firmware
import RpKeyer.Snapshots

namespace RpKeyer
namespace Paddles

open Codecs Firmware UsbEmit UsbHost
open UsbIndependence (Transport Solo serTransport midiTransport lastStyle Follows)

/-! ### A transport with failing writes -/

/-- Every release was delivered. -/
def Released (ws : List Write) : Prop := ∀ w ∈ ws, w.release = true → w.ok = true

/-- The last write, if any, was delivered. -/
def Delivered (ws : List Write) : Prop := ∀ w ∈ ws.getLast?, w.ok = true

instance (ws : List Write) : Decidable (Released ws) :=
  inferInstanceAs (Decidable (∀ w ∈ ws, w.release = true → w.ok = true))

instance (ws : List Write) : Decidable (Delivered ws) :=
  inferInstanceAs (Decidable (∀ w ∈ ws.getLast?, w.ok = true))

/-- The transport's writes are those of the wire. -/
structure Carries (T : Transport) (W : Wire) : Prop where
  release : ∀ p ok, T.release p ok = W.switched true p ok
  write : ∀ snap p ok, T.write snap p ok = W.fut p snap ok

theorem carries_ser (iface : UInt8) : Carries (serTransport (.present iface)) (cdc iface) :=
  ⟨fun _ _ => rfl, serFut_eq iface⟩

theorem carries_midi : Carries (midiTransport (.present ())) midiWire := ⟨fun _ _ => rfl, midiFut_eq⟩

theorem Released.of_append {ws ws' : List Write} (h : Released (ws ++ ws')) : Released ws :=
  fun w hw => h w (List.mem_append_left _ hw)

/-- Writes the last of which was delivered, if there is at most one. -/
theorem Delivered.unfailed {ws : List Write} {W : Wire} {p : Prev} {snap : UsbSnapshot} {ok : Bool}
    (h : Delivered (ws ++ (W.fut p snap ok).2)) : Unfailed (W.fut p snap ok).2 := by
  intro w hw _
  unfold Wire.fut at h hw
  split at hw
  · rename_i hedge
    rw [if_pos hedge] at h
    rw [List.mem_singleton.mp hw]
    exact h _ List.getLast?_concat
  · exact absurd hw List.not_mem_nil

section Alone

variable {T : Transport} {W : Wire} (σ : ℕ → Bool) (h : Bits)

/-- A transport's caches are what the host shows. -/
def InStep (W : Wire) (h : Bits) (style : UsbEmitStyle) (t : Solo) : Prop :=
  Agrees style t.prev (receiveAll W.receive h t.log)

/-- A delivered release brings caches and host together. -/
theorem inStep_readied (hT : Carries T W) {t : Solo} {snap : UsbSnapshot}
    (hsame : t.style = some snap.emitStyle → InStep W h snap.emitStyle t)
    (hrel : Released (T.readied σ t snap).log) : InStep W h snap.emitStyle (T.readied σ t snap) := by
  unfold Transport.readied at hrel ⊢
  by_cases hstyle : t.style = some snap.emitStyle
  · rw [if_pos hstyle]
    exact hsame hstyle
  · rw [if_neg hstyle] at hrel ⊢
    have hlog : (t.write σ (T.release t.prev)).log = t.log ++ (W.switched true t.prev (σ t.log.length)).2 :=
      congrArg (fun r : Prev × List Write => t.log ++ r.2) (hT.release t.prev (σ t.log.length))
    have hprev : (t.write σ (T.release t.prev)).prev = (W.switched true t.prev (σ t.log.length)).1 :=
      congrArg Prod.fst (hT.release t.prev (σ t.log.length))
    have hok : σ t.log.length = true := by
      refine hrel ⟨W.release, true, σ t.log.length⟩ ?_ rfl
      show _ ∈ (t.write σ (T.release t.prev)).log
      rw [hlog]
      exact List.mem_append_right _ List.mem_cons_self
    unfold InStep
    simp only
    rw [hlog, hprev, hok, receiveAll_append]
    exact W.switched_agrees (fun hfalse => absurd hfalse Bool.noConfusion)

/-- **The host of a transport alone.** If its releases are delivered, then
after any snapshots its caches are what the host shows, and if its last write
was delivered the host is at the target of the last snapshot. -/
theorem host_alone (hT : Carries T W) : ∀ {snaps : List UsbSnapshot} {snap : UsbSnapshot}, snaps.getLast? = some snap →
    Released (T.alone σ snaps).log →
      InStep W h snap.emitStyle (T.alone σ snaps) ∧
      (Delivered (T.alone σ snaps).log → receiveAll W.receive h (T.alone σ snaps).log = target snap) := by
  intro snaps
  induction snaps using List.reverseRecOn with
  | nil =>
    intro snap hlast
    cases hlast
  | append_singleton snaps last ih =>
    intro snap hlast hrel
    obtain rfl : last = snap := by simpa using hlast
    rw [UsbIndependence.alone_concat] at hrel ⊢
    have hready : InStep W h last.emitStyle (T.readied σ (T.alone σ snaps) last) := by
      refine inStep_readied σ h hT (fun hstyle => ?_) hrel.of_append
      rw [UsbIndependence.alone_style] at hstyle
      obtain ⟨old, hold, heq⟩ := Option.map_eq_some_iff.mp hstyle
      have hlog : Released (T.alone σ snaps).log := fun w hw => hrel w
        (List.mem_append_left _ ((UsbIndependence.log_readied (T.alone σ snaps) last).subset hw))
      exact heq ▸ (ih hold hlog).1
    set t := T.readied σ (T.alone σ snaps) last with ht
    have hlog : (T.next σ (T.alone σ snaps) last).log = t.log ++ (W.fut t.prev last (σ t.log.length)).2 :=
      congrArg (fun r : Prev × List Write => t.log ++ r.2) (hT.write last t.prev (σ t.log.length))
    have hprev : (T.next σ (T.alone σ snaps) last).prev = (W.fut t.prev last (σ t.log.length)).1 :=
      congrArg Prod.fst (hT.write last t.prev (σ t.log.length))
    obtain ⟨hagree, htarget⟩ := W.fut_agrees hready (σ t.log.length)
    unfold InStep
    rw [hlog, hprev, receiveAll_append]
    exact ⟨hagree, fun hdel => htarget hdel.unfailed⟩

end Alone

/-! ### The emit task at its wait -/

/-- The results of the writes, in order. -/
def results (ws : List Write) (n : ℕ) : Bool := (ws[n]?.map (·.ok)).getD true

theorem follows_results (ws : List Write) : Follows (results ws) ws := by
  intro n w hw
  unfold results
  rw [hw]
  rfl

/-- Both hosts are at the target of the last snapshot the task took. -/
theorem host_waiting {app : App} {es : List UsbIndependence.Label} {e : UsbIndependence.State}
    (h : StepRun.run (UsbIndependence.emitStep app) .start es = some e) (hpc : e.pc = .wait)
    {snap : UsbSnapshot} (hlast : (UsbIndependence.snapshots es).getLast? = some snap) (hostSer hostMidi : Bits) :
    (∀ iface, app.serial = .present iface → Released e.ser → Delivered e.ser →
      receiveAll serReceive hostSer e.ser = target snap) ∧
    (app.midi = .present () → Released e.midi → Delivered e.midi →
      receiveAll midiReceive hostMidi e.midi = target snap) := by
  refine ⟨fun iface happ hrel hdel => ?_, fun happ hrel hdel => ?_⟩
  · have halong := (UsbIndependence.along_run h (results e.ser)).ser (follows_results e.ser)
    rw [hpc, happ] at halong
    obtain ⟨-, hlog⟩ := halong
    rw [hlog] at hrel hdel ⊢
    exact (host_alone _ hostSer (carries_ser iface) hlast hrel).2 hdel
  · have halong := (UsbIndependence.along_run h (results e.midi)).midi (follows_results e.midi)
    rw [hpc, happ] at halong
    obtain ⟨-, hlog⟩ := halong
    rw [hlog] at hrel hdel ⊢
    exact (host_alone _ hostMidi carries_midi hlast hrel).2 hdel

/-! ### The firmware -/

variable {ε : Type} (E : Engine ε) (app : App) (tag : Codec UInt16) (codec : Codec KeyerConfig)

/-- What the keyer finds and puts out in a step of the firmware. -/
def keyerEvents (s : Sys ε) : Label → List Snapshots.Event
  | .keyer a => Snapshots.events E s.keyer a.label
  | .take | .wrote _ _ | .ui _ _ | .persist _ => []

/-- It is what the keyer alone, with edits from outside, finds and puts out. -/
theorem keyerEvents_loop {s s' : Sys ε} {a : Label} {t : Loop.State ε} (hR : LoopRel s t)
    (h : sysStep E app tag codec s a = some s') :
    keyerEvents E s a = StepRun.trace (Loop.loopStep E) (Snapshots.events E) t (loopLabels tag codec s a) := by
  obtain ⟨c, d, hc, rfl⟩ := hR
  cases sysStep_moved E app tag codec h with
  | keyer a k hk =>
    obtain ⟨c', -, hstep⟩ := section_channels E hk hc d
    refine Eq.trans ?_ (StepRun.trace_cons hstep []).symm
    rw [StepRun.trace_nil, List.append_nil]
    cases a <;> rfl
  | take => rfl
  | wrote w ok => rfl
  | ui pins decoded =>
    show _ = StepRun.trace _ _ _ ((s.uiStep pins decoded).toList.map _)
    rw [show s.uiStep pins decoded = some _ from h]
    rfl
  | persist ok p' st' hstep =>
    show _ = StepRun.trace _ _ _ ((Persist.step tag codec s.persist s.st ok).toList.map _)
    rw [hstep]
    rfl

/-- No step of any task breaks the channel. -/
theorem chan_step {s s' : Sys ε} {a : Label} (hok : s.chan.Ok) (h : sysStep E app tag codec s a = some s') :
    s'.chan.Ok := by
  cases sysStep_moved E app tag codec h with
  | keyer a k hk =>
    rcases UsbChannel.loop_signal E hk with ⟨-, hsig⟩ | ⟨snap, -, hsig⟩
    · exact (congrArg LatestWins.Chan.Ok hsig).mpr hok
    · exact (congrArg LatestWins.Chan.Ok hsig).mpr (hok.post snap)
  | take snap c' e htake =>
    exact hok.take htake
  | wrote =>
    exact hok
  | ui pins decoded t' st' hiter =>
    have hst := congrArg (fun st : Statics => st.usbSignal) (iteration_statics hiter)
    exact (congrArg LatestWins.Chan.Ok hst).mpr hok
  | persist ok p' st' hstep =>
    have hst := congrArg (fun st : Statics => st.usbSignal) (persist_statics tag codec hstep)
    exact (congrArg LatestWins.Chan.Ok hst).mpr hok

theorem chan_run {dflt : KeyerConfig} {bz : Buzzer} {display : Display} {flash : Storage.Flash} {ls : List Label}
    {s : Sys ε} (h : StepRun.run (sysStep E app tag codec) (Firmware.boot E tag codec dflt bz display flash) ls =
      some s) : s.chan.Ok := by
  have hboot : (Firmware.boot E tag codec dflt bz display flash).chan.Ok := LatestWins.Chan.ok_empty
  exact StepRun.run_inv (I := fun s : Sys ε => s.chan.Ok) (sysStep E app tag codec)
    (fun _ _ _ hok hs => chan_step E app tag codec hok hs) hboot h

/-! ### The theorem -/

/-- **The paddles reach the host.** However the tasks of the firmware
interleave: when the emit task waits on an empty slot, then on each transport
there is whose releases were delivered and whose last write did not fail, the
host shows the snapshot the last sample of the paddles calls for, a function
of all samples, the engine's outputs and the config of the last refresh. -/
theorem paddles_reach_host (dflt : KeyerConfig) (pwm : Pwm) (pwmDflt : PwmConfig) (clk : UInt32)
    (display : Display) (flash : Storage.Flash) (hostSer hostMidi : Bits) {ls : List Label} {s : Sys ε}
    (h : StepRun.run (sysStep E app tag codec)
      (Firmware.boot E tag codec dflt (.new pwm pwmDflt clk) display flash) ls = some s)
    (hslot : s.chan.slot = none) (hpc : s.emit.pc = .wait) {log rest : List Snapshots.Event} {a b : Bool}
    (hlog : StepRun.trace (sysStep E app tag codec) (keyerEvents E)
      (Firmware.boot E tag codec dflt (.new pwm pwmDflt clk) display flash) ls = log ++ .sample a b :: rest)
    (hrest : ∀ e ∈ rest, e.sample? = none) :
    let snap := Snapshots.snapshotOf (Persist.restore tag codec dflt flash) (log ++ [.sample a b])
    (∀ iface, app.serial = .present iface → Released s.emit.ser → Delivered s.emit.ser →
      receiveAll serReceive hostSer s.emit.ser = target snap) ∧
    (app.midi = .present () → Released s.emit.midi → Delivered s.emit.midi →
      receiveAll midiReceive hostMidi s.emit.midi = target snap) := by
  intro snap
  have hR : LoopRel (Firmware.boot E tag codec dflt (.new pwm pwmDflt clk) display flash)
      (Loop.boot E (Persist.restore tag codec dflt flash) (.new pwm pwmDflt clk)) := ⟨_, _, rfl, rfl⟩
  -- the keyer has posted the snapshot of the last sample, and nothing since
  obtain ⟨t, ht, c, d, hc, rfl⟩ := (asLoop E app tag codec).run hR h
  have hevents := (asLoop E app tag codec).shows (keyerEvents_loop E app tag codec) hR h
  have hI := Snapshots.inv_run E rfl ht
  have hposted : s.chan.posted.getLast? = some snap := by
    rw [← hc]
    refine (congrArg List.getLast? hI.posted).trans ?_
    rw [Changes.getLast?_destutter]
    show (Snapshots.snapshots _ (StepRun.trace (Loop.loopStep E) (Snapshots.events E) _ _)).getLast? = _
    rw [show StepRun.trace (Loop.loopStep E) (Snapshots.events E)
        (Loop.boot E (Persist.restore tag codec dflt flash) (.new pwm pwmDflt clk)) _ = _ from hevents.symm, hlog]
    exact Snapshots.last_snapshot _ log a b rest hrest
  -- the emit task has taken it
  have hok := chan_run E app tag codec h
  have htaken := snapshots_trace E app tag codec h
  have hemit := StepRun.Simulation.run_ofMap (f := Sys.emit) (emit_step E app tag codec) h
  refine host_waiting hemit hpc ?_ hostSer hostMidi
  rw [← hposted, ← hok.last_taken hslot, htaken]
  rfl

/-- A straight key is pressed: the CDC write of the settled dit fails, and the
one of the keyed line makes up for it. -/
theorem paddles_reach_host_press :
    let app : App := ⟨.present 0, .present ()⟩
    let loop : List Label := [.keyer (.poll true false), .keyer .count, .keyer (.tick 0)]
    let ls : List Label := loop ++ [.take, .wrote .serRelease true, .wrote .midiRelease true, .wrote .ser true,
      .wrote .midi true] ++ (List.replicate 7 loop).flatten ++ [.take, .wrote .midi true, .wrote .ser false,
      .keyer (.poll true false), .take, .wrote .ser true, .wrote .midi true]
    ∃ s, StepRun.run (sysStep StraightKey.engine app Postcard.varint16 Postcard.config)
        (Firmware.boot StraightKey.engine Postcard.varint16 Postcard.config StraightKey.config
          (.new StraightKey.pwm StraightKey.pwm.config StraightKey.clkSysFreq) ⟨[], []⟩ .empty) ls = some s ∧
      receiveAll serReceive ⟨true, true⟩ s.emit.ser = ⟨true, false⟩ ∧
      receiveAll midiReceive ⟨true, true⟩ s.emit.midi = ⟨true, false⟩ := by
  intro app loop ls
  have hseen : (StepRun.run (sysStep StraightKey.engine app Postcard.varint16 Postcard.config)
      (Firmware.boot StraightKey.engine Postcard.varint16 Postcard.config StraightKey.config
        (.new StraightKey.pwm StraightKey.pwm.config StraightKey.clkSysFreq) ⟨[], []⟩ .empty) ls).map
          (fun s => (s.chan.slot, s.emit.pc, s.emit.ser, s.emit.midi)) =
      some (none, .wait, [⟨serialStatePacket 0 false false, true, true⟩, ⟨serialStatePacket 0 true false, false, false⟩,
          ⟨serialStatePacket 0 true false, false, true⟩],
        [⟨noteEvent 60 false ++ noteEvent 62 false, true, true⟩, ⟨noteEvent 60 true, false, true⟩]) := by
    decide +kernel
  obtain ⟨s, hs, hs'⟩ := Option.map_eq_some_iff.mp hseen
  simp only [Prod.mk.injEq] at hs'
  obtain ⟨hslot, hpc, hser, hmidi⟩ := hs'
  have hlog : StepRun.trace (sysStep StraightKey.engine app Postcard.varint16 Postcard.config)
      (keyerEvents StraightKey.engine) (Firmware.boot StraightKey.engine Postcard.varint16 Postcard.config
        StraightKey.config (.new StraightKey.pwm StraightKey.pwm.config StraightKey.clkSysFreq) ⟨[], []⟩ .empty)
        ls = .replicate 8 (.sample true false) ++ [.output (.pttRequest true)] ++ .sample true false :: [] := by
    decide +kernel
  have hsnap : target (Snapshots.snapshotOf (Persist.restore Postcard.varint16 Postcard.config StraightKey.config
      .empty) (.replicate 8 (.sample true false) ++ [.output (.pttRequest true)] ++ [.sample true false])) =
      ⟨true, false⟩ := by
    decide +kernel
  obtain ⟨htoSer, htoMidi⟩ := paddles_reach_host StraightKey.engine app Postcard.varint16 Postcard.config StraightKey.config
    StraightKey.pwm StraightKey.pwm.config StraightKey.clkSysFreq ⟨[], []⟩ .empty ⟨true, true⟩ ⟨true, true⟩ hs
    hslot hpc hlog (fun _ he => absurd he List.not_mem_nil)
  rw [hser] at htoSer
  rw [hmidi] at htoMidi
  refine ⟨s, hs, ?_, ?_⟩
  · rw [hser]
    exact (htoSer 0 rfl (by decide) (by decide)).trans hsnap
  · rw [hmidi]
    exact (htoMidi rfl (by decide) (by decide)).trans hsnap

end Paddles
end RpKeyer
