/-
# The key line over whole runs

The key state is stored four times: the radio key pin, the buzzer's gate, the
indicator the UI polls and the keyer's own `live_key`. From boot, in any
environment (paddle samples, configs at the refreshes, parked iterations) and
for any engine, all four are the last key event the engine reported
(`coherent`): `KeyDown` and `PttRequest(true)` set them, `KeyUp` clears them,
and nothing else touches them.

So when the engine closes every element with a `KeyUp` before it releases the
PTT (`Released`), the line is low after every `PttRequest(false)`.
-/
import Mathlib.Data.List.Induction
import RpKeyer.Lib.Levels
import RpKeyer.StraightKey

namespace RpKeyer
namespace KeyLine

variable {ε : Type} (E : Engine ε)

/-! ### The loop in an arbitrary environment -/

/-- What the other tasks and the pins show the keyer in one iteration. -/
structure Env where
  config : KeyerConfig
  saveLock : Bool
  rawDit : Bool
  rawDah : Bool
  nowUs : ℕ

/-- The statics the iteration finds. -/
def Env.apply (e : Env) (st : Statics) : Statics :=
  { st with sharedConfig := e.config, saveLock := e.saveLock }

/-- One iteration in the environment `e`. -/
def pass (s : Keyer ε × Statics) (e : Env) : Keyer ε × Statics :=
  s.1.iteration E (e.apply s.2) e.rawDit e.rawDah e.nowUs

/-- What the engine reports in it. -/
def passOutput (s : Keyer ε × Statics) (e : Env) : Option KeyerOutput :=
  s.1.output E (e.apply s.2) e.rawDit e.rawDah

def passes (s : Keyer ε × Statics) (es : List Env) : Keyer ε × Statics := es.foldl (pass E) s

/-- The engine's output trace over a run. -/
def outputs : Keyer ε × Statics → List Env → List KeyerOutput
  | _, [] => []
  | s, e :: es => (passOutput E s e).toList ++ outputs (pass E s e) es

/-- The keyer at boot: the pin low, the buzzer new. -/
def boot (config : KeyerConfig) (pwm : Pwm) (dflt : PwmConfig) (clkSysFreq : UInt32) :
    Keyer ε × Statics :=
  (Keyer.start E (.boot config) ⟨false⟩ (.new pwm dflt clkSysFreq), .boot config)

theorem outputs_append : ∀ (es es' : List Env) (s : Keyer ε × Statics),
    outputs E s (es ++ es') = outputs E s es ++ outputs E (passes E s es) es'
  | [], _, _ => rfl
  | e :: es, es', s => by
    simp only [List.cons_append, outputs, outputs_append es es', List.append_assoc, passes,
      List.foldl_cons]

/-! ### The four copies -/

/-- The pin, the buzzer's gate, the indicator and the live key. -/
def lines (s : Keyer ε × Statics) : Bool × Bool × Bool × Bool :=
  (s.1.radioKey.pin, s.1.buzzer.keying, s.2.keyIndicator, s.1.liveKey)

/-- The key event an output carries: down, up, or none. -/
def keyEvent : KeyerOutput → Option Bool
  | .keyDown => some true
  | .pttRequest true => some true
  | .keyUp => some false
  | .pttRequest false => none

/-- The line after a trace: the most recent key event, low if there is none. -/
def lineOf (outs : List KeyerOutput) : Bool := Levels.level false (outs.filterMap keyEvent)

/-- All four copies show `b`. -/
def Coherent (s : Keyer ε × Statics) (b : Bool) : Prop := lines s = (b, b, b, b)

theorem lineOf_append (outs : List KeyerOutput) (o : KeyerOutput) :
    lineOf (outs ++ [o]) = (keyEvent o).getD (lineOf outs) := by
  unfold lineOf
  rw [List.filterMap_append]
  cases h : keyEvent o with
  | none => simp [h]
  | some b => simp [h, Levels.level_concat]

theorem lines_poll (k : Keyer ε) (st : Statics) (a b : Bool) : lines (k.poll E st a b) = lines (k, st) := by
  unfold Keyer.poll lines
  simp only
  split <;> rfl

theorem lines_count (k : Keyer ε) (st : Statics) : lines (k.count.1, st) = lines (k, st) := by
  unfold Keyer.count lines
  simp only
  split <;> rfl

/-- A config refresh reprograms the buzzer and leaves its gate alone. -/
theorem lines_refresh (k : Keyer ε) (st : Statics) : lines (k.refresh E st) = lines (k, st) := by
  unfold Keyer.refresh lines
  simp only [Buzzer.updateSettings_keying]
  split <;> rfl

theorem lines_section4 (k : Keyer ε) (st : Statics) : lines (k.section4 E st) = lines (k, st) := by
  unfold Keyer.section4
  split
  · rw [lines_refresh, lines_count]
  · rw [lines_count]

theorem lines_beforeTick (k : Keyer ε) (st : Statics) (a b : Bool) :
    lines (k.beforeTick E st a b) = lines (k, st) := by
  unfold Keyer.beforeTick
  rw [lines_section4]
  exact lines_poll E k st a b

/-- A key arm brings all four to the same value, whatever they were. -/
theorem coherent_key (k : Keyer ε) (st : Statics) (on : Bool) (n : ℕ) : Coherent (k.key st on n) on := by
  unfold Coherent lines Keyer.key Keyer.feedDecoder
  simp only [Buzzer.setKeyed_keying, RadioKey.set]
  split <;> rfl

/-- The match on an output, seen on the four copies. -/
theorem coherent_act {k : Keyer ε} {st : Statics} {b : Bool} (h : Coherent (k, st) b) (n : ℕ) :
    ∀ o : Option KeyerOutput, Coherent (k.act st n o) ((o.bind keyEvent).getD b)
  | none => h
  | some .keyDown => coherent_key k st true n
  | some .keyUp => coherent_key k st false n
  | some (.pttRequest true) => coherent_key k st true n
  | some (.pttRequest false) => h

theorem lines_tick (k : Keyer ε) (st : Statics) (n : ℕ) :
    lines (k.tick E st n) =
      lines (Keyer.act { k with engine := (E.tick k.engine).1 } st n (E.tick k.engine).2) :=
  rfl

/-- One iteration: the four copies follow the output, if there is one. -/
theorem coherent_pass {s : Keyer ε × Statics} {b : Bool} (h : Coherent s b) (e : Env) :
    Coherent (pass E s e) (((passOutput E s e).bind keyEvent).getD b) := by
  unfold pass passOutput Keyer.output
  cases hl : e.saveLock with
  | true =>
    have hl' : (e.apply s.2).saveLock = true := hl
    rw [Keyer.iteration_parked E s.1 hl', if_pos hl']
    exact h
  | false =>
    have hl' : (e.apply s.2).saveLock = false := hl
    rw [Keyer.iteration_unparked E s.1 hl', if_neg (by rw [hl']; decide)]
    unfold Coherent
    rw [lines_tick]
    refine coherent_act ?_ _ _
    exact (lines_beforeTick E s.1 (e.apply s.2) _ _).trans h

/-- An iteration whose output is no key event changes none of the four. -/
theorem lines_pass_of_none (s : Keyer ε × Statics) (e : Env)
    (h : (passOutput E s e).bind keyEvent = none) : lines (pass E s e) = lines s := by
  unfold pass
  unfold passOutput Keyer.output at h
  cases hl : e.saveLock with
  | true =>
    have hl' : (e.apply s.2).saveLock = true := hl
    rw [Keyer.iteration_parked E s.1 hl']
    rfl
  | false =>
    have hl' : (e.apply s.2).saveLock = false := hl
    rw [if_neg (by rw [hl']; decide)] at h
    rw [Keyer.iteration_unparked E s.1 hl', lines_tick]
    have hb := lines_beforeTick E s.1 (e.apply s.2) e.rawDit e.rawDah
    generalize s.1.beforeTick E (e.apply s.2) e.rawDit e.rawDah = r at h hb ⊢
    rcases ho : (E.tick r.1.engine).2 with _ | (_ | _ | on)
    · exact hb
    · rw [ho] at h; cases h
    · rw [ho] at h; cases h
    · cases on with
      | false => exact hb
      | true => rw [ho] at h; cases h

theorem coherent_boot (config : KeyerConfig) (pwm : Pwm) (dflt : PwmConfig) (clk : UInt32) :
    Coherent (boot E config pwm dflt clk) false := by
  unfold Coherent lines boot Keyer.start
  simp only [Buzzer.updateSettings_keying]
  rfl

/-- A run: the four copies are the last key event of its trace. -/
theorem coherent_passes (s : Keyer ε × Statics) (h : Coherent s false) (es : List Env) :
    Coherent (passes E s es) (lineOf (outputs E s es)) := by
  induction es using List.reverseRecOn with
  | nil => exact h
  | append_singleton es e ih =>
    have hp : passes E s (es ++ [e]) = pass E (passes E s es) e := by
      simp only [passes, List.foldl_append, List.foldl_cons, List.foldl_nil]
    rw [hp, outputs_append]
    have hc := coherent_pass E ih e
    cases ho : passOutput E (passes E s es) e with
    | none => simpa [outputs, ho] using hc
    | some o => rw [ho] at hc; simpa [outputs, ho, lineOf_append] using hc

/-! ### Elements closed before the PTT -/

/-- Between a key-down and the next `PttRequest(false)` there is a `KeyUp`
with no key-down after it. -/
def Released (outs : List KeyerOutput) : Prop :=
  ∀ a d b c, outs = a ++ d :: b ++ .pttRequest false :: c → keyEvent d = some true →
    .pttRequest false ∉ b → ∃ b₁ b₂, b = b₁ ++ .keyUp :: b₂ ∧ ∀ o ∈ b₂, keyEvent o ≠ some true

/-- A high line has a last key-down, after which only the PTT was released. -/
theorem last_keyDown (outs : List KeyerOutput) (h : lineOf outs = true) :
    ∃ a d b, outs = a ++ d :: b ∧ keyEvent d = some true ∧ ∀ o ∈ b, o = .pttRequest false := by
  induction outs using List.reverseRecOn with
  | nil => cases h
  | append_singleton outs o ih =>
    rw [lineOf_append] at h
    cases ho : keyEvent o with
    | some on =>
      rw [ho, Option.getD_some] at h
      exact ⟨outs, o, [], rfl, by rw [ho, h], by simp⟩
    | none =>
      rw [ho, Option.getD_none] at h
      obtain ⟨a, d, b, rfl, hd, hb⟩ := ih h
      refine ⟨a, d, b ++ [o], by simp, hd, fun x hx => ?_⟩
      rcases List.mem_append.mp hx with hx | hx
      · exact hb x hx
      · rw [List.mem_singleton.mp hx]
        rcases o with _ | _ | on
        · cases ho
        · cases ho
        · cases on with
          | false => rfl
          | true => cases ho

/-- Before a `PttRequest(false)` of a released trace the line is low. -/
theorem lineOf_released {outs rest : List KeyerOutput}
    (h : Released (outs ++ .pttRequest false :: rest)) : lineOf outs = false := by
  by_contra hne
  obtain ⟨a, d, b, rfl, hd, hb⟩ := last_keyDown outs (by simpa using hne)
  -- the first release after the last key-down follows it at once
  have hsplit : ∃ c, a ++ d :: b ++ .pttRequest false :: rest = a ++ d :: [] ++ .pttRequest false :: c := by
    cases b with
    | nil => exact ⟨rest, by simp⟩
    | cons x b =>
      rw [hb x List.mem_cons_self]
      exact ⟨b ++ .pttRequest false :: rest, by simp⟩
  obtain ⟨c, hc⟩ := hsplit
  obtain ⟨b₁, b₂, hnil, -⟩ := h a d [] c hc hd (by simp)
  cases b₁ <;> cases hnil

/-! ### The theorem -/

/-- **One key line.** After every run from boot the four copies are equal and
show the last key event of the engine's trace; refreshes, parked iterations
and `PttRequest(false)` change none of them; and on a trace that closes its
elements the line is low after every `PttRequest(false)`. -/
theorem key_line_coherent (config : KeyerConfig) (pwm : Pwm) (dflt : PwmConfig) (clk : UInt32)
    (es : List Env) :
    let s₀ := boot E config pwm dflt clk
    Coherent (passes E s₀ es) (lineOf (outputs E s₀ es)) ∧
    (∀ k st, lines (Keyer.refresh E k st) = lines (k, st)) ∧
    (∀ s e, (passOutput E s e = none ∨ passOutput E s e = some (.pttRequest false)) →
      lines (pass E s e) = lines s) ∧
    (∀ s e, e.saveLock = true → passOutput E s e = none) ∧
    (Released (outputs E s₀ es) → ∀ pre e post, es = pre ++ e :: post →
      passOutput E (passes E s₀ pre) e = some (.pttRequest false) →
      Coherent (passes E s₀ (pre ++ [e])) false) := by
  intro s₀
  have hrun := fun es => coherent_passes E s₀ (coherent_boot E config pwm dflt clk) es
  refine ⟨hrun es, lines_refresh E, fun s e ho => lines_pass_of_none E s e ?_, fun s e hl => ?_, ?_⟩
  · rcases ho with ho | ho <;> rw [ho] <;> rfl
  · exact if_pos hl
  · rintro hrel pre e post rfl ho
    have ht : outputs E s₀ (pre ++ e :: post) = outputs E s₀ pre ++
        .pttRequest false :: outputs E (pass E (passes E s₀ pre) e) post := by
      simp only [outputs_append, outputs, ho, Option.toList_some, List.singleton_append]
    have hlow := lineOf_released (ht ▸ hrel)
    have hc := hrun (pre ++ [e])
    rw [outputs_append] at hc
    simpa [outputs, ho, lineOf_append, keyEvent, hlow] using hc

/-- One closed element. -/
theorem released_element : Released [.pttRequest true, .keyDown, .keyUp, .pttRequest false] := by
  intro a d b c h hd hb
  rcases a with _ | ⟨a₁, _ | ⟨a₂, _ | ⟨a₃, _ | ⟨a₄, a⟩⟩⟩⟩
  · rcases b with _ | ⟨b₁, _ | ⟨b₂, b⟩⟩
    · simp at h
    · simp at h
    · simp only [List.nil_append, List.cons_append, List.cons.injEq] at h
      obtain ⟨-, -, rfl, hrest⟩ := h
      rcases b with _ | ⟨b₃, b⟩
      · exact ⟨[b₁], [], rfl, by simp⟩
      · simp only [List.cons_append, List.cons.injEq] at hrest
        exact absurd (by simp [← hrest.1]) hb
  · rcases b with _ | ⟨b₁, b⟩
    · simp at h
    · simp only [List.cons_append, List.nil_append, List.cons.injEq] at h
      obtain ⟨-, -, rfl, hrest⟩ := h
      rcases b with _ | ⟨b₂, b⟩
      · exact ⟨[], [], rfl, by simp⟩
      · simp only [List.cons_append, List.cons.injEq] at hrest
        exact absurd (by simp [← hrest.1]) hb
  · simp only [List.cons_append, List.nil_append, List.cons.injEq] at h
    rw [← h.2.2.1] at hd
    cases hd
  · simp only [List.cons_append, List.nil_append, List.cons.injEq] at h
    rw [← h.2.2.2.1] at hd
    cases hd
  · have hlen := congrArg List.length h
    simp at hlen

/-- A tap on a straight key: after its PTT is released the line is low. -/
theorem key_line_coherent_tap :
    let s₀ := boot StraightKey.engine StraightKey.config StraightKey.pwm StraightKey.pwm.config
      StraightKey.clkSysFreq
    let press : Env := ⟨StraightKey.config, false, true, false, 0⟩
    let idle : Env := ⟨StraightKey.config, false, false, false, 0⟩
    let pre := List.replicate 10 press ++ List.replicate 8 idle
    outputs StraightKey.engine s₀ (pre ++ [idle]) =
      [.pttRequest true, .keyDown, .keyUp, .pttRequest false] ∧
    Coherent (passes StraightKey.engine s₀ (pre ++ [idle])) false := by
  intro s₀ press idle pre
  have houts : outputs StraightKey.engine s₀ (pre ++ [idle]) =
      [.pttRequest true, .keyDown, .keyUp, .pttRequest false] := by
    decide +kernel
  have hlast : passOutput StraightKey.engine (passes StraightKey.engine s₀ pre) idle =
      some (.pttRequest false) := by
    decide +kernel
  have h := key_line_coherent StraightKey.engine StraightKey.config StraightKey.pwm
    StraightKey.pwm.config StraightKey.clkSysFreq (pre ++ [idle])
  exact ⟨houts, h.2.2.2.2 (houts ▸ released_element) pre idle [] rfl hlast⟩

end KeyLine
end RpKeyer
