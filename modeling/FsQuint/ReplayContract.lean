/-
  The contract of a live replay.

  Everything here follows from one fact, that a run keeps to the script of its trace
  (`guarded_follows`):

  1. **The protocol** (`run_protocol`): which calls are made, in which order and after what, and
     that the cleanup is made once, last, and without influence on the result.
  2. **The report** (`run_firstFailure`): the outcome is the verdict on the events of the run, and it
     is equivalence exactly when the whole script has happened and nothing failed.

  A run is taken apart at one of its events: what precedes it is a clean run of the part of the
  script that precedes its stage, and the shape of the script says what that part is.
-/
import FsQuint.ReplaySimulation
import FsQuint.TraceIdentity

set_option linter.unusedVariables false

namespace FsQuint.Replay

open Utf16 QuintReplay Script

variable {ρ : Type}

/-! ## What the protocol asks -/

/-- The calls of a run in which nothing goes wrong, before the cleanup. -/
def protocol (trace : QuintReplayTrace) : List Call :=
  .initializeRuntime trace.initial :: .observe :: trace.steps.flatMap fun step => [.apply step, .observe]

/-- The states that the observations of a run are compared with. -/
def expectedStates (trace : QuintReplayTrace) : List QuintReplayState :=
  trace.initial :: trace.steps.map QuintReplayStep.expected

/-- An observation returned a state that has the encoding of the expected one. -/
def Confirms (platform : Platform) (expected : QuintReplayState) (answer : Answer QuintReplayState) : Prop :=
  ∃ actual text, answer = .ok (.ok actual) ∧ encodeState platform expected = .ok (.ok text) ∧
    encodeState platform actual = .ok (.ok text)

/-- A callback answered with an error. -/
def answersError (e : Event ρ) : Prop :=
  (∃ message, e.initializeAnswer = some (.ok (.error message))) ∨
  (∃ message, e.applyAnswer = some (.ok (.error message))) ∨
  ∃ message, e.observeAnswer = some (.ok (.error message))

/-- What is reported of the cleanup. -/
def cleanupMessage : Answer Unit → Option NString
  | .ok (.ok ()) => none
  | .ok (.error message) => some message
  | .error e => some (some e.message)

/-- The protocol between a run and its driver, for a run that is recorded as `events` and then
    `cleaning`. -/
structure ObeysProtocol (platform : Platform) (driver : ReplayDriver ρ) (trace : QuintReplayTrace)
    (report : ReplayReport) (events cleaning : History ρ) : Prop where
  /-- No callback is called for a trace that validation rejects. -/
  rejected : validateTrace platform trace ≠ .ok [] → (events ++ cleaning).filterMap Event.call = []
  /-- The calls before the cleanup are a prefix of the protocol. -/
  calls : events.filterMap Event.call <+: protocol trace
  /-- A step is applied only after every observation up to it has returned the expected state. -/
  gated : ∀ past e future step, events = past ++ e :: future → e.appliedStep = some step →
    ∃ k, trace.steps[k]? = some step ∧ past.filterMap Event.appliedStep = trace.steps.take k ∧
      List.Forall₂ (Confirms platform) ((expectedStates trace).take (k + 1))
        (past.filterMap Event.observeAnswer)
  /-- No step is applied twice. -/
  once : ((events.filterMap Event.appliedStep).map QuintReplayStep.index).Nodup
  /-- After a failure, and after an answer that is an error, no callback is called. -/
  stopped : ∀ past e future, events = past ++ e :: future → fails platform e = true ∨ answersError e →
    future.filterMap Event.call = []
  /-- The cleanup is called once if initialization returned a runtime, with that runtime and a token
      that is not cancelled, and else not at all; what it answers is reported separately. -/
  cleanup : (∃ value phase index, (∃ e ∈ events, e.initializeAnswer = some (.ok (.ok value))) ∧
      cleaning = [⟨phase, index, .cleanupCalled value .none (driver.cleanup events value .none)⟩] ∧
      report.cleanupFailure = cleanupMessage (driver.cleanup events value .none)) ∨
    ((¬ ∃ value, ∃ e ∈ events, e.initializeAnswer = some (.ok (.ok value))) ∧ cleaning = [] ∧
      report.cleanupFailure = none)
  /-- The steps applied are counted. -/
  applied : report.appliedSteps = (events.filterMap Event.appliedStep).length

variable {platform : Platform} {cancellation : Cancellation ρ} {driver : ReplayDriver ρ}
  {trace : QuintReplayTrace}

/-! ## Views of the script -/

/-- The callback that a stage calls. -/
def stageCall (trace : QuintReplayTrace) : Stage → Option Call
  | .initializeCall => some (.initializeRuntime trace.initial)
  | .applyCall step => some (.apply step)
  | .observeCall _ => some .observe
  | _ => none

/-- The step that a call applies. -/
def Call.step : Call → Option QuintReplayStep
  | .apply step => some step
  | _ => none

/-- The state that a call initializes the driver with. -/
def Call.state : Call → Option QuintReplayState
  | .initializeRuntime state => some state
  | _ => none

/-- An event of a stage records the callback that the stage calls. -/
theorem call_of_occurs : ∀ (stage : Stage) (history : History ρ) (e : Event ρ),
    occurs platform cancellation driver trace stage history e → e.call = stageCall trace stage := by
  intro stage history e h
  cases stage with
  | validation => obtain ⟨_, -, rfl⟩ := h; rfl
  | checkpoint => obtain rfl := h; rfl
  | initializeCall => obtain rfl := h; rfl
  | initializeResult => obtain ⟨_, -, rfl⟩ := h; rfl
  | applyCall => obtain ⟨_, -, rfl⟩ := h; rfl
  | applyResult => obtain ⟨_, -, rfl⟩ := h; rfl
  | observeCall => obtain ⟨_, -, rfl⟩ := h; rfl
  | observeResult => obtain ⟨_, -, rfl⟩ := h; rfl
  | comparison => obtain ⟨_, -, rfl⟩ := h; rfl

/-- Only the stage of a step applies it. -/
theorem stageCall_eq_apply {stage : Stage} {step : QuintReplayStep}
    (h : stageCall trace stage = some (.apply step)) : stage = .applyCall step := by
  cases stage <;> simp_all [stageCall]

/-- The step that an event applied is that of its call. -/
theorem appliedStep_eq (e : Event ρ) : e.appliedStep = e.call.bind Call.step := by
  rcases e with ⟨phase, index, what⟩
  cases what <;> rfl

/-- The steps that were applied are those of the calls. -/
theorem filterMap_appliedStep (events : History ρ) :
    events.filterMap Event.appliedStep = (events.filterMap Event.call).filterMap Call.step := by
  rw [List.filterMap_filterMap]
  exact congrArg (fun view => events.filterMap view) (funext appliedStep_eq)

/-- The calls of the rounds: each step is applied and then observed. -/
theorem filterMap_stageCall_rounds : ∀ (before : Int) (steps : List QuintReplayStep),
    (rounds before steps).filterMap (stageCall trace) = steps.flatMap fun step =>
      [.apply step, .observe]
  | _, [] => rfl
  | before, step :: steps => by
    rw [rounds, List.filterMap_append, filterMap_stageCall_rounds step.index steps]
    rfl

/-- The calls in the script are those of the protocol. -/
theorem filterMap_stageCall_script :
    (script trace).filterMap (stageCall trace) = protocol trace := by
  rw [script, List.filterMap_append, filterMap_stageCall_rounds]
  rfl

/-- The protocol applies the steps of the trace in order. -/
theorem filterMap_step_protocol : (protocol trace).filterMap Call.step = trace.steps := by
  have hsteps : ∀ steps : List QuintReplayStep,
      (steps.flatMap fun step => [Call.apply step, Call.observe]).filterMap Call.step = steps := by
    intro steps
    induction steps with
    | nil => rfl
    | cons step steps ih =>
      rw [List.flatMap_cons, List.filterMap_append, ih]
      rfl
  exact hsteps trace.steps

/-- Every call in a script is followed by its result, with at most a checkpoint in between. -/
def Answered : List Stage → Prop
  | [] => True
  | .initializeCall :: rest => (∃ rest', rest = .initializeResult :: rest') ∧ Answered rest
  | .applyCall _ :: rest =>
    (∃ phase before index rest', rest = .checkpoint phase before :: .applyResult index :: rest') ∧ Answered rest
  | .observeCall _ :: rest =>
    (∃ phase before index rest', rest = .checkpoint phase before :: .observeResult index :: rest') ∧ Answered rest
  | _ :: rest => Answered rest

/-- In the rounds each call is followed by a checkpoint and the stage that uses the answer. -/
theorem answered_rounds :
    ∀ (before : Int) (steps : List QuintReplayStep), Answered (rounds before steps)
  | _, [] => trivial
  | before, step :: steps =>
    ⟨⟨_, _, _, _, rfl⟩, ⟨_, _, _, _, rfl⟩, answered_rounds step.index steps⟩

/-- And so in the whole script. -/
theorem answered_script : Answered (script trace) :=
  ⟨⟨_, rfl⟩, ⟨_, _, _, _, rfl⟩, answered_rounds 0 trace.steps⟩

/-- The rest of a script keeps the property. -/
theorem Answered.suffix {stages stages' : List Stage} (h : Answered (stages ++ stages')) :
    Answered stages' := by
  induction stages with
  | nil => exact h
  | cons stage stages ih =>
    refine ih ?_
    cases stage <;> first | exact h | exact h.2

/-- The part of the script before the application of a step: complete rounds, and a checkpoint. -/
theorem rounds_split {before : Int} {step : QuintReplayStep} {steps : List QuintReplayStep}
    {stages stages' : List Stage} (h : rounds before steps = stages ++ .applyCall step :: stages') :
    ∃ done rest index, steps = done ++ step :: rest ∧
      stages = rounds before done ++ [.checkpoint "observe" index] := by
  induction steps generalizing before stages with
  | nil => exact absurd h (by simp [rounds])
  | cons head steps ih =>
    rw [rounds] at h
    rcases List.append_eq_append_iff.mp h with ⟨more, rfl, hmore⟩ | ⟨more, hhead, hmore⟩
    · -- the step is in a later round
      obtain ⟨done, rest, index, rfl, rfl⟩ := ih hmore
      exact ⟨head :: done, rest, index, rfl, by simp only [rounds, List.append_assoc]⟩
    · cases more with
      | nil =>
        -- a round does not begin with the application itself
        cases steps with
        | nil => exact absurd hmore (by simp [rounds])
        | cons _ _ => exact absurd (List.cons.inj hmore).1 (by simp)
      | cons stage more =>
        -- in the first round, only the second stage applies a step
        obtain ⟨rfl, -⟩ := List.cons.inj hmore
        simp only [applying, List.cons_append, List.nil_append] at hhead
        rcases stages with _ | ⟨first, _ | ⟨second, stages⟩⟩
        · exact absurd (List.cons.inj hhead).1 (by simp)
        · obtain ⟨rfl, hhead'⟩ := List.cons.inj hhead
          obtain rfl := Stage.applyCall.inj (List.cons.inj hhead').1
          exact ⟨[], steps, before, rfl, rfl⟩
        · have hmem : Stage.applyCall step ∈ stages ++ .applyCall step :: more := by simp
          have htail := (List.cons.inj (List.cons.inj hhead).2).2
          rw [← List.append_eq, ← htail] at hmem
          exact absurd hmem (by simp [observing])

/-- The part of the script of a trace before the application of a step. -/
theorem script_split {step : QuintReplayStep} {stages stages' : List Stage}
    (h : script trace = stages ++ .applyCall step :: stages') :
    ∃ done rest index, trace.steps = done ++ step :: rest ∧
      stages = opening ++ (observing 0 none none trace.initial ++ rounds 0 done) ++
        [.checkpoint "observe" index] := by
  rw [script] at h
  have hopening : Stage.applyCall step ∉ opening ++ observing 0 none none trace.initial := by
    simp [opening, observing]
  rcases List.append_eq_append_iff.mp h with ⟨more, rfl, hmore⟩ | ⟨more, hhead, hmore⟩
  · obtain ⟨done, rest, index, hsteps, rfl⟩ := rounds_split hmore
    exact ⟨done, rest, index, hsteps, by simp only [List.append_assoc]⟩
  · cases more with
    | nil =>
      have hmore' : rounds 0 trace.steps = [] ++ .applyCall step :: stages' := hmore.symm
      obtain ⟨done, rest, index, hsteps, hnil⟩ := rounds_split hmore'
      exact absurd hnil (by simp)
    | cons stage more =>
      obtain ⟨rfl, -⟩ := List.cons.inj hmore
      rw [hhead] at hopening
      exact absurd (by simp) hopening

/-! ## Clean observations -/

/-- States that are encoded alike are both encoded. -/
theorem encodeAlike_eq_true {expected actual : QuintReplayState}
    (h : encodeAlike platform expected actual = true) :
    ∃ text, encodeState platform expected = .ok (.ok text) ∧
      encodeState platform actual = .ok (.ok text) := by
  rw [encodeAlike] at h
  split at h
  · rename_i a b ha hb
    obtain rfl : a = b := by simpa using h
    exact ⟨a, ha, hb⟩
  · exact absurd h (by simp)

/-- An observation in which nothing failed confirms the expected state. -/
theorem confirms_observing {history events : History ρ} {index : Int} {action : Option NString}
    {source : Option QuintReplaySourceBinding} {expected : QuintReplayState}
    (h : Follows (occurs platform cancellation driver trace) (fails platform)
      history (observing index action source expected) events)
    (hc : Clean (fails platform) events) :
    ∃ answer, events.filterMap Event.observeAnswer = [answer] ∧
      Confirms platform expected answer := by
  obtain ⟨_, _, rfl, rfl, -, h, hc⟩ := h.cons_of_clean hc
  obtain ⟨_, _, rfl, ⟨value, -, rfl⟩, hcall, h, hc⟩ := h.cons_of_clean hc
  obtain ⟨_, _, rfl, rfl, -, h, hc⟩ := h.cons_of_clean hc
  obtain ⟨_, _, rfl, ⟨result, -, rfl⟩, -, h, hc⟩ := h.cons_of_clean hc
  obtain ⟨_, _, rfl, ⟨actual, hactual, rfl⟩, hcompared, h, hc⟩ := h.cons_of_clean hc
  cases h
  rw [latest_append_singleton, latest_append_singleton, latest_append_singleton] at hactual
  obtain ⟨text, hexpected, hencoded⟩ := encodeAlike_eq_true (by simpa using hcompared)
  exact ⟨_, rfl, actual, text, Option.some.inj hactual, hexpected, hencoded⟩

/-- Only the call of Observe is answered with a state. -/
theorem observeAnswer_eq_none {stage : Stage} {history : History ρ} {e : Event ρ}
    (ho : occurs platform cancellation driver trace stage history e)
    (hstage : ∀ index, stage ≠ .observeCall index) : e.observeAnswer = none := by
  have hcall := call_of_occurs _ _ _ ho
  rcases e with ⟨phase, index, what⟩
  cases what with
  | observeCalled =>
    cases stage with
    | observeCall index => exact absurd rfl (hstage index)
    | _ => exact absurd hcall (by simp [Event.call, stageCall])
  | _ => rfl

/-- Where no stage observes, nothing is observed. -/
theorem observeAnswer_eq_nil {history events : History ρ} {stages : List Stage}
    (h : Follows (occurs platform cancellation driver trace) (fails platform) history stages events)
    (hstages : ∀ stage ∈ stages, ∀ index, stage ≠ .observeCall index) :
    events.filterMap Event.observeAnswer = [] := by
  rw [List.filterMap_eq_nil_iff]
  intro e he
  obtain ⟨stage, hs, past, ho⟩ := h.exists_step e he
  exact observeAnswer_eq_none ho (hstages stage hs)

/-- Complete rounds confirm the expected states of their steps. -/
theorem confirms_rounds :
    ∀ {steps : List QuintReplayStep} {history events : History ρ} {before : Int},
    Follows (occurs platform cancellation driver trace) (fails platform)
      history (rounds before steps) events →
      Clean (fails platform) events →
      List.Forall₂ (Confirms platform) (steps.map QuintReplayStep.expected)
        (events.filterMap Event.observeAnswer)
  | [], _, _, _, h, _ => by
    cases h
    exact .nil
  | step :: steps, history, events, before, h, hc => by
    rw [rounds, List.append_assoc] at h
    obtain ⟨first, _, rfl, hfirst, hcfirst, h, hc⟩ := h.append_of_clean hc
    obtain ⟨second, rest, rfl, hsecond, hcsecond, h, hc⟩ := h.append_of_clean hc
    obtain ⟨answer, hanswer, hconfirms⟩ := confirms_observing hsecond hcsecond
    have hrest := confirms_rounds h hc
    have happlying := observeAnswer_eq_nil hfirst (by simp [applying])
    rw [List.filterMap_append, List.filterMap_append, happlying, hanswer]
    exact .cons hconfirms hrest

/-! ## Refused calls -/

/-- The result that is due is an error. -/
def Refused : Stage → History ρ → Prop
  | .initializeResult, history => ∃ message, latest Event.initializeAnswer history = some (.ok (.error message))
  | .applyResult _, history => ∃ message, latest Event.applyAnswer history = some (.ok (.error message))
  | .observeResult _, history => ∃ message, latest Event.observeAnswer history = some (.ok (.error message))
  | _, _ => False

/-- The stage after a refused answer fails. -/
theorem Refused.fails {stage : Stage} {history : History ρ} {e : Event ρ}
    (h : Refused stage history) (ho : occurs platform cancellation driver trace stage history e) :
    fails platform e = true := by
  cases stage with
  | initializeResult | applyResult | observeResult =>
    obtain ⟨message, hmessage⟩ := h
    obtain ⟨result, hresult, rfl⟩ := ho
    rw [hmessage] at hresult
    obtain rfl : .error message = result := Except.ok.inj (Option.some.inj hresult)
    rfl
  | _ => exact h.elim

/-- A checkpoint does not change which result is due. -/
theorem Refused.checked {stage : Stage} {history : History ρ} (h : Refused stage history)
    (phase : UString) (index : Int) (seen : Bool) :
    Refused stage (history ++ [⟨phase, index, .checked seen⟩]) := by
  cases stage with
  | initializeResult | applyResult | observeResult =>
    obtain ⟨message, hmessage⟩ := h
    exact ⟨message, by rw [latest_append_singleton, hmessage]; rfl⟩
  | _ => exact h.elim

/-- And calls nothing. -/
theorem Refused.stageCall {stage : Stage} {history : History ρ} (h : Refused stage history) :
    stageCall trace stage = none := by
  cases stage <;> first | rfl | exact h.elim

/-- No callback is called when the result that is due is an error. -/
theorem calls_of_refused {history future : History ρ} {stage : Stage} {stages : List Stage}
    (h : Follows (occurs platform cancellation driver trace) (fails platform)
      history (stage :: stages) future)
    (hr : Refused stage history) : future.filterMap Event.call = [] := by
  obtain ⟨last, rfl, ho⟩ := h.last fun _ => hr.fails
  rw [List.filterMap_cons_none, List.filterMap_nil]
  rw [call_of_occurs _ _ _ ho, hr.stageCall]

/-- No callback is called after a refused answer, also when a checkpoint comes first. -/
theorem calls_of_refused_checkpoint {history future : History ρ} {phase : UString} {index : Int}
    {stage : Stage} {stages : List Stage}
    (h : Follows (occurs platform cancellation driver trace) (fails platform)
      history (.checkpoint phase index :: stage :: stages) future)
    (hr : Refused stage history) : future.filterMap Event.call = [] := by
  cases h with
  | stop ho _ =>
    obtain rfl := ho
    rfl
  | advance ho _ htail =>
    obtain rfl := ho
    rw [List.filterMap_cons_none rfl]
    exact calls_of_refused htail (hr.checked _ _ _)

/-! ## The fields of the protocol -/

section Protocol

variable {events : History ρ}
  (h : Follows (occurs platform cancellation driver trace) (fails platform) [] (script trace) events)

include h

/-- **The calls are a prefix of the protocol.** -/
theorem calls_isPrefix : events.filterMap Event.call <+: protocol trace := by
  have := h.filterMap_isPrefix call_of_occurs
  rwa [filterMap_stageCall_script] at this

/-- **The steps that are applied are a prefix of the trace.** -/
theorem appliedSteps_isPrefix : events.filterMap Event.appliedStep <+: trace.steps := by
  have := (calls_isPrefix h).filterMap Call.step
  rwa [← filterMap_appliedStep, filterMap_step_protocol] at this

/-- A trace that validation rejects is not replayed. -/
theorem rejected_events (hv : validateTrace platform trace ≠ .ok []) :
    ∃ found, validateTrace platform trace = .ok found ∧
      events = [⟨"validate", 0, .validated found⟩] := by
  cases h with
  | stop ho _ =>
    obtain ⟨found, hfound, rfl⟩ := ho
    exact ⟨found, hfound, rfl⟩
  | advance ho hf _ =>
    obtain ⟨found, hfound, rfl⟩ := ho
    have hnil : found = [] := by simpa [fails] using hf
    exact absurd (hnil ▸ hfound) hv

/-- **No step is applied twice.** -/
theorem once_applied : ((events.filterMap Event.appliedStep).map QuintReplayStep.index).Nodup := by
  by_cases hv : validateTrace platform trace = .ok []
  · have hvalid := (validateTrace_eq_nil_iff platform).mp hv
    have hindices : trace.steps.map QuintReplayStep.index =
        (List.range trace.steps.length).map fun i : Nat => (i : Int) + 1 := by
      refine List.ext_getElem (by simp) fun i hi _ => ?_
      rw [List.getElem_map, List.getElem_map, List.getElem_range]
      exact (hvalid.steps i (by simpa using hi)).index
    have hnodup : (trace.steps.map QuintReplayStep.index).Nodup := by
      rw [hindices]
      refine List.Nodup.map (fun i j hij => ?_) List.nodup_range
      have : (i : Int) + 1 = (j : Int) + 1 := hij
      omega
    exact ((appliedSteps_isPrefix h).map _).sublist.nodup hnodup
  · obtain ⟨found, -, rfl⟩ := rejected_events h hv
    exact List.nodup_nil

/-- A step is applied after complete rounds, in which every observation has been confirmed. -/
theorem gated_applied {past future : History ρ} {e : Event ρ} {step : QuintReplayStep}
    (hsplit : events = past ++ e :: future) (hstep : e.appliedStep = some step) :
    ∃ k, trace.steps[k]? = some step ∧ past.filterMap Event.appliedStep = trace.steps.take k ∧
      List.Forall₂ (Confirms platform) ((expectedStates trace).take (k + 1))
        (past.filterMap Event.observeAnswer) := by
  subst hsplit
  obtain ⟨stages, stage, stages', hscript, hpast, hclean, ho, -⟩ := h.split_at
  have hstage : stage = .applyCall step := by
    refine @stageCall_eq_apply trace stage step ?_
    rw [← call_of_occurs _ _ _ ho]
    rw [appliedStep_eq, Option.bind_eq_some_iff] at hstep
    obtain ⟨call, hcall, hstep⟩ := hstep
    cases call <;> simp_all [Call.step]
  subst hstage
  -- what is before the stage of the step are complete rounds, all of them clean
  obtain ⟨done, rest, index, hsteps, rfl⟩ := script_split hscript
  have hdone : past.filterMap Event.appliedStep = done := by
    have hcalls := hpast.filterMap_of_clean hclean call_of_occurs
    have hprotocol : (opening ++ (observing 0 none none trace.initial ++ rounds 0 done) ++
        [Stage.checkpoint "observe" index]).filterMap (stageCall trace) =
        protocol { trace with steps := done } := by
      rw [List.filterMap_append, List.filterMap_append, List.filterMap_append,
        filterMap_stageCall_rounds]
      exact List.append_nil _
    rw [filterMap_appliedStep, hcalls, hprotocol, filterMap_step_protocol]
  have hexpected : (expectedStates trace).take (done.length + 1) =
      trace.initial :: done.map QuintReplayStep.expected := by simp [expectedStates, hsteps]
  refine ⟨done.length, by simp [hsteps], by simp [hdone, hsteps], ?_⟩
  -- the answers to `observe` come from the first observation and from the rounds
  obtain ⟨complete, _, rfl, hpast, hclean, hfinal, -⟩ := hpast.append_of_clean hclean
  obtain ⟨first, _, rfl, hfirst, -, hpast, hclean⟩ := hpast.append_of_clean hclean
  obtain ⟨second, third, rfl, hsecond, hcsecond, hthird, hcthird⟩ := hpast.append_of_clean hclean
  obtain ⟨answer, hanswer, hconfirms⟩ := confirms_observing hsecond hcsecond
  have hopening := observeAnswer_eq_nil hfirst (by simp [opening])
  have hcheckpoint := observeAnswer_eq_nil hfinal (by simp)
  rw [hexpected, List.filterMap_append, List.filterMap_append, List.filterMap_append, hopening,
    hanswer, hcheckpoint, List.append_nil]
  exact .cons hconfirms (confirms_rounds hthird hcthird)

/-- No callback is called after one that answered with an error: only its result comes, which fails,
    or a checkpoint that sees a cancellation. -/
theorem stopped_calls {past future : History ρ} {e : Event ρ}
    (hsplit : events = past ++ e :: future) (hstop : fails platform e = true ∨ answersError e) :
    future.filterMap Event.call = [] := by
  subst hsplit
  obtain ⟨stages, stage, stages', hscript, -, -, ho, ⟨-, rfl⟩ | ⟨hf, h⟩⟩ := h.split_at
  · rfl
  rcases hstop with hfail | herror
  · rw [hf] at hfail
    exact absurd hfail (by decide)
  have hanswered : Answered (stage :: stages') := Answered.suffix (hscript ▸ answered_script)
  -- a stage that calls nothing has no answer
  have hnothing : stageCall trace stage = none → ¬ answersError e := by
    intro hnone
    rw [← call_of_occurs _ _ _ ho] at hnone
    rcases e with ⟨phase, index, what⟩
    cases what <;>
      simp_all [Event.call, answersError, Event.initializeAnswer, Event.applyAnswer,
        Event.observeAnswer]
  cases stage with
  | initializeCall =>
    obtain ⟨⟨rest, rfl⟩, -⟩ := hanswered
    obtain rfl := ho
    refine calls_of_refused h ?_
    simpa [answersError, Refused, latest_append_singleton, Event.initializeAnswer,
      Event.applyAnswer, Event.observeAnswer] using herror
  | applyCall step =>
    obtain ⟨⟨phase, before, index, rest, rfl⟩, -⟩ := hanswered
    obtain ⟨value, -, rfl⟩ := ho
    refine calls_of_refused_checkpoint h ?_
    simpa [answersError, Refused, latest_append_singleton, Event.initializeAnswer,
      Event.applyAnswer, Event.observeAnswer] using herror
  | observeCall index =>
    obtain ⟨⟨phase, before, index', rest, rfl⟩, -⟩ := hanswered
    obtain ⟨value, -, rfl⟩ := ho
    refine calls_of_refused_checkpoint h ?_
    simpa [answersError, Refused, latest_append_singleton, Event.initializeAnswer,
      Event.applyAnswer, Event.observeAnswer] using herror
  | _ => exact absurd herror (hnothing rfl)

/-- Initialization is called at most once. -/
theorem length_initializeAnswer : (events.filterMap Event.initializeAnswer).length ≤ 1 := by
  have hview : ∀ e : Event ρ, (e.initializeAnswer).isSome = (e.call.bind Call.state).isSome := by
    rintro ⟨phase, index, what⟩
    cases what <;> rfl
  have hprefix := ((calls_isPrefix h).filterMap Call.state).length_le
  rw [List.filterMap_filterMap, List.length_filterMap_eq_countP] at hprefix
  rw [List.length_filterMap_eq_countP, List.countP_congr fun e _ => by rw [hview e]]
  refine hprefix.trans ?_
  have hnone : ∀ steps : List QuintReplayStep,
      (steps.flatMap fun step => [Call.apply step, Call.observe]).filterMap Call.state = [] := by
    intro steps
    rw [List.filterMap_flatMap]
    simp [Call.state]
  show (trace.initial :: (trace.steps.flatMap fun step => [Call.apply step, Call.observe]).filterMap
    Call.state).length ≤ 1
  rw [hnone]
  exact le_refl 1

/-- There is a runtime exactly when `initializeRuntime` answered with it. -/
theorem runtimeIn_eq_some_iff {value : ρ} :
    runtimeIn events = some value ↔ ∃ e ∈ events, e.initializeAnswer = some (.ok (.ok value)) := by
  have hlength := length_initializeAnswer h
  rw [← List.mem_filterMap, runtimeIn, latest]
  cases hanswers : events.filterMap Event.initializeAnswer with
  | nil => simp
  | cons answer answers =>
    rw [hanswers] at hlength
    obtain rfl : answers = [] := by
      cases answers with
      | nil => rfl
      | cons _ _ => exact absurd hlength (by simp)
    rw [List.mem_singleton, List.getLast?_singleton]
    rcases answer with _ | _ | _ <;> simp [eq_comm]

end Protocol

/-! ## The cleanup -/

/-- What the cleanup adds to the record. -/
def cleaning (driver : ReplayDriver ρ) (cells : Cells ρ) : History ρ :=
  match cells.runtime with
  | none => []
  | some value => [⟨cells.phase, cells.index, .cleanupCalled value .none (driver.cleanup cells.log value .none)⟩]

/-- The cleanup adds to the record and to its own part of the report, and to nothing else. -/
theorem cleanup_spec (driver : ReplayDriver ρ) (cells : Cells ρ) :
    (cleanup driver cells).log = cells.log ++ cleaning driver cells ∧
    (cleanup driver cells).outcome = cells.outcome ∧
    (cleanup driver cells).applied = cells.applied ∧
    (cells.cleanupFailure = none → (cleanup driver cells).cleanupFailure =
      cells.runtime.bind fun value => cleanupMessage (driver.cleanup cells.log value .none)) := by
  rw [cleanup, cleaning]
  cases cells.runtime with
  | none => exact ⟨(List.append_nil _).symm, rfl, rfl, id⟩
  | some value =>
    simp only [Option.bind_some]
    rcases driver.cleanup cells.log value .none with e | message | done
    · exact ⟨rfl, rfl, rfl, fun _ => rfl⟩
    · exact ⟨rfl, rfl, rfl, fun _ => rfl⟩
    · exact ⟨rfl, rfl, rfl, id⟩

/-- The steps do not look at the cleanup callback. -/
theorem applySteps_cleanup (cleanup' : History ρ → ρ → CancellationToken → Answer Unit)
    (value : ρ) :
    ∀ steps : List QuintReplayStep,
      applySteps platform cancellation { driver with cleanup := cleanup' } value steps =
        applySteps platform cancellation driver value steps
  | [] => rfl
  | step :: steps => by
    rw [applySteps, applySteps, applySteps_cleanup cleanup' value steps]
    rfl

/-- The body does not depend on the cleanup. -/
theorem guarded_cleanup (cleanup' : History ρ → ρ → CancellationToken → Answer Unit) :
    guarded platform cancellation { driver with cleanup := cleanup' } trace =
      guarded platform cancellation driver trace := by
  rw [guarded, guarded, body, body]
  simp only [applySteps_cleanup]
  rfl

/-- What a run reports under an admissible timeout. -/
theorem run_admissible {timeout : Int} (h : Admissible timeout) :
    run platform cancellation driver timeout trace =
      .ok ⟨(final platform cancellation driver trace).outcome,
        (final platform cancellation driver trace).cleanupFailure,
        (final platform cancellation driver trace).applied⟩ := by
  rw [run, if_pos h]

/-- A rejected trace has one event, so there is no runtime to clean up either. -/
theorem calls_of_rejected (hv : validateTrace platform trace ≠ .ok []) :
    ((guarded platform cancellation driver trace).log ++
      cleaning driver (guarded platform cancellation driver trace)).filterMap Event.call = [] := by
  obtain ⟨hfollows, htied, -⟩ := @guarded_follows ρ platform cancellation driver trace
  obtain ⟨found, -, hevents⟩ := rejected_events hfollows hv
  have hnone : (guarded platform cancellation driver trace).runtime = none := by
    rw [Option.eq_none_iff_forall_ne_some]
    intro value hvalue
    rw [htied.runtime] at hvalue
    obtain ⟨e, he, hanswer⟩ := (runtimeIn_eq_some_iff hfollows).mp hvalue
    rw [hevents, List.mem_singleton] at he
    rw [he] at hanswer
    exact absurd hanswer (by simp [Event.initializeAnswer])
  rw [cleaning, hnone, hevents]
  rfl

/-- **A run obeys the protocol between it and its driver**, whatever the driver answers and whenever
    cancellation is requested; and what the cleanup does changes neither the outcome nor the count of
    the steps applied. -/
theorem run_protocol (platform : Platform) (cancellation : Cancellation ρ) (driver : ReplayDriver ρ)
    (timeout : Int) (h : Admissible timeout) (trace : QuintReplayTrace) :
    ∃ report events cleaning, run platform cancellation driver timeout trace = .ok report ∧
      (final platform cancellation driver trace).log = events ++ cleaning ∧
      ObeysProtocol platform driver trace report events cleaning ∧
      ∀ cleanup', ∃ report',
        run platform cancellation { driver with cleanup := cleanup' } timeout trace = .ok report' ∧
          report'.outcome = report.outcome ∧ report'.appliedSteps = report.appliedSteps := by
  obtain ⟨hfollows, htied, -⟩ :=
    @guarded_follows ρ platform cancellation driver trace
  obtain ⟨hlog, houtcome, happlied, hfailure⟩ :=
    cleanup_spec driver (guarded platform cancellation driver trace)
  refine ⟨_, _, _, run_admissible h, hlog, ?_, fun cleanup' => ?_⟩
  · have hruntime : ∀ value, (guarded platform cancellation driver trace).runtime = some value ↔
        ∃ e ∈ (guarded platform cancellation driver trace).log,
          e.initializeAnswer = some (.ok (.ok value)) := by
      intro value
      rw [htied.runtime]
      exact runtimeIn_eq_some_iff hfollows
    exact
      { rejected := calls_of_rejected
        calls := calls_isPrefix hfollows
        gated := fun past e future step => gated_applied hfollows
        once := once_applied hfollows
        stopped := fun past e future => stopped_calls hfollows
        cleanup := by
          have hreport := hfailure htied.cleanupFailure
          cases hvalue : (guarded platform cancellation driver trace).runtime with
          | none =>
            rw [hvalue] at hreport
            refine .inr ⟨?_, by rw [cleaning, hvalue], hreport⟩
            rintro ⟨value, hmem⟩
            rw [← hruntime, hvalue] at hmem
            exact absurd hmem (by simp)
          | some value =>
            rw [hvalue] at hreport
            exact .inl ⟨value, _, _, (hruntime value).mp hvalue, by rw [cleaning, hvalue], hreport⟩
        applied := by
          show (final platform cancellation driver trace).applied = _
          rw [final, happlied, htied.applied] }
  -- up to the cleanup the two runs are one
  · obtain ⟨-, houtcome', happlied', -⟩ :=
      cleanup_spec { driver with cleanup := cleanup' }
        (guarded platform cancellation { driver with cleanup := cleanup' } trace)
    refine ⟨_, run_admissible h, ?_, ?_⟩
    · show (final _ _ _ _).outcome = (final _ _ _ _).outcome
      rw [final, final, houtcome, houtcome', guarded_cleanup]
    · show (final _ _ _ _).applied = (final _ _ _ _).applied
      rw [final, final, happlied, happlied', guarded_cleanup]

/-- A driver whose observation after `k` applied steps is `observed k`. -/
def steadyDriver (observed : Nat → QuintReplayState) : ReplayDriver Unit where
  initializeRuntime := fun _ _ _ => .ok (.ok ())
  apply := fun _ _ _ _ => .ok (.ok ())
  observe := fun history _ _ => .ok (.ok (observed (history.filterMap Event.appliedStep).length))
  cleanup := fun _ _ _ => .ok (.ok ())

/-- Nothing is ever cancelled. -/
def neverCancelled : Cancellation Unit := ⟨fun _ => false, fun _ => false, fun _ => false⟩

/-- An implementation that stays where it is. -/
def sampleObserved : Nat → QuintReplayState := fun _ => sampleState (.boolean true)

/-- A run of one step against that implementation. -/
theorem run_protocol_sample :
    ∃ report events cleaning,
      run samplePlatform neverCancelled (steadyDriver sampleObserved) 10000 (sampleTrace (.boolean true)) =
        .ok report ∧
      (final samplePlatform neverCancelled (steadyDriver sampleObserved) (sampleTrace (.boolean true))).log =
        events ++ cleaning ∧
      ObeysProtocol samplePlatform (steadyDriver sampleObserved) (sampleTrace (.boolean true)) report events
        cleaning ∧
      ∀ cleanup', ∃ report',
        run samplePlatform neverCancelled { steadyDriver sampleObserved with cleanup := cleanup' } 10000
            (sampleTrace (.boolean true)) = .ok report' ∧
          report'.outcome = report.outcome ∧ report'.appliedSteps = report.appliedSteps :=
  run_protocol samplePlatform neverCancelled (steadyDriver sampleObserved) 10000 (by decide)
    (sampleTrace (.boolean true))

/-! ## The report -/

/-- The record of the cleanup holds calls of the cleanup callback only. -/
theorem cleanup_of_mem_cleaning {cells : Cells ρ} {e : Event ρ} (he : e ∈ cleaning driver cells) :
    e.call = some .cleanup := by
  rw [cleaning] at he
  split at he
  · exact absurd he List.not_mem_nil
  · rw [List.mem_singleton.mp he]
    rfl

/-- Nothing failed exactly when the verdict is equivalence. -/
theorem verdict_eq_equivalent_iff {events : History ρ} :
    verdict platform cancellation events = .equivalent ↔ Clean (fails platform) events := by
  constructor
  · intro h e he
    rw [verdict] at h
    split at h
    · rename_i failure hfailure
      have hf := @isEquivalent_decides ρ platform cancellation events failure
        (List.find?_some hfailure)
      rw [h] at hf
      exact absurd hf (by decide)
    · rename_i hnone
      simpa using List.find?_eq_none.mp hnone e he
  · intro h
    rw [verdict, find?_of_clean h]

/-- Only validation decides that a trace is invalid. -/
theorem decides_eq_invalidTrace {history : History ρ} {e : Event ρ}
    {found : List QuintReplayDiagnostic}
    (h : decides platform cancellation history e = .invalidTrace found) :
    e.what = .validated found := by
  have hdecision : Decision platform e (decides platform cancellation history e) :=
    decides_cases history e
  rw [h] at hdecision
  cases hdecision with
  | invalidTrace hwhat => exact hwhat

/-- The record of a validation holds the findings about the trace. -/
theorem validated_of_occurs {stage : Stage} {history : History ρ} {e : Event ρ}
    {found : List QuintReplayDiagnostic}
    (ho : occurs platform cancellation driver trace stage history e)
    (hwhat : e.what = .validated found) : validateTrace platform trace = .ok found := by
  cases stage with
  | validation =>
    obtain ⟨found', hfound, rfl⟩ := ho
    rw [hfound, Happening.validated.inj hwhat]
  | checkpoint | initializeCall =>
    obtain rfl := ho
    exact nomatch hwhat
  | _ =>
    obtain ⟨_, -, rfl⟩ := ho
    exact nomatch hwhat

/-- **The verdict is that the trace is invalid exactly when validation found something.** -/
theorem verdict_eq_invalidTrace_iff {events : History ρ}
    (h : Follows (occurs platform cancellation driver trace) (fails platform)
      [] (script trace) events)
    {found : List QuintReplayDiagnostic} :
    verdict platform cancellation events = .invalidTrace found ↔
      validateTrace platform trace = .ok found ∧ found ≠ [] := by
  constructor
  · intro hv
    rw [verdict] at hv
    split at hv
    · rename_i e he
      have hwhat := decides_eq_invalidTrace hv
      -- the failure that decides is an event of some stage, which can only be validation
      obtain ⟨stage, -, past, ho⟩ := h.exists_step e (List.mem_of_find?_eq_some he)
      have hfails := List.find?_some he
      rw [fails, hwhat] at hfails
      exact ⟨validated_of_occurs ho hwhat, by simpa using hfails⟩
    · cases hv
  · rintro ⟨hv, hne⟩
    have hrejected : validateTrace platform trace ≠ .ok [] := by
      rw [hv]
      exact fun heq => hne (Except.ok.inj heq)
    obtain ⟨found', hfound, rfl⟩ := rejected_events h hrejected
    obtain rfl : found' = found := Except.ok.inj (hfound.symm.trans hv)
    have hfails : fails platform (⟨"validate", 0, .validated found'⟩ : Event ρ) = true := by
      simpa [fails] using hne
    rw [verdict, List.find?_cons_of_pos hfails]
    rfl

/-- **A run reports the first thing that went wrong.**  Its events follow the script of the trace up
    to the first failure, the outcome is the verdict on them, it is equivalence exactly when the
    whole script has happened and nothing failed, and the trace is reported as invalid exactly when
    validation finds something. -/
theorem run_firstFailure (platform : Platform) (cancellation : Cancellation ρ) (driver : ReplayDriver ρ)
    (timeout : Int) (h : Admissible timeout) (trace : QuintReplayTrace) :
    ∃ report events cleaning, run platform cancellation driver timeout trace = .ok report ∧
      (final platform cancellation driver trace).log = events ++ cleaning ∧
      (∀ e ∈ cleaning, e.call = some .cleanup) ∧
      Follows (occurs platform cancellation driver trace) (fails platform) [] (script trace) events ∧
      report.outcome = verdict platform cancellation events ∧
      (report.outcome = .equivalent ↔
        events.length = (script trace).length ∧ Clean (fails platform) events) ∧
      ∀ found, report.outcome = .invalidTrace found ↔ validateTrace platform trace = .ok found ∧ found ≠ [] := by
  obtain ⟨hfollows, -, hverdict⟩ := @guarded_follows ρ platform cancellation driver trace
  obtain ⟨hlog, houtcome, -, -⟩ := cleanup_spec driver (guarded platform cancellation driver trace)
  have hreport : (final platform cancellation driver trace).outcome =
      verdict platform cancellation (guarded platform cancellation driver trace).log := by
    rw [final, houtcome, hverdict]
  refine ⟨_, _, _, run_admissible h, hlog, fun e => cleanup_of_mem_cleaning, hfollows, hreport, ?_,
    fun found => ?_⟩
  · rw [hreport, verdict_eq_equivalent_iff]
    exact ⟨fun hc => ⟨hfollows.length_of_clean hc, hc⟩, fun hc => hc.2⟩
  · rw [hreport, verdict_eq_invalidTrace_iff hfollows]

/-- In a run without a failure the verdict is that of the script. -/
theorem run_firstFailure_sample :
    ∃ report events cleaning,
      run samplePlatform neverCancelled (steadyDriver sampleObserved) 10000 (sampleTrace (.boolean true)) =
        .ok report ∧
      (final samplePlatform neverCancelled (steadyDriver sampleObserved) (sampleTrace (.boolean true))).log =
        events ++ cleaning ∧
      (∀ e ∈ cleaning, e.call = some .cleanup) ∧
      Follows (occurs samplePlatform neverCancelled (steadyDriver sampleObserved) (sampleTrace (.boolean true)))
        (fails samplePlatform) [] (script (sampleTrace (.boolean true))) events ∧
      report.outcome = verdict samplePlatform neverCancelled events ∧
      (report.outcome = .equivalent ↔ events.length = (script (sampleTrace (.boolean true))).length ∧
        Clean (fails samplePlatform) events) ∧
      ∀ found, report.outcome = .invalidTrace found ↔
        validateTrace samplePlatform (sampleTrace (.boolean true)) = .ok found ∧ found ≠ [] :=
  run_firstFailure samplePlatform neverCancelled (steadyDriver sampleObserved) 10000 (by decide)
    (sampleTrace (.boolean true))

end FsQuint.Replay
