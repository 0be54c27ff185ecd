/-
  The examples' replay of a pure domain.

  1. **The helper** (`PureReplay.run`): it checks that the inputs are bound to the steps, keeps the
     domain's state in a mutable reference, and hands everything to a live replay.
  2. **The fold** (`PureReplay.fold`): the same replay without a driver, a reference or a record, as a
     recursion over the steps and their inputs.
  3. **They agree** (`run_fold`), for any domain, whatever its callbacks answer or throw, as long as the
     deadline does not pass.

  The state of the domain is behind a reference, and what the reference holds at any moment is a
  function of what has happened (`held`): the inputs of the steps that were applied, folded over the
  initial state.  The proof carries this through the body of the replay, one step after another
  (`Reached`).  The fold knows no time: it is the replay of a domain that keeps up with the deadline.
-/
import FsQuint.ReplayContract
import FsQuint.Lib.QuintList

namespace FsQuint

open Utf16 QuintReplay ReplayInternal Replay

namespace PureReplay

variable {σ ι : Type}

/-- The input of a step, with the index and the operation that it is bound to. -/
structure BoundInput (ι : Type) where
  index : Int
  operationId : NString
  input : ι

/-- The callbacks that a domain passes to the helper. -/
structure Domain (σ ι : Type) where
  construct : Unit → Answer σ
  reduce : σ → ι → Answer σ
  observe : σ → Answer QuintReplayState
  cleanup : σ → Answer Unit

/-! ## The helper -/

variable (domain : Domain σ ι)

/-- The input of a step. -/
def inputOf (inputs : List ι) (step : QuintReplayStep) : Outcome ι :=
  match QuintList.nth inputs (step.index - 1) with
  | some input => .ok input
  | none => .error ⟨.other, "Index was outside the bounds of the array."⟩

/-- What the domain makes of a step. -/
def reduced (inputs : List ι) (current : σ) (step : QuintReplayStep) : Answer σ :=
  match inputOf inputs step with
  | .error e => .error e
  | .ok input => domain.reduce current input

/-- What the reference holds after a step was applied. -/
def assign (inputs : List ι) (current : σ) (step : QuintReplayStep) : σ :=
  match reduced domain inputs current step with
  | .ok (.ok next) => next
  | _ => current

/-- What the reference holds, that held `initial` at first. -/
def held (inputs : List ι) (initial : σ) (history : History σ) : σ :=
  (history.filterMap Event.appliedStep).foldl (assign domain inputs) initial

/-- The driver of the helper.  Its runtime is a mutable reference: a value of type `σ` stands for the
    reference that was created with it. -/
def driver (inputs : List ι) : ReplayDriver σ where
  initializeRuntime _ _ _ := domain.construct ()
  apply history step initial _ :=
    match reduced domain inputs (held domain inputs initial history) step with
    | .error e => .error e
    | .ok (.error error) => .ok (.error error)
    | .ok (.ok _) => .ok (.ok ())
  observe history initial _ := domain.observe (held domain inputs initial history)
  cleanup history initial _ := domain.cleanup (held domain inputs initial history)

/-- The input of an index is not bound to the step there. -/
def mismatched (index : Nat) (binding : BoundInput ι) (step : QuintReplayStep) : Bool :=
  binding.index ≠ index + 1 || step.index ≠ binding.index || step.action ≠ binding.operationId

/-- `CancellationToken.None`, with a deadline. -/
def underDeadline (deadline : History σ → Bool) : Cancellation σ :=
  { linked := deadline, caller := fun _ => false, deadline := deadline }

/-- **`PureReplay.run`**: the bindings are compared with the trace, and the trace is replayed with a
    driver over the domain. -/
def run (platform : Platform) (deadline : History σ → Bool) (bindings : List (BoundInput ι))
    (trace : QuintReplayTrace) : Outcome ReplayReport :=
  if bindings.length ≠ trace.steps.length then
    .error ⟨.argument, "Input count differs from trace (Parameter 'bindings')"⟩
  else if (bindings.zip trace.steps).zipIdx.any fun ((binding, step), index) => mismatched index binding step then
    .error ⟨.argument, "Input index or operation identity differs from trace (Parameter 'bindings')"⟩
  else
    let inputs := bindings.map BoundInput.input
    Replay.run platform (underDeadline deadline) (driver domain inputs) 50000000 trace

/-! ## The fold -/

/-- How a comparison of an observed state ends. -/
def judge (platform : Platform) (index : Int) (action : Option NString) (source : Option QuintReplaySourceBinding)
    (expected actual : QuintReplayState) : ReplayOutcome :=
  match encodeState platform actual with
  | .error e => .driverFailure "observe" index (some e.message)
  | .ok (.error diagnostics) =>
    .driverFailure "observe" index (some (lit "Invalid observed state: " ++ platform.formatDiagnostics diagnostics))
  | .ok (.ok text) =>
    if encodeState platform expected = .ok (.ok text) then .equivalent
    else match differingPath expected actual with
      | .ok path => .diverged index action source path expected actual
      | .error e => .driverFailure "observe" index (some e.message)

/-- How an observation ends. -/
def observed (platform : Platform) (index : Int) (action : Option NString)
    (source : Option QuintReplaySourceBinding) (expected : QuintReplayState) (current : σ) : ReplayOutcome :=
  match domain.observe current with
  | .error e => .driverFailure "observe" index (some e.message)
  | .ok (.error message) => .driverFailure "observe" index message
  | .ok (.ok actual) => judge platform index action source expected actual

/-- The outcome, the number of applied steps, and the state at the end. -/
def foldSteps (platform : Platform) (current : σ) (applied : Nat) :
    List (QuintReplayStep × ι) → ReplayOutcome × Nat × σ
  | [] => (.equivalent, applied, current)
  | (step, input) :: rest =>
    match domain.reduce current input with
    | .error e => (.driverFailure "apply" step.index (some e.message), applied + 1, current)
    | .ok (.error message) => (.driverFailure "apply" step.index message, applied + 1, current)
    | .ok (.ok next) =>
      let outcome := observed domain platform step.index (some step.action) (some step.source) step.expected next
      if outcome.isEquivalent then foldSteps platform next (applied + 1) rest else (outcome, applied + 1, next)

/-- **What a replay of pure callbacks amounts to**: a fold of the reducer over the trace, up to the
    first failure. -/
def fold (platform : Platform) (inputs : List ι) (trace : QuintReplayTrace) : ReplayReport :=
  match domain.construct () with
  | .error e => ⟨.driverFailure "initialize" 0 (some e.message), none, 0⟩
  | .ok (.error message) => ⟨.driverFailure "initialize" 0 message, none, 0⟩
  | .ok (.ok initial) =>
    let outcome := observed domain platform 0 none none trace.initial initial
    let (outcome, applied, last) :=
      if outcome.isEquivalent then foldSteps domain platform initial 0 (trace.steps.zip inputs)
      else (outcome, 0, initial)
    ⟨outcome, cleanupMessage (domain.cleanup last), applied⟩

/-! ## A domain that keeps up -/

/-- No callback fails, and every observation is as expected: from a state over steps to a state. -/
inductive Tracks (platform : Platform) : σ → List (QuintReplayStep × ι) → σ → Prop
  | nil {current : σ} : Tracks platform current [] current
  | cons {current next last : σ} {step : QuintReplayStep} {input : ι} {rest : List (QuintReplayStep × ι)}
    (reduced : domain.reduce current input = .ok (.ok next))
    (expected : observed domain platform step.index (some step.action) (some step.source) step.expected next =
      .equivalent)
    (after : Tracks platform next rest last) : Tracks platform current ((step, input) :: rest) last

/-- Steps with which the domain keeps up are passed over. -/
theorem Tracks.foldSteps {platform : Platform} {current last : σ} {front : List (QuintReplayStep × ι)}
    (h : Tracks domain platform current front last) (applied : Nat) (rest : List (QuintReplayStep × ι)) :
    foldSteps domain platform current applied (front ++ rest) =
      PureReplay.foldSteps domain platform last (applied + front.length) rest := by
  induction h generalizing applied with
  | nil => rfl
  | cons hreduced hexpected _ ih =>
    rw [List.cons_append, PureReplay.foldSteps, hreduced]
    simp only [hexpected]
    refine (ih (applied + 1)).trans ?_
    rw [List.length_cons, Nat.add_assoc, Nat.add_comm 1]

/-- A step whose observation is not as expected is the last. -/
theorem foldSteps_stop {platform : Platform} {current next : σ} {step : QuintReplayStep} {input : ι}
    {outcome : ReplayOutcome} (hreduced : domain.reduce current input = .ok (.ok next))
    (hobserved : observed domain platform step.index (some step.action) (some step.source) step.expected next = outcome)
    (houtcome : outcome.isEquivalent = false) (applied : Nat) (rest : List (QuintReplayStep × ι)) :
    foldSteps domain platform current applied ((step, input) :: rest) = (outcome, applied + 1, next) := by
  rw [foldSteps, hreduced]
  simp only [hobserved]
  rw [houtcome]
  exact if_neg Bool.false_ne_true

/-! ## They agree -/

section Agreement

variable {platform : Platform} {deadline : History σ → Bool} {inputs : List ι} {initial current : σ}
  {steps : List QuintReplayStep} {outcome : ReplayOutcome} {cells : Cells σ}
  {session : Session σ Unit}

/-- What a run has come to: the applied steps, the reference, and an outcome. -/
structure Reached (steps : List QuintReplayStep) (initial : σ) (outcome : ReplayOutcome) (cells : Cells σ) :
    Prop where
  runtime : cells.runtime = some initial
  applied : cells.applied = steps.length
  steps : cells.log.filterMap Event.appliedStep = steps
  outcome : cells.outcome = outcome
  cleanupFailure : cells.cleanupFailure = none

/-- The state that the driver holds is the fold over the steps that were applied. -/
theorem Reached.held (h : Reached steps initial outcome cells) (inputs : List ι) :
    held domain inputs initial cells.log = steps.foldl (assign domain inputs) initial := by
  rw [PureReplay.held, h.steps]

/-- Entering a phase leaves what was reached. -/
theorem Reached.enter (h : Reached steps initial outcome cells) (phase : UString) :
    Reached steps initial outcome (cells.enter phase) :=
  ⟨h.runtime, h.applied, h.steps, h.outcome, h.cleanupFailure⟩

/-- So does an event other than an application. -/
theorem Reached.note (h : Reached steps initial outcome cells) (what : Happening σ)
    (hwhat : Event.appliedStep (⟨cells.phase, cells.index, what⟩ : Event σ) = none) :
    Reached steps initial outcome (cells.note what) := by
  refine ⟨h.runtime, h.applied, ?_, h.outcome, h.cleanupFailure⟩
  rw [note_log, List.filterMap_append, h.steps, List.filterMap_cons, hwhat, List.filterMap_nil, List.append_nil]

/-- And so does the end. -/
theorem Reached.finish (h : Reached steps initial outcome cells) (outcome' : ReplayOutcome) :
    Reached steps initial outcome' (cells.finish outcome') :=
  ⟨h.runtime, h.applied, h.steps, rfl, h.cleanupFailure⟩

/-- **A step is applied once, at its place.** -/
theorem Reached.apply (h : Reached steps initial outcome cells) (step : QuintReplayStep) (answer : Answer Unit) :
    Reached (steps ++ [step]) initial outcome
      ((cells.advance step).note (.applyCalled step initial .linked answer)) := by
  refine ⟨h.runtime, ?_, ?_, h.outcome, h.cleanupFailure⟩
  · rw [List.length_append]
    exact congrArg (· + 1) h.applied
  · rw [note_log, List.filterMap_append]
    exact congrArg (· ++ [step]) h.steps

/-- A part of the body ends with an outcome, and has not thrown when that is `equivalent`. -/
def Ends (deadline : History σ → Bool) (session : Session σ Unit) (cells : Cells σ) (steps : List QuintReplayStep)
    (initial : σ) (outcome : ReplayOutcome) : Prop :=
  Reached steps initial outcome (settle (underDeadline deadline) (session cells)) ∧
    (outcome.isEquivalent = true → (session cells).1 = .ok ())

variable (hd : ∀ history, deadline history = false)

include hd in
/-- An exception ends a run as a failure of the driver. -/
theorem ends_throw {cells' : Cells σ} {e : Exn} (hsession : session cells = (.error e, cells'))
    (h : Reached steps initial .equivalent cells') :
    Ends deadline session cells steps initial (.driverFailure cells'.phase cells'.index (some e.message)) := by
  have hsettle : settle (underDeadline deadline) (session cells) = cells'.fail (some e.message) := by
    rw [hsession]
    simp only [settle, Replay.handle, underDeadline, hd, Bool.false_eq_true, and_false, if_false]
  exact ⟨hsettle ▸ h.finish _, fun h => absurd h Bool.false_ne_true⟩

/-- A session that goes through ends with what it has reached. -/
theorem ends_ok {cells' : Cells σ} (hsession : session cells = (.ok (), cells'))
    (h : Reached steps initial outcome cells') : Ends deadline session cells steps initial outcome := by
  refine ⟨?_, fun _ => by rw [hsession]⟩
  rw [hsession]
  exact h

/-- A comparison of valid states, when their texts are equal. -/
theorem judge_equivalent {index : Int} {action : Option NString} {source : Option QuintReplaySourceBinding}
    {expected actual : QuintReplayState} (he : ValidState platform expected) (ha : ValidState platform actual)
    (htext : stateText expected = stateText actual) :
    judge platform index action source expected actual = .equivalent := by
  rw [judge, (encodeState_eq_ok_iff platform).mpr ⟨ha, rfl⟩, (encodeState_eq_ok_iff platform).mpr ⟨he, rfl⟩, htext]
  exact if_pos rfl

/-- A comparison of valid states, when their texts differ. -/
theorem judge_diverged {index : Int} {action : Option NString} {source : Option QuintReplaySourceBinding}
    {expected actual : QuintReplayState} {path : UString} (he : ValidState platform expected)
    (ha : ValidState platform actual) (htext : stateText expected ≠ stateText actual)
    (hpath : differingPath expected actual = .ok path) :
    judge platform index action source expected actual = .diverged index action source path expected actual := by
  simp only [judge, (encodeState_eq_ok_iff platform).mpr ⟨ha, rfl⟩, (encodeState_eq_ok_iff platform).mpr ⟨he, rfl⟩,
    Except.ok.injEq, if_neg htext, hpath]

/-- A comparison ends as it is judged. -/
theorem ends_compareStates {index : Int} {action : Option NString} {source : Option QuintReplaySourceBinding}
    {expected actual : QuintReplayState} (he : ValidState platform expected)
    (h : Reached steps initial .equivalent cells) (hphase : cells.phase = lit "observe") (hindex : cells.index = index) :
    Ends deadline (compareStates platform expected action source actual) cells steps initial
      (judge platform index action source expected actual) := by
  have hnoted : Reached steps initial .equivalent (cells.note (.compared action source expected actual)) :=
    h.note _ rfl
  have heok := (encodeState_eq_ok_iff platform).mpr ⟨he, rfl⟩
  rcases encodeState_spec platform actual with ⟨ha, haok⟩ | ⟨-, found, -, haerr⟩
  · by_cases htext : stateText expected = stateText actual
    · rw [judge_equivalent he ha htext]
      refine ends_ok ?_ hnoted
      simp only [compareStates, note_bind, heok, haok, calculate_bind, if_pos htext]
      rfl
    · obtain ⟨path, hpath⟩ := differingPath_ok he ha
      rw [judge_diverged he ha htext hpath]
      refine ends_ok ?_ (hnoted.finish _)
      simp only [compareStates, note_bind, heok, haok, calculate_bind, if_neg htext, hpath, ← hindex]
      rfl
  · have hjudge : judge platform index action source expected actual = .driverFailure "observe" index
        (some (lit "Invalid observed state: " ++ platform.formatDiagnostics found)) := by
      simp only [judge, haerr]
    rw [hjudge]
    refine ends_ok ?_ (hnoted.finish _)
    simp only [compareStates, note_bind, heok, haerr, calculate_bind, ← hindex]
    rw [← hphase]
    rfl

/-- A statement that ends nothing. -/
theorem ends_silent {next : Session σ Unit} {cells' : Cells σ} (hrun : session cells = next cells')
    (h : Ends deadline next cells' steps initial outcome) : Ends deadline session cells steps initial outcome := by
  rw [Ends, hrun]
  exact h

include hd

/-- A checkpoint that the deadline lets pass. -/
theorem ends_checkpoint {k : Unit → Session σ Unit}
    (h : Ends deadline (k ()) (cells.note (.checked false)) steps initial outcome) :
    Ends deadline (throwIfCancellationRequested (underDeadline deadline) >>= k) cells steps initial outcome := by
  refine ends_silent ?_ h
  rw [checkpoint_bind]
  exact if_neg (by simp [underDeadline, hd])

/-- A call of a callback. -/
theorem ends_call {α : Type} {callback : History σ → Answer α} {what : Answer α → Happening σ}
    {k : Except NString α → Session σ Unit}
    (herror : ∀ e, callback cells.log = .error e →
      Reached steps initial .equivalent (cells.note (what (.error e))) ∧
        outcome = .driverFailure cells.phase cells.index (some e.message))
    (hok : ∀ result, callback cells.log = .ok result →
      Ends deadline (k result) (cells.note (what (.ok result))) steps initial outcome) :
    Ends deadline (call callback what >>= k) cells steps initial outcome := by
  cases hcall : callback cells.log with
  | error e =>
    obtain ⟨hreached, rfl⟩ := herror e hcall
    have hrun : (call callback what >>= k) cells = (.error e, cells.note (what (.error e))) := by
      rw [call_bind, hcall]
    have hends := ends_throw hd hrun hreached
    exact hends
  | ok result => exact ends_silent (by rw [call_bind, hcall]) (hok result hcall)

/-- An observation that agrees leads on, and one that does not ends the run where the fold ends. -/
theorem ends_observe {index : Int} {action : Option NString} {source : Option QuintReplaySourceBinding}
    {expected : QuintReplayState} (he : ValidState platform expected)
    (h : Reached steps initial .equivalent cells) (hindex : cells.index = index) :
    Ends deadline
      (Replay.observe platform (underDeadline deadline) (driver domain inputs) expected action source) cells steps
      initial (observed domain platform index action source expected (steps.foldl (assign domain inputs) initial)) := by
  rw [Replay.observe]
  refine ends_silent (modify_bind _ cells _) ?_
  refine ends_checkpoint hd ?_
  have h₁ : Reached steps initial .equivalent ((cells.enter "observe").note (.checked false)) :=
    (h.enter "observe").note _ rfl
  refine ends_silent (get_bind _ _) ?_
  simp only [note_runtime, enter_runtime, h.runtime]
  have hcall : (driver domain inputs).observe ((cells.enter "observe").note (.checked false)).log initial .linked =
      domain.observe (steps.foldl (assign domain inputs) initial) :=
    congrArg domain.observe (h₁.held domain inputs)
  refine ends_call hd (fun e hthrown => ⟨h₁.note _ rfl, ?_⟩) fun observation hanswer => ?_
  · rw [observed, ← hcall, hthrown, ← hindex]
    rfl
  · have h₂ := h₁.note (.observeCalled initial .linked (.ok observation)) rfl
    have h₃ := h₂.note (.checked false) rfl
    refine ends_checkpoint hd ?_
    refine ends_silent (note_bind _ _ _) ?_
    have h₄ := h₃.note (.observed observation) rfl
    rw [observed, ← hcall, hanswer]
    cases observation with
    | error message =>
      refine ends_ok ?_ (h₄.finish _)
      rw [← hindex]
      rfl
    | ok actual => exact ends_compareStates he h₄ rfl hindex

omit hd in
/-- Nothing is done after a part that leaves an outcome. -/
theorem ends_stop {next : Session σ Unit} (hfirst : Ends deadline session cells steps initial outcome)
    (hidle : ∀ cells' : Cells σ, cells'.outcome.isEquivalent = false → next cells' = (.ok (), cells'))
    (houtcome : outcome.isEquivalent = false) : Ends deadline (session >>= fun _ => next) cells steps initial outcome := by
  obtain ⟨hreached, -⟩ := hfirst
  rcases hrun : session cells with ⟨answer, cells'⟩
  rw [hrun] at hreached
  have hsame : (session >>= fun _ => next) cells = (answer, cells') := by
    rw [bind_run, hrun]
    cases answer with
    | error e => rfl
    | ok done => exact hidle cells' (hreached.outcome ▸ houtcome)
  refine ⟨?_, fun h => absurd (houtcome.symm.trans h) Bool.false_ne_true⟩
  rw [hsame]
  exact hreached

omit hd in
/-- A part that leaves no outcome is followed by the next. -/
theorem ends_go {next : Session σ Unit} {outcome' : ReplayOutcome} {P : List QuintReplayStep → Prop}
    (hfirst : Ends deadline session cells steps initial outcome) (houtcome : outcome.isEquivalent = true)
    (hsecond : ∀ cells' : Cells σ, Reached steps initial .equivalent cells' →
      ∃ steps', Ends deadline next cells' steps' initial outcome' ∧ P steps') :
    ∃ steps', Ends deadline (session >>= fun _ => next) cells steps' initial outcome' ∧ P steps' := by
  obtain ⟨hreached, hok⟩ := hfirst
  rcases hrun : session cells with ⟨answer, cells'⟩
  rw [hrun] at hreached hok
  obtain rfl : answer = .ok () := hok houtcome
  have hequivalent : outcome = .equivalent := by
    cases outcome <;> first | rfl | exact absurd houtcome Bool.false_ne_true
  obtain ⟨steps', hends, hsteps⟩ := hsecond cells' (hequivalent ▸ hreached)
  refine ⟨steps', ends_silent ?_ hends, hsteps⟩
  rw [bind_run, hrun]

omit hd in
/-- One step of the driver is one of the reducer. -/
theorem reduced_eq {step : QuintReplayStep} {input : ι} (hinput : inputOf inputs step = .ok input) (current : σ) :
    reduced domain inputs current step = domain.reduce current input := by
  rw [reduced, hinput]

/-- A step with its input. -/
theorem ends_applyStep {step : QuintReplayStep} {input : ι} (he : ValidState platform step.expected)
    (hinput : inputOf inputs step = .ok input) (h : Reached steps initial .equivalent cells)
    (hcurrent : steps.foldl (assign domain inputs) initial = current) :
    Ends deadline (applyStep platform (underDeadline deadline) (driver domain inputs) initial step) cells
      (steps ++ [step]) initial
      (match domain.reduce current input with
      | .error e => .driverFailure "apply" step.index (some e.message)
      | .ok (.error message) => .driverFailure "apply" step.index message
      | .ok (.ok next) =>
        observed domain platform step.index (some step.action) (some step.source) step.expected next) := by
  rw [applyStep]
  refine ends_checkpoint hd ?_
  refine ends_silent (modify_bind _ _ _) ?_
  have h₁ := h.note (.checked false) rfl
  have hheld : held domain inputs initial ((cells.note (.checked false)).advance step).log = current :=
    (h₁.held domain inputs).trans hcurrent
  have hcall : (driver domain inputs).apply ((cells.note (.checked false)).advance step).log step initial .linked =
      match domain.reduce current input with
      | .error e => .error e
      | .ok (.error error) => .ok (.error error)
      | .ok (.ok _) => .ok (.ok ()) := by
    simp only [driver, hheld, reduced_eq domain hinput]
  cases hreduce : domain.reduce current input with
  | error e =>
    rw [hreduce] at hcall
    refine ends_call hd (fun e' hthrown => ⟨h₁.apply step _, ?_⟩) fun result hanswer => ?_
    · obtain rfl := Except.error.inj (hcall.symm.trans hthrown)
      rfl
    · exact absurd (hcall.symm.trans hanswer) (by simp)
  | ok answer =>
    refine ends_call hd (fun e' hthrown => ?_) fun result hanswer => ?_
    · rw [hreduce] at hcall
      cases answer <;> exact absurd (hcall.symm.trans hthrown) (by simp)
    · refine ends_checkpoint hd ?_
      refine ends_silent (note_bind _ _ _) ?_
      have h₂ := ((h₁.apply step (.ok result)).note (.checked false) rfl).note (.applied result) rfl
      rw [hreduce] at hcall
      cases answer with
      | error message =>
        obtain rfl := Except.ok.inj (hcall.symm.trans hanswer)
        refine ends_ok ?_ (h₂.finish _)
        rfl
      | ok next =>
        obtain rfl := Except.ok.inj (hcall.symm.trans hanswer)
        have hnext : (steps ++ [step]).foldl (assign domain inputs) initial = next := by
          rw [List.foldl_append, List.foldl_cons, List.foldl_nil, hcurrent, assign, reduced_eq domain hinput, hreduce]
        exact hnext ▸ ends_observe domain hd he h₂ rfl

/-- The loop, by induction on the steps that are left. -/
theorem ends_applySteps : ∀ {rest : List (QuintReplayStep × ι)} {cells : Cells σ} {steps : List QuintReplayStep}
    {current : σ}, (∀ p ∈ rest, ValidState platform p.1.expected ∧ inputOf inputs p.1 = .ok p.2) →
      Reached steps initial .equivalent cells → steps.foldl (assign domain inputs) initial = current →
      ∃ steps', Ends deadline
          (applySteps platform (underDeadline deadline) (driver domain inputs) initial (rest.map Prod.fst)) cells steps'
          initial (foldSteps domain platform current steps.length rest).1 ∧
        steps'.length = (foldSteps domain platform current steps.length rest).2.1 ∧
        steps'.foldl (assign domain inputs) initial = (foldSteps domain platform current steps.length rest).2.2
  | [], cells, steps, current, _, h, hcurrent => ⟨steps, ends_ok rfl h, rfl, hcurrent⟩
  | (step, input) :: rest, cells, steps, current, hrest, h, hcurrent => by
    obtain ⟨he, hinput⟩ := hrest (step, input) List.mem_cons_self
    have hstep := ends_applyStep domain hd he hinput h hcurrent
    have hlast : (steps ++ [step]).foldl (assign domain inputs) initial = assign domain inputs current step := by
      rw [List.foldl_append, List.foldl_cons, List.foldl_nil, hcurrent]
    rw [assign, reduced_eq domain hinput] at hlast
    have hidle : ∀ cells' : Cells σ, cells'.outcome.isEquivalent = false →
        applySteps platform (underDeadline deadline) (driver domain inputs) initial (rest.map Prod.fst) cells' =
          (.ok (), cells') := fun cells' => applySteps_idle
    have hrun : applySteps platform (underDeadline deadline) (driver domain inputs) initial
        (((step, input) :: rest).map Prod.fst) cells =
          (applyStep platform (underDeadline deadline) (driver domain inputs) initial step >>= fun _ =>
            applySteps platform (underDeadline deadline) (driver domain inputs) initial (rest.map Prod.fst)) cells := by
      rw [List.map_cons, applySteps, get_bind, h.outcome]
      rfl
    rw [foldSteps]
    cases hreduce : domain.reduce current input with
    | error e =>
      rw [hreduce] at hstep hlast
      exact ⟨_, ends_silent hrun (ends_stop hstep hidle rfl), List.length_append, hlast⟩
    | ok answer =>
      cases answer with
      | error message =>
        rw [hreduce] at hstep hlast
        exact ⟨_, ends_silent hrun (ends_stop hstep hidle rfl), List.length_append, hlast⟩
      | ok next =>
        rw [hreduce] at hstep hlast
        simp only at hstep hlast ⊢
        cases houtcome : (observed domain platform step.index (some step.action) (some step.source) step.expected
          next).isEquivalent with
        | false =>
          rw [if_neg Bool.false_ne_true]
          exact ⟨_, ends_silent hrun (ends_stop hstep hidle houtcome), List.length_append, hlast⟩
        | true =>
          rw [if_pos rfl]
          have hgo := ends_go (P := fun steps' =>
              steps'.length = (foldSteps domain platform next (steps ++ [step]).length rest).2.1 ∧
              steps'.foldl (assign domain inputs) initial =
                (foldSteps domain platform next (steps ++ [step]).length rest).2.2)
            hstep houtcome fun cells' h' =>
              ends_applySteps (fun p hp => hrest p (List.mem_cons_of_mem _ hp)) h' hlast
          rw [List.length_append] at hgo
          obtain ⟨steps', hends, hlength, hheld⟩ := hgo
          exact ⟨steps', ends_silent hrun hends, hlength, hheld⟩

omit hd in
/-- What is reported of a run once it has ended. -/
theorem report_of_reached {last : σ} (h : Reached steps initial outcome cells)
    (hlast : steps.foldl (assign domain inputs) initial = last) :
    (⟨(cleanup (driver domain inputs) cells).outcome, (cleanup (driver domain inputs) cells).cleanupFailure,
      (cleanup (driver domain inputs) cells).applied⟩ : ReplayReport) =
      ⟨outcome, cleanupMessage (domain.cleanup last), steps.length⟩ := by
  have hcall : (driver domain inputs).cleanup cells.log initial .none = domain.cleanup last :=
    congrArg domain.cleanup ((h.held domain inputs).trans hlast)
  obtain ⟨-, houtcome, happlied, hcleanup⟩ := cleanup_spec (driver domain inputs) cells
  rw [houtcome, happlied, hcleanup h.cleanupFailure, h.outcome, h.applied, h.runtime, Option.bind_some, hcall]

omit hd in
/-- Where the inputs are bound to the steps, each step gets its input. -/
theorem inputOf_of_bound {bindings : List (BoundInput ι)} {trace : QuintReplayTrace}
    (hbound : ∀ p ∈ (bindings.zip trace.steps).zipIdx, mismatched p.2 p.1.1 p.1.2 = false) {p : QuintReplayStep × ι}
    (hp : p ∈ trace.steps.zip (bindings.map BoundInput.input)) :
    inputOf (bindings.map BoundInput.input) p.1 = .ok p.2 := by
  obtain ⟨i, hi, rfl⟩ := List.mem_iff_getElem.mp hp
  rw [List.length_zip, List.length_map] at hi
  have hstep : i < trace.steps.length := by omega
  have hbinding : i < bindings.length := by omega
  have hmem : ((bindings.get ⟨i, hbinding⟩, trace.steps.get ⟨i, hstep⟩), i) ∈ (bindings.zip trace.steps).zipIdx := by
    rw [List.mk_mem_zipIdx_iff_getElem?, List.getElem?_zip_eq_some]
    exact ⟨List.getElem?_eq_getElem hbinding, List.getElem?_eq_getElem hstep⟩
  have hindex := hbound _ hmem
  simp only [mismatched, Bool.or_eq_false_iff, decide_eq_false_iff_not, not_not, List.get_eq_getElem] at hindex
  have hnth : (trace.steps[i]).index - 1 = (i : Int) := by
    rw [hindex.1.2, hindex.1.1]
    omega
  simp only [inputOf, List.getElem_zip, hnth, QuintList.nth_natCast, List.getElem?_map,
    List.getElem?_eq_getElem hbinding, Option.map_some, List.getElem_map]

/-- The body of a run, up to what initialization answers. -/
theorem body_eq {trace : QuintReplayTrace} (ht : validateTrace platform trace = .ok []) :
    let cells : Cells σ := ((({} : Cells σ).note (.validated [])).note (.checked false)).enter "initialize"
    body platform (underDeadline deadline) (driver domain inputs) trace {} =
      match domain.construct () with
      | .error e => (.error e, cells.note (.initializeCalled trace.initial .linked (.error e)))
      | .ok (.error message) => (.ok (), ((cells.note (.initializeCalled trace.initial .linked
          (.ok (.error message)))).note (.initialized (.error message))).fail message)
      | .ok (.ok initial) =>
        (Replay.observe platform (underDeadline deadline) (driver domain inputs) trace.initial none none >>= fun _ =>
          applySteps platform (underDeadline deadline) (driver domain inputs) initial trace.steps)
          (((cells.note (.initializeCalled trace.initial .linked (.ok (.ok initial)))).note
            (.initialized (.ok initial))).start initial) := by
  intro cells
  have hpass : ∀ cells : Cells σ, ¬ (underDeadline deadline).linked cells.log = true := by
    intro cells
    simp [underDeadline, hd]
  have hcall : (fun history => (driver domain inputs).initializeRuntime history trace.initial .linked) =
      fun _ => domain.construct () := rfl
  rw [body, ht, calculate_bind, note_bind]
  simp only [checkpoint_bind, if_neg (hpass _), modify_bind, call_bind, hcall]
  rcases domain.construct () with e | (message | initial) <;> rfl

/-- **The helper computes the fold**, for every domain, whatever its callbacks answer or throw: on a
    valid trace with inputs bound to its steps, and a deadline that does not pass. -/
theorem run_fold (bindings : List (BoundInput ι)) (trace : QuintReplayTrace)
    (ht : validateTrace platform trace = .ok []) (hlength : bindings.length = trace.steps.length)
    (hbound : ∀ p ∈ (bindings.zip trace.steps).zipIdx, mismatched p.2 p.1.1 p.1.2 = false) :
    run domain platform deadline bindings trace = .ok (fold domain platform (bindings.map BoundInput.input) trace) := by
  have hv := (validateTrace_eq_nil_iff platform).mp ht
  generalize hinputs : bindings.map BoundInput.input = inputs
  have hrun : run domain platform deadline bindings trace =
      Replay.run platform (underDeadline deadline) (driver domain inputs) 50000000 trace := by
    have hany : ¬ ((bindings.zip trace.steps).zipIdx.any fun p => mismatched p.2 p.1.1 p.1.2) = true := by
      rw [List.any_eq_true]
      rintro ⟨p, hp, hmismatched⟩
      rw [hbound p hp] at hmismatched
      exact absurd hmismatched Bool.false_ne_true
    rw [run, if_neg (not_not.mpr hlength), ← hinputs]
    exact if_neg hany
  have hsteps : ∀ p ∈ trace.steps.zip inputs, ValidState platform p.1.expected ∧ inputOf inputs p.1 = .ok p.2 := by
    intro p hp
    obtain ⟨i, hi, hstep⟩ := List.mem_iff_getElem.mp (List.of_mem_zip hp).1
    exact ⟨hstep ▸ (hv.steps i hi).expected, hinputs ▸ inputOf_of_bound hbound (hinputs ▸ hp)⟩
  have hfst : (trace.steps.zip inputs).map Prod.fst = trace.steps := by
    refine List.map_fst_zip ?_
    rw [← hinputs, List.length_map, hlength]
  rw [hrun, run_admissible (by decide), final, guarded, fold, body_eq domain hd ht]
  rcases hconstruct : domain.construct () with e | (message | initial)
  · simp only [settle, Replay.handle, underDeadline, hd, Bool.false_eq_true, and_false, if_false]
    rfl
  · rfl
  · simp only
    -- the cells after initialization
    generalize hcells : Cells.start (((((({} : Cells σ).note (.validated [])).note (.checked false)).enter
      "initialize").note (.initializeCalled trace.initial .linked (.ok (.ok initial)))).note
      (.initialized (.ok initial))) initial = cells
    have hreached : Reached [] initial .equivalent cells := hcells ▸ ⟨rfl, rfl, rfl, rfl, rfl⟩
    have hobserve : Ends deadline
        (Replay.observe platform (underDeadline deadline) (driver domain inputs) trace.initial none none) cells []
        initial (observed domain platform 0 none none trace.initial initial) :=
      ends_observe domain hd hv.initial hreached (hcells ▸ rfl)
    cases houtcome : (observed domain platform 0 none none trace.initial initial).isEquivalent with
    | false =>
      have hidle : ∀ cells' : Cells σ, cells'.outcome.isEquivalent = false →
          applySteps platform (underDeadline deadline) (driver domain inputs) initial trace.steps cells' =
            (.ok (), cells') := fun cells' => applySteps_idle
      have hends := ends_stop hobserve hidle houtcome
      rw [if_neg Bool.false_ne_true]
      exact congrArg _ (report_of_reached domain hends.1 rfl)
    | true =>
      obtain ⟨steps', hends, hlength, hlast⟩ := ends_go (P := fun steps' =>
          steps'.length = (foldSteps domain platform initial 0 (trace.steps.zip inputs)).2.1 ∧
          steps'.foldl (assign domain inputs) initial =
            (foldSteps domain platform initial 0 (trace.steps.zip inputs)).2.2)
        hobserve houtcome fun cells' h' => ends_applySteps domain hd hsteps h' rfl
      rw [hfst] at hends
      rw [if_pos rfl, ← hlength]
      exact congrArg _ (report_of_reached domain hends.1 hlast)

end Agreement

/-- A domain that counts, and observes that a replay goes on. -/
def counting : Domain Nat Nat where
  construct _ := .ok (.ok 0)
  reduce count input := .ok (.ok (count + input))
  observe _ := .ok (.ok (sampleState (.boolean true)))
  cleanup _ := .ok (.ok ())

/-- A counter that is replayed for one step. -/
theorem run_fold_counting :
    run counting samplePlatform (fun _ => false) [⟨1, "increment", 2⟩] (sampleTrace (.boolean true)) =
      .ok (fold counting samplePlatform [2] (sampleTrace (.boolean true))) :=
  run_fold counting (fun _ => rfl) [⟨1, "increment", 2⟩] (sampleTrace (.boolean true))
    (validateTrace_sampleTrace trivial) rfl (by decide)

end PureReplay

end FsQuint
