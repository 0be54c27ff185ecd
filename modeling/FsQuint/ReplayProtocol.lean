/-
  What a live replay is for: the protocol between a run and its driver.

  1. **The script** of a trace lists what happens in a run in which nothing goes wrong: validation,
     initialization, and for every step its application and an observation, each observation being
     compared with the expected state.  `occurs` says which event a stage of the script gives rise
     to; a result is that of the latest call.
  2. **Failures** (`fails`): findings, a checkpoint that sees a cancellation, a callback that throws,
     a result that is an error, and a comparison that does not come out equal.
  3. **The verdict** on a run is decided by its first failure (`verdict`).
-/
import FsQuint.Replay
import FsQuint.Lib.Script

namespace FsQuint

open Utf16 QuintReplay Script

variable {ρ : Type}

/-! ## Views of an event -/

/-- What `initializeRuntime` answered in this event. -/
def Event.initializeAnswer (e : Event ρ) : Option (Answer ρ) :=
  match e.what with
  | .initializeCalled _ _ answer => some answer
  | _ => none

/-- What `apply` answered in this event. -/
def Event.applyAnswer (e : Event ρ) : Option (Answer Unit) :=
  match e.what with
  | .applyCalled _ _ _ answer => some answer
  | _ => none

/-- What `observe` answered in this event. -/
def Event.observeAnswer (e : Event ρ) : Option (Answer QuintReplayState) :=
  match e.what with
  | .observeCalled _ _ answer => some answer
  | _ => none

/-- The step that an event applies. -/
def Event.appliedStep (e : Event ρ) : Option QuintReplayStep :=
  match e.what with
  | .applyCalled step _ _ _ => some step
  | _ => none

/-- The calls of a driver's callbacks. -/
inductive Call where
  | initializeRuntime (state : QuintReplayState)
  | apply (step : QuintReplayStep)
  | observe
  | cleanup

/-- The call of a callback that this event records. -/
def Event.call (e : Event ρ) : Option Call :=
  match e.what with
  | .initializeCalled state _ _ => some (.initializeRuntime state)
  | .applyCalled step _ _ _ => some (.apply step)
  | .observeCalled _ _ _ => some .observe
  | .cleanupCalled _ _ _ => some .cleanup
  | _ => none

namespace Replay

variable (platform : Platform) (cancellation : Cancellation ρ) (driver : ReplayDriver ρ)
  (trace : QuintReplayTrace)

/-! ## Failures -/

/-- Both states can be encoded, and their encodings are the same. -/
def encodeAlike (expected actual : QuintReplayState) : Bool :=
  match encodeState platform expected, encodeState platform actual with
  | .ok (.ok a), .ok (.ok b) => a = b
  | _, _ => false

/-- Whether an event ends the run. -/
def fails (e : Event ρ) : Bool :=
  match e.what with
  | .validated diagnostics => !diagnostics.isEmpty
  | .checked seen => seen
  | .initializeCalled _ _ (.error _) | .applyCalled _ _ _ (.error _) | .observeCalled _ _ (.error _) => true
  | .initialized (.error _) | .applied (.error _) | .observed (.error _) => true
  | .compared _ _ expected actual => !encodeAlike platform expected actual
  | _ => false

/-- What is reported of an exception that is raised at an event: a cancellation is the caller's if
    the caller has requested it, else the deadline's if that has passed, and else a failure of the
    driver. -/
def raised (history : History ρ) (e : Event ρ) (exception : Exn) : ReplayOutcome :=
  if exception.type = .operationCanceled ∧ cancellation.caller history then .cancelled
  else if exception.type = .operationCanceled ∧ cancellation.deadline history then .timedOut
  else .driverFailure e.phase e.index (some exception.message)

/-- What is reported of a comparison that did not come out equal. -/
def differs (history : History ρ) (e : Event ρ) (action : Option NString) (source : Option QuintReplaySourceBinding)
    (expected actual : QuintReplayState) : ReplayOutcome :=
  match encodeState platform actual with
  | .ok (.error diagnostics) => .driverFailure e.phase e.index
      (some (lit "Invalid observed state: " ++ platform.formatDiagnostics diagnostics))
  | _ =>
    match differingPath expected actual with
    | .ok path => .diverged e.index action source path expected actual
    | .error exception => raised cancellation history e exception

/-- The outcome that a failing event decides, where `history` is what has happened up to it. -/
def decides (history : History ρ) (e : Event ρ) : ReplayOutcome :=
  match e.what with
  | .validated diagnostics => .invalidTrace diagnostics
  | .checked _ => raised cancellation history e operationCanceled
  | .initializeCalled _ _ (.error exception) | .applyCalled _ _ _ (.error exception)
  | .observeCalled _ _ (.error exception) => raised cancellation history e exception
  | .initialized (.error message) | .applied (.error message) | .observed (.error message) =>
    .driverFailure e.phase e.index message
  | .compared action source expected actual => differs platform cancellation history e action source expected actual
  | _ => .equivalent

/-- **The verdict on a run**: what its first failure decides, if there is one. -/
def verdict (events : History ρ) : ReplayOutcome :=
  match events.find? (fails platform) with
  | some e => decides platform cancellation events e
  | none => .equivalent

/-! ## The script -/

/-- The stages of a run. -/
inductive Stage where
  | validation
  | checkpoint (phase : UString) (index : Int)
  | initializeCall
  | initializeResult
  | applyCall (step : QuintReplayStep)
  | applyResult (index : Int)
  | observeCall (index : Int)
  | observeResult (index : Int)
  | comparison (index : Int) (action : Option NString) (source : Option QuintReplaySourceBinding)
      (expected : QuintReplayState)

/-- An observation and its comparison. -/
def observing (index : Int) (action : Option NString) (source : Option QuintReplaySourceBinding)
    (expected : QuintReplayState) : List Stage :=
  [.checkpoint "observe" index, .observeCall index, .checkpoint "observe" index, .observeResult index,
    .comparison index action source expected]

/-- The application of a step, after an observation at index `before`. -/
def applying (before : Int) (step : QuintReplayStep) : List Stage :=
  [.checkpoint "observe" before, .applyCall step, .checkpoint "apply" step.index, .applyResult step.index]

/-- The stages of the steps that follow the step `before`: each is applied and then observed. -/
def rounds (before : Int) : List QuintReplayStep → List Stage
  | [] => []
  | step :: steps =>
    applying before step ++ observing step.index (some step.action) (some step.source) step.expected ++
      rounds step.index steps

/-- The stages before the first observation. -/
def opening : List Stage :=
  [.validation, .checkpoint "validate" 0, .initializeCall, .initializeResult]

/-- **The script of a trace.** -/
def script : List Stage := opening ++ observing 0 none none trace.initial ++ rounds 0 trace.steps

/-- Initialization has returned a runtime. -/
def Started (history : History ρ) (value : ρ) : Prop :=
  latest Event.initializeAnswer history = some (.ok (.ok value))

/-- The event to which a stage gives rise, after a history. -/
def occurs : Stage → History ρ → Event ρ → Prop
  | .validation, _, e =>
    ∃ found, validateTrace platform trace = .ok found ∧ e = ⟨"validate", 0, .validated found⟩
  | .checkpoint phase index, history, e => e = ⟨phase, index, .checked (cancellation.linked history)⟩
  | .initializeCall, history, e =>
    e = ⟨"initialize", 0,
      .initializeCalled trace.initial .linked (driver.initializeRuntime history trace.initial .linked)⟩
  | .initializeResult, history, e =>
    ∃ result, latest Event.initializeAnswer history = some (.ok result) ∧
      e = ⟨"initialize", 0, .initialized result⟩
  | .applyCall step, history, e =>
    ∃ value, Started history value ∧
      e = ⟨"apply", step.index, .applyCalled step value .linked (driver.apply history step value .linked)⟩
  | .applyResult index, history, e =>
    ∃ result, latest Event.applyAnswer history = some (.ok result) ∧ e = ⟨"apply", index, .applied result⟩
  | .observeCall index, history, e =>
    ∃ value, Started history value ∧
      e = ⟨"observe", index, .observeCalled value .linked (driver.observe history value .linked)⟩
  | .observeResult index, history, e =>
    ∃ result, latest Event.observeAnswer history = some (.ok result) ∧
      e = ⟨"observe", index, .observed result⟩
  | .comparison index action source expected, history, e =>
    ∃ actual, latest Event.observeAnswer history = some (.ok (.ok actual)) ∧
      e = ⟨"observe", index, .compared action source expected actual⟩

end Replay

end FsQuint
