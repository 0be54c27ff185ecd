/-
  Live replay: one run of a trace against a driver.

  1. The locals of the run that the code assigns to are a record (`Cells`), and the body is a
     computation on them from which an exception can escape (`Session`): what was assigned before an
     exception stays assigned, and the handlers see it.
  2. The cells also hold a record of what has happened (`log`), which no code reads.  A driver and
     the three cancellation flags may answer in any way they like, depending on everything that
     happened before: they are functions of that record.
  3. Each entry carries the phase and the index at which it was made.
-/
import FsQuint.QuintReplay

namespace FsQuint

open Utf16 Collections Decimal ReplayInternal QuintReplay

/-- The tokens that a callback may be given. -/
inductive CancellationToken where
  /-- `CancellationToken.None`, which is never cancelled -/
  | none
  /-- the token linked to the caller's and to the deadline -/
  | linked
  deriving DecidableEq

/-- How a run can end. -/
inductive ReplayOutcome where
  | equivalent
  | diverged (step : Int) (action : Option NString) (source : Option QuintReplaySourceBinding)
      (path : UString) (expected actual : QuintReplayState)
  | invalidTrace (diagnostics : List QuintReplayDiagnostic)
  | driverFailure (phase : UString) (step : Int) (message : NString)
  | cancelled
  | timedOut

/-- What a run reports: its outcome, what went wrong in the cleanup, and how many steps were applied. -/
structure ReplayReport where
  outcome : ReplayOutcome
  cleanupFailure : Option NString
  appliedSteps : Nat

/-- What a driver's callback does: it answers with a value or with an error, or it throws. -/
abbrev Answer (α : Type) := Outcome (Except NString α)

variable (ρ : Type)

/-- What can happen in a run with runtimes of type `ρ`. -/
inductive Happening where
  | validated (diagnostics : List QuintReplayDiagnostic)
  /-- a checkpoint, and whether it saw the linked token cancelled -/
  | checked (seen : Bool)
  | initializeCalled (state : QuintReplayState) (token : CancellationToken) (answer : Answer ρ)
  | initialized (result : Except NString ρ)
  | applyCalled (step : QuintReplayStep) (runtime : ρ) (token : CancellationToken) (answer : Answer Unit)
  | applied (result : Except NString Unit)
  | observeCalled (runtime : ρ) (token : CancellationToken) (answer : Answer QuintReplayState)
  | observed (result : Except NString QuintReplayState)
  | compared (action : Option NString) (source : Option QuintReplaySourceBinding)
      (expected actual : QuintReplayState)
  | cleanupCalled (runtime : ρ) (token : CancellationToken) (answer : Answer Unit)

/-- An entry of the record of a run. -/
structure Event where
  phase : UString
  index : Int
  what : Happening ρ

/-- What has happened in a run so far, in order. -/
abbrev History := List (Event ρ)

/-- A driver: what its callbacks answer, given everything that has happened before. -/
structure ReplayDriver where
  initializeRuntime : History ρ → QuintReplayState → CancellationToken → Answer ρ
  apply : History ρ → QuintReplayStep → ρ → CancellationToken → Answer Unit
  observe : History ρ → ρ → CancellationToken → Answer QuintReplayState
  cleanup : History ρ → ρ → CancellationToken → Answer Unit

/-- When cancellation is requested: of the linked token, by the caller, and by the deadline. -/
structure Cancellation where
  linked : History ρ → Bool
  caller : History ρ → Bool
  deadline : History ρ → Bool

/-- The mutable locals of a run, with the record of it. -/
structure Cells where
  runtime : Option ρ := none
  phase : UString := "validate"
  index : Int := 0
  applied : Nat := 0
  outcome : ReplayOutcome := .equivalent
  cleanupFailure : Option NString := none
  log : History ρ := []

variable {ρ}

/-- Something has happened. -/
def Cells.note (cells : Cells ρ) (what : Happening ρ) : Cells ρ :=
  { cells with log := cells.log ++ [⟨cells.phase, cells.index, what⟩] }

/-- A phase begins. -/
def Cells.enter (cells : Cells ρ) (phase : UString) : Cells ρ := { cells with phase := phase }

/-- The runtime is there. -/
def Cells.start (cells : Cells ρ) (value : ρ) : Cells ρ := { cells with runtime := some value }

/-- The assignments before a step is applied. -/
def Cells.advance (cells : Cells ρ) (step : QuintReplayStep) : Cells ρ :=
  { cells with index := step.index, phase := "apply", applied := cells.applied + 1 }

/-- An outcome is set, over the one that there was. -/
def Cells.finish (cells : Cells ρ) (outcome : ReplayOutcome) : Cells ρ := { cells with outcome := outcome }

/-- The driver has failed, in the phase and at the step that the run is in. -/
def Cells.fail (cells : Cells ρ) (message : NString) : Cells ρ :=
  cells.finish (.driverFailure cells.phase cells.index message)

/-- Nothing has gone wrong so far. -/
def ReplayOutcome.isEquivalent : ReplayOutcome → Bool
  | .equivalent => true
  | _ => false

/-- A part of the body of the run. -/
abbrev Session (ρ α : Type) := ExceptT Exn (StateM (Cells ρ)) α

namespace Replay

variable (platform : Platform) (cancellation : Cancellation ρ) (driver : ReplayDriver ρ)

/-- The exception of `ThrowIfCancellationRequested`. -/
def operationCanceled : Exn := ⟨.operationCanceled, "The operation was canceled."⟩

/-- Enter something into the record. -/
def note (what : Happening ρ) : Session ρ Unit := modify fun cells => cells.note what

/-- End the run with a failure of the driver. -/
def fail (message : NString) : Session ρ Unit := modify fun cells => cells.fail message

/-- End the run with an outcome. -/
def finish (outcome : ReplayOutcome) : Session ρ Unit := modify fun cells => cells.finish outcome

/-- A call that does not depend on the run. -/
def calculate {α : Type} (x : Outcome α) : Session ρ α :=
  match x with
  | .ok a => pure a
  | .error e => throw e

/-- A call of one of the driver's callbacks. -/
def call {α : Type} (callback : History ρ → Answer α) (what : Answer α → Happening ρ) :
    Session ρ (Except NString α) := do
  let answer := callback (← get).log
  note (what answer)
  calculate answer

/-- A checkpoint: what the linked token says is recorded, and raises when it is cancelled. -/
def throwIfCancellationRequested : Session ρ Unit := do
  let seen := cancellation.linked (← get).log
  note (.checked seen)
  if seen then throw operationCanceled

/-! ## Comparing an observation -/

/-- `text.Replace(old, replacement)` for a single character. -/
def replace (old : UInt16) (replacement : UString) (text : UString) : UString :=
  text.flatMap fun c => if c = old then replacement else [c]

/-- The encoding of what is bound to a name. -/
def encoded [Primitives] (name : NString) (bindings : List (NString × QuintReplayValue)) :
    Outcome (Option (Result UString)) :=
  match bindings.find? fun binding => binding.1 = name with
  | none => return none
  | some binding => return some (← encodeValue binding.2)

/-- The first of some names to which two states bind different encodings. -/
def firstDiffering [Primitives] (expected actual : QuintReplayState) : List NString → Outcome (Option NString)
  | [] => return none
  | name :: names => do
    if (← encoded name expected.bindings) ≠ (← encoded name actual.bindings) then return some name
    firstDiffering expected actual names

/-- The path of the first binding in which two states differ. -/
def differingPath [Primitives] (expected actual : QuintReplayState) : Outcome UString := do
  let names := sortOn ordinal.nullFirst id
    (distinct ((expected.bindings ++ actual.bindings).map Prod.fst))
  match ← firstDiffering expected actual names with
  | none => return "$"
  | some none => .error nullReference
  | some (some name) =>
    return lit "$/bindings/" ++ replace 0x2F "~1" (replace 0x7E "~0" name)

/-- The comparison of an observed state with the expected one.  Findings about the observed state are
    the driver's failure, and come before those about the expected one. -/
def compareStates [Primitives] (expected : QuintReplayState) (action : Option NString)
    (source : Option QuintReplaySourceBinding) (actual : QuintReplayState) : Session ρ Unit := do
  note (.compared action source expected actual)
  match ← calculate (encodeState platform expected), ← calculate (encodeState platform actual) with
  | _, .error diagnostics =>
    fail (some (lit "Invalid observed state: " ++ platform.formatDiagnostics diagnostics))
  | .ok a, .ok b =>
    if a = b then return
    let path ← calculate (differingPath expected actual)
    finish (.diverged (← get).index action source path expected actual)
  | .error diagnostics, _ => finish (.invalidTrace diagnostics)

/-! ## The body -/

/-- Ask the driver for the state of the implementation, and compare it. -/
def observe [Primitives] (expected : QuintReplayState) (action : Option NString)
    (source : Option QuintReplaySourceBinding) : Session ρ Unit := do
  modify fun cells => cells.enter "observe"
  throwIfCancellationRequested cancellation
  let some value := (← get).runtime | throw nullReference
  let observation ← call (driver.observe · value .linked) (.observeCalled value .linked)
  throwIfCancellationRequested cancellation
  note (.observed observation)
  match observation with
  | .error message => fail message
  | .ok actual => compareStates platform expected action source actual

/-- Apply a step and observe.  The step is counted before the callback is called. -/
def applyStep [Primitives] (value : ρ) (step : QuintReplayStep) : Session ρ Unit := do
  throwIfCancellationRequested cancellation
  modify fun cells => cells.advance step
  let result ← call (driver.apply · step value .linked) (.applyCalled step value .linked)
  throwIfCancellationRequested cancellation
  note (.applied result)
  match result with
  | .error message => fail message
  | .ok () => observe platform cancellation driver step.expected (some step.action) (some step.source)

/-- The loop over the steps, each of which is skipped once there is an outcome. -/
def applySteps [Primitives] (value : ρ) : List QuintReplayStep → Session ρ Unit
  | [] => return
  | step :: steps => do
    if (← get).outcome.isEquivalent then applyStep platform cancellation driver value step
    applySteps value steps

/-- The body of the run: validation, initialization, the initial observation, and the steps. -/
def body [Primitives] (trace : QuintReplayTrace) : Session ρ Unit := do
  let errors ← calculate (validateTrace platform trace)
  note (.validated errors)
  match errors with
  | _ :: _ => finish (.invalidTrace errors)
  | [] =>
    throwIfCancellationRequested cancellation
    modify fun cells => cells.enter "initialize"
    let result ← call (driver.initializeRuntime · trace.initial .linked) (.initializeCalled trace.initial .linked)
    note (.initialized result)
    match result with
    | .error message => fail message
    | .ok value =>
      modify fun cells => cells.start value
      observe platform cancellation driver trace.initial none none
      applySteps platform cancellation driver value trace.steps

/-- The exception handlers around the body. -/
def handle (e : Exn) (cells : Cells ρ) : Cells ρ :=
  if e.type = .operationCanceled ∧ cancellation.caller cells.log then cells.finish .cancelled
  else if e.type = .operationCanceled ∧ cancellation.deadline cells.log then cells.finish .timedOut
  else cells.fail (some e.message)

/-- What the handlers make of the way in which the body ended. -/
def settle : Except Exn Unit × Cells ρ → Cells ρ
  | (.ok (), cells) => cells
  | (.error e, cells) => handle cancellation e cells

/-- The body with its handlers. -/
def guarded [Primitives] (trace : QuintReplayTrace) : Cells ρ :=
  settle cancellation (body platform cancellation driver trace {})

/-- The cleanup after the body. -/
def cleanup (cells : Cells ρ) : Cells ρ :=
  match cells.runtime with
  | none => cells
  | some value =>
    let cleaned := driver.cleanup cells.log value .none
    let after := cells.note (.cleanupCalled value .none cleaned)
    match cleaned with
    | .ok (.ok ()) => after
    | .ok (.error message) => { after with cleanupFailure := some message }
    | .error e => { after with cleanupFailure := some (some e.message) }

/-- The cells at the end of a run. -/
def final [Primitives] (trace : QuintReplayTrace) : Cells ρ :=
  cleanup driver (guarded platform cancellation driver trace)

/-- A timeout, in ticks of 100 nanoseconds, that `CancellationTokenSource` supports: positive, and at
    most 4294967294 milliseconds. -/
def Admissible (timeout : Int) : Prop := 0 < timeout ∧ timeout ≤ 4294967294 * 10000

instance (timeout : Int) : Decidable (Admissible timeout) := instDecidableAnd

/-- A run with its timeout: an argument exception for a timeout that is not admissible, and a report
    otherwise. -/
def run [Primitives] (timeout : Int) (trace : QuintReplayTrace) : Outcome ReplayReport :=
  if Admissible timeout then
    let cells := final platform cancellation driver trace
    .ok { outcome := cells.outcome, cleanupFailure := cells.cleanupFailure, appliedSteps := cells.applied }
  else
    .error ⟨.argument, "Supply a positive finite timeout supported by CancellationTokenSource."⟩

end Replay

end FsQuint
