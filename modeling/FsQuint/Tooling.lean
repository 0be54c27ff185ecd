/-
  Tooling: a Quint process is run under custody, and its result is judged.

  1. The contracts of the execution package are kept as far as the code tells their values apart.
  2. `executeText` awaits calls of a process session and shares the custody pool with other
     invocations.  Between two of its awaits or locks anything may happen, so it is embedded as a
     machine: `Invocation.step` takes the pool as it finds it, and what the call it waits for does.
  3. `runInternal` and `run` call it at most twice.  The world answers each call with the script of
     an invocation, and `Progress` holds which calls were made.

  The exceptions that a call can end in are part of what it does, so that every `try` of the code
  has a counterpart here; what is awaited is never assumed to answer.
-/
import Mathlib.Data.List.Infix
import FsQuint.Lib.SlotPool
import FsQuint.ReplayInternal

namespace FsQuint

open Utf16 Decimal ReplayInternal

/-- The workload of a request.  The seed and the invariant are passed on as they are, and may be null. -/
inductive QuintCommand where
  | typecheck
  | test (pattern : NString)
  | run (samples steps : Int) (seed invariant : NString)

/-- What the caller of `run` asks for: the executable and its digest, the version that it must report,
    the model, and the limits. -/
structure QuintRequest where
  executable : NString
  sha256 : NString
  version : NString
  workingDirectory : NString
  source : NString
  module : NString
  command : QuintCommand
  /-- in ticks, of which ten thousand make a millisecond -/
  timeout : Int
  maxOutputBytes : Int

/-- How a run of the tool ended.  Only the first four say something about the model. -/
inductive ToolOutcome where
  | typechecked
  | testsPassed (count : Int)
  | samplesPassed
  | counterexample
  | failed (exitCode : Int)
  | incomplete
  | identityMismatch
  | unsupported
  | launchFailure (message : UString)
  | timedOut
  | cancelled
  | outputLimit
  deriving DecidableEq

/-- The outcome, with what the last process wrote. -/
structure ToolReport where
  outcome : ToolOutcome
  standardOutput : UString
  standardError : UString

/-! ## The contracts of process sessions -/

/-- What is known of the process, or that it is not known. -/
inductive Fact (α : Type) where
  | known (value : α)
  | unknown
  deriving DecidableEq

/-- Why a session stopped its process; the code does not tell the other causes apart. -/
inductive StopCause where
  | outputLimit
  | callerCancellation
  | workDeadline
  | other
  deriving DecidableEq

/-- Whether a stop was requested and whether it could be. -/
inductive Stop where
  | notRequested
  | requested (cause : StopCause)
  | stopRefused
  deriving DecidableEq

/-- How the launch went.  What is neither refused nor ambiguous is told apart nowhere. -/
inductive LaunchState where
  | refused (message : UString)
  | ambiguous (message : UString)
  | other
  deriving DecidableEq

/-- The exit code, or another way to end. -/
inductive ExitState where
  | exited (code : Int)
  | other
  deriving DecidableEq

/-- Whether the tasks of the session in this process have settled. -/
inductive LocalTasks where
  | settled
  | other
  deriving DecidableEq

/-- Whether a reader has come to the end of its stream. -/
inductive Reader where
  | eof
  | other
  deriving DecidableEq

/-- What an observation says about the process. -/
structure ProcessResult where
  stop : Stop
  launch : LaunchState
  exit : Fact ExitState
  localTasks : Fact LocalTasks
  firstFailure : Option UString
  violations : List UString

/-- What an observation holds of one output stream. -/
structure TextStreamCapture where
  chunks : List UString
  omittedDecodedUtf8Bytes : Int
  reader : Fact Reader

/-- What an observation holds of both, and whether it holds all of it. -/
structure TextCapture where
  snapshotComplete : Bool
  firstFailure : Option UString
  stdout : TextStreamCapture
  stderr : TextStreamCapture

/-- A snapshot of a session: the process and its texts. -/
structure TextExecutionResult where
  process : ProcessResult
  text : TextCapture

/-- What `TryRelease` answers; the second constructor stands for every other reply. -/
inductive ReleaseReply where
  | resourcesReleased
  | releaseRefused
  deriving DecidableEq

/-- What is left of a budget; only the work is looked at. -/
structure BudgetView where
  workExpired : Bool

/-! ## The custody pool -/

variable {σ : Type}

/-- A slot is vacant, claimed, or retains a session. -/
abbrev SessionSlot (σ : Type) := SlotPool.Slot σ

/-- The test by which `claimSlot` looks for a slot. -/
def SessionSlot.isVacant : SessionSlot σ → Bool
  | .vacant => true
  | _ => false

/-- The slots, with the sessions that have answered `TryRelease` with `ResourcesReleased`, which no
    code reads. -/
structure Custody (σ : Type) where
  slots : Fin 16 → SessionSlot σ := fun _ => .vacant
  released : List σ := []

/-- An assignment to a slot. -/
def Custody.put (custody : Custody σ) (slot : Fin 16) (value : SessionSlot σ) : Custody σ :=
  { custody with slots := Function.update custody.slots slot value }

/-- The session says that its resources are released. -/
def Custody.report (custody : Custody σ) (session : σ) : Custody σ :=
  { custody with released := session :: custody.released }

namespace Quint

section

variable [DecidableEq σ]

/-- The slot still retains this session: another invocation may have swept it in the meantime. -/
def stillOwnsSlot (custody : Custody σ) (slot : Fin 16) (session : σ) : Bool :=
  match custody.slots slot with
  | .retained current => current = session
  | _ => false

/-- `reply` is what `TryRelease` does. -/
def releaseSlot (slot : Fin 16) (session : σ) (reply : Outcome ReleaseReply) (custody : Custody σ) :
    Custody σ × Bool :=
  match reply with
  | .ok .resourcesReleased =>
    let custody := custody.report session
    if stillOwnsSlot custody slot session then (custody.put slot .vacant, true) else (custody, true)
  | .ok .releaseRefused =>
    if stillOwnsSlot custody slot session then (custody.put slot (.retained session), false) else (custody, false)
  | .error _ =>
    if stillOwnsSlot custody slot session then (custody.put slot (.retained session), false) else (custody, false)

/-- One turn of the loop in `claimSlot`. -/
def sweepSlot (replies : Fin 16 → Outcome ReleaseReply) (custody : Custody σ) (index : Fin 16) : Custody σ :=
  match custody.slots index with
  | .retained session => (releaseSlot index session (replies index) custody).1
  | _ => custody

/-- `replies` is what `TryRelease` does for the session in each slot. -/
def claimSlot (replies : Fin 16 → Outcome ReleaseReply) (custody : Custody σ) : Custody σ × Option (Fin 16) :=
  let custody := (List.finRange 16).foldl (sweepSlot replies) custody
  match (List.finRange 16).find? fun index => (custody.slots index).isVacant with
  | some index => (custody.put index .claimed, some index)
  | none => (custody, none)

end

end Quint

section

variable [DecidableEq σ]

/-- What the comparison by reference decides. -/
theorem stillOwnsSlot_iff {custody : Custody σ} {slot : Fin 16} {session : σ} :
    Quint.stillOwnsSlot custody slot session = true ↔ custody.slots slot = .retained session := by
  unfold Quint.stillOwnsSlot
  split
  · rename_i current hslot
    rw [hslot, decide_eq_true_eq]
    exact ⟨fun h => congrArg _ h, fun h => SlotPool.Slot.retained.inj h⟩
  · rename_i hslot
    exact ⟨fun h => absurd h Bool.false_ne_true, fun h => absurd h (hslot session)⟩

/-- A session that is refused or throws stays where it is. -/
theorem releaseSlot_refused {slot : Fin 16} {session : σ} {reply : Outcome ReleaseReply}
    {custody : Custody σ} (h : reply ≠ .ok .resourcesReleased) :
    Quint.releaseSlot slot session reply custody = (custody, false) := by
  have hput : Quint.stillOwnsSlot custody slot session = true →
      custody.put slot (.retained session) = custody := by
    intro howns
    rw [Custody.put, ← stillOwnsSlot_iff.mp howns, Function.update_eq_self]
  cases reply with
  | error e =>
    rw [Quint.releaseSlot]
    split
    · rename_i howns
      rw [hput howns]
    · rfl
  | ok answer =>
    cases answer with
    | resourcesReleased => exact absurd rfl h
    | releaseRefused =>
      rw [Quint.releaseSlot]
      split
      · rename_i howns
        rw [hput howns]
      · rfl

/-- **A released session leaves the slot that retains it**, and no other. -/
theorem releaseSlot_released {slot : Fin 16} {session : σ} {custody : Custody σ} :
    Quint.releaseSlot slot session (.ok .resourcesReleased) custody =
      (if custody.slots slot = .retained session then (custody.report session).put slot .vacant
        else custody.report session, true) := by
  have hiff : Quint.stillOwnsSlot (custody.report session) slot session = true ↔
      custody.slots slot = .retained session := stillOwnsSlot_iff
  rw [Quint.releaseSlot]
  by_cases howns : custody.slots slot = .retained session
  · rw [if_pos howns, if_pos (hiff.mpr howns)]
  · rw [if_neg howns, if_neg fun h => howns (hiff.mp h)]

end

/-! ## One invocation of `executeText` -/

/-- What `executeText` returns: the outcome, with standard output and standard error. -/
abbrev TextResult := ToolOutcome × UString × UString

/-- Where an invocation is: what it does next, and the locals it still needs. -/
inductive Phase (σ : Type) where
  | entered
  | claiming
  | preparing (slot : Fin 16)
  | storing (slot : Fin 16) (session : σ)
  | running (slot : Fin 16) (session : σ)
  | observing (slot : Fin 16) (session : σ) (initial : TextExecutionResult)
  | pausing (slot : Fin 16) (session : σ) (initial : TextExecutionResult)
  | finishing (slot : Fin 16) (session : σ) (initial : TextExecutionResult)
  | releasing (slot : Fin 16) (session : σ) (initial final : TextExecutionResult)
  /-- the `finally` block -/
  | leaving (slot : Fin 16) (result : TextResult)
  | ended (answer : Outcome TextResult)

/-- An invocation, with its mutable locals and the final snapshot once it has been taken. -/
structure Invocation (σ : Type) where
  phase : Phase σ := .entered
  retained : Option σ := none
  ownsSlot : Bool := true
  firstOutcome : Option ToolOutcome := none
  snapshot : Option TextExecutionResult := none

/-- What the call does for which an invocation waits, or that it takes a lock. -/
inductive Action (σ : Type) where
  /-- `Budget.remaining`, and whether cancellation is then requested -/
  | budget (remaining : Outcome (Except Unit BudgetView)) (cancelled : Bool)
  | claim (replies : Fin 16 → Outcome ReleaseReply)
  /-- the setup up to and including `Prepare`, which refuses with the fields of its errors -/
  | prepare (reply : Outcome (Except (List UString) σ))
  | store
  | run (reply : Outcome TextExecutionResult)
  | observe (reply : Outcome TextExecutionResult)
  /-- `Budget.clip`, with the delay in ticks, and the delay itself -/
  | pause (reply : Outcome (Except Unit Int))
  | release (reply : Outcome ReleaseReply)
  | leave (reply : Outcome ReleaseReply)

namespace Invocation

/-- The invocation goes on to its next call or lock. -/
def enter (invocation : Invocation σ) (phase : Phase σ) : Invocation σ := { invocation with phase := phase }

/-- A `return` before there is anything to clean up. -/
def conclude (invocation : Invocation σ) (outcome : ToolOutcome) : Invocation σ :=
  invocation.enter (.ended (.ok (outcome, [], [])))

/-- A `return` from within the `try`. -/
def quit (invocation : Invocation σ) (slot : Fin 16) (outcome : ToolOutcome) : Invocation σ :=
  invocation.enter (.leaving slot (outcome, [], []))

/-- The exception handler. -/
def rescue (invocation : Invocation σ) (slot : Fin 16) : Invocation σ :=
  invocation.quit slot
    (invocation.firstOutcome.getD (.launchFailure "Process execution observation failed."))

end Invocation

/-- The outcome that `rememberStop` records for a stop. -/
def Stop.outcome : Stop → Option ToolOutcome
  | .requested .outputLimit => some .outputLimit
  | .requested .callerCancellation => some .cancelled
  | .requested .workDeadline => some .timedOut
  | .requested .other | .stopRefused => some .incomplete
  | .notRequested => none

/-- **The first stop that is observed is remembered**; later ones are not. -/
def Invocation.rememberStop (invocation : Invocation σ) (result : TextExecutionResult) : Invocation σ :=
  if invocation.firstOutcome.isNone then
    { invocation with firstOutcome := result.process.stop.outcome }
  else invocation

/-- The local tasks are known to have settled. -/
def settled (result : TextExecutionResult) : Bool := result.process.localTasks = .known .settled

/-- The reader is known to have come to the end. -/
def eof (capture : TextStreamCapture) : Bool := capture.reader = .known .eof

/-- The stop by which the invocation is judged. -/
def stopOf (initial final : TextExecutionResult) : Stop :=
  match initial.process.stop with
  | .requested cause => .requested cause
  | _ => final.process.stop

/-- Both texts were read to the end, nothing was left out and nothing failed. -/
def completeText (final : TextExecutionResult) : Bool :=
  final.text.snapshotComplete && final.text.firstFailure.isNone &&
    final.text.stdout.omittedDecodedUtf8Bytes = 0 && final.text.stderr.omittedDecodedUtf8Bytes = 0 &&
    eof final.text.stdout && eof final.text.stderr && final.process.firstFailure.isNone &&
    final.process.violations.isEmpty

/-- The outcome of an invocation whose session answered throughout. -/
def classify (initial final : TextExecutionResult) (released : Bool) : ToolOutcome :=
  match stopOf initial final with
  | .requested .outputLimit => .outputLimit
  | .requested .callerCancellation => .cancelled
  | .requested .workDeadline => .timedOut
  | .requested .other | .stopRefused => .incomplete
  | .notRequested =>
    match final.process.launch with
    | .refused message | .ambiguous message => .launchFailure message
    | .other =>
      match final.process.exit with
      | .known (.exited code) =>
        if completeText final && released && settled final then .failed code else .incomplete
      | _ => .incomplete

namespace Invocation

variable [DecidableEq σ]

/-- The first match of `executeText`. -/
def admission (invocation : Invocation σ) (remaining : Outcome (Except Unit BudgetView)) (cancelled : Bool) :
    Invocation σ :=
  match remaining with
  | .error e => invocation.enter (.ended (.error e))
  | .ok (.ok view) =>
    if cancelled then invocation.conclude .cancelled
    else if view.workExpired then invocation.conclude .timedOut
    else invocation.enter .claiming
  | .ok (.error _) => invocation.conclude (.launchFailure "Original process budget observation refused.")

/-- What follows `Prepare`. -/
def prepared (invocation : Invocation σ) (slot : Fin 16) (reply : Outcome (Except (List UString) σ)) :
    Invocation σ :=
  match reply with
  | .error _ => invocation.rescue slot
  | .ok (.error errors) =>
    if lit "budget" ∈ errors then invocation.quit slot .timedOut
    else invocation.quit slot (.launchFailure "Process session preparation refused.")
  | .ok (.ok session) => { invocation with phase := .storing slot session, retained := some session }

/-- What follows an observation in the loop. -/
def observed (invocation : Invocation σ) (slot : Fin 16) (session : σ) (initial latest : TextExecutionResult) :
    Invocation σ :=
  if settled latest then (invocation.rememberStop latest).enter (.finishing slot session initial)
  else (invocation.rememberStop latest).enter (.pausing slot session initial)

/-- What follows the clipping of the delay. -/
def paused (invocation : Invocation σ) (slot : Fin 16) (session : σ) (initial : TextExecutionResult)
    (delay : Except Unit Int) : Invocation σ :=
  match delay with
  | .ok ticks =>
    if 0 < ticks then invocation.enter (.observing slot session initial)
    else invocation.enter (.finishing slot session initial)
  | .error _ => invocation.enter (.finishing slot session initial)

/-- What follows the owner's own release. -/
def judged (invocation : Invocation σ) (slot : Fin 16) (initial final : TextExecutionResult) (released : Bool) :
    Invocation σ :=
  { invocation with
    phase := .leaving slot (classify initial final released, final.text.stdout.chunks.flatten,
      final.text.stderr.chunks.flatten)
    ownsSlot := !released && invocation.ownsSlot }

/-- The `finally` block. -/
def cleanUp (invocation : Invocation σ) (slot : Fin 16) (reply : Outcome ReleaseReply) (custody : Custody σ) :
    Custody σ :=
  if invocation.ownsSlot then
    match invocation.retained with
    | some session => (Quint.releaseSlot slot session reply custody).1
    | none => custody.put slot .vacant
  else custody

/-- `executeText`, from one call or lock to the next. -/
def step (invocation : Invocation σ) (custody : Custody σ) (action : Action σ) :
    Option (Custody σ × Invocation σ) :=
  match invocation.phase, action with
  | .entered, .budget remaining cancelled => some (custody, invocation.admission remaining cancelled)
  | .claiming, .claim replies =>
    match Quint.claimSlot replies custody with
    | (custody, none) => some (custody, invocation.conclude
        (.launchFailure "Process custody capacity is occupied by unresolved invocations."))
    | (custody, some slot) => some (custody, invocation.enter (.preparing slot))
  | .preparing slot, .prepare reply => some (custody, invocation.prepared slot reply)
  | .storing slot session, .store =>
    some (custody.put slot (.retained session), invocation.enter (.running slot session))
  | .running slot _, .run (.error _) => some (custody, invocation.rescue slot)
  | .running slot session, .run (.ok initial) =>
    some (custody, (invocation.rememberStop initial).enter (.observing slot session initial))
  | .observing slot _ _, .observe (.error _) => some (custody, invocation.rescue slot)
  | .observing slot session initial, .observe (.ok latest) =>
    some (custody, invocation.observed slot session initial latest)
  | .pausing slot _ _, .pause (.error _) => some (custody, invocation.rescue slot)
  | .pausing slot session initial, .pause (.ok delay) =>
    some (custody, invocation.paused slot session initial delay)
  | .finishing slot _ _, .observe (.error _) => some (custody, invocation.rescue slot)
  | .finishing slot session initial, .observe (.ok final) =>
    some (custody, { invocation.rememberStop final with
      phase := .releasing slot session initial final, snapshot := some final })
  | .releasing slot session initial final, .release reply =>
    match Quint.releaseSlot slot session reply custody with
    | (custody, released) => some (custody, invocation.judged slot initial final released)
  | .leaving slot result, .leave reply =>
    some (invocation.cleanUp slot reply custody, invocation.enter (.ended (.ok result)))
  | _, _ => none

end Invocation

/-- What an invocation meets: the pool before each of its steps, and what happens in it. -/
abbrev Script (σ : Type) := List (Custody σ × Action σ)

/-- What an invocation that has come back says. -/
def Phase.answer : Phase σ → Option (Outcome TextResult)
  | .ended answer => some answer
  | _ => none

/-- One step of a script. -/
def Invocation.follow [DecidableEq σ] (invocation : Invocation σ) (entry : Custody σ × Action σ) :
    Option (Invocation σ) :=
  (invocation.step entry.1 entry.2).map Prod.snd

/-- What an invocation that meets a script comes back with; `none` when it has not come back. -/
def executeText [DecidableEq σ] (script : Script σ) : Option (Outcome TextResult) :=
  (script.foldlM Invocation.follow {}).bind fun invocation => invocation.phase.answer

/-! ## `Quint.run` -/

/-- The arguments of a call of `executeText`. -/
structure Launch where
  path : UString
  workingDirectory : NString
  arguments : List NString
  sourceDigest : NString
  ordinal : Nat
  maxBytes : Int
  deriving DecidableEq

/-- The platform, the file system, the clock and the cancellation tokens, as `run` finds them. -/
structure World (σ : Type) where
  isLinux : Bool
  isX64 : Bool
  /-- `Budget.create`, by the total and the grace in ticks -/
  budget : Int → Int → Except Unit Unit
  /-- the digest of the file at a path -/
  hash : UString → Outcome (Vector UInt8 32)
  /-- what the invocation meets that a call of `executeText` begins -/
  sessions : Launch → Script σ
  callerCancelled : Bool
  workCancelled : Bool

/-- The calls of `executeText` that were made, and what was answered; `none` while a call has not
    come back. -/
structure Progress (α : Type) where
  launched : List Launch
  answer : Option (Outcome α)

namespace Quint

/-- `text.Contains(part)`. -/
def contains (text part : UString) : Bool := part <:+: text

/-- `Trim()`: white space goes on both sides. -/
def trim (text : UString) : UString :=
  ((text.dropWhile isWhiteSpace).reverse.dropWhile isWhiteSpace).reverse

/-- What `Path.IsPathFullyQualified` raises for null. -/
def nullPath : Exn := ⟨.argument, "Value cannot be null. (Parameter 'path')"⟩

/-- `Path.IsPathFullyQualified`, which does not take null. -/
def isPathFullyQualified : NString → Outcome Bool
  | none => .error nullPath
  | some path => .ok (path.head? = some 0x2F)

/-- `Int32.Parse` of a sequence of digits. -/
def parseInt32 (digits : UString) : Outcome Int :=
  match parseNat digits with
  | some n =>
    if n < 2 ^ 31 then .ok n
    else .error ⟨.other, "Value was either too large or too small for an Int32."⟩
  | none => .error ⟨.other, "The input string was not in a correct format."⟩

/-- What `\s*([1-9][0-9]*) passing(?:\s|$)` captures at the beginning of a text. -/
def passingAt (text : UString) : Option UString :=
  let line := text.dropWhile isWhiteSpace
  let digits := line.takeWhile isDigit
  let rest := line.dropWhile isDigit
  if digits.head?.any (· ≠ 0x30) ∧ lit " passing" <+: rest ∧ (rest.drop 8).head?.all isWhiteSpace then some digits
  else none

/-- What the pattern captures where it first matches; `^` matches after every line feed. -/
def matchPassing (lineStart : Bool) : UString → Option UString
  | [] => none
  | c :: rest =>
    if lineStart then (passingAt (c :: rest)).or (matchPassing (c = 0x0A) rest)
    else matchPassing (c = 0x0A) rest

/-- A report, from its three parts. -/
def report (status : ToolOutcome) (output errors : UString) : ToolReport := ⟨status, output, errors⟩

/-- The command line of the workload. -/
def workArguments (request : QuintRequest) : List NString :=
  match request.command with
  | .typecheck => ["typecheck", request.source]
  | .test pattern =>
    ["test", request.source, "--main", request.module, "--match", pattern, "--backend", "rust"]
  | .run samples steps seed invariant =>
    ["run", request.source, "--main", request.module, "--max-samples", some (decimal samples), "--max-steps",
      some (decimal steps), "--seed", seed, "--invariant", invariant, "--backend", "rust"]

/-- The outcome of the workload, by its command. -/
def statusOf (command : QuintCommand) (result : ToolOutcome) (output errors : UString) : Outcome ToolOutcome :=
  match result with
  | .failed code =>
    if code = 0 then
      match command with
      | .typecheck => .ok .typechecked
      | .test _ =>
        match matchPassing true output with
        | some digits => (parseInt32 digits).map .testsPassed
        | none => .ok .incomplete
      | .run samples steps _ _ =>
        if 0 < samples ∧ 0 < steps ∧ contains output "[ok] No violation found" ∧
            contains output "Trace length statistics:" then .ok .samplesPassed
        else .ok .incomplete
    else if contains output "[violation]" ∧ contains errors "Invariant violated" then .ok .counterexample
    else .ok (.failed code)
  | other => .ok other

/-- A call of `executeText`, with the arguments and the ordinal that are its own. -/
def launch (request : QuintRequest) (path : UString) (arguments : List NString) (ordinal : Nat) : Launch where
  path := path
  workingDirectory := request.workingDirectory
  arguments := arguments
  sourceDigest := request.sha256
  ordinal := ordinal
  maxBytes := request.maxOutputBytes

/-- The first call: it asks the tool for its version. -/
def versionLaunch (request : QuintRequest) (path : UString) : Launch := launch request path ["--version"] 0

/-- The second call: the command itself. -/
def workLaunch (request : QuintRequest) (path : UString) : Launch := launch request path (workArguments request) 1

section

variable [DecidableEq σ]

/-- `let! result = executeText …`, and what follows. -/
def execute (world : World σ) (call : Launch) (next : TextResult → Progress ToolReport) : Progress ToolReport :=
  match executeText (world.sessions call) with
  | none => ⟨[call], none⟩
  | some (.error e) => ⟨[call], some (.error e)⟩
  | some (.ok result) => ⟨call :: (next result).launched, (next result).answer⟩

/-- An answer for which nothing is launched. -/
def answer (reply : Outcome ToolReport) : Progress ToolReport := ⟨[], some reply⟩

/-- The exception handlers of `runInternal`. -/
def handled (reply : Outcome ToolReport) : Outcome ToolReport :=
  match reply with
  | .ok report => .ok report
  | .error e =>
    if e.type = .operationCanceled then .ok (report .cancelled [] [])
    else .ok (report (.launchFailure e.message) [] [])

/-- The command itself, once the version has been checked. -/
def workload (world : World σ) (request : QuintRequest) (path : UString) : Progress ToolReport :=
  execute world (workLaunch request path) fun (result, output, errors) =>
    answer ((statusOf request.command result output errors).map fun status => report status output errors)

/-- The body of the `try` in `runInternal`. -/
def attempt (world : World σ) (request : QuintRequest) (path : UString) : Progress ToolReport :=
  match world.hash path with
  | .error e => answer (.error e)
  | .ok digest =>
    if some (lowerHex digest) ≠ request.sha256 then answer (.ok (report .identityMismatch [] []))
    else execute world (versionLaunch request path) fun (version, stdout, stderr) =>
      if version ≠ .failed 0 then answer (.ok (report version stdout stderr))
      else if some (trim stdout) ≠ request.version then answer (.ok (report .identityMismatch stdout stderr))
      else workload world request path

/-- **`runInternal`**: the platform, the version and the limits are checked outside the `try`, and so is
    the path, whose check raises for null. -/
def runInternal (world : World σ) (request : QuintRequest) : Progress ToolReport :=
  if !world.isLinux || !world.isX64 || request.version ≠ some (lit "0.32.0") then
    answer (.ok (report .unsupported [] []))
  else if request.timeout ≤ 0 ∨ request.maxOutputBytes ≤ 0 then
    answer (.ok (report (.launchFailure "Invalid path or child limits.") [] []))
  else
    match request.executable, isPathFullyQualified request.executable with
    | some path, .ok true => { attempt world request path with answer := (attempt world request path).answer.map handled }
    | _, .ok _ => answer (.ok (report (.launchFailure "Invalid path or child limits.") [] []))
    | _, .error e => answer (.error e)

/-- The cancellation of the work is a timeout unless the caller cancelled too. -/
def retimed (world : World σ) (report : ToolReport) : ToolReport :=
  if report.outcome = .cancelled ∧ ¬ world.callerCancelled ∧ world.workCancelled then
    { report with outcome := .timedOut }
  else report

/-- **`Quint.run`**: the timeout and the budget are checked before anything else. -/
def run (world : World σ) (request : QuintRequest) : Progress ToolReport :=
  -- the largest timeout is 4294967294 milliseconds
  if request.timeout ≤ 0 ∨ 42949672940000 < request.timeout then
    answer (.ok (report (.launchFailure "Invalid total timeout.") [] []))
  else if 2 ^ 63 - 1 < request.timeout + 10000000 then
    answer (.ok (report (.launchFailure "Invalid process budget arithmetic.") [] []))
  else
    match world.budget (request.timeout + 10000000) 10000000 with
    | .error _ => answer (.ok (report (.launchFailure "Original process budget preparation refused.") [] []))
    | .ok _ =>
      { runInternal world request with
        answer := (runInternal world request).answer.map (Except.map (retimed world)) }

end

end Quint

end FsQuint
