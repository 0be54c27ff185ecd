/-
  The telemetry of roadmap dispatches: what its commands do to their files, and what they publish.

  1. A dispatch has one file, which every command reads first and replaces as it goes on (`saveState`).  A
     publication is written to the file before it is submitted (`preparePublication`), so that a command
     which finds one there can submit it again (`publishPending`).
  2. A command is a program that can die before any of its effects (`Durable.Prog`).  An exception that no
     handler of the code takes ends it in the same way; those that one takes are `Failure`s.
  3. What the files do not determine is asked of the outside: the telemetry engine, the clock, the host.
-/
import FsQuint.Lib.Durable
import FsQuint.Lib.Table
import FsQuint.Lib.Decimal
import FsQuint.ReplayInternal

namespace FsQuint

open Utf16 Decimal Collections ReplayInternal Durable

namespace RoadmapTelemetry

/-! ## Data -/

/-- A JSON value, of which only null, integers and strings are looked into. -/
inductive Value where
  | null
  | integer (n : Int)
  | text (s : UString)
  | json (s : UString)
  deriving DecidableEq

/-- A JSON object, with its keys in the order in which they are written. -/
abbrev Dict := List (UString × Value)

/-- A string that may be missing, as a value. -/
def optional : Option UString → Value
  | none => .null
  | some s => .text s

/-- How far a dispatch is.  The pending phases are those in which a publication that leads on was not
    acknowledged. -/
inductive Phase where
  | beginPending
  | expected
  | startPending
  | started
  | terminalPending
  | terminal
  deriving DecidableEq

/-- How a dispatch is related to its parent. -/
inductive Relation where
  | root
  | child
  | followUp
  deriving DecidableEq

/-- The name of a relation on the command line and in the events. -/
def Relation.text : Relation → UString
  | .root => "root"
  | .child => "child"
  | .followUp => "follow-up"

/-- How a dispatch ended. -/
inductive Outcome where
  | completed
  | failed
  | cancelled
  | blocked
  deriving DecidableEq

/-- The name of an outcome. -/
def Outcome.text : Outcome → UString
  | .completed => "completed"
  | .failed => "failed"
  | .cancelled => "cancelled"
  | .blocked => "blocked"

/-- A batch of events, as the telemetry engine ingests it. -/
structure Batch where
  schema : UString
  ingestId : UString
  sourceIdentity : UString
  generation : UString
  cursor : UString
  eventCount : Nat
  events : List Dict
  deriving DecidableEq

/-- A publication that was written down and not acknowledged: what it is for, where it leads, and its
    batch. -/
structure Pending where
  operation : UString
  nextPhase : Phase
  batch : Batch
  deriving DecidableEq

/-- The revision of a turn’s usage that is being published. -/
structure UsageIntent where
  turnId : UString
  revision : Nat
  hash : UString
  deriving DecidableEq

/-- The last revision of a turn’s usage that was published. -/
structure LedgerEntry where
  revision : Nat
  hash : UString
  deriving DecidableEq

/-- What identifies a dispatch, and has to be the same when it is begun again. -/
structure Identity where
  featureId : UString
  itemId : UString
  originalItemId : UString
  originalAssignmentDigest : Option UString
  attemptId : UString
  parentAttemptId : Option UString
  producerStream : UString
  model : UString
  effort : UString
  relation : Relation
  parentDispatchId : Option UString
  parentInvocationId : Option UString
  lateAfterSeconds : Int
  deriving DecidableEq

/-- The file of a dispatch. -/
structure DispatchState where
  token : UString
  phase : Phase
  sequence : Nat
  identity : Identity
  activationId : UString
  dispatchId : UString
  invocationId : UString
  rootInvocationId : UString
  nativeId : Option UString
  hostParentThreadId : Option UString
  baselineTurnIds : List UString
  usageBaselineKnown : Bool
  associationProducer : Option UString
  associationDigest : Option UString
  pendingPublication : Option Pending := none
  outcome : Option Outcome := none
  exitCode : Option Int := none
  usageIntent : Option UsageIntent := none
  usageLedger : List (UString × LedgerEntry) := []
  nativeThreadId : Option UString := none
  nativeThreadPublished : Bool := false

/-- What the file system says of the file of a dispatch. -/
structure FileStatus where
  /-- it is a file, and no symbolic link -/
  regular : Bool
  /-- in bytes -/
  size : Nat
  /-- the permissions, where the host is not `nt` -/
  mode : Option Nat

/-- What a command finds on its host.  It reads files before it writes any, so that their status does not
    change under it. -/
structure HostConfig where
  workspace : Bool
  producer : Option UString
  bindingDigest : Option UString
  /-- by the token of the dispatch -/
  status : UString → FileStatus

/-! ## The outside -/

/-- What a process of the engine answered. -/
structure Completed where
  returncode : Int
  /-- the error output, without blanks around it -/
  stderr : UString

/-- The tokens of a turn. -/
structure Usage where
  inputTokens : Int
  cachedInputTokens : Int
  outputTokens : Int
  reasoningOutputTokens : Int
  totalTokens : Int

/-- A turn of a native child. -/
structure Turn where
  turnId : UString
  turnSequence : Nat
  usage : Usage

/-- The verified turns of a native child. -/
structure NativeUsage where
  threadId : UString
  turns : List Turn
  allTurnIds : List UString
  complete : Bool
  model : Option UString
  effort : Option UString

/-- What a command asks of the outside. -/
inductive Question where
  | validateWorkspace
  | workspaceMutationCommand
  | submit (batch : Batch)
  | drain
  | now
  | uuids
  | codexThreadId
  | collectNativeUsage (parentThreadId nativeId : UString)
  | authorizedOriginal (feature item original : UString)
  | readContract (path schema : UString) (fields : List UString)
  | refreshDashboard

/-- The answers to each question.  Where the code turns an answer into a failure of its own, the failure
    is one of them. -/
abbrev Question.Answer : Question → Type
  | .validateWorkspace => Except UString Unit
  | .workspaceMutationCommand => Except UString Unit
  | .submit _ => Completed
  | .drain => Completed
  | .now => UString
  | .uuids => UString × UString × UString × UString
  | .codexThreadId => Option UString
  | .collectNativeUsage _ _ => Option NativeUsage
  | .authorizedOriginal _ _ _ => Except UString UString
  | .readContract _ _ _ => Except UString (UString → Value)
  | .refreshDashboard => Value

/-! ## Commands -/

/-- A `ConfigurationError`. -/
structure Failure where
  message : UString

/-- The files of the dispatches. -/
abbrev Files := List DispatchState

/-- A program over the files and the outside. -/
abbrev Effect := Prog Files Question.Answer

/-- A command, from which a failure may escape. -/
def Command (α : Type) := Effect (Except Failure α)

instance : Monad Command where
  pure a := Prog.done (.ok a)
  bind c f := Prog.bind c fun result => match result with
    | .ok a => f a
    | .error failure => .done (.error failure)

/-- A part of a command, on the state that it has in memory. -/
def Session (α : Type) := DispatchState → Effect (Except Failure α × DispatchState)

instance : Monad Session where
  pure a := fun state => .done (.ok a, state)
  bind m f := fun state => (m state).bind fun result => match result with
    | (.ok a, state) => f a state
    | (.error failure, state) => .done (.error failure, state)

/-- Continues with the state of a file. -/
def Session.runOn {α : Type} (m : Session α) (state : DispatchState) : Command α :=
  (m state).bind fun result => .done result.1

/-- `raise ConfigurationError`. -/
def Command.fail {α : Type} (message : UString) : Command α := .done (.error ⟨message⟩)

/-- A question of a command. -/
def Command.ask (question : Question) : Command question.Answer :=
  Prog.ask question fun answer => .done (.ok answer)

/-- The files, as they are. -/
def Command.files : Command Files := Prog.load fun files => .done (.ok files)

namespace Session

/-- `raise ConfigurationError`, which keeps the state in memory. -/
def fail {α : Type} (message : UString) : Session α := fun state => .done (.error ⟨message⟩, state)

/-- The state in memory. -/
def get : Session DispatchState := fun state => .done (.ok state, state)

/-- An assignment to it, which does not reach the file. -/
def set (state : DispatchState) : Session Unit := fun _ => .done (.ok (), state)

/-- A question of a session. -/
def ask (question : Question) : Session question.Answer :=
  fun state => .ask question fun answer => .done (.ok answer, state)

/-- `try … except ConfigurationError`. -/
def catching {α : Type} (m : Session α) (handler : Failure → Session α) : Session α :=
  fun state => (m state).bind fun result => match result with
    | (.ok a, state) => .done (.ok a, state)
    | (.error failure, state) => handler failure state

end Session

/-! ## Publication -/

/-- The code unit that separates the values of a digest. -/
def unitSeparator : UString := [0x1F]

section Code

variable (platform : Platform)

/-- `hashlib.sha256(…).hexdigest()` of the UTF-8 text. -/
def hexdigest (s : UString) : UString := lowerHex (platform.hashData (getBytesLossy s))

/-- A label with half of a digest of its values. -/
def digest (label : UString) (values : List UString) : UString :=
  label ++ (hexdigest platform (concat unitSeparator values)).take 32

/-- An event of revision 0. -/
def event (kind identity : UString) (item : Option UString) (values : Dict) : Dict :=
  (lit "kind", .text kind) :: (lit "identity", .text identity) :: (lit "itemId", optional item) ::
    (lit "revision", .integer 0) :: values

/-- The schema of a batch. -/
def batchSchema : UString := "fsgg.telemetry.ingest/1"

/-- A number with at least six digits. -/
def sixDigits (n : Nat) : UString := List.replicate (6 - (natText n).length) 0x30 ++ natText n

/-- A batch of events under the sequence number of a state. -/
def batchOf (state : DispatchState) (events : List Dict) : Batch where
  schema := batchSchema
  ingestId := state.invocationId ++ 0x2D :: sixDigits state.sequence
  sourceIdentity := state.identity.producerStream
  generation := state.invocationId
  cursor := natText state.sequence
  eventCount := events.length
  events := events

/-- A state with a publication under the next sequence number. -/
def DispatchState.withPublication (state : DispatchState) (operation : UString) (nextPhase : Phase)
    (events : List Dict) : DispatchState :=
  let state := { state with sequence := state.sequence + 1 }
  { state with pendingPublication := some ⟨operation, nextPhase, batchOf state events⟩ }

/-- Replaces the file of a dispatch. -/
def put (state : DispatchState) (files : Files) : Files := Table.store DispatchState.token state files

/-- **`save_state`**: the file is replaced in one effect. -/
def saveState : Session Unit := fun state => .save (put state) (.done (.ok (), state))

/-- **`prepare_publication`**: the intent is saved before anything is submitted; one that is pending has
    to be the same. -/
def preparePublication (operation : UString) (nextPhase : Phase) (events : List Dict) : Session Unit := do
  let state ← Session.get
  match state.pendingPublication with
  | some pending =>
    if pending.operation ≠ operation ∨ pending.nextPhase ≠ nextPhase ∨ pending.batch.events ≠ events then
      Session.fail "a different telemetry publication is already pending"
    else pure ()
  | none => do
    Session.set (state.withPublication operation nextPhase events)
    saveState

/-- `text in message`. -/
def occursIn (text : UString) : UString → Bool
  | [] => text.isPrefixOf []
  | c :: cs => text.isPrefixOf (c :: cs) || occursIn text cs

/-- How the operations begin that publish the usage of a turn. -/
def nativeUsage : UString := "native-usage:"

/-- A state whose publication was refused. -/
def DispatchState.rolledBack (state : DispatchState) (operation : UString) : DispatchState :=
  { state with sequence := state.sequence - 1, pendingPublication := none,
               usageIntent := if nativeUsage.isPrefixOf operation then none else state.usageIntent }

/-- What failed, of a submission that was not acknowledged. -/
def Completed.failure (completed : Completed) : UString :=
  if completed.stderr = [] then "telemetry batch publication failed" else completed.stderr

/-- **`publish_pending`**: the intent is submitted.  An acknowledgement takes the dispatch on; a refusal
    rolls the publication back; everything else leaves it pending. -/
def publishPending : Session Unit := do
  match ← Session.ask .validateWorkspace with
  | .error message => Session.fail message
  | .ok () =>
    let state ← Session.get
    match state.pendingPublication with
    | none => Session.fail "telemetry publication intent is unavailable"
    | some pending =>
      let batch := pending.batch
      if batch.schema ≠ batchSchema ∨ batch.generation ≠ state.invocationId ∨ batch.cursor ≠ natText state.sequence then
        Session.fail "telemetry publication intent is malformed"
      else
        match ← Session.ask .workspaceMutationCommand with
        | .error message => Session.fail message
        | .ok () =>
          let completed ← Session.ask (.submit batch)
          if completed.returncode ≠ 0 then
            if occursIn "invalid-request" completed.failure then do
              Session.set (state.rolledBack pending.operation)
              saveState
              Session.fail completed.failure
            else Session.fail completed.failure
          else do
            Session.set { state with phase := pending.nextPhase, pendingPublication := none }
            saveState

/-- **`publish`**: the intent, and its submission. -/
def publish (events : List Dict) (operation : UString) (nextPhase : Option Phase) : Session Unit := do
  let state ← Session.get
  preparePublication operation (nextPhase.getD state.phase) events
  publishPending

/-! ## Files -/

/-- What was found of a dispatch, if its file is bounded and private, and it belongs to the association of
    the host. -/
def admitted (config : HostConfig) : Option DispatchState → Command DispatchState
  | none => Command.fail "dispatch state is unavailable"
  | some state =>
    let status := config.status state.token
    if !status.regular ∨ 262144 < status.size then Command.fail "dispatch state is unavailable"
    else if status.mode.any (· ≠ 0o600) then Command.fail "dispatch state permissions must be 0600"
    else if config.workspace ∧ (state.associationProducer ≠ config.producer ∨ state.associationDigest ≠ config.bindingDigest) then
      Command.fail "dispatch state belongs to a retired workspace association"
    else pure state

/-- `read_state`, by the token. -/
def readState (config : HostConfig) (token : UString) : Command DispatchState := do
  let files ← Command.files
  admitted config (Table.lookup DispatchState.token token files)

/-- The states of all files, as `readState` returns them. -/
def readStates (config : HostConfig) : List UString → Command (List DispatchState)
  | [] => pure []
  | token :: tokens => do
    let state ← readState config token
    return state :: (← readStates config tokens)

/-- `matching_dispatch`: the file of a dispatch that is begun again, if there is one. -/
def matchingDispatch (config : HostConfig) (expected : Identity) : Command (Option DispatchState) := do
  let files ← Command.files
  if files.length > 4096 then Command.fail "dispatch state inventory exceeds the recovery bound"
  else
    let states ← readStates config (files.map DispatchState.token)
    match states.filter fun state => state.identity.featureId = expected.featureId ∧
        state.identity.itemId = expected.itemId ∧ state.identity.attemptId = expected.attemptId with
    | [] => return none
    | [state] =>
      if state.identity ≠ expected then Command.fail "dispatch attempt retry differs from its durable identity"
      else return some state
    | _ => Command.fail "dispatch identity is ambiguous in private state"

/-! ## Identities -/

/-- An ASCII letter or digit. -/
def isAlphanumeric (c : UInt16) : Bool :=
  decide (0x30 ≤ c ∧ c ≤ 0x39) || decide (0x41 ≤ c ∧ c ≤ 0x5A) || decide (0x61 ≤ c ∧ c ≤ 0x7A)

/-- The pattern of a bounded stable identity. -/
def isIdentity : UString → Bool
  | [] => false
  | c :: cs => isAlphanumeric c && cs.length ≤ 199 && cs.all fun c => isAlphanumeric c || c ∈ lit "._:/@+-"

/-- A value that has to be an identity. -/
def validateIdentity (name value : UString) : Command Unit :=
  if isIdentity value then pure () else Command.fail (name ++ lit " must be a bounded stable identity")

/-- One that may be missing. -/
def validateOptional (name : UString) : Option UString → Command Unit
  | none => pure ()
  | some value => validateIdentity name value

/-- The groups of a thread id. -/
def isThreadId (value : UString) : Bool :=
  let isGroup (n : Nat) (s : UString) : Bool := s.length = n && s.all isLowerHexDigit
  match value.splitOn 0x2D with
  | [a, b, c, d, e] => isGroup 8 a && isGroup 4 b && isGroup 4 c && isGroup 4 d && isGroup 12 e
  | _ => false

/-- A string that is there and not empty. -/
def present : Option UString → Bool
  | some (_ :: _) => true
  | _ => false

/-! ## Begin -/

/-- The runtime of a dispatch, in its events. -/
def runtime : UString := "collaboration-spawn-agent"

/-- The schema of an answer about a dispatch. -/
def dispatchSchema : UString := "fsgg.telemetry.roadmap-dispatch/1"

/-- Whether the usage of a dispatch can be collected, when it has ended. -/
def prospectiveCoverage (state : DispatchState) : UString :=
  if present state.hostParentThreadId then "native-collaboration-usage-unknown"
  else "native-collaboration-usage-unsupported"

/-- What a command answers about a dispatch. -/
def dispatchResult (state : DispatchState) (status : UString) : Dict :=
  [("schema", .text dispatchSchema), ("status", .text status), ("token", .text state.token),
    ("coverage", .text (prospectiveCoverage state))]

/-- The arguments of `begin`. -/
structure BeginArgs where
  feature : UString
  item : UString
  originalItem : Option UString
  attempt : UString
  parentAttempt : Option UString
  parentToken : Option UString
  relation : Relation
  producer : UString
  model : UString
  effort : UString
  lateAfterSeconds : Int

/-- The events that announce a dispatch: those of its feature and item only at the root. -/
def beginEvents (state : DispatchState) (timestamp : UString) : List Dict :=
  let identity := state.identity
  let item := some identity.itemId
  (if identity.relation = .root then
    [event "feature" identity.featureId none [("name", .text identity.featureId)],
      event "item" identity.itemId item [("featureId", .text identity.featureId)],
      event "budget-population" (digest platform "budget-population-" [identity.itemId, identity.originalItemId]) item
        [("originalItemId", .text identity.originalItemId), ("state", .text "open"), ("sourceKind", .text "native-item"),
          ("sourceRef", .text (digest platform "roadmap-dispatch:" [identity.itemId, identity.originalItemId]))],
      event "operational-activation" (lit "operational-activation-" ++ state.activationId) item
        [("activationId", .text state.activationId), ("scope", .text "explicit-future-dispatches"),
          ("runtime", .text runtime), ("activatedAt", .text timestamp), ("clockProvenance", .text "host-wall"),
          ("lateAfterSeconds", .integer identity.lateAfterSeconds)]]
  else []) ++
  (match identity.parentAttemptId with
  | some (c :: cs) =>
    [event "parent-child" (digest platform "parent-child-" [c :: cs, identity.attemptId]) item
      [("parentId", .text (c :: cs)), ("childId", .text identity.attemptId)]]
  | _ => []) ++
  [event "expected-dispatch" (lit "expected-dispatch-" ++ state.dispatchId) item
    [("dispatchId", .text state.dispatchId), ("activationId", .text state.activationId),
      ("relation", .text identity.relation.text), ("parentDispatchId", optional identity.parentDispatchId),
      ("runtime", .text runtime), ("expectedAt", .text timestamp), ("clockProvenance", .text "host-wall")]]

/-- The parent of a dispatch, with what it determines: the original item and its assignment. -/
def parentOf (config : HostConfig) (args : BeginArgs) (originalItem : UString) :
    Command (Option DispatchState × UString × Option UString) := do
  match args.parentToken with
  | some (c :: cs) =>
    let parent ← readState config (c :: cs)
    let originalItem := if args.originalItem = none then parent.identity.originalItemId else originalItem
    if parent.phase ≠ .started ∧ parent.phase ≠ .terminal then
      Command.fail "parent dispatch must be started before a child is expected"
    else if parent.identity.itemId ≠ args.item then
      Command.fail "parent and child dispatches must share the item identity"
    else if parent.identity.originalItemId ≠ originalItem then
      Command.fail "parent and child dispatches must share the original item identity"
    else return (some parent, originalItem, parent.identity.originalAssignmentDigest)
  | _ =>
    if args.relation ≠ .root then Command.fail "child and follow-up dispatches require --parent-token"
    else if originalItem ≠ args.item then
      match ← Command.ask (.authorizedOriginal args.feature args.item originalItem) with
      | .error message => Command.fail message
      | .ok digest => return (none, originalItem, some digest)
    else return (none, originalItem, none)

/-- The turns of a native child before a follow-up of it, if they can be known. -/
def baseline (relation : Relation) (hostParent : Option UString) (parent : Option DispatchState) :
    Command (List UString × Bool) := do
  match parent with
  | some parent =>
    if relation = .followUp ∧ present hostParent ∧ parent.hostParentThreadId = hostParent then
      match ← Command.ask (.collectNativeUsage (hostParent.getD []) (parent.nativeId.getD "None")) with
      | some prior => return (prior.allTurnIds, true)
      | none => return ([], false)
    else return ([], decide (relation ≠ .followUp))
  | none => return ([], decide (relation ≠ .followUp))

/-- The state of a new dispatch, with the identities that were drawn for it: its token, and those of its
    activation, dispatch and invocation. -/
def freshState (config : HostConfig) (expected : Identity) (hostParent : Option UString) (parent : Option DispatchState)
    (baseline : List UString × Bool) (drawn : UString × UString × UString × UString) : DispatchState :=
  { token := drawn.1, phase := .beginPending, sequence := 0, identity := expected,
    activationId := (parent.map DispatchState.activationId).getD drawn.2.1, dispatchId := drawn.2.2.1,
    invocationId := drawn.2.2.2,
    rootInvocationId := (parent.map DispatchState.rootInvocationId).getD drawn.2.2.2, nativeId := none,
    hostParentThreadId := hostParent, baselineTurnIds := baseline.1, usageBaselineKnown := baseline.2,
    associationProducer := config.producer, associationDigest := config.bindingDigest }

/-- What `begin` does when the dispatch has no file yet. -/
def beginNew (config : HostConfig) (expected : Identity) (hostParent : Option UString) (parent : Option DispatchState) :
    Command Dict := do
  if parent.any fun parent => parent.phase ≠ .started ∧
      ¬ (expected.relation = .followUp ∧ parent.phase = .terminal) then
    Command.fail "parent dispatch must be started before a child is expected"
  else
    let baseline ← baseline expected.relation hostParent parent
    let drawn ← Command.ask .uuids
    let timestamp ← Command.ask .now
    let state := freshState config expected hostParent parent baseline drawn
    (publish (beginEvents platform state timestamp) "begin" (some .expected)).runOn state
    return dispatchResult state "expected"

/-- What a dispatch is expected to be, of which the parent and what it determines are known. -/
def expectedIdentity (args : BeginArgs) (parent : Option DispatchState) (originalItem : UString)
    (assignmentDigest : Option UString) : Identity :=
  { featureId := args.feature, itemId := args.item, originalItemId := originalItem,
    originalAssignmentDigest := assignmentDigest, attemptId := args.attempt,
    parentAttemptId := args.parentAttempt, producerStream := args.producer, model := args.model,
    effort := args.effort, relation := if parent.isSome then args.relation else .root,
    parentDispatchId := parent.map DispatchState.dispatchId,
    parentInvocationId := parent.map DispatchState.invocationId, lateAfterSeconds := args.lateAfterSeconds }

/-- **`begin`**: the arguments are checked, the parent is read, and the dispatch is found again or is
    new. -/
def beginDispatch (config : HostConfig) (args : BeginArgs) : Command Dict := do
  validateIdentity "feature" args.feature
  validateIdentity "item" args.item
  let originalItem := match args.originalItem with
    | some (c :: cs) => c :: cs
    | _ => args.item
  validateIdentity "original item" originalItem
  validateIdentity "attempt" args.attempt
  validateOptional "parent attempt" args.parentAttempt
  validateIdentity "producer" args.producer
  validateIdentity "model" args.model
  validateIdentity "effort" args.effort
  if args.lateAfterSeconds < 0 then Command.fail "late-after-seconds must be non-negative"
  else
    let (parent, originalItem, assignmentDigest) ← parentOf config args originalItem
    let expected := expectedIdentity args parent originalItem assignmentDigest
    let hostThread ← Command.ask .codexThreadId
    let hostParent := if expected.relation = .root then none else hostThread.filter fun thread =>
      thread = [] || isThreadId thread
    match ← matchingDispatch config expected with
    | some existing =>
      if existing.phase = .beginPending then publishPending.runOn existing
      else if existing.phase ≠ .expected then
        Command.fail "dispatch attempt already progressed beyond expectation"
      else pure ()
      return dispatchResult existing "expected"
    | none => beginNew platform config expected hostParent parent

/-! ## Start and finish -/

/-- The events that say that the native child has started. -/
def startEvents (state : DispatchState) (nativeId timestamp : UString) : List Dict :=
  let identity := state.identity
  let item := some identity.itemId
  let invocation := state.invocationId
  [event "invocation-lineage" (lit "invocation-lineage-" ++ invocation) item
      [("dispatchId", .text state.dispatchId), ("invocationId", .text invocation),
        ("relation", .text identity.relation.text), ("parentInvocationId", optional identity.parentInvocationId),
        ("rootInvocationId", .text state.rootInvocationId), ("runtime", .text runtime)],
    event "runtime-admission" (lit "runtime-admission-" ++ invocation) item
      [("invocationId", .text invocation), ("featureId", .text identity.featureId),
        ("attemptId", .text identity.attemptId), ("parentAttemptId", optional identity.parentAttemptId),
        ("producerStream", .text identity.producerStream), ("requestedModel", .text identity.model),
        ("requestedEffort", .text identity.effort), ("backend", .text "codex-collaboration")],
    event "runtime-start" (lit "runtime-process-" ++ invocation) item
      [("invocationId", .text invocation), ("threadId", .text nativeId), ("turnId", .null), ("turnSequence", .null),
        ("processId", .integer 0), ("phase", .text "process")],
    event "event-time" (lit "event-time-" ++ invocation ++ lit "-admission") item
      [("invocationId", .text invocation), ("event", .text "admission"), ("occurredAt", .text timestamp),
        ("occurredClockProvenance", .text "host-wall"), ("observedAt", .text timestamp),
        ("observedClockProvenance", .text "host-wall")],
    event "event-time" (lit "event-time-" ++ invocation ++ lit "-start") item
      [("invocationId", .text invocation), ("event", .text "start"), ("occurredAt", .text timestamp),
        ("occurredClockProvenance", .text "host-wall"), ("observedAt", .text timestamp),
        ("observedClockProvenance", .text "host-wall")],
    event "runtime-gap" (lit "runtime-gap-" ++ invocation ++ lit "-native-process") item
      [("invocationId", .text invocation), ("code", .text "native-process-id-unavailable")]] ++
  if present state.hostParentThreadId then []
  else
    [event "runtime-gap" (lit "runtime-gap-" ++ invocation ++ lit "-native-usage") item
      [("invocationId", .text invocation), ("code", .text "native-collaboration-usage-unsupported")]]

/-- **`started`**: the first call names the native child; every later one has to name the same. -/
def started (config : HostConfig) (token nativeId : UString) : Command Dict := do
  let state ← readState config token
  validateIdentity "native id" nativeId
  if state.phase = .started then
    if state.nativeId ≠ some nativeId then Command.fail "started dispatch belongs to a different native identity"
    else return dispatchResult state "started"
  else if state.phase = .startPending then
    if state.nativeId ≠ some nativeId then Command.fail "pending start belongs to a different native identity"
    else
      publishPending.runOn state
      return dispatchResult state "started"
  else if state.phase ≠ .expected then Command.fail "dispatch must be expected before start"
  else
    let timestamp ← Command.ask .now
    (publish (startEvents state nativeId timestamp) "started" (some .started)).runOn
      { state with phase := .startPending, nativeId := some nativeId }
    return dispatchResult state "started"

/-- The events that say how the dispatch ended. -/
def finishEvents (state : DispatchState) (outcome : Outcome) (exitCode : Int) (timestamp : UString) : List Dict :=
  let item := some state.identity.itemId
  let invocation := state.invocationId
  [event "runtime-terminal" (lit "runtime-terminal-" ++ invocation) item
      [("invocationId", .text invocation), ("threadId", optional state.nativeId), ("outcome", .text outcome.text),
        ("exitCode", .integer exitCode)],
    event "event-time" (lit "event-time-" ++ invocation ++ lit "-terminal") item
      [("invocationId", .text invocation), ("event", .text "terminal"), ("occurredAt", .text timestamp),
        ("occurredClockProvenance", .text "host-wall"), ("observedAt", .text timestamp),
        ("observedClockProvenance", .text "host-wall")]]

/-! ## Usage -/

/-- The event that names the thread of the native child. -/
def threadEvent (state : DispatchState) (threadId : UString) : Dict :=
  event "runtime-start" (lit "runtime-thread-" ++ state.invocationId) (some state.identity.itemId)
    [("invocationId", .text state.invocationId), ("threadId", .text threadId), ("turnId", .null),
      ("turnSequence", .null), ("processId", .integer 0), ("phase", .text "thread")]

/-- `json.dumps` of the sequence and the usage of a turn, with sorted keys. -/
def turnText (turn : Turn) : UString :=
  lit "[" ++ natText turn.turnSequence ++ lit ", \x7b\"cached_input_tokens\": " ++ decimal turn.usage.cachedInputTokens ++
    lit ", \"input_tokens\": " ++ decimal turn.usage.inputTokens ++ lit ", \"output_tokens\": " ++
    decimal turn.usage.outputTokens ++ lit ", \"reasoning_output_tokens\": " ++
    decimal turn.usage.reasoningOutputTokens ++ lit ", \"total_tokens\": " ++ decimal turn.usage.totalTokens ++
    lit "\x7d]"

/-- The event with the usage of a turn. -/
def usageEvent (state : DispatchState) (native : NativeUsage) (turn : Turn) (revision : Nat) : Dict :=
  (lit "kind", .text "runtime-turn-usage") ::
    (lit "identity", .text (digest platform "runtime-turn-usage-" [state.invocationId, turn.turnId])) ::
    (lit "itemId", .text state.identity.itemId) :: (lit "revision", .integer revision) ::
    [("invocationId", .text state.invocationId), ("threadId", .text native.threadId), ("turnId", .text turn.turnId),
      ("turnSequence", .integer turn.turnSequence), ("provider", .text "openai"),
      ("requestedModel", .text state.identity.model), ("observedModel", optional native.model),
      ("requestedEffort", .text state.identity.effort), ("observedEffort", optional native.effort),
      ("backend", .text "codex-collaboration"), ("scope", .text "turn"),
      ("provenance", .text "codex-native-token-usage-record"), ("input", .integer turn.usage.inputTokens),
      ("cachedInput", .integer turn.usage.cachedInputTokens), ("output", .integer turn.usage.outputTokens),
      ("reasoning", .integer turn.usage.reasoningOutputTokens), ("total", .integer turn.usage.totalTokens)]

/-- The name of its publication. -/
def usageOperation (turnId : UString) (revision : Nat) : UString :=
  nativeUsage ++ turnId ++ 0x3A :: natText revision

/-- A state whose ledger has the entry of an intent, and that intends nothing. -/
def DispatchState.recorded (state : DispatchState) (intent : UsageIntent) : DispatchState :=
  let entry := (intent.turnId, LedgerEntry.mk intent.revision intent.hash)
  { state with usageLedger := Table.store Prod.fst entry state.usageLedger, usageIntent := none }

/-- A later revision, when there is one already. -/
def nextRevision (previous : Option (UString × LedgerEntry)) : Nat :=
  match previous with
  | none => 0
  | some entry => entry.2.revision + 1

/-- **The usage of a turn**: the revision is saved, published and entered into the ledger, unless the
    ledger has it already. -/
def publishTurn (native : NativeUsage) (turn : Turn) : Session Unit := do
  let state ← Session.get
  let previous := Table.lookup Prod.fst turn.turnId state.usageLedger
  let fingerprint := hexdigest platform (turnText turn)
  if previous.any fun entry => entry.2.hash = fingerprint then pure ()
  else do
    let intent : UsageIntent := { turnId := turn.turnId, revision := nextRevision previous, hash := fingerprint }
    Session.set { state with usageIntent := some intent }
    saveState
    publish [usageEvent platform state native turn intent.revision] (usageOperation turn.turnId intent.revision) none
    Session.set ((← Session.get).recorded intent)
    saveState

/-- The turns, one after the other. -/
def publishTurns (native : NativeUsage) : List Turn → Session Unit
  | [] => pure ()
  | turn :: turns => do
    publishTurn platform native turn
    publishTurns native turns

/-- Submits a thread event again that is pending. -/
def republishThread : Session Unit := do
  let state ← Session.get
  match state.pendingPublication with
  | some pending =>
    if pending.operation = "native-thread" then do
      publishPending
      Session.set { ← Session.get with nativeThreadPublished := true }
      saveState
    else pure ()
  | none => pure ()

/-- Records an intent in the ledger, after the publication that is pending, if there is one. -/
def settleIntent : Session Unit := do
  let state ← Session.get
  match state.usageIntent with
  | none => pure ()
  | some intent => do
    if state.pendingPublication.isSome then
      publishPending.catching fun failure => do
        let state ← Session.get
        if state.pendingPublication.isSome then Session.fail failure.message
        else do
          Session.set { state with usageIntent := none }
          saveState
          Session.fail failure.message
    else pure ()
    Session.set ((← Session.get).recorded intent)
    saveState

/-- The thread of the native child is published once. -/
def publishThread (native : NativeUsage) : Session Unit := do
  let state ← Session.get
  if state.nativeThreadPublished then pure ()
  else do
    if present state.nativeThreadId then pure ()
    else do
      Session.set { state with nativeThreadId := some native.threadId }
      saveState
    publish [threadEvent state native.threadId] "native-thread" none
    Session.set { ← Session.get with nativeThreadPublished := true }
    saveState

/-- **`reconcile_usage`**: what is pending is submitted again, then the turns that the host has are
    published. -/
def reconcileUsage : Session UString := do
  let state ← Session.get
  if state.phase ≠ .terminal ∨ ¬ present state.hostParentThreadId then return "native-collaboration-usage-unsupported"
  else if ¬ state.usageBaselineKnown then return "native-collaboration-usage-unknown"
  else do
    republishThread
    settleIntent
    let state ← Session.get
    match ← Session.ask (.collectNativeUsage (state.hostParentThreadId.getD []) (state.nativeId.getD "None")) with
    | none => return "native-collaboration-usage-unknown"
    | some native =>
      if present state.nativeThreadId ∧ state.nativeThreadId ≠ some native.threadId then
        Session.fail "native child thread changed for a dispatch"
      else do
        publishThread native
        let eligible := native.turns.filter fun turn => turn.turnId ∉ state.baselineTurnIds
        publishTurns platform native eligible
        return if native.complete ∧ eligible ≠ [] then "native-collaboration-usage-complete"
          else "native-collaboration-usage-unknown"

/-! ## The other commands -/

/-- The intent to end a dispatch, or its retry. -/
def terminate (outcome : Outcome) (explicit : Option Int) (exitCode : Int) : Session Unit := do
  let state ← Session.get
  if state.phase = .terminalPending ∨ state.phase = .terminal then do
    if state.phase = .terminal ∧ state.exitCode = none then
      if explicit.isSome then Session.fail "legacy terminal state cannot verify an explicit exit-code retry"
      else do
        Session.set { state with exitCode := some exitCode }
        saveState
    else pure ()
    let state ← Session.get
    if state.outcome ≠ some outcome ∨ state.exitCode ≠ some exitCode then
      Session.fail "terminal retry differs from the durable terminal intent"
    else if state.phase = .terminalPending then publishPending
    else pure ()
  else if state.phase = .started then do
    let timestamp ← Session.ask .now
    Session.set { state with phase := .terminalPending, outcome := some outcome, exitCode := some exitCode }
    publish (finishEvents state outcome exitCode timestamp) "finish" (some .terminal)
  else Session.fail "dispatch must be started before terminal"

/-- Whether the engine has delivered what it has. -/
def drained (completed : Completed) : UString := if completed.returncode = 0 then "complete" else "pending"

/-- What `finish` does when the dispatch has ended. -/
def conclude (token : UString) (outcome : Outcome) (relation : Relation) : Session Dict := do
  let coverage ← (reconcileUsage platform).catching fun _ => return "native-collaboration-usage-unknown"
  let drain ← Session.ask .drain
  let result : Dict :=
    [("schema", .text dispatchSchema), ("status", .text "terminal"), ("token", .text token),
      ("outcome", .text outcome.text), ("coverage", .text coverage), ("drain", .text (drained drain))]
  if drain.returncode = 0 ∧ outcome = .completed ∧ relation = .root then
    return result ++ [(lit "dashboardPublication", ← Session.ask .refreshDashboard)]
  else return result

/-- **`finish`**: the dispatch is ended, or its end is retried, and the usage is reconciled. -/
def finish (config : HostConfig) (token : UString) (outcome : Outcome) (explicit : Option Int) : Command Dict := do
  let state ← readState config token
  let exitCode := explicit.getD (if outcome = .completed then 0 else 1)
  if exitCode < 0 then Command.fail "exit-code must be non-negative"
  else
    let body : Session Dict := do
      terminate outcome explicit exitCode
      conclude platform token outcome state.identity.relation
    body.runOn state

/-- `usage-reconcile`: the reconciliation by itself. -/
def usageReconcile (config : HostConfig) (token : UString) : Command Dict := do
  let state ← readState config token
  let body : Session Dict := do
    let coverage ← reconcileUsage platform
    let drain ← Session.ask .drain
    return [("schema", .text "fsgg.telemetry.roadmap-usage/1"), ("status", .text "reconciled"), ("token", .text token),
      ("coverage", .text coverage), ("drain", .text (drained drain))]
  body.runOn state

/-- A value of a dictionary, as `str` shows it in the name of an operation. -/
def shown (key : UString) (value : Dict) : UString :=
  match (Table.lookup Prod.fst key value).map Prod.snd with
  | some (.text s) => s
  | some (.json s) => s
  | some (.integer n) => decimal n
  | _ => "None"

/-- `record_event`: an observation is published under the phase that the dispatch is in. -/
def recordEvent (value : Dict) : Session Dict := do
  publish [value] (lit "observation:" ++ shown "kind" value ++ 0x3A :: shown "identity" value) none
  let drain ← Session.ask .drain
  if drain.returncode ≠ 0 then
    Session.fail (if drain.stderr = [] then "telemetry observation drain failed" else drain.stderr)
  else
    let state ← Session.get
    let result : Dict :=
      [("schema", .text "fsgg.telemetry.roadmap-observation/1"), ("status", .text "recorded"),
        ("kind", .text (shown "kind" value))]
    if state.phase = .terminal ∧ state.identity.relation = .root then
      return result ++ [(lit "dashboardPublication", ← Session.ask .refreshDashboard)]
    else return result

/-- The observations of one kind: when they are taken, what is read of them, and what becomes of it. -/
structure ObservationKind where
  kind : UString
  admits : DispatchState → Option UString
  schema : UString
  fields : List UString
  identity : DispatchState → (UString → Value) → Except UString UString
  bound : DispatchState → Dict
  published : List UString

/-- What the four commands that record an observation have in common. -/
def observe (config : HostConfig) (token path : UString) (observation : ObservationKind) : Command Dict := do
  let state ← readState config token
  match observation.admits state with
  | some message => Command.fail message
  | none =>
    match ← Command.ask (.readContract path observation.schema observation.fields) with
    | .error message => Command.fail message
    | .ok value =>
      match observation.identity state value with
      | .error message => Command.fail message
      | .ok identity =>
        (recordEvent ((lit "kind", .text observation.kind) :: (lit "identity", .text identity) ::
          (observation.bound state ++ observation.published.map fun field => (field, value field)))).runOn state

/-- A text of an observation that has to be an identity. -/
def identityField (name field : UString) (value : UString → Value) : Except UString UString :=
  match value field with
  | .text s => if isIdentity s then .ok s else .error (name ++ lit " must be a bounded stable identity")
  | _ => .error (name ++ lit " must be a bounded stable identity")

/-- What a review is about. -/
inductive Scope where
  | attempt
  | item
  deriving DecidableEq

/-- The name of a scope. -/
def Scope.text : Scope → UString
  | .attempt => "attempt"
  | .item => "item"

/-- The fields of a process review, in their order. -/
def reviewFields : List UString :=
  ["revision", "outcomeSynopsis", "wentWell", "problems", "avoidableDelayOrRework", "processObservations",
    "remainingRisks", "concreteImprovements", "evidence", "evidenceCoverage", "populationCoverage", "confidence",
    "reviewerModel", "reviewerEffort", "reviewedAt", "durationSeconds"]

/-- **`process-review`**, of an attempt that has ended. -/
def review (config : HostConfig) (token path : UString) (scope : Scope) : Command Dict :=
  observe config token path
    { kind := "process-review"
      admits := fun state =>
        if state.phase ≠ .terminal then some "process review requires a terminal attempt"
        else if scope = .item ∧ state.identity.relation ≠ .root then
          some "item process review requires the root dispatch token"
        else none
      schema := "fsgg.telemetry.process-review-input/1"
      fields := reviewFields
      identity := fun state _ =>
        let subject := if scope = .attempt then state.identity.attemptId else state.identity.itemId
        .ok (digest platform "process-review-" [scope.text, state.identity.itemId, subject])
      bound := fun state =>
        [("itemId", .text state.identity.itemId), ("scope", .text scope.text),
          ("attemptId", if scope = .attempt then .text state.identity.attemptId else .null)]
      published := reviewFields }

/-- The fields of an activity span. -/
def activityFields : List UString :=
  ["revision", "activityId", "category", "startedAt", "endedAt", "clockProvenance", "evidence", "summary"]

/-- **`activity`**, of an attempt that has started. -/
def activity (config : HostConfig) (token path : UString) : Command Dict :=
  observe config token path
    { kind := "activity-span"
      admits := fun state =>
        if state.phase ≠ .started ∧ state.phase ≠ .terminal then some "activity span requires a started attempt" else none
      schema := "fsgg.telemetry.activity-span-input/1"
      fields := activityFields
      identity := fun state value => do
        return digest platform "activity-span-" [state.identity.itemId, ← identityField "activity" "activityId" value]
      bound := fun state =>
        [("itemId", .text state.identity.itemId), ("invocationId", .text state.invocationId),
          ("attemptId", .text state.identity.attemptId)]
      published := activityFields }

/-- The fields of an attribution of usage. -/
def attributionFields : List UString :=
  ["revision", "usageIdentity", "activityId", "classification", "input", "cachedInput", "output", "reasoning", "total"]

/-- **`usage-attribution`**, of an attempt that has ended. -/
def attribution (config : HostConfig) (token path : UString) : Command Dict :=
  observe config token path
    { kind := "activity-usage-attribution"
      admits := fun state =>
        if state.phase ≠ .terminal then some "usage attribution requires a terminal attempt" else none
      schema := "fsgg.telemetry.activity-usage-attribution-input/1"
      fields := attributionFields
      identity := fun state value => do
        let usage ← identityField "usage identity" "usageIdentity" value
        return digest platform "activity-usage-" [state.identity.itemId, usage]
      bound := fun state => [("itemId", .text state.identity.itemId)]
      published := attributionFields }

/-- The fields of a complication. -/
def complicationFields : List UString :=
  ["revision", "complicationId", "activityId", "trigger", "cause", "occurredAt", "synopsis", "evidence"]

/-- **`complication`**, of an attempt that has started. -/
def complication (config : HostConfig) (token path : UString) : Command Dict :=
  observe config token path
    { kind := "complication"
      admits := fun state =>
        if state.phase ≠ .started ∧ state.phase ≠ .terminal then some "complication requires a started attempt" else none
      schema := "fsgg.telemetry.complication-input/1"
      fields := complicationFields
      identity := fun state value => do
        let complicationId ← identityField "complication" "complicationId" value
        return digest platform "complication-" [state.identity.itemId, complicationId]
      bound := fun state =>
        [("itemId", .text state.identity.itemId), ("attemptId", .text state.identity.attemptId)]
      published := complicationFields.filter fun field => field ≠ lit "complicationId" }

/-- A command line. -/
inductive Request where
  | begin (args : BeginArgs)
  | started (token nativeId : UString)
  | finish (token : UString) (outcome : Outcome) (exitCode : Option Int)
  | usageReconcile (token : UString)
  | review (token input : UString) (scope : Scope)
  | activity (token input : UString)
  | usageAttribution (token input : UString)
  | complication (token input : UString)

/-- What a command line does. -/
def perform (config : HostConfig) : Request → Command Dict
  | .begin args => beginDispatch platform config args
  | .started token nativeId => started config token nativeId
  | .finish token outcome exitCode => finish platform config token outcome exitCode
  | .usageReconcile token => usageReconcile platform config token
  | .review token input scope => review platform config token input scope
  | .activity token input => activity platform config token input
  | .usageAttribution token input => attribution platform config token input
  | .complication token input => complication platform config token input

/-- Commands one after the other, each with the number of effects that its process lives to make. -/
def runFrom (outside : List (Entry Question.Answer) → (question : Question) → question.Answer)
    (w : Durable.World Files Question.Answer) (commands : List (HostConfig × Request × Nat)) :
    Durable.World Files Question.Answer :=
  runAll outside w (commands.map fun command => (perform platform command.1 command.2.1, command.2.2))

/-- **A run**: commands from the first one on, when there are no files yet. -/
def run (outside : List (Entry Question.Answer) → (question : Question) → question.Answer)
    (commands : List (HostConfig × Request × Nat)) : Durable.World Files Question.Answer :=
  runFrom platform outside { disk := [], log := [] } commands

end Code

end RoadmapTelemetry

end FsQuint
