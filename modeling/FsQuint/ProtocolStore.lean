/-
  The contract store of the protocol example: a shared store for workers that claim commands under
  leases, commit them once, and hand the actions of a commit to a dispatcher.

  1. Every member runs under one lock, so a run of the store is a sequence of requests, whatever
     workers they come from (`serve`, `run`).  Only `Commit` awaits before its lock: `commitCalled`
     is what it does before, `commit` what it does under the lock.
  2. The rows are mutable objects that are found by their command's id; a change of one is an update
     of the first row with the id.
  3. A request for an id that no row has raises `KeyNotFoundException` and changes nothing
     (`serve` answers `none`).
  4. Identities, tokens and epochs are 64-bit counters there, and the counts and the states of the
     entities are 32-bit integers; they are natural numbers and integers here, so that what is shown of
     a run is shown of the runs in which none of them overflows.
-/
import Mathlib.Data.Finset.Basic
import FsQuint.Lib.Table
import FsQuint.ReplayTypes

namespace FsQuint

open Utf16

namespace ProtocolStore

/-! ## Records -/

/-- Where a command is; the last three are final. -/
inductive CommandStatus where
  | ready
  | leased
  | succeeded
  | rejected
  | deadLettered
  deriving DecidableEq

/-- A command, with its place among the commands of its entity. -/
structure CommandRecord where
  commandId : Nat
  machineId : UString
  entityId : UString
  sequence : Nat
  idempotencyKey : UString
  chartVersion : Nat
  event : Int
  status : CommandStatus
  attempts : Nat

/-- A command in the store: the token of its last lease, and how often it was leased. -/
structure Row where
  record : CommandRecord
  token : Nat
  deliveries : Nat

/-- What a caller submits. -/
structure CommandSubmission where
  machineId : UString
  entityId : UString
  idempotencyKey : UString
  chartVersion : Nat
  event : Int

/-- What a worker wants to commit. -/
structure TransitionDraft where
  machineId : UString
  entityId : UString
  actions : List UString
  fromState : Int
  toState : Int

/-- A draft that was committed, with the epoch that it began. -/
structure CommittedTransition where
  draft : TransitionDraft
  epoch : Nat
  commandId : Nat
  chartVersion : Nat

/-- The state of an entity, and how many commits led to it. -/
structure Snapshot where
  state : Int
  epoch : Nat
  deriving DecidableEq

/-- An action of a committed transition, at its place in the draft. -/
structure ActionWork where
  machineId : UString
  entityId : UString
  commandId : Nat
  epoch : Nat
  ordinal : Nat
  action : UString
  deriving DecidableEq

/-- A leased action; its token is `none` as long as it is not claimed. -/
structure LeasedAction where
  work : ActionWork
  token : Option Nat
  deliveryCount : Nat

/-- A command as a worker gets it. -/
structure LeasedCommand where
  work : CommandRecord
  token : Nat
  deliveryCount : Nat

/-- A submission is accepted, or was made before. -/
inductive SubmitOutcome where
  | accepted (id : Nat)
  | alreadySubmitted (id : Nat)

/-- The answer to a request that needs a lease. -/
inductive LeaseUpdateOutcome where
  | updated
  | leaseLost
  deriving DecidableEq

/-- The answer to a request that ends a command. -/
inductive FinalizeOutcome where
  | finalized (epoch : Nat)
  | alreadyFinalized (epoch : Nat)
  | conflict (expected actual : Nat)
  | leaseLost
  deriving DecidableEq

/-- The faults that the test injects. -/
inductive StoreError where
  | unavailable (message : UString)
  deriving DecidableEq

/-- The key of a row. -/
def Row.id (r : Row) : Nat := r.record.commandId

/-- The entity and the idempotency key of a command. -/
def Row.identity (r : Row) : UString × UString := (r.record.entityId, r.record.idempotencyKey)

/-- A row whose status changes. -/
def Row.withStatus (status : CommandStatus) (r : Row) : Row :=
  { r with record := { r.record with status := status } }

/-- A row under a new lease. -/
def Row.lease (token : Nat) (r : Row) : Row :=
  { r.withStatus .leased with token := token, deliveries := r.deliveries + 1 }

/-- A row that is handed back, to be tried again. -/
def Row.retry (r : Row) : Row :=
  { r with record := { r.record with status := .ready, attempts := r.record.attempts + 1 } }

/-- A row whose lease expires; the token stays, so that the old lease is still told from the next. -/
def Row.expire (r : Row) : Row := if r.record.status = .leased then r.withStatus .ready else r

/-- A row whose command was committed under a lease. -/
def Row.succeed (lease : Nat) (r : Row) : Row := { r.withStatus .succeeded with token := lease }

/-- The key under which an action is active and is acknowledged. -/
def LeasedAction.key (a : LeasedAction) : Nat × Nat := (a.work.commandId, a.work.ordinal)

/-! ## The store -/

/-- The store: two switches that make it faulty, what it holds, its counters, and the faults that the
    test asks for. -/
structure TestStore where
  ignoreFence : Bool
  duplicateFinalize : Bool
  commands : List Row := []
  history : List CommittedTransition := []
  snapshots : UString → Option Snapshot := fun _ => none
  pending : List LeasedAction := []
  activeActions : Finset (Nat × Nat) := ∅
  token : Nat := 0
  fenced : Nat := 0
  acknowledged : Nat := 0
  loseCommitResponse : Bool := false
  loseAck : Bool := false
  failCommit : Bool := false
  lastCommit : Option (Nat × Nat × Nat × TransitionDraft) := none

/-- A command that is finished does not block the later ones of its entity. -/
def final (status : CommandStatus) : Bool :=
  status = .succeeded || status = .rejected || status = .deadLettered

namespace TestStore

variable (store : TestStore)

/-- The row of a command. -/
def row (id : Nat) : Option Row := Table.lookup Row.id id store.commands

/-- The row of a command is changed. -/
def amend (id : Nat) (change : Row → Row) : TestStore :=
  { store with commands := Table.update Row.id id change store.commands }

/-- An entity without commits is in state 0, at epoch 0. -/
def snapshot (entity : UString) : Snapshot := (store.snapshots entity).getD ⟨0, 0⟩

/-- **The fence**: the lease is the last one of the row, and the row is leased. -/
def owns (r : Row) (lease : Nat) : Bool :=
  (store.ignoreFence || r.token = lease) && r.record.status = .leased

/-! ### The inbox -/

/-- `Submit`: the entity and the idempotency key identify a command. -/
def submit (s : CommandSubmission) : SubmitOutcome × TestStore :=
  match store.commands.find? fun r => r.identity = (s.entityId, s.idempotencyKey) with
  | some r => (.alreadySubmitted r.id, store)
  | none =>
    let id := store.commands.length + 1
    let sequence := 1 + (store.commands.filter fun r => r.record.entityId = s.entityId).length
    let record : CommandRecord :=
      { commandId := id, machineId := s.machineId, entityId := s.entityId, sequence := sequence
        idempotencyKey := s.idempotencyKey, chartVersion := s.chartVersion, event := s.event
        status := .ready, attempts := 0 }
    (.accepted id, { store with commands := store.commands ++ [⟨record, 0, 0⟩] })

/-- No earlier command of the entity is unfinished. -/
def unblocked (r : Row) : Bool :=
  !store.commands.any fun earlier =>
    earlier.record.entityId = r.record.entityId && decide (earlier.record.sequence < r.record.sequence) &&
      !final earlier.record.status

/-- The rows that `Claim` may lease, in the order of submission. -/
def eligible (machine : UString) : List Row :=
  store.commands.filter fun r =>
    r.record.machineId = machine && r.record.status = .ready && store.unblocked r

/-- Leases the rows in turn. -/
def leaseAll (store : TestStore) : List Row → List LeasedCommand × TestStore
  | [] => ([], store)
  | r :: rows =>
    let token := store.token + 1
    let leased := Row.lease token r
    let (work, after) := leaseAll ({ store with token := token }.amend r.id (Row.lease token)) rows
    (⟨leased.record, token, leased.deliveries⟩ :: work, after)

/-- `Claim` of the inbox. -/
def claim (machine : UString) (batch : Int) : List LeasedCommand × TestStore :=
  leaseAll store ((store.eligible machine).take batch.toNat)

/-- `Reschedule` of the inbox. -/
def reschedule (id lease : Nat) : Option (LeaseUpdateOutcome × TestStore) := do
  let r ← store.row id
  if store.owns r lease then
    return (.updated, store.amend id Row.retry)
  else return (.leaseLost, store)

/-- `ExtendLease`, which says whether the lease is still held. -/
def extendLease (id lease : Nat) : Option (LeaseUpdateOutcome × TestStore) := do
  let r ← store.row id
  return (if store.owns r lease then .updated else .leaseLost, store)

/-! ### Finalizing -/

/-- The actions of a committed transition, as they enter the queue. -/
def enqueued (committed : CommittedTransition) : List LeasedAction :=
  committed.draft.actions.mapIdx fun ordinal action =>
    ⟨⟨committed.draft.machineId, committed.draft.entityId, committed.commandId, committed.epoch, ordinal, action⟩,
      none, 0⟩

/-- What a commit does once it has passed every check. -/
def record (id lease : Nat) (committed : CommittedTransition) : TestStore :=
  { store.amend id (Row.succeed lease) with
    history := store.history ++ [committed]
    snapshots := Function.update store.snapshots committed.draft.entityId
      (some ⟨committed.draft.toState, committed.epoch⟩)
    pending := store.pending ++ enqueued committed }

/-- `Commit` before its lock. -/
def commitCalled (id lease expected : Nat) (draft : TransitionDraft) : TestStore :=
  { store with lastCommit := some (id, lease, expected, draft) }

/-- `Commit` under its lock. -/
def commit (id lease expected : Nat) (draft : TransitionDraft) :
    Option (Except StoreError FinalizeOutcome × TestStore) := do
  let r ← store.row id
  let previous := store.snapshot draft.entityId
  if r.record.status = .succeeded && r.token = lease && !store.duplicateFinalize then
    return (.ok (.alreadyFinalized previous.epoch), store)
  else if !store.owns r lease && !(store.duplicateFinalize && r.record.status = .succeeded) then
    return (.ok .leaseLost, { store with fenced := store.fenced + 1 })
  else if expected ≠ previous.epoch && !store.duplicateFinalize then
    return (.ok (.conflict expected previous.epoch), store)
  else if store.failCommit then
    return (.error (.unavailable "injected before commit"), store)
  else
    let epoch := previous.epoch + 1
    let after := store.record id lease ⟨draft, epoch, id, r.record.chartVersion⟩
    if after.loseCommitResponse then
      return (.error (.unavailable "injected after atomic commit"), { after with loseCommitResponse := false })
    else return (.ok (.finalized epoch), after)

/-- `Reject` and `DeadLetter`: the command ends with a status. -/
def finish (status : CommandStatus) (id lease : Nat) : Option (FinalizeOutcome × TestStore) := do
  let r ← store.row id
  if store.owns r lease then
    return (.finalized (store.snapshot r.record.entityId).epoch, store.amend id (Row.withStatus status))
  else return (.leaseLost, store)

/-- `Reject`. -/
def reject (id lease : Nat) : Option (FinalizeOutcome × TestStore) := store.finish .rejected id lease

/-- `DeadLetter`. -/
def deadLetter (id lease : Nat) : Option (FinalizeOutcome × TestStore) := store.finish .deadLettered id lease

/-- `History` of an entity. -/
def historyOf (entity : UString) : List CommittedTransition :=
  store.history.filter fun t => t.draft.entityId = entity

/-- `TryGetResult`: the committed transition, or `none` for `Pending`. -/
def tryGetResult (id : Nat) : Option CommittedTransition :=
  store.history.find? fun t => t.commandId = id

/-! ### The action queue -/

/-- Leases the actions in turn. -/
def activateAll (store : TestStore) : List LeasedAction → List LeasedAction × TestStore
  | [] => ([], store)
  | a :: actions =>
    let token := store.token + 1
    let (work, after) := activateAll
      { store with token := token, activeActions := insert a.key store.activeActions } actions
    ({ a with token := some token, deliveryCount := a.deliveryCount + 1 } :: work, after)

/-- `Claim` of the action queue. -/
def claimActions (batch : Int) : List LeasedAction × TestStore :=
  activateAll store ((store.pending.filter fun a => a.key ∉ store.activeActions).take batch.toNat)

/-- The queue without an action. -/
def withoutAction (key : Nat × Nat) : List LeasedAction := store.pending.filter fun a => a.key ≠ key

/-- `Complete`: the action is no longer active, even if the acknowledgement is lost. -/
def complete (action : LeasedAction) : Except StoreError LeaseUpdateOutcome × TestStore :=
  let store := { store with activeActions := store.activeActions.erase action.key }
  if store.loseAck then
    (.error (.unavailable "injected acknowledgment loss"), { store with loseAck := false })
  else
    (.ok .updated, { store with pending := store.withoutAction action.key
                                acknowledged := store.acknowledged + 1 })

/-- `Reschedule` of the action queue. -/
def rescheduleAction (action : LeasedAction) : LeaseUpdateOutcome × TestStore :=
  (.updated, { store with activeActions := store.activeActions.erase action.key })

/-- `Abandon`: the action leaves the queue and stays active. -/
def abandon (action : LeasedAction) : LeaseUpdateOutcome × TestStore :=
  (.updated, { store with pending := store.withoutAction action.key })

/-! ### The controls of the test -/

/-- Every lease expires. -/
def expire : TestStore :=
  { store with commands := store.commands.map Row.expire, activeActions := ∅ }

/-- What the test compares with the model's observation. -/
structure Metrics where
  submitted : Nat
  epochs : List Nat
  amounts : List Int
  commits : Nat
  queued : Nat
  acknowledged : Nat
  fenced : Nat
  dead : Nat
  rejected : Nat
  winners : List Nat
  deriving DecidableEq

/-- The two entities of the test. -/
def entities : List UString := [lit "one", lit "two"]

/-- How many commands have a status. -/
def count (status : CommandStatus) : Nat :=
  (store.commands.filter fun r => r.record.status = status).length

/-- The metrics of a store. -/
def metrics : Metrics where
  submitted := store.commands.length
  epochs := entities.map fun entity => (store.snapshot entity).epoch
  amounts := entities.map fun entity => (store.snapshot entity).state
  commits := store.history.length
  queued := store.pending.length
  acknowledged := store.acknowledged
  fenced := store.fenced
  dead := store.count .deadLettered
  rejected := store.count .rejected
  winners := (store.commands.filter fun r => r.record.status = .succeeded).map Row.token

end TestStore

/-! ## Runs -/

/-- The members that a worker or the test calls, with their arguments. -/
inductive Request where
  | submit (s : CommandSubmission)
  | claim (machine : UString) (batch : Int)
  | reschedule (id lease : Nat)
  | extendLease (id lease : Nat)
  | commitCalled (id lease expected : Nat) (draft : TransitionDraft)
  | commit (id lease expected : Nat) (draft : TransitionDraft)
  | reject (id lease : Nat)
  | deadLetter (id lease : Nat)
  | claimActions (batch : Int)
  | complete (action : LeasedAction)
  | rescheduleAction (action : LeasedAction)
  | abandon (action : LeasedAction)
  | expire
  | setLoseCommitResponse (value : Bool)
  | setLoseAck (value : Bool)
  | setFailCommit (value : Bool)

/-- What they answer. -/
inductive Response where
  | submitted (outcome : SubmitOutcome)
  | claimed (work : List LeasedCommand)
  | updated (outcome : LeaseUpdateOutcome)
  | finalized (outcome : Except StoreError FinalizeOutcome)
  | claimedActions (work : List LeasedAction)
  | acknowledged (outcome : Except StoreError LeaseUpdateOutcome)
  | done

/-- An answer of a member, as the answer of a request. -/
def respond {α : Type} (response : α → Response) : α × TestStore → Response × TestStore
  | (answer, store) => (response answer, store)

/-- One request: what it answers and the store after it, or `none` when it raises. -/
def TestStore.serve (store : TestStore) : Request → Option (Response × TestStore)
  | .submit s => some (respond .submitted (store.submit s))
  | .claim machine batch => some (respond .claimed (store.claim machine batch))
  | .reschedule id lease => (store.reschedule id lease).map (respond .updated)
  | .extendLease id lease => (store.extendLease id lease).map (respond .updated)
  | .commitCalled id lease expected draft => some (.done, store.commitCalled id lease expected draft)
  | .commit id lease expected draft => (store.commit id lease expected draft).map (respond .finalized)
  | .reject id lease => (store.reject id lease).map (respond fun outcome => .finalized (.ok outcome))
  | .deadLetter id lease => (store.deadLetter id lease).map (respond fun outcome => .finalized (.ok outcome))
  | .claimActions batch => some (respond .claimedActions (store.claimActions batch))
  | .complete action => some (respond .acknowledged (store.complete action))
  | .rescheduleAction action => some (respond .updated (store.rescheduleAction action))
  | .abandon action => some (respond .updated (store.abandon action))
  | .expire => some (.done, store.expire)
  | .setLoseCommitResponse value => some (.done, { store with loseCommitResponse := value })
  | .setLoseAck value => some (.done, { store with loseAck := value })
  | .setFailCommit value => some (.done, { store with failCommit := value })

/-- The store after one request. -/
def TestStore.after (store : TestStore) (request : Request) : TestStore :=
  ((store.serve request).map Prod.snd).getD store

/-- The store after a sequence of requests, of whatever workers. -/
def TestStore.run (store : TestStore) (requests : List Request) : TestStore :=
  requests.foldl TestStore.after store

/-- The store as the test constructs it. -/
def TestStore.create (ignoreFence duplicateFinalize : Bool) : TestStore :=
  { ignoreFence := ignoreFence, duplicateFinalize := duplicateFinalize }

end ProtocolStore

end FsQuint
