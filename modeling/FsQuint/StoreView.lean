/-
  The system around the contract store, and how the specification of the protocol sees it.

  1. **The system** (`System`, `Event`): the store, and the handler to which a dispatcher gives the
     actions, which counts an effect once.
  2. **Workers** (`conforms`): what the processor and its chart do with the store.
  3. **The specification's view** (`world`, `operations`): leases are numbered by the claims of commands
     alone there, so a lease is renamed to its ordinal; an event is a few operations of the
     specification, or none.
-/
import FsQuint.Protocol
import FsQuint.StoreDelivery

namespace FsQuint

open Utf16

namespace ProtocolStore

open Protocol (World Op Cmd applyOp applyAll applyTo enabled enabledAll)

/-! ## The system -/

/-- The handler of the actions; with `undeduplicated` it counts an action's effect every time. -/
structure Handler where
  undeduplicated : Bool
  attempts : Nat := 0
  effects : Nat := 0
  seen : Finset (Nat × Nat) := ∅

/-- **The effect of an action is counted at its first delivery.** -/
def Handler.handle (h : Handler) (action : LeasedAction) : Handler :=
  { h with
    attempts := h.attempts + 1
    seen := insert action.key h.seen
    effects := if action.key ∉ h.seen ∨ h.undeduplicated then h.effects + 1 else h.effects }

/-- The store with the handler of its actions. -/
structure System where
  store : TestStore
  handler : Handler

/-- A request to the store, or a delivery to the handler. -/
inductive Event where
  | request (request : Request)
  | handle (action : LeasedAction)

/-- One event. -/
def System.after (s : System) : Event → System
  | .request request => { s with store := s.store.after request }
  | .handle action => { s with handler := s.handler.handle action }

/-- A run of the system. -/
def System.run (s : System) (events : List Event) : System := events.foldl System.after s

/-- The system without any of the faults. -/
def System.correct : System := ⟨TestStore.create false false, { undeduplicated := false }⟩

/-- What the example projects to the specification's observation. -/
def System.project (s : System) : Protocol.Observation :=
  let metrics := s.store.metrics
  { submitted := metrics.submitted, epochs := metrics.epochs.map fun e : Nat => (e : Int), amounts := metrics.amounts
    commits := metrics.commits, queued := metrics.queued, acknowledged := metrics.acknowledged
    fenced := metrics.fenced, dead := metrics.dead, rejected := metrics.rejected
    winners := metrics.winners.map fun token : Nat => (token : Int)
    deliveryAttempts := s.handler.attempts, effects := s.handler.effects }

/-! ## Workers -/

/-- What workers ask for: commands of the two entities; three attempts at a command; a commit of what the
    chart computes from the snapshot, with its one action; an acknowledgement of what is pending. -/
def conforms (s : System) : Event → Bool
  | .request (.submit c) => TestStore.entities.contains c.entityId
  | .request (.reschedule id lease) =>
    (s.store.row id).all fun r => !s.store.owns r lease || decide (r.record.attempts + 1 < 3)
  | .request (.deadLetter id lease) =>
    (s.store.row id).all fun r => !s.store.owns r lease || decide (3 ≤ r.record.attempts + 1)
  | .request (.commit id lease expected draft) =>
    (s.store.row id).all fun r => !s.store.owns r lease ||
      decide (draft.entityId = r.record.entityId ∧ draft.actions.length = 1 ∧
        (expected = (s.store.snapshot draft.entityId).epoch →
          draft.toState = (s.store.snapshot draft.entityId).state + r.record.event))
  | .request (.complete action) => s.store.pending.any fun a => a.key = action.key
  | .request (.abandon _) => false
  | .handle action => action.work.ordinal = 0
  | _ => true

/-- Every event of a run is one that a worker makes in the state that it finds. -/
def conformsAll : System → List Event → Bool
  | _, [] => true
  | s, event :: events => conforms s event && conformsAll (s.after event) events

/-! ## The specification's view -/

/-- The number of a lease among those of the claims of commands, from 1 on; 0 before the first lease,
    and -1 for what was never such a lease. -/
def ordinal (issued : List Nat) (token : Nat) : Int :=
  if token ∈ issued then issued.idxOf token + 1 else if token = 0 then 0 else -1

/-- What the specification knows and the system does not: which leases were those of commands, and in
    which order the effects happened. -/
structure Ghost where
  issued : List Nat := []
  delivered : List Int := []

/-- The index of a command. -/
def index (id : Nat) : Int := id - 1

/-- The number of an entity; 2 for those that the test does not have. -/
def entityIndex (entity : UString) : Int := (TestStore.entities.idxOf entity : Nat)

/-- The status of a command, as the specification calls it. -/
def statusOf : CommandStatus → Protocol.Status
  | .ready => .ready
  | .leased => .leased
  | .succeeded => .done
  | .rejected => .rejected
  | .deadLettered => .dead

/-- The specification counts the failure that ends a command; the store does not. -/
def failures (r : Row) : Int := r.record.attempts + if r.record.status = .deadLettered then 1 else 0

/-- A row, as the specification sees it. -/
def command (issued : List Nat) (r : Row) : Cmd where
  entity := entityIndex r.record.entityId
  payload := r.record.event
  status := statusOf r.record.status
  token := ordinal issued r.token
  failures := failures r

/-- **The specification’s view of a system.** -/
def world (g : Ghost) (s : System) : World where
  commands := s.store.commands.map (command g.issued)
  epochs := TestStore.entities.map fun entity => ((s.store.snapshot entity).epoch : Int)
  amounts := TestStore.entities.map fun entity => (s.store.snapshot entity).state
  history := s.store.history.map fun c => index c.commandId
  outbox := s.store.pending.map fun a => index a.work.commandId
  effects := g.delivered
  acked := s.store.acknowledged
  attempts := s.handler.attempts
  fenced := s.store.fenced
  dead := s.store.count .deadLettered
  rejected := s.store.count .rejected
  serial := g.issued.length

/-- The command that a submission is answered with. -/
def SubmitOutcome.commandId : SubmitOutcome → Nat
  | .accepted id => id
  | .alreadySubmitted id => id

/-- The operations that an event is for the specification. -/
def operations (g : Ghost) (s : System) : Event → List Op
  | .request (.submit c) =>
    [⟨.submit, index (s.store.submit c).1.commandId, entityIndex c.entityId, c.event⟩]
  | .request (.claim machine batch) =>
    (s.store.claim machine batch).1.map fun w => ⟨.claim, index w.work.commandId, 0, 0⟩
  | .request (.reschedule id lease) | .request (.deadLetter id lease) =>
    if (s.store.row id).any fun r => s.store.owns r lease then [⟨.fail, index id, 0, 0⟩] else []
  | .request (.reject id lease) =>
    if (s.store.row id).any fun r => s.store.owns r lease then [⟨.reject, index id, 0, 0⟩] else []
  | .request (.commit id lease expected draft) =>
    match s.store.row id with
    | none => []
    | some r =>
      -- a commit that is refused for its epoch, or that fails before it happens, is none
      if s.store.owns r lease && (expected ≠ (s.store.snapshot draft.entityId).epoch || s.store.failCommit) then []
      else [⟨.commit, index id, 0, ordinal g.issued lease⟩]
  | .request (.complete action) =>
    if s.store.loseAck then [] else [⟨.ack, index action.work.commandId, 0, 0⟩]
  | .request .expire =>
    (s.store.commands.filter fun r => r.record.status = .leased).map fun r => ⟨.expire, index r.id, 0, 0⟩
  | .handle action => [⟨.deliver, index action.work.commandId, 0, 0⟩]
  | _ => []

/-- How that knowledge grows. -/
def Ghost.after (g : Ghost) (s : System) : Event → Ghost
  | .request (.claim machine batch) =>
    { g with issued := g.issued ++ (s.store.claim machine batch).1.map LeasedCommand.token }
  | .handle action =>
    if action.key ∈ s.handler.seen then g else { g with delivered := g.delivered ++ [index action.work.commandId] }
  | _ => g

/-- The operations of a run, and what the specification knows after it. -/
def translate (g : Ghost) (s : System) : List Event → List Op × Ghost
  | [] => ([], g)
  | event :: events =>
    let (ops, after) := translate (g.after s event) (s.after event) events
    (operations g s event ++ ops, after)

/-! ## Ordinals -/

variable {token lease : Nat} {issued : List Nat}

/-- A row without a lease has ordinal 0. -/
theorem ordinal_zero (h : 0 ∉ issued) : ordinal issued 0 = 0 := by rw [ordinal, if_neg h, if_pos rfl]

/-- A new lease leaves the ordinals of the others. -/
theorem ordinal_append_of_known (h : token = 0 ∨ token ∈ issued) (h₀ : lease ≠ 0) :
    ordinal (issued ++ [lease]) token = ordinal issued token := by
  by_cases hmem : token ∈ issued
  · rw [ordinal, ordinal, if_pos hmem, if_pos (List.mem_append_left _ hmem), List.idxOf_append_of_mem hmem]
  · have hzero := h.resolve_right hmem
    have hnot : token ∉ issued ++ [lease] := by
      rw [List.mem_append, List.mem_singleton, not_or]
      exact ⟨hmem, hzero ▸ h₀.symm⟩
    rw [ordinal, ordinal, if_neg hmem, if_neg hnot]

/-- It gets the next one itself. -/
theorem ordinal_append_self (h : lease ∉ issued) : ordinal (issued ++ [lease]) lease = issued.length + 1 := by
  rw [ordinal, if_pos (List.mem_append_right _ List.mem_cons_self), List.idxOf_append_of_notMem h,
    List.idxOf_cons_self, Nat.add_zero]

/-- The renaming keeps the order of the leases. -/
theorem ordinal_lt (hasc : issued.Pairwise (· < ·)) (h : token ∈ issued) (h' : lease ∈ issued)
    (hlt : token < lease) : ordinal issued token < ordinal issued lease := by
  have hi := List.idxOf_lt_length_of_mem h
  have hi' := List.idxOf_lt_length_of_mem h'
  have hidx : issued.idxOf token < issued.idxOf lease := by
    by_contra hge
    rcases Nat.lt_or_eq_of_le (Nat.le_of_not_lt hge) with hgt | heq
    · have := List.pairwise_iff_getElem.mp hasc _ _ hi' hi hgt
      rw [List.getElem_idxOf, List.getElem_idxOf] at this
      omega
    · have := List.getElem_idxOf hi
      have := List.getElem_idxOf hi'
      simp only [heq] at this
      omega
  rw [ordinal, ordinal, if_pos h, if_pos h']
  omega

/-- A lease is renamed to the ordinal of a row's lease only if it is the same. -/
theorem ordinal_eq_iff (hasc : issued.Pairwise (· < ·)) (h₀ : 0 ∉ issued) (h : token = 0 ∨ token ∈ issued) :
    ordinal issued token = ordinal issued lease ↔ token = lease := by
  refine ⟨fun heq => ?_, fun heq => by rw [heq]⟩
  by_cases hlease : lease ∈ issued
  · rcases h with rfl | hmem
    · rw [ordinal_zero h₀, ordinal, if_pos hlease] at heq
      omega
    · rcases Nat.lt_trichotomy token lease with hlt | heq' | hgt
      · have := ordinal_lt hasc hmem hlease hlt
        omega
      · exact heq'
      · have := ordinal_lt hasc hlease hmem hgt
        omega
  · have hnone : ordinal issued lease = if lease = 0 then 0 else -1 := if_neg hlease
    rw [hnone] at heq
    rcases h with rfl | hmem
    · rw [ordinal_zero h₀] at heq
      split at heq
      · next hzero => exact hzero.symm
      · omega
    · rw [ordinal, if_pos hmem] at heq
      split at heq <;> omega

end ProtocolStore

end FsQuint
