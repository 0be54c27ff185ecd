/-
  The bounded queue: its specification, and the program that replays runs of it.

  1. **Specification** (`State`, `take`): a queue of capacity two, with all that was ever put in and taken
     out of it.
  2. **Program** (`run`): the states of a document become a trace, and a queue of its own is replayed
     against it.  Two switches break it: `broken` takes the last item out instead of the first, and
     `mutate` hides the items from the projection.  The actions of the steps are a constant of the
     program; `runOf` has them as a parameter.
  3. **The same queue** (`reduce_follows`): unbroken, the program accepts exactly what the specification
     enables, and stays fifo and within its capacity.
  4. **The verdict** (`replay_verdict`): on the document of any run of the specification the program finds
     equivalence, or the first move that gives its defect away; with its own actions it passes the three
     controls that it ends with.
-/
import FsQuint.DifferingPath
import FsQuint.PureReplay
import FsQuint.Sealing

namespace FsQuint

open Utf16 Decimal Collections Json Unordered QuintReplay ReplayInternal Replay

namespace BoundedQueue

/-! ## The specification -/

/-- The state of the queue model: what is in the queue, and what went in and out. -/
structure State where
  items : List Int
  inserted : List Int
  removed : List Int
  deriving DecidableEq

/-- There is room for two. -/
def canEnqueue (s : State) : Bool := s.items.length < 2

/-- At the end. -/
def enqueue (s : State) (value : Int) : State :=
  { s with items := s.items ++ [value], inserted := s.inserted ++ [value] }

/-- The empty queue. -/
def init : State := { items := [], inserted := [], removed := [] }

/-- There is something in it. -/
def canDequeue (s : State) : Bool := s.items.length > 0

/-- From the front; `none` where the list has none. -/
def dequeue (s : State) : Option State := do
  return { s with items := ← QuintList.tail s.items, removed := s.removed ++ [← QuintList.head s.items] }

/-- The actions of the model. -/
inductive Action where
  | enqueueAction (value : Int)
  | dequeueAction
  deriving DecidableEq

/-- The state after an action, where that is enabled. -/
def take (s : State) : Action → Option State
  | .enqueueAction value => if canEnqueue s then some (enqueue s value) else none
  | .dequeueAction => if canDequeue s then dequeue s else none

/-- **What went in came out in its order, or is still there.** -/
def fifo (s : State) : Prop := s.inserted = s.removed ++ s.items

/-- The actions among which `step` chooses. -/
def chosen : Action → Bool
  | .enqueueAction value => value = 1 || value = 2
  | .dequeueAction => true

/-- One action of a run. -/
structure Move where
  source : State
  action : Action
  target : State

/-- A run of `step`: every move is enabled, and starts where the one before it ended. -/
def Run : State → List Move → Prop
  | _, [] => True
  | s, move :: moves =>
    move.source = s ∧ chosen move.action = true ∧ take s move.action = some move.target ∧ Run move.target moves

/-! ## The program -/

section Program

variable (platform : Platform) (printed : ItfValue → UString)

/-- A refusal is raised, with its diagnostics as the message. -/
def unwrap {α : Type} : Result α → Outcome α
  | .ok value => .ok value
  | .error diagnostics => .error ⟨.other, platform.formatDiagnostics diagnostics⟩

/-- SHA-256 of the UTF-8 text, in lower-case hexadecimal. -/
def hash (s : UString) : NString := some (lowerHex (platform.hashData (getBytesLossy s)))

/-- A state with its fingerprint. -/
def state (bindings : List (NString × QuintReplayValue)) : Outcome QuintReplayState := do
  let draft : QuintReplayState := { identity := "", bindings := bindings }
  return { draft with identity := some (← unwrap platform (← QuintReplay.stateFingerprint platform draft)) }

mutual

/-- A value of the decoder as a value of the replay; of the others none is supported. -/
def legacy : ItfValue → Outcome QuintReplayValue
  | .integer n => return .integer (some (decimal n))
  | .sequence xs => do return .sequence (← legacyItems xs)
  | .record xs => do return .record (← legacyFields xs)
  | other => .error ⟨.other, lit "Queue projection does not support " ++ printed other⟩

/-- Its items. -/
def legacyItems : List ItfValue → Outcome (List QuintReplayValue)
  | [] => return []
  | x :: xs => do
    let value ← legacy x
    return value :: (← legacyItems xs)

/-- Its fields. -/
def legacyFields : List (UString × ItfValue) → Outcome (List (NString × QuintReplayValue))
  | [] => return []
  | (k, v) :: xs => do
    let value ← legacy v
    return (some k, value) :: (← legacyFields xs)

end

/-- The states of a document, each with its fingerprint. -/
def states (document : ItfDocument) : Outcome (List QuintReplayState) :=
  document.states.mapM fun bindings => do state platform (← legacyFields printed bindings)

/-- Where the steps are said to come from. -/
def source : QuintReplaySourceBinding where
  path := "scenario.qnt"
  line := 4
  column := 3

/-- The environment of the scenario. -/
def environment : QuintReplayEnvironment where
  seed := "42"
  bounds := [("capacity", 2), ("steps", 4)]
  toolFingerprint := "939b64095b706017f2f202c6f99c860c40be7c31bddc2b98557316e50f42cd7f"
  profileFingerprint := hash platform "queue-scenario-v1"
  contractFingerprint := hash platform "bounded-fifo-capacity-2"
  adapterFingerprint := hash platform "queue-projection-v1"
  implementationFingerprint := hash platform "queue-implementation-v1"

/-- `List.zip` of the actions with the states after the first. -/
def steps (actions : List NString) (states : List QuintReplayState) : Outcome (List QuintReplayStep) :=
  if actions.length ≠ states.length then .error ⟨.argument, "The lists had different lengths."⟩
  else .ok ((actions.zip states).mapIdx fun i (a, s) => { index := i + 1, action := a, source := source, expected := s })

/-- A trace that is not sealed yet: the first state is the initial one, and each of the others is the
    target of an action. -/
def draft (actions : List NString) : List QuintReplayState → Outcome QuintReplayTrace
  | [] => .error ⟨.argument, "The input list was empty. (Parameter 'list')"⟩
  | initial :: rest => do
    return { schemaVersion := 1, traceIdentity := "", environment := environment platform, initial := initial,
             steps := ← steps actions rest }

/-- The trace of a document, sealed. -/
def trace (document : ItfDocument) (actions : List NString) : Outcome QuintReplayTrace := do
  let draft ← draft platform actions (← states platform printed document)
  return { draft with traceIdentity := some (← unwrap platform (← QuintReplay.traceFingerprint platform draft)) }

/-- The queue that is replayed. -/
structure QueueRuntime where
  items : List Int
  inserted : List Int
  removed : List Int
  deriving DecidableEq

/-- What it is asked to do. -/
inductive QueueInput where
  | enqueue (value : Int)
  | dequeue

/-- The input that a name of an action stands for. -/
def inputOf (action : NString) : Outcome QueueInput :=
  if action = "enqueue:1" then .ok (.enqueue 1)
  else if action = "enqueue:2" then .ok (.enqueue 2)
  else if action = "dequeue" then .ok .dequeue
  else .error ⟨.other, lit "Unknown queue input: " ++ action.getD []⟩

/-- The bindings of the actions, from index 1 on. -/
def bindings (actions : List NString) : Outcome (List (PureReplay.BoundInput QueueInput)) :=
  actions.zipIdx.mapM fun (action, i) => do return { index := i + 1, operationId := action, input := ← inputOf action }

/-- The reducer; `broken` takes the last item out instead of the first. -/
def reduce (broken : Bool) (current : QueueRuntime) : QueueInput → Except NString QueueRuntime
  | .enqueue value =>
    if current.items.length = 2 then .error "Queue full"
    else .ok { current with items := current.items ++ [value], inserted := current.inserted ++ [value] }
  | .dequeue =>
    match current.items with
    | [] => .error "Queue empty"
    | x :: xs =>
      let (value, rest) := if broken then ((x :: xs).getLastD x, (x :: xs).take xs.length) else (x, xs)
      .ok { current with items := rest, removed := current.removed ++ [value] }

/-- A list of numbers as a value. -/
def values (xs : List Int) : QuintReplayValue := .sequence (xs.map fun x => .integer (some (decimal x)))

/-- The observation, with the contents of the queue left out when it is to differ. -/
def observe (mutate : Bool) (current : QueueRuntime) : Outcome QuintReplayState :=
  state platform [("state", .record [("items", if mutate then .sequence [] else values current.items),
    ("inserted", values current.inserted), ("removed", values current.removed)])]

/-- The queue as a domain of the replay. -/
def domain (broken mutate : Bool) : PureReplay.Domain QueueRuntime QueueInput where
  construct _ := .ok (.ok { items := [], inserted := [], removed := [] })
  reduce current input := .ok (reduce broken current input)
  observe current := (observe platform mutate current).map .ok
  cleanup _ := .ok (.ok ())

/-- The program with a list of actions in place of its own. -/
def runOf (deadline : History QueueRuntime → Bool) (document : ItfDocument) (actions : List NString)
    (broken mutate : Bool) : Outcome ReplayReport := do
  let trace ← trace platform printed document actions
  let bindings ← bindings actions
  PureReplay.run (domain platform broken mutate) platform deadline bindings trace

/-- The actions of the scenario, which the program has as a constant. -/
def actions : List NString := ["enqueue:1", "enqueue:2", "dequeue", "dequeue"]

/-- The program, on the document that it reads. -/
def run (deadline : History QueueRuntime → Bool) (document : ItfDocument) (broken mutate : Bool) :
    Outcome ReplayReport :=
  runOf platform printed deadline document actions broken mutate

end Program

/-! ## The same queue -/

/-- What a state of the specification is for the program. -/
def State.runtime (s : State) : QueueRuntime := { items := s.items, inserted := s.inserted, removed := s.removed }

/-- The input of an action. -/
def Action.input : Action → QueueInput
  | .enqueueAction value => .enqueue value
  | .dequeueAction => .dequeue

/-- The queue as the specification means it. -/
structure Ordered (s : State) : Prop where
  fifo : fifo s
  capacity : s.items.length ≤ 2

/-- An enqueue is taken when there is room. -/
theorem take_enqueue {s t : State} {value : Int} :
    take s (.enqueueAction value) = some t ↔ s.items.length < 2 ∧ t = enqueue s value := by
  rw [take, canEnqueue]
  by_cases h : s.items.length < 2
  · rw [if_pos (decide_eq_true h), Option.some_inj]
    exact ⟨fun heq => ⟨h, heq.symm⟩, fun heq => heq.2.symm⟩
  · rw [if_neg (by simpa using h)]
    exact ⟨fun heq => absurd heq (by simp), fun heq => absurd heq.1 h⟩

/-- A dequeue is taken when there is something. -/
theorem take_dequeue {s t : State} :
    take s .dequeueAction = some t ↔
      ∃ x xs, s.items = x :: xs ∧ t = { s with items := xs, removed := s.removed ++ [x] } := by
  obtain ⟨items, inserted, removed⟩ := s
  cases items with
  | nil => simp [take, canDequeue]
  | cons x xs =>
    have htake : take ⟨x :: xs, inserted, removed⟩ .dequeueAction = some ⟨xs, inserted, removed ++ [x]⟩ := rfl
    rw [htake, Option.some_inj]
    constructor
    · rintro rfl
      exact ⟨x, xs, rfl, rfl⟩
    · rintro ⟨y, ys, hitems, rfl⟩
      obtain ⟨rfl, rfl⟩ := List.cons.inj hitems
      rfl

/-- **Every action keeps the queue in order.** -/
theorem Ordered.take {s t : State} {action : Action} (h : Ordered s) (ht : take s action = some t) : Ordered t := by
  cases action with
  | enqueueAction value =>
    obtain ⟨hlt, rfl⟩ := take_enqueue.mp ht
    refine ⟨?_, ?_⟩
    · show s.inserted ++ [value] = s.removed ++ (s.items ++ [value])
      rw [h.fifo, List.append_assoc]
    · show (s.items ++ [value]).length ≤ 2
      rw [List.length_append, List.length_singleton]
      omega
  | dequeueAction =>
    obtain ⟨x, xs, hitems, rfl⟩ := take_dequeue.mp ht
    have hlength := h.capacity
    rw [hitems, List.length_cons] at hlength
    refine ⟨?_, ?_⟩
    · show s.inserted = s.removed ++ [x] ++ xs
      rw [h.fifo, hitems, List.append_assoc]
      rfl
    · show xs.length ≤ 2
      omega

/-- The unbroken program takes an input exactly where the specification enables it, with one result. -/
theorem reduce_iff {s : State} (h : Ordered s) {action : Action} {next : QueueRuntime} :
    reduce false s.runtime action.input = .ok next ↔ ∃ t, take s action = some t ∧ next = t.runtime := by
  cases action with
  | enqueueAction value =>
    simp only [take_enqueue]
    have hcapacity := h.capacity
    by_cases hfull : s.items.length = 2
    · have hreduce : reduce false s.runtime (.enqueue value) = .error (lit "Queue full") := if_pos hfull
      constructor
      · intro heq
        exact absurd (hreduce.symm.trans heq) (by simp)
      · rintro ⟨t, ⟨hlt, -⟩, -⟩
        omega
    · have hreduce : reduce false s.runtime (.enqueue value) = .ok (enqueue s value).runtime := if_neg hfull
      constructor
      · intro heq
        exact ⟨_, ⟨by omega, rfl⟩, (Except.ok.inj (hreduce.symm.trans heq)).symm⟩
      · rintro ⟨t, ⟨-, rfl⟩, rfl⟩
        exact hreduce
  | dequeueAction =>
    simp only [take_dequeue]
    obtain ⟨items, inserted, removed⟩ := s
    cases items with
    | nil =>
      constructor
      · intro heq
        have hreduce : reduce false (State.runtime ⟨[], inserted, removed⟩) .dequeue = .error (lit "Queue empty") := rfl
        exact absurd (hreduce.symm.trans heq) (by simp)
      · rintro ⟨t, ⟨x, xs, hitems, -⟩, -⟩
        exact absurd hitems (by simp)
    | cons x xs =>
      have hreduce : reduce false (State.runtime ⟨x :: xs, inserted, removed⟩) .dequeue =
          .ok (State.runtime ⟨xs, inserted, removed ++ [x]⟩) := rfl
      constructor
      · intro heq
        exact ⟨_, ⟨x, xs, rfl, rfl⟩, (Except.ok.inj (hreduce.symm.trans heq)).symm⟩
      · rintro ⟨t, ⟨y, ys, hitems, rfl⟩, rfl⟩
        obtain ⟨rfl, rfl⟩ := List.cons.inj hitems
        exact hreduce

/-- What the program makes of inputs, one after the other. -/
def reduceAll (broken : Bool) : QueueRuntime → List QueueInput → Except NString QueueRuntime
  | current, [] => .ok current
  | current, input :: inputs =>
    match reduce broken current input with
    | .error error => .error error
    | .ok next => reduceAll broken next inputs

/-- What the specification makes of actions, one after the other. -/
def takeAll : State → List Action → Option State
  | s, [] => some s
  | s, action :: actions => (take s action).bind fun t => takeAll t actions

/-- **The program's queue is the specification's**: whatever the inputs, it accepts all of them exactly
    where every action is enabled, and it ends in the state of the specification, which lists what is
    left of the insertions in their order, and no more than two of them. -/
theorem reduceAll_iff (actions : List Action) (next : QueueRuntime) :
    reduceAll false init.runtime (actions.map Action.input) = .ok next ↔
      ∃ t, takeAll init actions = some t ∧ next = t.runtime ∧ t.inserted = t.removed ++ t.items ∧ t.items.length ≤ 2 := by
  have hinit : Ordered init := ⟨rfl, Nat.zero_le 2⟩
  generalize init = s at hinit
  induction actions generalizing s with
  | nil =>
    constructor
    · intro h
      exact ⟨s, rfl, (Except.ok.inj h).symm, hinit.fifo, hinit.capacity⟩
    · rintro ⟨t, ht, rfl, -⟩
      rw [takeAll, Option.some_inj] at ht
      rw [ht]
      rfl
  | cons action actions ih =>
    rw [List.map_cons, reduceAll, takeAll]
    cases htake : take s action with
    | none =>
      cases hreduce : reduce false s.runtime action.input with
      | error error => simp
      | ok mid =>
        obtain ⟨t, ht, -⟩ := (reduce_iff hinit).mp hreduce
        exact absurd (htake.symm.trans ht) (by simp)
    | some t =>
      rw [(reduce_iff hinit).mpr ⟨t, htake, rfl⟩, Option.bind_some]
      exact ih t (hinit.take htake)

/-! ## Projections -/

/-- The three lists of a state, by their names. -/
def State.lists (s : State) : List (UString × List Int) :=
  [(lit "items", s.items), (lit "inserted", s.inserted), (lit "removed", s.removed)]

/-- Lists under one variable, as a replay state binds them. -/
def bound (fields : List (UString × List Int)) : List (NString × QuintReplayValue) :=
  [("state", .record (fields.map fun f => (some f.1, values f.2)))]

/-- The three fields, in whatever order. -/
theorem names_lists {s : State} {fields : List (UString × List Int)} (h : fields.Perm s.lists) :
    (fields.map Prod.fst).Perm [lit "items", lit "inserted", lit "removed"] := h.map Prod.fst

/-- A printed number denotes itself. -/
theorem denotes_decimal (x : Int) : denotes (some (decimal x)) = some x := parseInteger_decimal x

/-- Lists of printed numbers are valid values. -/
theorem valid_values (xs : List Int) : Valid (values xs) := by
  rw [values, Valid, validItems_iff]
  intro v hv
  obtain ⟨x, -, rfl⟩ := List.mem_map.mp hv
  rw [Valid, denotes_decimal]
  rfl

/-- So is the state, whatever the order of its fields. -/
theorem valid_bound {s : State} {fields : List (UString × List Int)} (h : fields.Perm s.lists) :
    Valid (.record (bound fields)) := by
  have hnames : (fields.map fun f => (some f.1, values f.2)).map Prod.fst = (fields.map Prod.fst).map some := by
    rw [List.map_map, List.map_map]
    rfl
  have hinner : ValidNames ((fields.map Prod.fst).map some) := by
    have hnodup : ([lit "items", lit "inserted", lit "removed"].map some).Nodup := by decide
    refine ⟨((names_lists h).map some).nodup_iff.mpr hnodup, fun name hname => ?_⟩
    have hmem := ((names_lists h).map some).mem_iff.mp hname
    simp only [List.map_cons, List.map_nil, List.mem_cons, List.not_mem_nil, or_false] at hmem
    rcases hmem with rfl | rfl | rfl <;> exact ⟨by decide, by decide⟩
  refine ⟨⟨List.nodup_singleton _, ?_⟩, ⟨hnames ▸ hinner, ?_⟩, trivial⟩
  · rw [bound, List.map_singleton, List.forall_mem_singleton]
    exact ⟨rfl, rfl⟩
  · rw [validFields_iff]
    intro f hf
    obtain ⟨g, -, rfl⟩ := List.mem_map.mp hf
    exact valid_values g.2

/-- No `#` occurs in a list of numbers. -/
theorem hashFree_values (xs : List Int) : HashFree (values xs) := by
  rw [values, HashFree]
  induction xs with
  | nil => trivial
  | cons x xs ih => exact ⟨trivial, ih⟩

/-- None occurs in the state. -/
theorem hashFree_lists (s : State) : HashFree (.record (bound s.lists)) :=
  ⟨rfl, ⟨rfl, hashFree_values _, rfl, hashFree_values _, rfl, hashFree_values _, trivial⟩, trivial⟩

/-- Equivalent lists of integers are equal. -/
theorem eq_of_valueEquiv {xs ys : List Int} (h : ValueEquiv (values xs) (values ys)) : xs = ys := by
  rw [values, values, ValueEquiv, valueEquivItems_iff, List.forall₂_map_left_iff, List.forall₂_map_right_iff] at h
  induction h with
  | nil => rfl
  | cons hxy _ ih =>
    rw [ValueEquiv] at hxy
    have heq := denotes_congr hxy
    rw [denotes_decimal, denotes_decimal, Option.some_inj] at heq
    rw [heq, ih]

/-- A list is equivalent to itself. -/
theorem valueEquiv_refl (xs : List Int) : ValueEquiv (values xs) (values xs) := by
  rw [values, ValueEquiv, valueEquivItems_iff, List.forall₂_map_left_iff, List.forall₂_map_right_iff]
  induction xs with
  | nil => exact .nil
  | cons x xs ih => exact .cons (.inl rfl) ih

/-- The order of the lists does not show in the text. -/
theorem text_bound {s : State} {fields : List (UString × List Int)} (h : fields.Perm s.lists) :
    valueText (.record (bound fields)) = valueText (.record (bound s.lists)) := by
  have hrefl : List.Forall₂ FieldEquiv (fields.map fun f => ((some f.1 : NString), values f.2))
      (fields.map fun f => (some f.1, values f.2)) :=
    List.forall₂_same.mpr fun f hf => by
      obtain ⟨g, -, rfl⟩ := List.mem_map.mp hf
      exact ⟨rfl, valueEquiv_refl g.2⟩
  have hrecord : ValueEquiv (.record (fields.map fun f => (some f.1, values f.2)))
      (.record (s.lists.map fun f => (some f.1, values f.2))) := ⟨_, h.map _, valueEquivFields_iff.mpr hrefl⟩
  exact valueText_congr (valid_bound h) ⟨bound s.lists, List.Perm.refl _, rfl, hrecord, trivial⟩

/-- The text of a state tells it apart. -/
theorem text_lists_inj {s t : State}
    (h : valueText (.record (bound s.lists)) = valueText (.record (bound t.lists))) : s = t := by
  obtain ⟨outer, houter, hequiv⟩ := valueEquiv_of_text_eq (valid_bound (List.Perm.refl _))
    (valid_bound (List.Perm.refl _)) (hashFree_lists s) (hashFree_lists t) h
  rw [List.perm_singleton.mp houter] at hequiv
  obtain ⟨-, ⟨inner, hinner, hequiv⟩, -⟩ := hequiv
  have hget : ∀ f ∈ s.lists, f ∈ t.lists := by
    intro f hf
    obtain ⟨g, hg, hname, hvalue⟩ := forall₂_mem_left (valueEquivFields_iff.mp hequiv) _ (List.mem_map_of_mem hf)
    obtain ⟨f', hf', rfl⟩ := List.mem_map.mp (hinner.mem_iff.mp hg)
    rw [show f = f' from Prod.ext (Option.some_inj.mp hname) (eq_of_valueEquiv hvalue)]
    exact hf'
  have hnames : lit "items" ≠ lit "inserted" ∧ lit "items" ≠ lit "removed" ∧ lit "inserted" ≠ lit "removed" := by decide
  obtain ⟨h₁, h₂, h₃⟩ := hnames
  obtain ⟨items, inserted, removed⟩ := s
  obtain ⟨items', inserted', removed'⟩ := t
  rw [State.lists, List.forall_mem_cons, List.forall_mem_cons, List.forall_mem_singleton] at hget
  simp only [State.lists, List.mem_cons, Prod.mk.injEq, List.not_mem_nil, or_false, true_and, h₁, h₂, h₃, h₁.symm,
    h₂.symm, h₃.symm, false_and, false_or] at hget
  rw [hget.1, hget.2.1, hget.2.2]

/-! ## The verdict -/

/-- A list of integers in a document. -/
def ints (xs : List Int) : ItfValue := .sequence (xs.map .integer)

/-- A document binds a state of the specification, with its fields in any order. -/
def Shows (bindings : List (UString × ItfValue)) (s : State) (fields : List (UString × List Int)) : Prop :=
  fields.Perm s.lists ∧ bindings = [(lit "state", .record (fields.map fun f => (f.1, ints f.2)))]

/-- A document of a run: the state at its start, and those its moves reach. -/
def Documents (document : ItfDocument) (s : State) (moves : List Move) : Prop :=
  List.Forall₂ (fun bindings t => ∃ fields, Shows bindings t fields) document.states (s :: moves.map Move.target)

/-- The name of an action in a schedule. -/
def Action.name : Action → NString
  | .enqueueAction value => some (lit "enqueue:" ++ decimal value)
  | .dequeueAction => "dequeue"

/-- A broken dequeue takes out another item than the first. -/
def misorders (broken : Bool) (move : Move) : Bool :=
  broken && move.action = .dequeueAction && move.source.items.head? ≠ move.source.items.getLast?

/-- A defect of the program shows in the state after a move. -/
def exposes (broken mutate : Bool) (move : Move) : Bool :=
  misorders broken move || mutate && move.target.items ≠ []

/-- What a projection shows of a state of the program. -/
def QueueRuntime.shown (mutate : Bool) (current : QueueRuntime) : State :=
  { items := if mutate then [] else current.items, inserted := current.inserted, removed := current.removed }

section Verdict

variable {platform : Platform} {printed : ItfValue → UString} {broken mutate : Bool}

/-- A state whose fields are valid gets its fingerprint. -/
theorem state_bound {s : State} {fields : List (UString × List Int)} (h : fields.Perm s.lists) :
    state platform (bound fields) = .ok (sealState platform (bound fields)) := by
  have hvalid : ValidContent { identity := "", bindings := bound fields } := valid_bound h
  rw [state, (stateFingerprint_eq_ok_iff platform).mpr ⟨hvalid, rfl⟩]
  rfl

/-- So does what is observed. -/
theorem observe_eq (mutate : Bool) (current : QueueRuntime) :
    observe platform mutate current = .ok (sealState platform (bound (current.shown mutate).lists)) := by
  rw [← state_bound (List.Perm.refl _)]
  cases mutate <;> rfl

/-- The numbers of the document are printed. -/
theorem legacyItems_integers (xs : List Int) :
    legacyItems printed (xs.map .integer) = .ok (xs.map fun x => .integer (some (decimal x))) := by
  induction xs with
  | nil => rfl
  | cons x xs ih =>
    rw [List.map_cons, legacyItems, ih]
    rfl

/-- They are printed field by field. -/
theorem legacyFields_ints (fields : List (UString × List Int)) :
    legacyFields printed (fields.map fun f => (f.1, ints f.2)) = .ok (fields.map fun f => (some f.1, values f.2)) := by
  induction fields with
  | nil => rfl
  | cons f fields ih =>
    rw [List.map_cons, legacyFields, ints, legacy, legacyItems_integers, ih]
    rfl

/-- What the program makes of a document of states. -/
theorem states_eq (platform : Platform) (printed : ItfValue → UString) {document : ItfDocument} {ss : List State}
    (h : List.Forall₂ (fun bindings t => ∃ fields, Shows bindings t fields) document.states ss) :
    ∃ shown : List (List (UString × List Int)), List.Forall₂ (fun fields s => fields.Perm s.lists) shown ss ∧
      states platform printed document = .ok (shown.map fun fields => sealState platform (bound fields)) := by
  simp only [states, mapM_eq_ok_iff]
  generalize document.states = bindings at h
  induction h with
  | nil => exact ⟨[], .nil, .nil⟩
  | cons hb _ ih =>
    obtain ⟨fields, hperm, rfl⟩ := hb
    obtain ⟨shown, hshown, hstates⟩ := ih
    refine ⟨fields :: shown, .cons hperm hshown, .cons ?_ hstates⟩
    rw [legacyFields, legacy, legacyFields_ints]
    exact state_bound hperm

/-- The comparison of an expected state with what the program shows. -/
theorem observed_eq {index : Int} {action : Option NString} {source : Option QuintReplaySourceBinding} {s : State}
    {fields : List (UString × List Int)} (h : fields.Perm s.lists) (current : QueueRuntime) :
    (current.shown mutate = s → PureReplay.observed (domain platform broken mutate) platform index action source
      (sealState platform (bound fields)) current = .equivalent) ∧
    (current.shown mutate ≠ s → PureReplay.observed (domain platform broken mutate) platform index action source
      (sealState platform (bound fields)) current = .diverged index action source "$/bindings/state"
        (sealState platform (bound fields)) (sealState platform (bound (current.shown mutate).lists))) := by
  have he := validState_sealState platform (valid_bound h)
  have ha := validState_sealState platform (valid_bound (List.Perm.refl (current.shown mutate).lists))
  have hobserve : (domain platform broken mutate).observe current =
      .ok (.ok (sealState platform (bound (current.shown mutate).lists))) := by
    show (observe platform mutate current).map _ = _
    rw [observe_eq]
    rfl
  have hobserved : PureReplay.observed (domain platform broken mutate) platform index action source
      (sealState platform (bound fields)) current = PureReplay.judge platform index action source
        (sealState platform (bound fields)) (sealState platform (bound (current.shown mutate).lists)) := by
    simp only [PureReplay.observed, hobserve]
  rw [hobserved]
  have htext : stateText (sealState platform (bound fields)) = valueText (.record (bound s.lists)) := text_bound h
  constructor
  · rintro rfl
    exact PureReplay.judge_equivalent he ha htext
  · intro hne
    have hdiffers : stateText (sealState platform (bound fields)) ≠
        stateText (sealState platform (bound (current.shown mutate).lists)) := by
      rw [htext]
      exact fun heq => hne (text_lists_inj heq).symm
    obtain ⟨name, hpath, hfirst⟩ := differingPath_spec he ha hdiffers
    have hname : name = lit "state" := by
      have hbound := hfirst.bound
      simp only [boundNames, sealState, bound, List.cons_append, List.nil_append, List.map_cons, List.map_nil,
        List.mem_cons, List.not_mem_nil, or_false, or_self, Option.some_inj] at hbound
      exact hbound
    rw [PureReplay.judge_diverged he ha hdiffers hpath, hname]
    rfl

/-- What the program makes of an enabled action, on a queue within its capacity. -/
theorem reduce_take (broken : Bool) {s t : State} {action : Action} (h : Ordered s) (ht : take s action = some t) :
    ∃ next, reduce broken s.runtime action.input = .ok next ∧
      (misorders broken ⟨s, action, t⟩ = false → next = t.runtime) ∧
      (misorders broken ⟨s, action, t⟩ = true → next.removed ≠ t.removed) := by
  cases action with
  | enqueueAction value =>
    obtain ⟨hlt, rfl⟩ := take_enqueue.mp ht
    have hfull : ¬ s.runtime.items.length = 2 := by
      show ¬ s.items.length = 2
      omega
    refine ⟨_, if_neg hfull, fun _ => rfl, fun hmisorders => ?_⟩
    simp [misorders] at hmisorders
  | dequeueAction =>
    obtain ⟨x, xs, hitems, rfl⟩ := take_dequeue.mp ht
    obtain ⟨items, inserted, removed⟩ := s
    obtain rfl : items = x :: xs := hitems
    have hcapacity : xs.length + 1 ≤ 2 := h.capacity
    cases broken with
    | false => exact ⟨_, rfl, fun _ => rfl, fun hmisorders => absurd hmisorders (by simp [misorders])⟩
    | true =>
      refine ⟨_, rfl, fun hmisorders => ?_, fun hmisorders => ?_⟩
      · -- with two items at most, they are equal
        rcases xs with - | ⟨y, - | ⟨z, xs⟩⟩
        · rfl
        · have hxy : x = y := by simpa [misorders] using hmisorders
          rw [hxy]
          rfl
        · simp only [List.length_cons] at hcapacity
          omega
      · rcases xs with - | ⟨y, - | ⟨z, xs⟩⟩
        · simp [misorders] at hmisorders
        · have hxy : x ≠ y := by simpa [misorders] using hmisorders
          show removed ++ [y] ≠ removed ++ [x]
          simpa using hxy.symm
        · simp only [List.length_cons] at hcapacity
          omega

/-- The names of the scenario’s actions are valid. -/
theorem validName_name {action : Action} (h : chosen action = true) : ValidName action.name := by
  cases action with
  | dequeueAction => exact ⟨by decide, by decide⟩
  | enqueueAction value =>
    rw [chosen, Bool.or_eq_true, decide_eq_true_eq, decide_eq_true_eq] at h
    rcases h with rfl | rfl <;> exact ⟨by decide, by decide⟩

/-- Each stands for its action. -/
theorem inputOf_name {action : Action} (h : chosen action = true) : inputOf action.name = .ok action.input := by
  cases action with
  | dequeueAction => rfl
  | enqueueAction value =>
    rw [chosen, Bool.or_eq_true, decide_eq_true_eq, decide_eq_true_eq] at h
    rcases h with rfl | rfl <;> rfl

/-- A move, with the lists that the document shows for the state it reaches. -/
abbrev Shown := Move × List (UString × List Int)

/-- The step of a trace that stands for a move, at an index. -/
def stepOf (platform : Platform) (p : Shown × Nat) : QuintReplayStep where
  index := p.2 + 1
  action := p.1.1.action.name
  source := source
  expected := sealState platform (bound p.1.2)

/-- The binding of a step, by its place. -/
def bindingOf (p : Shown × Nat) : PureReplay.BoundInput QueueInput where
  index := p.2 + 1
  operationId := p.1.1.action.name
  input := p.1.1.action.input

/-- **The bindings of a run are those of its actions.** -/
theorem bindings_eq {pairs : List Shown} (h : ∀ p ∈ pairs, chosen p.1.action = true) :
    bindings (pairs.map fun p => p.1.action.name) = .ok (pairs.zipIdx.map bindingOf) := by
  rw [bindings, List.zipIdx_map, mapM_eq_ok_iff, List.forall₂_map_left_iff, List.forall₂_map_right_iff,
    List.forall₂_same]
  rintro ⟨p, i⟩ hp
  have hinput := inputOf_name (h p (List.fst_mem_of_mem_zipIdx hp))
  simp only [Prod.map_apply, hinput]
  rfl

/-- And its steps those of its states. -/
theorem steps_eq (pairs : List Shown) :
    steps (pairs.map fun p => p.1.action.name) (pairs.map fun p => sealState platform (bound p.2)) =
      .ok (pairs.zipIdx.map (stepOf platform)) := by
  rw [steps, if_neg (by rw [List.length_map, List.length_map]; exact not_not.mpr rfl), List.zip_map',
    List.mapIdx_eq_zipIdx_map, List.zipIdx_map, List.map_map]
  rfl

/-- The trace of a run. -/
def traceOf (platform : Platform) (initial : List (UString × List Int)) (pairs : List Shown) : QuintReplayTrace :=
  sealTrace platform
    { schemaVersion := 1, traceIdentity := "", environment := environment platform,
      initial := sealState platform (bound initial), steps := pairs.zipIdx.map (stepOf platform) }

/-- The source binding is valid. -/
theorem validSource_source : ValidSource source := ⟨⟨by decide, by decide⟩, by decide, by decide⟩

/-- So is the environment. -/
theorem validEnvironment_environment (platform : Platform) : ValidEnvironment (environment platform) where
  seed := ⟨rfl, rfl⟩
  bounds := by
    show ValidNames [some (lit "capacity"), some (lit "steps")]
    refine ⟨by decide, ?_⟩
    rw [List.forall_mem_cons, List.forall_mem_singleton]
    exact ⟨⟨by decide, by decide⟩, ⟨by decide, by decide⟩⟩
  nonnegative := by
    show ∀ b ∈ [((some (lit "capacity") : NString), (2 : Int)), (some (lit "steps"), 4)], 0 ≤ b.2
    decide
  toolFingerprint := by
    show isLowerSha256 (some (lit "939b64095b706017f2f202c6f99c860c40be7c31bddc2b98557316e50f42cd7f")) = true
    decide
  profileFingerprint := isLowerSha256_lowerHex _
  contractFingerprint := isLowerSha256_lowerHex _
  adapterFingerprint := isLowerSha256_lowerHex _
  implementationFingerprint := isLowerSha256_lowerHex _

/-- **The trace of a run of the model is valid.** -/
theorem validTrace_traceOf {s : State} {initial : List (UString × List Int)} {pairs : List Shown}
    (hinitial : initial.Perm s.lists) (hchosen : ∀ p ∈ pairs, chosen p.1.action = true)
    (hperm : ∀ p ∈ pairs, p.2.Perm p.1.target.lists) : ValidTrace platform (traceOf platform initial pairs) := by
  refine validTrace_sealTrace platform rfl (validEnvironment_environment platform)
    (validState_sealState platform (valid_bound hinitial)) fun i hi => ?_
  rw [List.length_map, List.length_zipIdx] at hi
  have hmem : pairs[i] ∈ pairs := List.getElem_mem hi
  simp only [List.getElem_map, List.getElem_zipIdx, Nat.zero_add]
  exact ⟨rfl, validName_name (hchosen _ hmem), validSource_source,
    validState_sealState platform (valid_bound (hperm _ hmem))⟩

/-- The program makes the trace of the run, when the document is one. -/
theorem trace_eq {document : ItfDocument} {s : State} {initial : List (UString × List Int)} {pairs : List Shown}
    (hinitial : initial.Perm s.lists) (hchosen : ∀ p ∈ pairs, chosen p.1.action = true)
    (hperm : ∀ p ∈ pairs, p.2.Perm p.1.target.lists)
    (hstates : states platform printed document = .ok (sealState platform (bound initial) ::
      pairs.map fun p => sealState platform (bound p.2))) :
    trace platform printed document (pairs.map fun p => p.1.action.name) = .ok (traceOf platform initial pairs) := by
  have hvalid : ValidTrace platform (traceOf platform initial pairs) := validTrace_traceOf hinitial hchosen hperm
  have hstructure := (validStructure_placeholder_iff platform hvalid.traceIdentity).mpr hvalid.toValidStructure
  have hfingerprint : QuintReplay.traceFingerprint platform
      { schemaVersion := 1, traceIdentity := "", environment := environment platform,
        initial := sealState platform (bound initial), steps := pairs.zipIdx.map (stepOf platform) } = .ok (.ok _) :=
    (traceFingerprint_eq_ok_iff platform).mpr ⟨hstructure, rfl⟩
  rw [trace, hstates, ok_bind, draft, steps_eq, ok_bind, pure_eq_ok, ok_bind, hfingerprint]
  rfl

/-- A program in the state of the specification keeps up with moves that give nothing away. -/
theorem tracks (platform : Platform) {pairs : List Shown} (after : List Move) (hperm : ∀ p ∈ pairs, p.2.Perm p.1.target.lists)
    (hidden : ∀ p ∈ pairs, exposes broken mutate p.1 = false) {s : State} (hs : Ordered s)
    (hrun : Run s (pairs.map Prod.fst ++ after)) (k : Nat) :
    ∃ t, PureReplay.Tracks (domain platform broken mutate) platform s.runtime
        ((pairs.zipIdx k).map fun p => (stepOf platform p, p.1.1.action.input)) t.runtime ∧ Ordered t ∧ Run t after := by
  induction pairs generalizing s k with
  | nil => exact ⟨s, .nil, hs, hrun⟩
  | cons p pairs ih =>
    obtain ⟨⟨source, action, target⟩, fields⟩ := p
    obtain ⟨rfl, -, htake, hrun⟩ := hrun
    rw [List.forall_mem_cons] at hperm hidden
    obtain ⟨t, htracks, ht, hafter⟩ := ih hperm.2 hidden.2 (hs.take htake) hrun (k + 1)
    obtain ⟨next, hreduce, hsame, -⟩ := reduce_take broken hs htake
    have hexposes := hidden.1
    rw [exposes, Bool.or_eq_false_iff] at hexposes
    obtain rfl := hsame hexposes.1
    have hshown : target.runtime.shown mutate = target := by
      cases mutate with
      | false => rfl
      | true =>
        have hitems : target.items = [] := by simpa using hexposes.2
        show State.mk [] target.inserted target.removed = target
        rw [← hitems]
    refine ⟨t, ?_, ht, hafter⟩
    rw [List.zipIdx_cons, List.map_cons]
    exact .cons (congrArg Except.ok hreduce) ((observed_eq hperm.1 _).1 hshown) htracks

/-- A run of the scenario takes actions that it has names for. -/
theorem Run.chosen {s : State} {moves : List Move} (h : Run s moves) : ∀ m ∈ moves, chosen m.action = true := by
  induction moves generalizing s with
  | nil => exact fun _ hm => absurd hm List.not_mem_nil
  | cons move moves ih =>
    obtain ⟨-, hchosen, -, hrun⟩ := h
    exact List.forall_mem_cons.mpr ⟨hchosen, ih hrun⟩

/-- The moves of a run, each with what its document shows. -/
theorem Documents.pairs (platform : Platform) (printed : ItfValue → UString) {document : ItfDocument} {s : State}
    {moves : List Move} (h : Documents document s moves) :
    ∃ (initial : List (UString × List Int)) (pairs : List Shown), initial.Perm s.lists ∧
      pairs.map Prod.fst = moves ∧ (∀ p ∈ pairs, p.2.Perm p.1.target.lists) ∧
      states platform printed document =
        .ok (sealState platform (bound initial) :: pairs.map fun p => sealState platform (bound p.2)) := by
  obtain ⟨shown, hshown, hstates⟩ := states_eq platform printed h
  obtain ⟨initial, rest, hinitial, hrest, rfl⟩ := List.forall₂_cons_right_iff.mp hshown
  rw [List.forall₂_map_right_iff] at hrest
  have hsnd : (moves.zip rest).map Prod.snd = rest := List.map_snd_zip hrest.length_eq.le
  refine ⟨initial, moves.zip rest, hinitial, List.map_fst_zip hrest.length_eq.ge, fun p hp => ?_, ?_⟩
  · exact List.forall₂_zip hrest.flip hp
  · rw [hstates, List.map_cons]
    refine congrArg (fun shown => Except.ok (_ :: shown)) ?_
    exact (congrArg (List.map _) hsnd.symm).trans List.map_map

/-- The moves of a run, as the steps that are replayed and their inputs. -/
def scheduled (platform : Platform) (pairs : List Shown) : List (QuintReplayStep × QueueInput) :=
  pairs.zipIdx.map fun p => (stepOf platform p, p.1.1.action.input)

/-- The program folds its queue over the moves of the run, when it starts out as expected. -/
theorem run_eq (broken mutate : Bool) {deadline : History QueueRuntime → Bool}
    (hd : ∀ history, deadline history = false)
    {document : ItfDocument} {initial : List (UString × List Int)} {pairs : List Shown}
    (hinitial : initial.Perm init.lists) (hchosen : ∀ p ∈ pairs, chosen p.1.action = true)
    (hperm : ∀ p ∈ pairs, p.2.Perm p.1.target.lists)
    (hstates : states platform printed document = .ok (sealState platform (bound initial) ::
      pairs.map fun p => sealState platform (bound p.2))) :
    runOf platform printed deadline document (pairs.map fun p => p.1.action.name) broken mutate =
      let outcome := PureReplay.foldSteps (domain platform broken mutate) platform init.runtime 0 (scheduled platform pairs)
      .ok ⟨outcome.1, none, outcome.2.1⟩ := by
  have hvalid : ValidTrace platform (traceOf platform initial pairs) := validTrace_traceOf hinitial hchosen hperm
  have hsteps : (traceOf platform initial pairs).steps = pairs.zipIdx.map (stepOf platform) := rfl
  rw [runOf, trace_eq hinitial hchosen hperm hstates, ok_bind, bindings_eq hchosen, ok_bind]
  have hreplay := PureReplay.run_fold (domain platform broken mutate) hd (pairs.zipIdx.map bindingOf)
    (traceOf platform initial pairs) ((validateTrace_eq_nil_iff platform).mpr hvalid)
    (by rw [hsteps, List.length_map, List.length_map]) (by
      intro p hp
      obtain ⟨⟨binding, step⟩, i⟩ := p
      rw [hsteps, List.zip_map', List.mk_mem_zipIdx_iff_getElem?, List.getElem?_map, Option.map_eq_some_iff] at hp
      obtain ⟨q, hq, heq⟩ := hp
      obtain ⟨rfl, rfl⟩ := Prod.mk.inj heq
      rw [List.getElem?_zipIdx, Option.map_eq_some_iff] at hq
      obtain ⟨p, hp, rfl⟩ := hq
      simp [PureReplay.mismatched, bindingOf, stepOf])
  rw [hreplay, PureReplay.fold]
  have hobserved : PureReplay.observed (domain platform broken mutate) platform 0 none none
      (traceOf platform initial pairs).initial init.runtime = .equivalent := by
    refine (observed_eq hinitial init.runtime).1 ?_
    cases mutate <;> rfl
  have hconstruct : (domain platform broken mutate).construct () = .ok (.ok init.runtime) := rfl
  have hzip : (traceOf platform initial pairs).steps.zip ((pairs.zipIdx.map bindingOf).map PureReplay.BoundInput.input) =
      scheduled platform pairs := by
    rw [hsteps, List.map_map, List.zip_map']
    rfl
  rw [hconstruct, hzip]
  simp only [hobserved]
  rfl

/-- On a document of a run of the specification, the program reports equivalence when no move gives its
    defect away, and otherwise a divergence at the first move that does, with everything applied up to
    there. -/
theorem runOf_verdict (platform : Platform) (printed : ItfValue → UString) (broken mutate : Bool)
    {deadline : History QueueRuntime → Bool} (hd : ∀ history, deadline history = false) {document : ItfDocument}
    {moves : List Move} (hrun : Run init moves) (hdocument : Documents document init moves) :
    let report := runOf platform printed deadline document (moves.map fun m => m.action.name) broken mutate
    ((∀ m ∈ moves, exposes broken mutate m = false) → report = .ok ⟨.equivalent, none, moves.length⟩) ∧
      ∀ before move after, moves = before ++ move :: after → (∀ m ∈ before, exposes broken mutate m = false) →
        exposes broken mutate move = true → ∃ expected actual,
          report = .ok ⟨.diverged (before.length + 1) (some move.action.name) (some source) "$/bindings/state"
            expected actual, none, before.length + 1⟩ := by
  obtain ⟨initial, pairs, hinitial, rfl, hperm, hstates⟩ := hdocument.pairs platform printed
  have hchosen : ∀ p ∈ pairs, chosen p.1.action = true := fun p hp => hrun.chosen p.1 (List.mem_map_of_mem hp)
  have hinit : Ordered init := ⟨rfl, Nat.zero_le 2⟩
  intro report
  have hreport : report = _ := (congrArg (fun names => runOf platform printed deadline document names broken mutate)
    List.map_map).trans (run_eq broken mutate hd hinitial hchosen hperm hstates)
  simp only at hreport
  rw [hreport]
  constructor
  · intro hidden
    have hall : ∀ p ∈ pairs, exposes broken mutate p.1 = false := fun p hp => hidden p.1 (List.mem_map_of_mem hp)
    obtain ⟨t, htracks, -⟩ := tracks platform [] hperm hall hinit (by rwa [List.append_nil]) 0
    have hfold := PureReplay.Tracks.foldSteps (domain platform broken mutate) htracks 0 []
    rw [List.append_nil, List.length_map, List.length_zipIdx] at hfold
    rw [scheduled, hfold, PureReplay.foldSteps, List.length_map, Nat.zero_add]
  · intro before move after hmoves hidden hexposes
    obtain ⟨front, rest, rfl, rfl, hrest⟩ := List.map_eq_append_iff.mp hmoves
    obtain ⟨p, back, rfl, rfl, rfl⟩ := List.map_eq_cons_iff.mp hrest
    rw [List.forall_mem_append, List.forall_mem_cons] at hperm
    have hall : ∀ p ∈ front, exposes broken mutate p.1 = false := fun p hp => hidden p.1 (List.mem_map_of_mem hp)
    rw [List.map_append, List.map_cons] at hrun
    obtain ⟨t, htracks, ht, hsource, -, htake, -⟩ := tracks platform _ hperm.1 hall hinit hrun 0
    obtain ⟨⟨source, action, target⟩, fields⟩ := p
    obtain rfl : source = t := hsource
    obtain ⟨next, hreduce, hsame, hother⟩ := reduce_take broken ht htake
    have hshown : next.shown mutate ≠ target := by
      intro heq
      rw [exposes, Bool.or_eq_true] at hexposes
      rcases hexposes with hmisorders | hmutate
      · exact hother hmisorders (congrArg State.removed heq)
      · rw [Bool.and_eq_true, decide_eq_true_eq] at hmutate
        refine hmutate.2 ?_
        rw [← heq, QueueRuntime.shown, hmutate.1]
        rfl
    have hscheduled : scheduled platform (front ++ (⟨source, action, target⟩, fields) :: back) =
        (front.zipIdx.map fun p => (stepOf platform p, p.1.1.action.input)) ++
          (stepOf platform ((⟨source, action, target⟩, fields), front.length), action.input) ::
            (back.zipIdx (front.length + 1)).map fun p => (stepOf platform p, p.1.1.action.input) := by
      rw [scheduled, List.zipIdx_append, List.map_append, List.zipIdx_cons, List.map_cons, Nat.zero_add]
    have hdomain : (domain platform broken mutate).reduce source.runtime action.input = .ok (.ok next) :=
      congrArg Except.ok hreduce
    generalize hstep : stepOf platform ((⟨source, action, target⟩, fields), front.length) = step at hscheduled
    have hobserved : PureReplay.observed (domain platform broken mutate) platform step.index (some step.action)
        (some step.source) step.expected next = .diverged (front.length + 1) (some action.name)
          (some BoundedQueue.source) "$/bindings/state" (sealState platform (bound fields))
          (sealState platform (bound (next.shown mutate).lists)) := by
      rw [← hstep]
      exact (observed_eq hperm.2.1 next).2 hshown
    have hstop := PureReplay.foldSteps_stop (domain platform broken mutate) hdomain hobserved rfl
    rw [hscheduled, PureReplay.Tracks.foldSteps (domain platform broken mutate) htracks, hstop, List.length_map,
      List.length_map, List.length_zipIdx, Nat.zero_add]
    exact ⟨_, _, rfl⟩

/-! ## The scenario -/

/-- The run of the scenario: both values go in, and both come out again. -/
def scenario : List Move :=
  [⟨init, .enqueueAction 1, ⟨[1], [1], []⟩⟩, ⟨⟨[1], [1], []⟩, .enqueueAction 2, ⟨[1, 2], [1, 2], []⟩⟩,
    ⟨⟨[1, 2], [1, 2], []⟩, .dequeueAction, ⟨[2], [1, 2], [1]⟩⟩, ⟨⟨[2], [1, 2], [1]⟩, .dequeueAction, ⟨[], [1, 2], [1, 2]⟩⟩]

/-- The scenario of the program is a run of the model. -/
theorem run_scenario : Run init scenario :=
  ⟨rfl, rfl, rfl, rfl, rfl, rfl, rfl, rfl, rfl, rfl, rfl, rfl, trivial⟩

/-- The constant of the program names the actions of the scenario. -/
theorem actions_scenario : (scenario.map fun m => m.action.name) = actions := rfl

/-- A report of equivalence, or of a divergence at a step. -/
def Verdict (report : Outcome ReplayReport) : Option (Nat × NString) → Prop
  | none => report = .ok ⟨.equivalent, none, scenario.length⟩
  | some (step, action) => ∃ expected actual, report =
      .ok ⟨.diverged step (some action) (some source) "$/bindings/state" expected actual, none, step⟩

/-- **The verdict on the queue.**  On a document of any run of the specification, the program with the
    actions of the run reports equivalence when no move gives its defect away, and otherwise a
    divergence at the first move that does.  With its own actions, the scenario's, it passes its own
    controls: equivalence, the defect of the broken queue at step 3, and the hidden items at step 1. -/
theorem replay_verdict (platform : Platform) (printed : ItfValue → UString)
    (deadline : History QueueRuntime → Bool) (hd : ∀ history, deadline history = false) (document : ItfDocument) :
    (∀ broken mutate moves, Run init moves → Documents document init moves →
      let report := runOf platform printed deadline document (moves.map fun m => m.action.name) broken mutate
      ((∀ m ∈ moves, exposes broken mutate m = false) → report = .ok ⟨.equivalent, none, moves.length⟩) ∧
        ∀ before move after, moves = before ++ move :: after → (∀ m ∈ before, exposes broken mutate m = false) →
          exposes broken mutate move = true → ∃ expected actual,
            report = .ok ⟨.diverged (before.length + 1) (some move.action.name) (some source) "$/bindings/state"
              expected actual, none, before.length + 1⟩) ∧
      (Documents document init scenario →
        Verdict (run platform printed deadline document false false) none ∧
          Verdict (run platform printed deadline document true false) (some (3, "dequeue")) ∧
          Verdict (run platform printed deadline document false true) (some (1, "enqueue:1"))) := by
  refine ⟨fun broken mutate moves hrun hdocument => runOf_verdict platform printed broken mutate hd hrun hdocument,
    fun hdocument => ?_⟩
  unfold run
  rw [← actions_scenario]
  refine ⟨?_, ?_, ?_⟩
  · exact (runOf_verdict platform printed false false hd run_scenario hdocument).1 (by decide)
  · exact (runOf_verdict platform printed true false hd run_scenario hdocument).2 (scenario.take 2)
      ⟨⟨[1, 2], [1, 2], []⟩, .dequeueAction, ⟨[2], [1, 2], [1]⟩⟩ (scenario.drop 3) rfl (by decide) (by decide)
  · exact (runOf_verdict platform printed false true hd run_scenario hdocument).2 []
      ⟨init, .enqueueAction 1, ⟨[1], [1], []⟩⟩ (scenario.drop 1) rfl (by decide) (by decide)

end Verdict

/-- The document that the example ships. -/
def shippedDocument : ItfDocument where
  variableNames := ["state"]
  states := (init :: scenario.map Move.target).map fun s =>
    [(lit "state", .record (s.lists.map fun f => (f.1, ints f.2)))]

/-- The program finds the defect of the broken queue in the document that it ships with. -/
theorem replay_verdict_shipped :
    Verdict (run samplePlatform (fun _ => []) (fun _ => false) shippedDocument true false) (some (3, "dequeue")) := by
  have hdocument : Documents shippedDocument init scenario := by
    rw [Documents, shippedDocument, List.forall₂_map_left_iff, List.forall₂_same]
    exact fun s _ => ⟨s.lists, List.Perm.refl _, rfl⟩
  exact ((replay_verdict samplePlatform (fun _ => []) (fun _ => false) (fun _ => rfl) shippedDocument).2
    hdocument).2.1

end BoundedQueue

end FsQuint
