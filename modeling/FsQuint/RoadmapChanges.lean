/-
  What the commands of the roadmap telemetry can change, one effect at a time.

  1. **Changes** (`Change`): the effects of all commands on the files and on the record of what was asked.
     A publication is prepared, submitted, and then settled or rolled back; everything else that is saved
     touches neither the publication nor the phase.
  2. **Files** (`Sound`): the files of different dispatches have different tokens and invocations, only
     what is on file is submitted, and a publication fits the phase of its dispatch.

  A change is guarded by what the command that makes it has read, and by what it is in the middle
  of: a publication is submitted only when it is on file, and it is settled or rolled back only when
  its answer was the last thing that happened.  The guards are what makes `Sound`, and the invariants
  of later modules, a matter of one case for each constructor.
-/
import Mathlib.Logic.Relation
import FsQuint.RoadmapTelemetry

namespace FsQuint

open Utf16 Decimal Collections Durable

namespace RoadmapTelemetry

/-- The files, and what was asked and answered so far. -/
abbrev World := Durable.World Files Question.Answer

/-- What was asked and answered. -/
abbrev Record := List (Entry Question.Answer)

/-- Nothing has happened. -/
def World.initial : World := { disk := [], log := [] }

/-- A file is written. -/
def World.put (w : World) (state : DispatchState) : World := { w with disk := RoadmapTelemetry.put state w.disk }

/-- A question is answered. -/
def World.asked (w : World) (entry : Entry Question.Answer) : World := { w with log := w.log ++ [entry] }

/-- The file of a dispatch holds a state. -/
def World.Holds (w : World) (state : DispatchState) : Prop :=
  Table.lookup DispatchState.token state.token w.disk = some state

/-- The engine has acknowledged a batch. -/
def Acknowledged (log : Record) (batch : Batch) : Prop :=
  ∃ completed : Completed, ⟨.submit batch, some completed⟩ ∈ log ∧ completed.returncode = 0

/-- The engine has refused a batch. -/
def Completed.Refuses (completed : Completed) : Prop :=
  completed.returncode ≠ 0 ∧ occursIn "invalid-request" completed.failure = true

/-- What the outside can be relied on for: identities are new, and the engine does not refuse what it has
    acknowledged. -/
def Allowed (log : Record) : (question : Question) → question.Answer → Prop
  | .uuids, answer =>
    ∀ earlier, ⟨.uuids, some earlier⟩ ∈ log → answer.1 ≠ earlier.1 ∧ answer.2.2.2 ≠ earlier.2.2.2
  | .submit batch, completed => completed.Refuses → ¬ Acknowledged log batch
  | _, _ => True

/-! ## What a batch is about -/

/-- A field of an event. -/
def field (key : UString) (event : Dict) : Option Value := (Table.lookup Prod.fst key event).map Prod.snd

/-- A value that is a number. -/
def Value.number : Value → Option Int
  | .integer n => some n
  | _ => none

/-- The revisions of the usage of a turn that a batch publishes. -/
def Batch.revisions (turnId : UString) (batch : Batch) : List Int :=
  batch.events.filterMap fun event =>
    if field "kind" event = some (.text "runtime-turn-usage") ∧ field "turnId" event = some (.text turnId) then
      (field "revision" event).bind Value.number
    else none

/-- The kinds of the events that mark where a dispatch stands. -/
def milestones : List Value :=
  [.text "expected-dispatch", .text "runtime-admission", .text "runtime-terminal"]

/-- The milestones that a batch reports. -/
def Batch.milestones (batch : Batch) : List Value :=
  (batch.events.filterMap (field "kind")).filter fun kind => kind ∈ RoadmapTelemetry.milestones

/-- The milestones that a dispatch has passed. -/
def Phase.milestones : Phase → List Value
  | .beginPending => []
  | .expected | .startPending => RoadmapTelemetry.milestones.take 1
  | .started | .terminalPending => RoadmapTelemetry.milestones.take 2
  | .terminal => RoadmapTelemetry.milestones

/-- The phase that a publication leads to. -/
def Phase.next : Phase → Option Phase
  | .beginPending => some .expected
  | .expected => none
  | .startPending | .started => some .started
  | .terminalPending | .terminal => some .terminal

/-- What tells the attempts of a feature apart. -/
def DispatchState.attempt (d : DispatchState) : UString × UString × UString :=
  (d.identity.featureId, d.identity.itemId, d.identity.attemptId)

section Changes

variable (platform : Platform)

/-- The kinds of the observations. -/
def observationKinds : List UString :=
  ["process-review", "activity-span", "activity-usage-attribution", "complication"]

/-- How a file comes to hold a publication. -/
inductive Prepares (d : DispatchState) : DispatchState → Prop
  | start {nativeId timestamp : UString} (hphase : d.phase = .expected) :
    Prepares d ({ d with phase := .startPending, nativeId := some nativeId }.withPublication "started" .started
      (startEvents d nativeId timestamp))
  | finish {outcome : Outcome} {exitCode : Int} {timestamp : UString} (hphase : d.phase = .started) :
    Prepares d ({ d with phase := .terminalPending, outcome := some outcome, exitCode := some exitCode }.withPublication
      "finish" .terminal (finishEvents d outcome exitCode timestamp))
  | thread {threadId : UString} (hphase : d.phase = .terminal) :
    Prepares d (d.withPublication "native-thread" .terminal [threadEvent d threadId])
  | usage {native : NativeUsage} {turn : Turn} {intent : UsageIntent} (hphase : d.phase = .terminal)
    (hintent : d.usageIntent = some intent) (hturn : intent.turnId = turn.turnId) :
    Prepares d (d.withPublication (usageOperation turn.turnId intent.revision) .terminal
      [usageEvent platform d native turn intent.revision])
  | observation {kind identity : UString} {rest : Dict} {operation : UString}
    (hphase : d.phase = .started ∨ d.phase = .terminal) (hkind : kind ∈ observationKinds)
    (hoperation : (lit "observation:").isPrefixOf operation = true) :
    Prepares d (d.withPublication operation d.phase
      [(lit "kind", .text kind) :: (lit "identity", .text identity) :: rest])

/-- What is saved besides publications. -/
inductive Notes (d : DispatchState) : DispatchState → Prop
  | intends {intent : UsageIntent} (hnone : d.usageIntent = none)
    (hrevision : intent.revision = nextRevision (Table.lookup Prod.fst intent.turnId d.usageLedger)) :
    Notes d { d with usageIntent := some intent }
  | records {intent : UsageIntent} (hintent : d.usageIntent = some intent) (hpending : d.pendingPublication = none) :
    Notes d (d.recorded intent)
  | forgets (hpending : d.pendingPublication = none) : Notes d { d with usageIntent := none }
  | names {threadId : UString} : Notes d { d with nativeThreadId := some threadId }
  | publishes : Notes d { d with nativeThreadPublished := true }
  | exits {exitCode : Int} : Notes d { d with exitCode := some exitCode }

/-- How the file of a dispatch is replaced. -/
inductive Revises (w : World) (d : DispatchState) : DispatchState → Prop
  | prepares {s : DispatchState} (hidle : d.pendingPublication = none) (h : Prepares platform d s) : Revises w d s
  | settles {pending : Pending} {completed : Completed} (hpending : d.pendingPublication = some pending)
    (hlast : w.log.getLast? = some ⟨.submit pending.batch, some completed⟩) (hok : completed.returncode = 0) :
    Revises w d { d with phase := pending.nextPhase, pendingPublication := none }
  | rollsBack {pending : Pending} {completed : Completed} (hpending : d.pendingPublication = some pending)
    (hlast : w.log.getLast? = some ⟨.submit pending.batch, some completed⟩) (hrefused : completed.Refuses) :
    Revises w d (d.rolledBack pending.operation)
  | notes {s : DispatchState} (hphase : d.phase = .terminal) (h : Notes d s) : Revises w d s

/-- A dispatch that is new. -/
structure Begins (w : World) (d : DispatchState) : Prop where
  phase : d.phase = .beginPending
  sequence : d.sequence = 0
  idle : d.pendingPublication = none
  ledger : d.usageLedger = []
  intent : d.usageIntent = none
  drawn : ∃ activation dispatch, ⟨.uuids, some (d.token, activation, dispatch, d.invocationId)⟩ ∈ w.log
  fresh : ∀ file ∈ w.disk, file.token ≠ d.token ∧ file.invocationId ≠ d.invocationId ∧ file.attempt ≠ d.attempt

/-- One effect of a command. -/
inductive Change (w : World) : World → Prop
  | asked {question : Question} {answer : Option question.Answer} (hquestion : ∀ batch, question ≠ .submit batch)
    (hallowed : ∀ a ∈ answer, Allowed w.log question a) : Change w (w.asked ⟨question, answer⟩)
  | submitted {d : DispatchState} {pending : Pending} {answer : Option Completed} (hd : w.Holds d)
    (hpending : d.pendingPublication = some pending)
    (hallowed : ∀ completed ∈ answer, Allowed w.log (.submit pending.batch) completed) :
    Change w (w.asked ⟨.submit pending.batch, answer⟩)
  | began {d : DispatchState} {timestamp : UString} (h : Begins w d) :
    Change w (w.put (d.withPublication "begin" .expected (beginEvents platform d timestamp)))
  | revised {d s : DispatchState} (hd : w.Holds d) (h : Revises platform w d s) : Change w (w.put s)


end Changes

/-! ## Files -/

section Files

variable {w w' : World} {d s file : DispatchState} {files : Files} {platform : Platform}

/-- Two states of one dispatch. -/
structure SameDispatch (d s : DispatchState) : Prop where
  token : s.token = d.token
  identity : s.identity = d.identity
  invocationId : s.invocationId = d.invocationId

/-- A revision stays with its dispatch. -/
theorem Revises.same (h : Revises platform w d s) : SameDispatch d s := by
  cases h with
  | prepares _ h => cases h <;> exact ⟨rfl, rfl, rfl⟩
  | settles | rollsBack => exact ⟨rfl, rfl, rfl⟩
  | notes _ h => cases h <;> exact ⟨rfl, rfl, rfl⟩

/-- A file that is found is among the files. -/
theorem World.Holds.mem (h : w.Holds d) : d ∈ w.disk := (Table.lookup_eq_some h).1

/-- What was written is found. -/
theorem World.put_holds : (w.put s).Holds s := Table.lookup_store.trans (if_pos rfl)

/-- How a publication fits the phase of its dispatch. -/
structure Fits (d : DispatchState) (p : Pending) : Prop where
  schema : p.batch.schema = batchSchema
  generation : p.batch.generation = d.invocationId
  cursor : p.batch.cursor = natText d.sequence
  phase : d.phase.next = some p.nextPhase
  operation : d.phase = .started → (lit "observation:").isPrefixOf p.operation = true

/-- What holds of all files. -/
structure Sound (w : World) : Prop where
  tokens : (w.disk.map DispatchState.token).Nodup
  invocations : (w.disk.map DispatchState.invocationId).Nodup
  attempts : (w.disk.map DispatchState.attempt).Nodup
  drawn : ∀ d ∈ w.disk, ∃ activation dispatch, ⟨.uuids, some (d.token, activation, dispatch, d.invocationId)⟩ ∈ w.log
  owned : ∀ batch answer, ⟨.submit batch, answer⟩ ∈ w.log → ∃ d ∈ w.disk, d.invocationId = batch.generation
  fits : ∀ d ∈ w.disk, ∀ p ∈ d.pendingPublication, Fits d p

/-- The invariant holds when there is no file. -/
theorem Sound.initial : Sound World.initial :=
  ⟨List.nodup_nil, List.nodup_nil, List.nodup_nil, fun _ h => absurd h List.not_mem_nil,
    fun _ _ h => absurd h List.not_mem_nil, fun _ h => absurd h List.not_mem_nil⟩

/-- The files after one was written. -/
theorem Sound.mem_put (h : Sound w) : file ∈ (w.put s).disk ↔ file = s ∨ (file ∈ w.disk ∧ file.token ≠ s.token) :=
  Table.mem_store h.tokens

/-- A file is held. -/
theorem Sound.holds (h : Sound w) (hd : d ∈ w.disk) : w.Holds d := Table.lookup_of_mem h.tokens hd

/-- No two files have one token. -/
theorem Sound.eq_of_token (h : Sound w) (hd : d ∈ w.disk) (hs : s ∈ w.disk) (htoken : d.token = s.token) : d = s :=
  List.inj_on_of_nodup_map h.tokens hd hs htoken

/-- No two files have one invocation. -/
theorem Sound.eq_of_invocation (h : Sound w) (hd : d ∈ w.disk) (hs : s ∈ w.disk)
    (hinvocation : d.invocationId = s.invocationId) : d = s :=
  List.inj_on_of_nodup_map h.invocations hd hs hinvocation

/-- A publication that is prepared fits the state that it is prepared for. -/
theorem withPublication_fits {operation : UString} {nextPhase : Phase} {events : List Dict}
    (hphase : d.phase.next = some nextPhase)
    (hoperation : d.phase = .started → (lit "observation:").isPrefixOf operation = true) :
    ∀ p ∈ (d.withPublication operation nextPhase events).pendingPublication,
      Fits (d.withPublication operation nextPhase events) p := by
  intro p hp
  obtain rfl := Option.some_inj.mp hp
  exact ⟨rfl, rfl, rfl, hphase, hoperation⟩

/-- So does what a command writes down before it submits it. -/
theorem Prepares.fits (h : Prepares platform d s) : ∀ p ∈ s.pendingPublication, Fits s p := by
  cases h with
  | start | finish => exact withPublication_fits rfl (by simp)
  | thread hphase | usage hphase => exact withPublication_fits (by rw [hphase]; rfl) (by simp [hphase])
  | observation hphase _ hoperation =>
    refine withPublication_fits ?_ fun _ => hoperation
    rcases hphase with hphase | hphase <;> rw [hphase] <;> rfl

/-- A note changes no publication. -/
theorem Notes.pending (h : Notes d s) : s.pendingPublication = d.pendingPublication := by
  cases h <;> rfl

/-- **Every revision keeps the pending publication fitting.** -/
theorem Revises.fits (h : Revises platform w d s) (hd : ∀ p ∈ d.pendingPublication, Fits d p) :
    ∀ p ∈ s.pendingPublication, Fits s p := by
  cases h with
  | prepares _ h => exact h.fits
  | settles | rollsBack => exact fun p hp => absurd hp (by simp [DispatchState.rolledBack])
  | notes hphase h =>
    intro p hp
    have hfits := hd p (h.pending ▸ hp)
    cases h <;> exact ⟨hfits.schema, hfits.generation, hfits.cursor, hfits.phase, hfits.operation⟩

/-- Questions and answers leave the files as they are. -/
theorem Sound.asked (h : Sound w) {entry : Entry Question.Answer}
    (howned : ∀ batch answer, ⟨.submit batch, answer⟩ = entry → ∃ d ∈ w.disk, d.invocationId = batch.generation) :
    Sound (w.asked entry) where
  tokens := h.tokens
  invocations := h.invocations
  attempts := h.attempts
  drawn := fun d hd => by
    obtain ⟨activation, dispatch, hdrawn⟩ := h.drawn d hd
    exact ⟨activation, dispatch, List.mem_append_left _ hdrawn⟩
  owned := fun batch answer hmem => by
    rcases List.mem_append.mp hmem with hmem | hmem
    · exact h.owned batch answer hmem
    · exact howned batch answer (List.mem_singleton.mp hmem)
  fits := h.fits

/-- **A new dispatch keeps the invariant**, as its identities are fresh. -/
theorem Sound.began (h : Sound w) {timestamp : UString} (hbegins : Begins w d) :
    Sound (w.put (d.withPublication "begin" .expected (beginEvents platform d timestamp))) := by
  generalize hs : d.withPublication "begin" .expected (beginEvents platform d timestamp) = s
  have hsame : SameDispatch d s := by
    rw [← hs]
    exact ⟨rfl, rfl, rfl⟩
  have hattempt : s.attempt = d.attempt := by rw [DispatchState.attempt, hsame.identity, DispatchState.attempt]
  have hdisk : (w.put s).disk = w.disk ++ [s] :=
    Table.store_of_new fun file hfile => hsame.token ▸ (hbegins.fresh file hfile).1
  have hmem : ∀ file, file ∈ (w.put s).disk ↔ file ∈ w.disk ∨ file = s := by
    intro file
    rw [hdisk, List.mem_append, List.mem_singleton]
  refine ⟨Table.nodup_store h.tokens, ?_, ?_, ?_, ?_, ?_⟩
  · rw [hdisk]
    exact Table.nodup_concat h.invocations fun file hfile => hsame.invocationId ▸ (hbegins.fresh file hfile).2.1
  · rw [hdisk]
    exact Table.nodup_concat h.attempts fun file hfile => hattempt ▸ (hbegins.fresh file hfile).2.2
  · intro file hfile
    rcases (hmem file).mp hfile with hfile | rfl
    · exact h.drawn file hfile
    · rw [hsame.token, hsame.invocationId]
      exact hbegins.drawn
  · intro batch answer hlog
    obtain ⟨file, hfile, hgeneration⟩ := h.owned batch answer hlog
    exact ⟨file, (hmem file).mpr (.inl hfile), hgeneration⟩
  · intro file hfile
    rcases (hmem file).mp hfile with hfile | rfl
    · exact h.fits file hfile
    · rw [← hs]
      exact withPublication_fits (by rw [hbegins.phase]; rfl) (by simp [hbegins.phase])

/-- **So does a revision of a file.** -/
theorem Sound.revised (h : Sound w) (hd : w.Holds d) (hrevises : Revises platform w d s) : Sound (w.put s) := by
  have hsame := hrevises.same
  have hold : ∀ file ∈ w.disk, file.token = s.token → file = d := fun file hfile htoken =>
    h.eq_of_token hfile hd.mem (htoken.trans hsame.token)
  refine ⟨Table.nodup_store h.tokens, ?_, ?_, ?_, ?_, ?_⟩
  · rw [World.put, put, Table.map_store hd.mem hsame.token.symm]
    · exact h.invocations
    · intro file hfile htoken
      rw [hold file hfile htoken, hsame.invocationId]
  · rw [World.put, put, Table.map_store hd.mem hsame.token.symm]
    · exact h.attempts
    · intro file hfile htoken
      rw [hold file hfile htoken, DispatchState.attempt, hsame.identity, DispatchState.attempt]
  · intro file hfile
    rcases h.mem_put.mp hfile with rfl | ⟨hfile, -⟩
    · rw [hsame.token, hsame.invocationId]
      exact h.drawn d hd.mem
    · exact h.drawn file hfile
  · intro batch answer hlog
    obtain ⟨file, hfile, hgeneration⟩ := h.owned batch answer hlog
    by_cases htoken : file.token = s.token
    · rw [hold file hfile htoken] at hgeneration
      exact ⟨s, h.mem_put.mpr (.inl rfl), hsame.invocationId.trans hgeneration⟩
    · exact ⟨file, h.mem_put.mpr (.inr ⟨hfile, htoken⟩), hgeneration⟩
  · intro file hfile
    rcases h.mem_put.mp hfile with rfl | ⟨hfile, -⟩
    · exact hrevises.fits (h.fits d hd.mem)
    · exact h.fits file hfile

/-- **So does every change.** -/
theorem Change.sound (h : Sound w) (hchange : Change platform w w') : Sound w' := by
  cases hchange with
  | asked hquestion =>
    refine h.asked fun batch answer hentry => ?_
    injection hentry with hentry
    exact absurd hentry.symm (hquestion batch)
  | @submitted d pending answer hd hpending =>
    refine h.asked fun batch answer' hentry => ⟨d, hd.mem, ?_⟩
    injection hentry with hentry
    injection hentry with hentry
    rw [hentry, (h.fits d hd.mem pending hpending).generation]
  | began hbegins => exact h.began hbegins
  | revised hd hrevises => exact h.revised hd hrevises

variable (platform) in
/-- What can be reached from sound files by changes. -/
structure Reachable (start w : World) : Prop where
  began : Sound start
  changes : Relation.ReflTransGen (Change platform) start w

variable {start : World}

/-- A run of no change. -/
theorem Reachable.refl (h : Sound start) : Reachable platform start start := ⟨h, .refl⟩

/-- One more. -/
theorem Reachable.step (h : Reachable platform start w) (hchange : Change platform w w') : Reachable platform start w' :=
  ⟨h.began, h.changes.tail hchange⟩

/-- **What every change keeps holds of all that can be reached.** -/
theorem Reachable.invariant {P : World → Prop} (h : Reachable platform start w) (hstart : P start)
    (hstep : ∀ {w w'}, Sound w → P w → Change platform w w' → P w') : Sound w ∧ P w := by
  obtain ⟨hsound, hchanges⟩ := h
  induction hchanges with
  | refl => exact ⟨hsound, hstart⟩
  | tail _ hchange ih => exact ⟨hchange.sound ih.1, hstep ih.1 ih.2 hchange⟩

/-- **The invariant holds throughout.** -/
theorem Reachable.sound (h : Reachable platform start w) : Sound w :=
  (h.invariant trivial fun _ _ _ => trivial).1

end Files

end RoadmapTelemetry

end FsQuint
