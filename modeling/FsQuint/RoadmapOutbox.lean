/-
  What the telemetry engine has acknowledged of a dispatch, and what the file of the dispatch says of it.

  1. **Batches**: which milestones, and which revisions of usage, the publications carry.
  2. **Submissions** (`Outbox`): the file of a dispatch is a producer of numbered batches, of which the
     engine may have missed some, or the dispatch its answers.
  3. **Invariant** (`Reachable.outbox`): every change keeps it.

  The relation between a file and the submissions of its dispatch (`Stands`) has three cases:
  nothing is pending and the file counts what was acknowledged; something is pending and not
  acknowledged, as far as the record shows; or it was acknowledged, and the process died before the
  file said so.  In the last one the batch is submitted again, as it was.
-/
import FsQuint.Lib.Producer
import FsQuint.RoadmapCommands

namespace FsQuint

open Utf16 Decimal Collections Durable Producer Transition

namespace RoadmapTelemetry

variable {platform : Platform} {w w' : World} {d s : DispatchState} {turnId : UString}

/-! ## What publications carry -/

/-- The kind is the first field of an event. -/
theorem field_kind {kind : Value} {rest : Dict} : field "kind" ((lit "kind", kind) :: rest) = some kind := rfl

/-- **The first publication announces the dispatch.** -/
theorem milestones_begin {timestamp : UString} :
    (batchOf s (beginEvents platform d timestamp)).milestones = [.text "expected-dispatch"] := by
  rw [Batch.milestones, batchOf, beginEvents]
  dsimp only
  split <;> split <;> rfl

/-- **The second admits it to the runtime.** -/
theorem milestones_start {nativeId timestamp : UString} :
    (batchOf s (startEvents d nativeId timestamp)).milestones = [.text "runtime-admission"] := by
  rw [Batch.milestones, batchOf, startEvents]
  split <;> rfl

/-- **The third says that it has ended.** -/
theorem milestones_finish {outcome : Outcome} {exitCode : Int} {timestamp : UString} :
    (batchOf s (finishEvents d outcome exitCode timestamp)).milestones = [.text "runtime-terminal"] := rfl

/-- Observations report no milestone. -/
theorem milestones_observation {kind : UString} {rest : Dict} (hkind : kind ∈ observationKinds) :
    (batchOf s [(lit "kind", .text kind) :: rest]).milestones = [] := by
  simp only [observationKinds, List.mem_cons, List.not_mem_nil, or_false] at hkind
  rcases hkind with rfl | rfl | rfl | rfl <;> rfl

/-- What announces a dispatch carries no usage. -/
theorem revisions_begin {timestamp : UString} : (batchOf s (beginEvents platform d timestamp)).revisions turnId = [] := by
  rw [Batch.revisions, batchOf, beginEvents]
  dsimp only
  split <;> split <;> rfl

/-- Nor does what admits it. -/
theorem revisions_start {nativeId timestamp : UString} :
    (batchOf s (startEvents d nativeId timestamp)).revisions turnId = [] := by
  rw [Batch.revisions, batchOf, startEvents]
  split <;> rfl

/-- Nor what says that it has ended. -/
theorem revisions_finish {outcome : Outcome} {exitCode : Int} {timestamp : UString} :
    (batchOf s (finishEvents d outcome exitCode timestamp)).revisions turnId = [] := rfl

/-- Only events of one kind carry usage. -/
theorem revisions_of_kinds {batch : Batch}
    (h : ∀ event ∈ batch.events, field "kind" event ≠ some (.text "runtime-turn-usage")) : batch.revisions turnId = [] :=
  List.filterMap_eq_nil_iff.mpr fun event hevent => if_neg fun hkind => h event hevent hkind.1

/-- Observations carry none. -/
theorem revisions_observation {kind : UString} {rest : Dict} (hkind : kind ∈ observationKinds) :
    (batchOf s [(lit "kind", .text kind) :: rest]).revisions turnId = [] := by
  refine revisions_of_kinds fun event hevent => ?_
  rw [List.mem_singleton.mp hevent, field_kind]
  simp only [observationKinds, List.mem_cons, List.not_mem_nil, or_false] at hkind
  rcases hkind with rfl | rfl | rfl | rfl <;> decide

/-- A publication of usage carries one revision of one turn. -/
theorem revisions_usage {native : NativeUsage} {turn : Turn} {revision : Nat} :
    (batchOf s [usageEvent platform d native turn revision]).revisions turnId =
      if turn.turnId = turnId then [(revision : Int)] else [] := by
  have hturn : field "turnId" (usageEvent platform d native turn revision) = some (.text turn.turnId) := rfl
  have hkind : field "kind" (usageEvent platform d native turn revision) = some (.text "runtime-turn-usage") := rfl
  have hrevision : field "revision" (usageEvent platform d native turn revision) = some (.integer revision) := rfl
  rw [Batch.revisions, batchOf]
  simp only [List.filterMap_cons, List.filterMap_nil, hturn, hkind, hrevision, true_and, Option.some.injEq,
    Value.text.injEq, Option.bind_some, Value.number]
  by_cases h : turn.turnId = turnId
  · simp [h]
  · simp [h]

/-- What the publication on file of a dispatch means. -/
structure Means (d : DispatchState) : Prop where
  milestones : ∀ p ∈ d.pendingPublication, p.nextPhase.milestones = d.phase.milestones ++ p.batch.milestones
  revisions : ∀ p ∈ d.pendingPublication, ∀ turnId, p.batch.revisions turnId = [] ∨
    p.batch.revisions turnId = [(nextRevision (Table.lookup Prod.fst turnId d.usageLedger) : Int)]
  intent : ∀ intent ∈ d.usageIntent, intent.revision = nextRevision (Table.lookup Prod.fst intent.turnId d.usageLedger)

/-- A publication that carries what its phase lacks keeps the meaning of the file. -/
theorem withPublication_means {operation : UString} {nextPhase : Phase} {events : List Dict}
    (hmilestones : nextPhase.milestones = s.phase.milestones ++ (batchOf s events).milestones)
    (hrevisions : ∀ turnId, (batchOf s events).revisions turnId = [] ∨
      (batchOf s events).revisions turnId = [(nextRevision (Table.lookup Prod.fst turnId s.usageLedger) : Int)])
    (hintent : ∀ intent ∈ s.usageIntent,
      intent.revision = nextRevision (Table.lookup Prod.fst intent.turnId s.usageLedger)) :
    Means (s.withPublication operation nextPhase events) where
  milestones := fun p hp => by
    obtain rfl := Option.some_inj.mp hp
    exact hmilestones
  revisions := fun p hp turnId => by
    obtain rfl := Option.some_inj.mp hp
    exact hrevisions turnId
  intent := hintent

/-- **What a command writes down carries what it should.** -/
theorem Prepares.means (h : Prepares platform d s) (hd : Means d) : Means s := by
  cases h with
  | start hphase =>
    refine withPublication_means ?_ (fun turnId => .inl revisions_start) hd.intent
    rw [milestones_start]
    rfl
  | finish hphase =>
    refine withPublication_means ?_ (fun turnId => .inl revisions_finish) hd.intent
    rw [milestones_finish]
    rfl
  | thread hphase =>
    refine withPublication_means ?_ (fun turnId => .inl rfl) hd.intent
    rw [hphase]
    rfl
  | @usage native turn intent hphase hintent hturn =>
    refine withPublication_means ?_ (fun turnId => ?_) hd.intent
    · rw [hphase]
      rfl
    · rw [revisions_usage, hd.intent intent hintent, hturn]
      by_cases h : turn.turnId = turnId
      · rw [if_pos h, h]
        exact .inr rfl
      · rw [if_neg h]
        exact .inl rfl
  | observation hphase hkind =>
    refine withPublication_means ?_ (fun turnId => .inl (revisions_observation hkind)) hd.intent
    rw [milestones_observation hkind, List.append_nil]

/-- A note changes nothing that was published. -/
theorem Notes.means (h : Notes d s) (hd : Means d) : Means s := by
  cases h with
  | @intends intent hnone hrevision =>
    refine ⟨hd.milestones, hd.revisions, fun intent' hintent' => ?_⟩
    obtain rfl := Option.some_inj.mp hintent'
    exact hrevision
  | records _ hpending =>
    refine ⟨fun p hp => ?_, fun p hp => ?_, fun _ h => absurd h (by simp [DispatchState.recorded])⟩
    · exact absurd hp (by simp [DispatchState.recorded, hpending])
    · exact absurd hp (by simp [DispatchState.recorded, hpending])
  | forgets => exact ⟨hd.milestones, hd.revisions, fun _ h => absurd h (by simp)⟩
  | names | publishes | exits => exact ⟨hd.milestones, hd.revisions, hd.intent⟩

/-- **So every revision keeps the meaning of the file.** -/
theorem Revises.means (h : Revises platform w d s) (hd : Means d) : Means s := by
  cases h with
  | prepares _ h => exact h.means hd
  | settles => exact ⟨fun _ h => absurd h (by simp), fun _ h => absurd h (by simp), hd.intent⟩
  | rollsBack =>
    refine ⟨fun _ h => absurd h (by simp [DispatchState.rolledBack]),
      fun _ h => absurd h (by simp [DispatchState.rolledBack]), fun intent hintent => hd.intent intent ?_⟩
    rw [DispatchState.rolledBack] at hintent
    split at hintent
    · exact absurd hintent (by simp)
    · exact hintent
  | notes _ h => exact h.means hd

/-! ## Submissions -/

/-- What a submission came to. -/
def verdict : Option Completed → Verdict
  | none => .unknown
  | some completed =>
    if completed.returncode = 0 then .acknowledged
    else if occursIn "invalid-request" completed.failure then .rejected
    else .unknown

/-- A question as a submission of an invocation, if it is one. -/
def submission (invocationId : UString) : Entry Question.Answer → Option (Submission Batch)
  | ⟨.submit batch, answer⟩ => if batch.generation = invocationId then some ⟨batch, verdict answer⟩ else none
  | _ => none

/-- What was submitted of an invocation. -/
def submissions (invocationId : UString) (log : Record) : List (Submission Batch) :=
  log.filterMap (submission invocationId)

/-- The number that the cursor of a batch shows. -/
def Batch.number (batch : Batch) : Nat := (parseNat batch.cursor).getD 0

/-- The pending publication has the number of the file. -/
theorem Fits.number {p : Pending} (h : Fits d p) : p.batch.number = d.sequence := by
  rw [Batch.number, h.cursor, parseNat_natText, Option.getD_some]

/-- Acknowledged is what came back with zero. -/
theorem verdict_acknowledged {answer : Option Completed} (h : verdict answer = .acknowledged) :
    ∃ completed, answer = some completed ∧ completed.returncode = 0 := by
  rcases answer with - | completed
  · exact absurd h (by simp [verdict])
  · refine ⟨completed, rfl, ?_⟩
    rw [verdict] at h
    split at h
    · assumption
    · split at h <;> cases h

/-- Rejected is what came back as an invalid request. -/
theorem verdict_rejected {answer : Option Completed} :
    verdict answer = .rejected ↔ ∃ completed, answer = some completed ∧ completed.Refuses := by
  rcases answer with - | completed
  · simp [verdict]
  · rw [verdict]
    by_cases hcode : completed.returncode = 0
    · simp [hcode, Completed.Refuses]
    · by_cases hrefused : occursIn "invalid-request" completed.failure = true
      · simp [hcode, hrefused, Completed.Refuses]
      · simp [hcode, hrefused, Completed.Refuses]

/-- Submissions in a record of two parts. -/
theorem submissions_append {invocationId : UString} {log log' : Record} :
    submissions invocationId (log ++ log') = submissions invocationId log ++ submissions invocationId log' :=
  List.filterMap_append

/-- A submission was asked of the outside. -/
theorem mem_submissions {invocationId : UString} {log : Record} {sub : Submission Batch}
    (h : sub ∈ submissions invocationId log) :
    ∃ answer, ⟨.submit sub.batch, answer⟩ ∈ log ∧ verdict answer = sub.verdict ∧ sub.batch.generation = invocationId := by
  obtain ⟨⟨question, answer⟩, hentry, hsub⟩ := List.mem_filterMap.mp h
  cases question with
  | submit batch =>
    rw [submission] at hsub
    split at hsub
    · next hgeneration =>
      obtain rfl := Option.some_inj.mp hsub
      exact ⟨answer, hentry, rfl, hgeneration⟩
    · cases hsub
  | _ => cases hsub

/-- An entry that is not a submission of an invocation. -/
theorem submissions_other {invocationId : UString} {log : Record} {entry : Entry Question.Answer}
    (h : ∀ batch answer, ⟨.submit batch, answer⟩ = entry → batch.generation ≠ invocationId) :
    submissions invocationId (log ++ [entry]) = submissions invocationId log := by
  rw [submissions_append]
  have hnone : submission invocationId entry = none := by
    obtain ⟨question, answer⟩ := entry
    cases question with
    | submit batch => exact if_neg (h batch answer rfl)
    | _ => rfl
  rw [submissions, submissions, List.filterMap_cons_none hnone, List.filterMap_nil, List.append_nil]

/-- And what is asked becomes one. -/
theorem submissions_submit {log : Record} {batch : Batch} {answer : Option Completed} :
    submissions batch.generation (log ++ [⟨.submit batch, answer⟩]) =
      submissions batch.generation log ++ [⟨batch, verdict answer⟩] := by
  have hsome : submission batch.generation ⟨.submit batch, answer⟩ = some ⟨batch, verdict answer⟩ := if_pos rfl
  rw [submissions_append, submissions, submissions, List.filterMap_cons_some hsome, List.filterMap_nil]

/-- How the file of a dispatch stands to what is known of its batches. -/
inductive Stands (d : DispatchState) (k : Knowledge Batch) : Prop
  | idle (hpending : d.pendingPublication = none) (hknown : k.pending = none) (hlength : d.sequence = k.done.length)
    (hmilestones : k.done.flatMap Batch.milestones = d.phase.milestones)
  | opened {p : Pending} (hpending : d.pendingPublication = some p) (hknown : ∀ b ∈ k.pending, b = p.batch)
    (hlength : d.sequence = k.done.length + 1) (hmilestones : k.done.flatMap Batch.milestones = d.phase.milestones)
  /-- the process died before the file said so -/
  | acknowledged {p : Pending} (hpending : d.pendingPublication = some p) (hknown : ∀ b ∈ k.pending, b = p.batch)
    (hlength : d.sequence = k.done.length) (hlast : k.done.getLast? = some p.batch)
    (hmilestones : k.done.flatMap Batch.milestones = p.nextPhase.milestones)

/-- The order in which usage is published. -/
structure Ordered (d : DispatchState) (k : Knowledge Batch) : Prop where
  revisions : ∀ turnId, (k.done.flatMap (Batch.revisions turnId)).Pairwise (· ≤ ·)
  bounded : ∀ turnId, ∀ r ∈ k.done.flatMap (Batch.revisions turnId),
    r ≤ nextRevision (Table.lookup Prod.fst turnId d.usageLedger)

/-- What holds of a dispatch and the record. -/
structure Outbox (log : Record) (d : DispatchState) (k : Knowledge Batch) : Prop where
  produces : Produces Batch.number (submissions d.invocationId log) k
  stands : Stands d k
  ordered : Ordered d k

/-- **A submission and what becomes of it**: the file and what the engine knows move together. -/
theorem Stands.step {answer : Option Completed} {p : Pending} {k : Knowledge Batch} (h : Stands d k)
    (hcounted : Counted Batch.number k) (hfits : Fits d p) (hmeans : Means d) (hpending : d.pendingPublication = some p)
    (hrefused : verdict answer = .rejected → p.batch ∉ k.done) :
    ∃ k', Submits Batch.number k ⟨p.batch, verdict answer⟩ k' ∧ Stands d k' ∧
      (k'.done = k.done ∨ k'.done = k.done ++ [p.batch]) := by
  have hnumber := hfits.number
  cases h with
  | idle hidle => exact absurd (hpending.symm.trans hidle) (by simp)
  | @opened p' hpending' hknown hlength hmilestones =>
    obtain rfl : p' = p := Option.some_inj.mp (hpending'.symm.trans hpending)
    have hnew : p'.batch ∉ k.done := hcounted.not_mem (hnumber.trans hlength)
    have hdone : (k.after p'.batch .acknowledged).done = k.done ++ [p'.batch] := if_neg hnew
    refine ⟨_, .next (hnumber.trans hlength) hknown, ?_, ?_⟩
    · cases verdict answer with
      | acknowledged =>
        refine .acknowledged hpending (fun _ h => absurd h (by simp [Knowledge.after])) ?_ ?_ ?_
        · rw [hlength, hdone, List.length_append, List.length_singleton]
        · rw [hdone]
          exact List.getLast?_concat
        · rw [hdone, List.flatMap_append, hmilestones, List.flatMap_singleton, hmeans.milestones p' hpending]
      | rejected => exact .opened hpending (fun _ h => absurd h (by simp [Knowledge.after])) hlength hmilestones
      | unknown => exact .opened hpending (fun _ h => (Option.some_inj.mp h).symm) hlength hmilestones
    · cases verdict answer with
      | acknowledged => exact .inr hdone
      | rejected | unknown => exact .inl rfl
  | @acknowledged p' hpending' hknown hlength hlast hmilestones =>
    obtain rfl : p' = p := Option.some_inj.mp (hpending'.symm.trans hpending)
    have hdone : (k.after p'.batch .acknowledged).done = k.done := if_pos (List.mem_of_getLast? hlast)
    refine ⟨_, .again hlast hknown fun hv => hrefused hv (List.mem_of_getLast? hlast), ?_, ?_⟩
    · cases hv : verdict answer with
      | acknowledged =>
        refine .acknowledged hpending (fun _ h => absurd h (by simp [Knowledge.after])) ?_ ?_ ?_ <;> rw [hdone]
        · exact hlength
        · exact hlast
        · exact hmilestones
      | rejected => exact absurd (List.mem_of_getLast? hlast) (hrefused hv)
      | unknown =>
        exact .acknowledged hpending (fun _ h => (Option.some_inj.mp h).symm) hlength hlast hmilestones
    · cases verdict answer with
      | acknowledged => exact .inl hdone
      | rejected | unknown => exact .inl rfl

variable {k k' : Knowledge Batch} {p : Pending} {log : Record}

/-- The publication on file carries the next revision, if any. -/
theorem Ordered.snoc (h : Ordered d k) (hmeans : Means d) (hpending : d.pendingPublication = some p)
    (hdone : k'.done = k.done ++ [p.batch]) : Ordered d k' := by
  have hflat : ∀ turnId, k'.done.flatMap (Batch.revisions turnId) =
      k.done.flatMap (Batch.revisions turnId) ++ p.batch.revisions turnId := by
    intro turnId
    rw [hdone, List.flatMap_append, List.flatMap_singleton]
  refine ⟨fun turnId => ?_, fun turnId r hr => ?_⟩
  · rw [hflat]
    rcases hmeans.revisions p hpending turnId with hnone | hnext
    · rw [hnone, List.append_nil]
      exact h.revisions turnId
    · rw [hnext, List.pairwise_append]
      refine ⟨h.revisions turnId, List.pairwise_singleton _ _, ?_⟩
      intro r hr r' hr'
      rw [List.mem_singleton.mp hr']
      exact h.bounded turnId r hr
  · rw [hflat, List.mem_append] at hr
    rcases hr with hr | hr
    · exact h.bounded turnId r hr
    · rcases hmeans.revisions p hpending turnId with hnone | hnext
      · exact absurd hr (by simp [hnone])
      · rw [hnext, List.mem_singleton] at hr
        exact le_of_eq hr

/-- What is done was acknowledged. -/
theorem Outbox.acknowledged (h : Outbox log d k) {batch : Batch} (hbatch : batch ∈ k.done) : Acknowledged log batch := by
  rw [h.produces.done] at hbatch
  obtain ⟨answer, hentry, hverdict, -⟩ := mem_submissions (mem_acknowledged hbatch)
  obtain ⟨completed, rfl, hcode⟩ := verdict_acknowledged hverdict
  exact ⟨completed, hentry, hcode⟩

/-- A submission of the publication that is on file. -/
theorem Outbox.submitted (h : Outbox log d k) (hfits : Fits d p) (hmeans : Means d)
    (hpending : d.pendingPublication = some p) {answer : Option Completed}
    (hallowed : ∀ completed ∈ answer, Allowed log (.submit p.batch) completed) :
    ∃ k', Outbox (log ++ [⟨.submit p.batch, answer⟩]) d k' := by
  have hrefused : verdict answer = .rejected → p.batch ∉ k.done := by
    intro hverdict hdone
    obtain ⟨completed, rfl, hrefuses⟩ := verdict_rejected.mp hverdict
    exact hallowed completed rfl hrefuses (h.acknowledged hdone)
  obtain ⟨k', hsubmits, hstands, hdone⟩ := h.stands.step h.produces.counted hfits hmeans hpending hrefused
  refine ⟨k', ?_, hstands, ?_⟩
  · rw [← hfits.generation, submissions_submit, hfits.generation]
    exact .snoc h.produces hsubmits
  · rcases hdone with hdone | hdone
    · exact ⟨hdone ▸ h.ordered.revisions, hdone ▸ h.ordered.bounded⟩
    · exact h.ordered.snoc hmeans hpending hdone

/-- After an acknowledgment the file is behind what is done. -/
theorem Outbox.settles (h : Outbox log d k) (hfits : Fits d p) (hpending : d.pendingPublication = some p)
    {completed : Completed} (hlast : log.getLast? = some ⟨.submit p.batch, some completed⟩) (hok : completed.returncode = 0) :
    Outbox log { d with phase := p.nextPhase, pendingPublication := none } k := by
  obtain ⟨before, rfl⟩ := List.getLast?_eq_some_iff.mp hlast
  have hproduces := h.produces
  rw [← hfits.generation, submissions_submit, show verdict (some completed) = .acknowledged from if_pos hok] at hproduces
  obtain ⟨hnumber, hnone⟩ := hproduces.last_acknowledged
  rw [hfits.number] at hnumber
  refine ⟨h.produces, ?_, h.ordered.revisions, h.ordered.bounded⟩
  cases h.stands with
  | idle hidle => exact absurd (hpending.symm.trans hidle) (by simp)
  | opened _ _ hlength => omega
  | @acknowledged p' hpending' hknown hlength _ hmilestones =>
    obtain rfl : p' = p := Option.some_inj.mp (hpending'.symm.trans hpending)
    exact .idle rfl hnone hlength hmilestones

/-- After a refusal nothing is known of the batch, and its number is free. -/
theorem Outbox.rollsBack (h : Outbox log d k) (hfits : Fits d p) (hpending : d.pendingPublication = some p)
    {completed : Completed} (hlast : log.getLast? = some ⟨.submit p.batch, some completed⟩) (hrefused : completed.Refuses) :
    Outbox log (d.rolledBack p.operation) k := by
  obtain ⟨before, rfl⟩ := List.getLast?_eq_some_iff.mp hlast
  have hproduces := h.produces
  rw [← hfits.generation, submissions_submit, verdict_rejected.mpr ⟨completed, rfl, hrefused⟩] at hproduces
  obtain ⟨hknown, hnumber⟩ := hproduces.last_rejected
  rw [hfits.number] at hnumber
  refine ⟨h.produces, ?_, h.ordered.revisions, h.ordered.bounded⟩
  cases h.stands with
  | idle hidle => exact absurd (hpending.symm.trans hidle) (by simp)
  | opened _ _ hlength hmilestones =>
    refine .idle rfl hknown ?_ hmilestones
    rw [DispatchState.rolledBack, hlength, Nat.add_sub_cancel]
  | acknowledged _ _ hlength => omega

/-- **Writing a publication down** sends nothing. -/
theorem Outbox.prepares (h : Outbox log d k) (hidle : d.pendingPublication = none) (hprepares : Prepares platform d s) :
    Outbox log s k := by
  cases h.stands with
  | opened hpending | acknowledged hpending => exact absurd (hpending.symm.trans hidle) (by simp)
  | idle _ hknown hlength hmilestones =>
    have hopened : ∀ {s' : DispatchState} {operation : UString} {nextPhase : Phase} {events : List Dict},
        s'.sequence = d.sequence → s'.phase.milestones = d.phase.milestones →
        Stands (s'.withPublication operation nextPhase events) k := by
      intro s' operation nextPhase events hsequence hphase
      refine .opened rfl (fun _ hb => absurd hb (by simp [hknown])) ?_ (hmilestones.trans hphase.symm)
      rw [← hlength, ← hsequence]
      rfl
    cases hprepares with
    | start hphase | finish hphase =>
      exact ⟨h.produces, hopened rfl (by rw [hphase]; rfl), h.ordered.revisions, h.ordered.bounded⟩
    | thread | usage | observation =>
      exact ⟨h.produces, hopened rfl rfl, h.ordered.revisions, h.ordered.bounded⟩

/-- The relation looks at the phase, the number and the publication of the file. -/
theorem Stands.congr (h : Stands d k) (hphase : s.phase = d.phase) (hsequence : s.sequence = d.sequence)
    (hpending : s.pendingPublication = d.pendingPublication) : Stands s k := by
  cases h with
  | idle h hknown hlength hmilestones =>
    exact .idle (hpending.trans h) hknown (hsequence.trans hlength) (by rw [hphase, hmilestones])
  | opened h hknown hlength hmilestones =>
    exact .opened (hpending.trans h) hknown (hsequence.trans hlength) (by rw [hphase, hmilestones])
  | acknowledged h hknown hlength hlast hmilestones =>
    exact .acknowledged (hpending.trans h) hknown (hsequence.trans hlength) hlast hmilestones

/-- So a note leaves it. -/
theorem Outbox.notes (h : Outbox log d k) (hmeans : Means d) (hnotes : Notes d s) : Outbox log s k := by
  cases hnotes with
  | @records intent hintent hpending =>
    refine ⟨h.produces, h.stands.congr rfl rfl rfl, h.ordered.revisions, fun turnId r hr => ?_⟩
    have hbound := h.ordered.bounded turnId r hr
    show r ≤ nextRevision (Table.lookup Prod.fst turnId (Table.store Prod.fst _ d.usageLedger))
    rw [Table.lookup_store]
    split
    · next hturn =>
      rw [hturn, ← hmeans.intent intent hintent] at hbound
      show r ≤ ((intent.revision + 1 : Nat) : Int)
      omega
    · exact hbound
  | intends | forgets | names | publishes | exits =>
    exact ⟨h.produces, h.stands.congr rfl rfl rfl, h.ordered.revisions, h.ordered.bounded⟩

/-! ## The invariant -/

/-- Every file has an outbox. -/
def Kept (w : World) : Prop := ∀ d ∈ w.disk, Means d ∧ ∃ k, Outbox w.log d k

/-- What does not concern an invocation leaves its outbox as it is. -/
theorem Outbox.other (h : Outbox log d k) {entry : Entry Question.Answer}
    (hother : ∀ batch answer, ⟨.submit batch, answer⟩ = entry → batch.generation ≠ d.invocationId) :
    Outbox (log ++ [entry]) d k := by
  refine ⟨?_, h.stands, h.ordered⟩
  rw [submissions_other hother]
  exact h.produces

/-- A new dispatch has submitted nothing. -/
theorem Kept.began (hw : Sound w) (h : Kept w) {timestamp : UString} (hbegins : Begins w d) :
    Kept (w.put (d.withPublication "begin" .expected (beginEvents platform d timestamp))) := by
  intro file hfile
  rcases hw.mem_put.mp hfile with rfl | ⟨hfile, -⟩
  · refine ⟨withPublication_means ?_ (fun _ => .inl revisions_begin) ?_, ⟨[], none⟩, ?_, ?_, ?_⟩
    · rw [milestones_begin, hbegins.phase]
      rfl
    · exact fun _ hintent => absurd hintent (by simp [hbegins.intent])
    · show Produces Batch.number (submissions d.invocationId w.log) _
      have hnone : submissions d.invocationId w.log = [] := by
        refine List.eq_nil_iff_forall_not_mem.mpr fun sub hsub => ?_
        obtain ⟨answer, hentry, -, hgeneration⟩ := mem_submissions hsub
        obtain ⟨file, hfile, howner⟩ := hw.owned _ _ hentry
        exact (hbegins.fresh file hfile).2.1 (howner.trans hgeneration)
      rw [hnone]
      exact .refl
    · refine .opened rfl (fun _ hb => absurd hb (by simp)) ?_ ?_
      · show d.sequence + 1 = 1
        rw [hbegins.sequence]
      · show [] = d.phase.milestones
        rw [hbegins.phase]
        rfl
    · exact ⟨fun _ => List.Pairwise.nil, fun _ _ hr => absurd hr (by simp)⟩
  · exact h file hfile

/-- A revision changes one file, and no other dispatch’s submissions. -/
theorem Kept.revised (hw : Sound w) (h : Kept w) (hd : w.Holds d) (hrevises : Revises platform w d s) :
    Kept (w.put s) := by
  intro file hfile
  rcases hw.mem_put.mp hfile with rfl | ⟨hfile, -⟩
  · obtain ⟨hmeans, k, hk⟩ := h d hd.mem
    refine ⟨hrevises.means hmeans, k, ?_⟩
    cases hrevises with
    | prepares hidle hprepares => exact hk.prepares hidle hprepares
    | settles hpending hlast hok => exact hk.settles (hw.fits d hd.mem _ hpending) hpending hlast hok
    | rollsBack hpending hlast hrefused => exact hk.rollsBack (hw.fits d hd.mem _ hpending) hpending hlast hrefused
    | notes _ hnotes => exact hk.notes hmeans hnotes
  · exact h file hfile

/-- **Every change keeps the invariant.** -/
theorem Change.kept (hw : Sound w) (h : Kept w) (hchange : Change platform w w') : Kept w' := by
  cases hchange with
  | asked hquestion =>
    intro d hd
    obtain ⟨hmeans, k, hk⟩ := h d hd
    refine ⟨hmeans, k, hk.other fun batch answer hentry => ?_⟩
    injection hentry with hentry
    exact absurd hentry.symm (hquestion batch)
  | @submitted d₀ pending answer hd₀ hpending hallowed =>
    intro d hd
    obtain ⟨hmeans, k, hk⟩ := h d hd
    by_cases heq : d = d₀
    · subst heq
      obtain ⟨k', hk'⟩ := hk.submitted (hw.fits d hd _ hpending) hmeans hpending hallowed
      exact ⟨hmeans, k', hk'⟩
    · refine ⟨hmeans, k, hk.other fun batch answer' hentry hgeneration => heq ?_⟩
      injection hentry with hentry
      injection hentry with hentry
      refine hw.eq_of_invocation hd hd₀.mem ?_
      rw [← hgeneration, hentry, (hw.fits d₀ hd₀.mem pending hpending).generation]
  | began hbegins => exact h.began hw hbegins
  | revised hd hrevises => exact h.revised hw hd hrevises

/-- **It holds throughout.** -/
theorem Reachable.kept {start : World} (h : Reachable platform start w) (hstart : Kept start) : Kept w :=
  (h.invariant hstart fun hw h hchange => hchange.kept hw h).2

end RoadmapTelemetry

end FsQuint
