/-
  Every command of the roadmap telemetry, whenever it dies, has made changes (`RoadmapChanges`) and no
  others.

  1. **Rules** (`Session.Meets`, `Command.Meets`): for the effects, and for one part of a command after
     another.  A session that fails keeps the state that it has in memory, which a handler may go on
     with, so its failure has a condition of its own; of a command that fails nothing is asked.
  2. **Parts**: what the shared parts of the commands leave behind, whether they succeed or fail.  The
     state in memory and the file differ only between an assignment and the next `save_state`; where a
     part is called they agree (`Holds`), and so they do again where it has succeeded.
  3. **Usage**: it is reconciled after the end of a dispatch (`Ended`), with an intent at most for one
     turn at a time (`Quiet`).
  4. **Commands** (`perform_meets`), and runs of them (`run_reachable`).
-/
import FsQuint.RoadmapChanges

namespace FsQuint

open Utf16 Decimal Collections Durable

namespace RoadmapTelemetry

section Rules

variable (platform : Platform) (start : World)

/-- What holds after a session that comes to a result, or fails. -/
def ends {α : Type} (ok : α → DispatchState → World → Prop) (failed : DispatchState → World → Prop) :
    Except Failure α × DispatchState → World → Prop
  | (.ok a, s), w => ok a s w
  | (.error _, s), w => failed s w

/-- From a state in memory, all effects of a session are changes, and it ends as it should. -/
def Session.Meets {α : Type} (m : Session α) (ok : α → DispatchState → World → Prop)
    (failed : DispatchState → World → Prop) (s : DispatchState) (w : World) : Prop :=
  Durable.Holds Allowed (Reachable platform start) (ends ok failed) (m s) w

/-- What holds after a command that comes to a result. -/
def succeeds {α : Type} (ok : α → World → Prop) : Except Failure α → World → Prop
  | .ok a, w => ok a w
  | .error _, _ => True

/-- All effects of a command are changes, and it ends as it should. -/
def Command.Meets {α : Type} (c : Command α) (ok : α → World → Prop) (w : World) : Prop :=
  Durable.Holds Allowed (Reachable platform start) (succeeds ok) c w

variable {platform} {start} {α β : Type} {ok : α → DispatchState → World → Prop} {ok' : β → DispatchState → World → Prop}
  {failed failed' : DispatchState → World → Prop} {s : DispatchState} {w : World}

namespace Session.Meets

/-- A session without effects. -/
theorem pure {a : α} (hw : Reachable platform start w) (h : ok a s w) :
    Session.Meets platform start (Pure.pure a) ok failed s w := ⟨hw, h⟩

/-- One that fails. -/
theorem fail {message : UString} (hw : Reachable platform start w) (h : failed s w) :
    Session.Meets platform start (Session.fail message) ok failed s w := ⟨hw, h⟩

/-- What holds at the end may be weakened. -/
theorem mono {m : Session α} {ok' : α → DispatchState → World → Prop} (h : m.Meets platform start ok' failed' s w)
    (hok : ∀ a s w, Reachable platform start w → ok' a s w → ok a s w) (hfailed : ∀ s w, failed' s w → failed s w) :
    m.Meets platform start ok failed s w := by
  refine Durable.Holds.mono ?_ h
  rintro ⟨failure | a, s⟩ w hw h
  · exact hfailed s w h
  · exact hok a s w hw h

/-- **One session after another**: what the first one ends with is what the second begins with, and its
    failure is the failure of both. -/
theorem bind {m : Session β} {f : β → Session α} (h : m.Meets platform start ok' failed' s w)
    (hok : ∀ b s w, Reachable platform start w → ok' b s w → (f b).Meets platform start ok failed s w)
    (hfailed : ∀ s w, failed' s w → failed s w) : (m >>= f).Meets platform start ok failed s w := by
  refine Durable.Holds.bind (Durable.Holds.mono ?_ h)
  rintro ⟨failure | b, s⟩ w hw h
  · exact ⟨hw, hfailed s w h⟩
  · exact hok b s w hw h

/-- **A handler** takes over where the session fails. -/
theorem catching {m : Session α} {handler : Failure → Session α} {ok' : α → DispatchState → World → Prop}
    (h : m.Meets platform start ok' failed' s w) (hok : ∀ a s w, ok' a s w → ok a s w)
    (hfailed : ∀ failure s w, Reachable platform start w → failed' s w → (handler failure).Meets platform start ok failed s w) :
    (m.catching handler).Meets platform start ok failed s w := by
  refine Durable.Holds.bind (Durable.Holds.mono ?_ h)
  rintro ⟨failure | a, s⟩ w hw h
  · exact hfailed failure s w hw h
  · exact ⟨hw, hok a s w h⟩

/-- The state in memory is read. -/
theorem get_bind {f : DispatchState → Session α} (h : (f s).Meets platform start ok failed s w) :
    (Session.get >>= f).Meets platform start ok failed s w := h

/-- It is assigned, which is no effect. -/
theorem set_bind {s' : DispatchState} {f : Unit → Session α} (h : (f ()).Meets platform start ok failed s' w) :
    (Session.set s' >>= f).Meets platform start ok failed s w := h

/-- It is saved: that has to be a change, which the rest shows. -/
theorem save_bind {f : Unit → Session α} (hw : Reachable platform start w)
    (h : (f ()).Meets platform start ok failed s (w.put s)) : (saveState >>= f).Meets platform start ok failed s w := ⟨hw, h⟩

/-- The same at the end of a session. -/
theorem save {ok : Unit → DispatchState → World → Prop} (hw : Reachable platform start w)
    (hput : Reachable platform start (w.put s)) (h : ok () s (w.put s)) :
    saveState.Meets platform start ok failed s w := ⟨hw, hput, h⟩

/-- A question is a change whether or not the process lives to see its answer. -/
theorem ask_bind {question : Question} {f : question.Answer → Session α} (hw : Reachable platform start w)
    (hchange : ∀ answer : Option question.Answer, (∀ a ∈ answer, Allowed w.log question a) →
      Change platform w (w.asked ⟨question, answer⟩))
    (h : ∀ answer, Reachable platform start (w.asked ⟨question, some answer⟩) →
      (f answer).Meets platform start ok failed s (w.asked ⟨question, some answer⟩)) :
    (Session.ask question >>= f).Meets platform start ok failed s w := by
  refine ⟨hw, hw.step (hchange none (by simp)), fun answer hanswer => ?_⟩
  exact h answer (hw.step (hchange (some answer) (by simpa using hanswer)))

/-- A question that is not a submission. -/
theorem inquire_bind {question : Question} {f : question.Answer → Session α} (hw : Reachable platform start w)
    (hquestion : ∀ batch, question ≠ .submit batch)
    (h : ∀ answer, Reachable platform start (w.asked ⟨question, some answer⟩) →
      (f answer).Meets platform start ok failed s (w.asked ⟨question, some answer⟩)) :
    (Session.ask question >>= f).Meets platform start ok failed s w :=
  ask_bind hw (fun _ hallowed => .asked hquestion hallowed) h

end Session.Meets

/-! ## Publication -/

/-- A state whose publication was settled. -/
def DispatchState.settled (s : DispatchState) (pending : Pending) : DispatchState :=
  { s with phase := pending.nextPhase, pendingPublication := none }

/-- What may have become of a publication that failed: it is still there, or it was refused. -/
def Unpublished (s s' : DispatchState) : Prop :=
  s' = s ∨ ∃ pending, s.pendingPublication = some pending ∧ s' = s.rolledBack pending.operation

/-- A publication that failed leaves the phase. -/
theorem Unpublished.phase {s s' : DispatchState} (h : Unpublished s s') : s'.phase = s.phase := by
  rcases h with rfl | ⟨_, -, rfl⟩ <;> rfl

/-- **`publish_pending`**: either the file has the state that the publication leads to, or it waits with
    it, or it has rolled it back. -/
theorem publishPending_meets (hw : Reachable platform start w) (hs : w.Holds s) :
    publishPending.Meets platform start
      (fun _ s' w => w.Holds s' ∧ ∃ pending, s.pendingPublication = some pending ∧ s' = s.settled pending)
      (fun s' w => w.Holds s' ∧ Unpublished s s') s w := by
  rw [publishPending]
  refine Session.Meets.inquire_bind hw (by simp) fun answer hw => ?_
  rcases answer with message | ⟨⟩
  · exact .fail hw ⟨hs, .inl rfl⟩
  refine Session.Meets.get_bind ?_
  cases hpending : s.pendingPublication with
  | none => exact .fail hw ⟨hs, .inl rfl⟩
  | some pending =>
    dsimp only
    split
    · exact .fail hw ⟨hs, .inl rfl⟩
    refine Session.Meets.inquire_bind hw (by simp) fun answer hw => ?_
    rcases answer with message | ⟨⟩
    · exact .fail hw ⟨hs, .inl rfl⟩
    refine Session.Meets.ask_bind hw (fun _ hallowed => .submitted hs hpending hallowed) fun completed hw => ?_
    split
    · next hcode =>
      split
      · next hrefused =>
        have hput := hw.step (.revised hs (.rollsBack hpending List.getLast?_concat ⟨hcode, hrefused⟩))
        refine Session.Meets.set_bind (Session.Meets.save_bind hw ?_)
        exact .fail hput ⟨World.put_holds, .inr ⟨pending, hpending, rfl⟩⟩
      · exact .fail hw ⟨hs, .inl rfl⟩
    · next hcode =>
      have hput := hw.step (.revised hs (.settles hpending List.getLast?_concat (not_not.mp hcode)))
      refine Session.Meets.set_bind (Session.Meets.save hw hput ⟨World.put_holds, pending, rfl, rfl⟩)

/-- A state after a publication under some sequence number. -/
def DispatchState.numbered (s : DispatchState) (sequence : Nat) (phase : Phase) : DispatchState :=
  { s with sequence := sequence, phase := phase, pendingPublication := none }

/-- `prepare_publication`: the intent is on file, whether it was there or is new. -/
theorem preparePublication_meets {operation : UString} {nextPhase : Phase} {events : List Dict}
    (hw : Reachable platform start w)
    (hidle : s.pendingPublication = none → Reachable platform start (w.put (s.withPublication operation nextPhase events)))
    (hpending : ∀ pending, s.pendingPublication = some pending → pending.operation = operation → w.Holds s) :
    (preparePublication operation nextPhase events).Meets platform start
      (fun _ s' w => w.Holds s' ∧ ∃ pending, s'.pendingPublication = some pending ∧ pending.nextPhase = nextPhase ∧
        ∃ sequence, s' = { s with sequence := sequence, pendingPublication := some pending })
      (fun _ _ => True) s w := by
  rw [preparePublication]
  refine Session.Meets.get_bind ?_
  cases hs : s.pendingPublication with
  | some pending =>
    dsimp only
    split
    · exact .fail hw trivial
    · next hsame =>
      push Not at hsame
      refine .pure hw ⟨hpending pending hs hsame.1, pending, hs, hsame.2.1, s.sequence, ?_⟩
      rw [← hs]
  | none => exact Session.Meets.set_bind (Session.Meets.save hw (hidle hs) ⟨World.put_holds, _, rfl, rfl, _, rfl⟩)

/-- `publish`: the one after the other. -/
theorem publish_meets {operation : UString} {nextPhase : Option Phase} {events : List Dict} (hw : Reachable platform start w)
    (hidle : s.pendingPublication = none →
      Reachable platform start (w.put (s.withPublication operation (nextPhase.getD s.phase) events)))
    (hpending : ∀ pending, s.pendingPublication = some pending → pending.operation = operation → w.Holds s) :
    (publish events operation nextPhase).Meets platform start
      (fun _ s' w => w.Holds s' ∧ ∃ sequence, s' = s.numbered sequence (nextPhase.getD s.phase))
      (fun _ _ => True) s w := by
  rw [publish]
  refine Session.Meets.get_bind ((preparePublication_meets hw hidle hpending).bind ?_ fun _ _ h => h)
  rintro - s₁ w₁ hw₁ ⟨hs₁, pending, hpending₁, hnext, sequence, rfl⟩
  refine (publishPending_meets hw₁ hs₁).mono ?_ fun _ _ _ => trivial
  rintro - s₂ w₂ hw₂ ⟨hs₂, pending', hpending', rfl⟩
  obtain rfl : pending = pending' := Option.some_inj.mp hpending'
  refine ⟨hs₂, sequence, ?_⟩
  rw [DispatchState.settled, DispatchState.numbered, hnext]

/-! ## Usage -/

/-- A state on file of a dispatch that has ended. -/
structure Ended (s : DispatchState) (w : World) : Prop where
  holds : w.Holds s
  phase : s.phase = .terminal

/-- What is published after the end leads nowhere else. -/
theorem Ended.settled {pending : Pending} (hw : Reachable platform start w) (h : Ended s w)
    (hpending : s.pendingPublication = some pending) : (s.settled pending).phase = .terminal := by
  have hfits := (hw.sound.fits s h.holds.mem pending hpending).phase
  rw [h.phase] at hfits
  exact (Option.some_inj.mp hfits).symm

/-- Something is noted on file. -/
theorem Ended.note {s' : DispatchState} (hw : Reachable platform start w) (h : Ended s w) (hnotes : Notes s s') :
    Reachable platform start (w.put s') ∧ (s'.phase = .terminal → Ended s' (w.put s')) :=
  ⟨hw.step (.revised h.holds (.notes h.phase hnotes)), fun hphase => ⟨World.put_holds, hphase⟩⟩

/-- The pending event of the thread is submitted again. -/
theorem republishThread_meets (hw : Reachable platform start w) (h : Ended s w) :
    republishThread.Meets platform start (fun _ => Ended) (fun _ _ => True) s w := by
  rw [republishThread]
  refine Session.Meets.get_bind ?_
  cases hpending : s.pendingPublication with
  | none => exact .pure hw h
  | some pending =>
    dsimp only
    split
    · refine (publishPending_meets hw h.holds).bind ?_ fun _ _ _ => trivial
      rintro - s₁ w₁ hw₁ ⟨hs₁, pending', hpending', rfl⟩
      have h₁ : Ended (s.settled pending') w₁ := ⟨hs₁, h.settled hw hpending'⟩
      obtain ⟨hput, hended⟩ := h₁.note hw₁ .publishes
      exact Session.Meets.get_bind (Session.Meets.set_bind (Session.Meets.save hw₁ hput (hended h₁.phase)))
    · exact .pure hw h

/-- A state of a dispatch that has ended, and intends nothing. -/
structure Quiet (s : DispatchState) (w : World) : Prop extends Ended s w where
  intent : s.usageIntent = none

/-- An intent that was published goes into the ledger. -/
theorem recorded_meets {intent : UsageIntent} (hw : Reachable platform start w) (h : Ended s w)
    (hintent : s.usageIntent = some intent) (hpending : s.pendingPublication = none) :
    Session.Meets platform start (do
      Session.set ((← Session.get).recorded intent)
      saveState) (fun _ => Quiet) (fun _ _ => True) s w := by
  obtain ⟨hput, hended⟩ := h.note hw (.records hintent hpending)
  exact Session.Meets.get_bind (Session.Meets.set_bind (Session.Meets.save hw hput ⟨hended h.phase, rfl⟩))

/-- After that nothing is intended. -/
theorem settleIntent_meets (hw : Reachable platform start w) (h : Ended s w) :
    settleIntent.Meets platform start (fun _ => Quiet) (fun _ _ => True) s w := by
  rw [settleIntent]
  refine Session.Meets.get_bind ?_
  cases hintent : s.usageIntent with
  | none => exact .pure hw ⟨h, hintent⟩
  | some intent =>
    dsimp only
    split
    · refine (Session.Meets.catching (publishPending_meets hw h.holds) (fun _ _ _ h => h) ?_).bind ?_ fun _ _ h => h
      · rintro failure s₁ w₁ hw₁ ⟨hs₁, hunpublished⟩
        refine Session.Meets.get_bind ?_
        split
        · exact .fail hw₁ trivial
        · next hpending =>
          have h₁ : Ended s₁ w₁ := ⟨hs₁, hunpublished.phase.trans h.phase⟩
          obtain ⟨hput, -⟩ := h₁.note hw₁ (.forgets (Option.not_isSome_iff_eq_none.mp hpending))
          exact Session.Meets.set_bind (Session.Meets.save_bind hw₁ (.fail hput trivial))
      · rintro - s₁ w₁ hw₁ ⟨hs₁, pending, hpending, rfl⟩
        exact recorded_meets hw₁ ⟨hs₁, h.settled hw hpending⟩ hintent rfl
    · next hpending => exact recorded_meets hw h hintent (Option.not_isSome_iff_eq_none.mp hpending)

/-- A publication that leaves the phase as it is. -/
theorem publish_ended {operation : UString} {events : List Dict} (hw : Reachable platform start w) (h : Ended s w)
    (hprepares : Prepares platform s (s.withPublication operation .terminal events)) :
    (publish events operation none).Meets platform start
      (fun _ s' w => Ended s' w ∧ ∃ sequence, s' = s.numbered sequence .terminal) (fun _ _ => True) s w := by
  have hphase : (none : Option Phase).getD s.phase = .terminal := h.phase
  refine (publish_meets hw (fun hidle => ?_) fun _ _ _ => h.holds).mono ?_ fun _ _ h => h
  · rw [hphase]
    exact hw.step (.revised h.holds (.prepares hidle hprepares))
  · rintro - s₁ w₁ hw₁ ⟨hs₁, sequence, rfl⟩
    rw [hphase] at hs₁ ⊢
    exact ⟨⟨hs₁, rfl⟩, sequence, rfl⟩

/-- The thread is published. -/
theorem publishedThread_meets {threadId : UString} (hw : Reachable platform start w) (h : Quiet s w) :
    Session.Meets platform start (do
      publish [threadEvent s threadId] "native-thread" none
      Session.set { ← Session.get with nativeThreadPublished := true }
      saveState) (fun _ => Quiet) (fun _ _ => True) s w := by
  refine (publish_ended hw h.toEnded (.thread h.phase)).bind ?_ fun _ _ h => h
  rintro - s₁ w₁ hw₁ ⟨h₁, sequence, rfl⟩
  obtain ⟨hput, hended⟩ := h₁.note hw₁ .publishes
  exact Session.Meets.get_bind (Session.Meets.set_bind (Session.Meets.save hw₁ hput ⟨hended h₁.phase, h.intent⟩))

/-- Once. -/
theorem publishThread_meets {native : NativeUsage} (hw : Reachable platform start w) (h : Quiet s w) :
    (publishThread native).Meets platform start (fun _ => Quiet) (fun _ _ => True) s w := by
  rw [publishThread]
  refine Session.Meets.get_bind ?_
  split
  · exact .pure hw h
  · split
    · exact publishedThread_meets hw h
    · obtain ⟨hput, hended⟩ := h.note hw .names
      refine Session.Meets.set_bind (Session.Meets.save_bind hw ?_)
      exact publishedThread_meets hput ⟨hended h.phase, h.intent⟩

/-- The usage of a turn is intended, published and recorded. -/
theorem publishTurn_meets {native : NativeUsage} {turn : Turn} (hw : Reachable platform start w) (h : Quiet s w) :
    (publishTurn platform native turn).Meets platform start (fun _ => Quiet) (fun _ _ => True) s w := by
  rw [publishTurn]
  refine Session.Meets.get_bind ?_
  dsimp only
  split
  · exact .pure hw h
  · have hnotes : Notes s { s with
        usageIntent := some ⟨turn.turnId, nextRevision (Table.lookup Prod.fst turn.turnId s.usageLedger),
          hexdigest platform (turnText turn)⟩ } := .intends h.intent rfl
    obtain ⟨hput, hended⟩ := h.note hw hnotes
    refine Session.Meets.set_bind (Session.Meets.save_bind hw ?_)
    refine (publish_ended hput (hended h.phase) (.usage h.phase rfl rfl)).bind ?_ fun _ _ h => h
    rintro - s₁ w₁ hw₁ ⟨h₁, sequence, rfl⟩
    exact recorded_meets hw₁ h₁ rfl rfl

/-- And so are those of all turns, by induction on them. -/
theorem publishTurns_meets {native : NativeUsage} {turns : List Turn} (hw : Reachable platform start w) (h : Quiet s w) :
    (publishTurns platform native turns).Meets platform start (fun _ => Quiet) (fun _ _ => True) s w := by
  induction turns generalizing s w with
  | nil => exact .pure hw h
  | cons turn turns ih =>
    rw [publishTurns]
    exact (publishTurn_meets hw h).bind (fun _ _ _ hw h => ih hw h) fun _ _ h => h

/-- **`reconcile_usage`.** -/
theorem reconcileUsage_meets (hw : Reachable platform start w) (hs : w.Holds s) :
    (reconcileUsage platform).Meets platform start (fun _ _ _ => True) (fun _ _ => True) s w := by
  rw [reconcileUsage]
  refine Session.Meets.get_bind ?_
  split
  · exact .pure hw trivial
  next hended =>
  push Not at hended
  split
  · exact .pure hw trivial
  refine (republishThread_meets hw ⟨hs, hended.1⟩).bind (fun _ s₁ w₁ hw₁ h₁ => ?_) fun _ _ h => h
  refine (settleIntent_meets hw₁ h₁).bind (fun _ s₂ w₂ hw₂ h₂ => ?_) fun _ _ h => h
  refine Session.Meets.get_bind (Session.Meets.inquire_bind hw₂ (by simp) fun answer hw₃ => ?_)
  have h₃ : Quiet s₂ (w₂.asked ⟨_, some answer⟩) := ⟨⟨h₂.holds, h₂.phase⟩, h₂.intent⟩
  rcases answer with - | native
  · exact .pure hw₃ trivial
  dsimp only
  split
  · exact .fail hw₃ trivial
  refine (publishThread_meets hw₃ h₃).bind (fun _ s₄ w₄ hw₄ h₄ => ?_) fun _ _ h => h
  exact (publishTurns_meets hw₄ h₄).bind (fun _ s₅ w₅ hw₅ _ => .pure hw₅ trivial) fun _ _ h => h

/-! ## Started, finish and the observations -/

/-- The end of a dispatch, or its retry. -/
theorem terminate_meets {outcome : Outcome} {explicit : Option Int} {exitCode : Int} (hw : Reachable platform start w)
    (hs : w.Holds s) :
    (terminate outcome explicit exitCode).Meets platform start (fun _ s' w => w.Holds s') (fun _ _ => True) s w := by
  have hretry : ∀ {s w}, Reachable platform start w → w.Holds s → Session.Meets platform start (do
      let state ← Session.get
      if state.outcome ≠ some outcome ∨ state.exitCode ≠ some exitCode then
        Session.fail "terminal retry differs from the durable terminal intent"
      else if state.phase = .terminalPending then publishPending
      else pure ()) (fun _ s' w => w.Holds s') (fun _ _ => True) s w := by
    intro s w hw hs
    refine Session.Meets.get_bind ?_
    split
    · exact .fail hw trivial
    · split
      · exact (publishPending_meets hw hs).mono (fun _ _ _ _ h => h.1) fun _ _ _ => trivial
      · exact .pure hw hs
  rw [terminate]
  refine Session.Meets.get_bind ?_
  split
  · split
    · next hphase =>
      split
      · exact .fail hw trivial
      · have h : Ended s w := ⟨hs, hphase.1⟩
        obtain ⟨hput, -⟩ := h.note hw (@Notes.exits s exitCode)
        exact Session.Meets.set_bind (Session.Meets.save_bind hw (hretry hput World.put_holds))
    · exact hretry hw hs
  · split
    · next hphase =>
      refine Session.Meets.inquire_bind hw (by simp) fun timestamp hw => ?_
      refine Session.Meets.set_bind ?_
      refine (publish_meets hw ?_ ?_).mono (fun _ _ _ _ h => h.1) fun _ _ h => h
      · intro hidle
        exact hw.step (.revised hs (.prepares hidle (.finish hphase)))
      · intro pending hpending hfinish
        have hobservation := (hw.sound.fits s hs.mem pending hpending).operation hphase
        rw [hfinish] at hobservation
        exact absurd hobservation (by decide)
    · exact .fail hw trivial

/-- A session on a file is a command. -/
theorem Session.Meets.runOn {m : Session α} {ok : α → DispatchState → World → Prop} {ok' : α → World → Prop}
    (h : m.Meets platform start ok failed s w) (hok : ∀ a s w, Reachable platform start w → ok a s w → ok' a w) :
    (m.runOn s).Meets platform start ok' w := by
  refine Durable.Holds.bind (Durable.Holds.mono ?_ h)
  rintro ⟨failure | a, s⟩ w hw h
  · exact ⟨hw, trivial⟩
  · exact ⟨hw, hok a s w hw h⟩

/-- When nothing is asked of its end. -/
theorem Session.Meets.runOn_true {m : Session α} (h : m.Meets platform start (fun _ _ _ => True) (fun _ _ => True) s w) :
    (m.runOn s).Meets platform start (fun _ _ => True) w := h.runOn fun _ _ _ _ h => h

namespace Command.Meets

variable {ok : α → World → Prop} {ok' : β → World → Prop}

/-- A command without effects. -/
theorem pure {a : α} (hw : Reachable platform start w) (h : ok a w) : Command.Meets platform start (Pure.pure a) ok w := ⟨hw, h⟩

/-- A command that fails, of which nothing is asked. -/
theorem fail {message : UString} (hw : Reachable platform start w) : Command.Meets platform start (Command.fail message) ok w :=
  ⟨hw, trivial⟩

/-- **One command after another.** -/
theorem bind {c : Command β} {f : β → Command α} (h : c.Meets platform start ok' w)
    (hok : ∀ b w, Reachable platform start w → ok' b w → (f b).Meets platform start ok w) : (c >>= f).Meets platform start ok w := by
  refine Durable.Holds.bind (Durable.Holds.mono ?_ h)
  rintro (failure | b) w hw h
  · exact ⟨hw, trivial⟩
  · exact hok b w hw h

/-- A command that reads the files. -/
theorem files_bind {f : Files → Command α} (hw : Reachable platform start w) (h : (f w.disk).Meets platform start ok w) :
    (Command.files >>= f).Meets platform start ok w := ⟨hw, h⟩

/-- A command that asks what is no submission. -/
theorem inquire_bind {question : Question} {f : question.Answer → Command α} (hw : Reachable platform start w)
    (hquestion : ∀ batch, question ≠ .submit batch)
    (h : ∀ answer, Allowed w.log question answer → Reachable platform start (w.asked ⟨question, some answer⟩) →
      (f answer).Meets platform start ok (w.asked ⟨question, some answer⟩)) :
    (Command.ask question >>= f).Meets platform start ok w := by
  refine ⟨hw, hw.step (.asked hquestion (by simp)), fun answer hanswer => ?_⟩
  exact h answer hanswer (hw.step (.asked hquestion (by simpa using hanswer)))

end Command.Meets

/-- `read_state`: what it returns is the file of the token. -/
theorem readState_meets {config : HostConfig} {token : UString} (hw : Reachable platform start w) :
    (readState config token).Meets platform start (fun s w' => w' = w ∧ w.Holds s ∧ s.token = token) w := by
  rw [readState]
  refine Command.Meets.files_bind hw ?_
  cases hlookup : Table.lookup DispatchState.token token w.disk with
  | none => exact .fail hw
  | some s =>
    rw [admitted]
    split_ifs
    · exact .fail hw
    · exact .fail hw
    · exact .fail hw
    · have htoken := (Table.lookup_eq_some hlookup).2
      exact .pure hw ⟨rfl, by rw [World.Holds, htoken, hlookup], htoken⟩

/-- And what follows may use that. -/
theorem readState_bind {config : HostConfig} {token : UString} {f : DispatchState → Command α} {ok : α → World → Prop}
    (hw : Reachable platform start w) (h : ∀ s, w.Holds s → s.token = token → (f s).Meets platform start ok w) :
    (readState config token >>= f).Meets platform start ok w := by
  refine (readState_meets hw).bind ?_
  rintro s w₁ hw ⟨rfl, hs, htoken⟩
  exact h s hs htoken

variable {config : HostConfig} {token : UString}

/-- What `finish` does when the dispatch has ended. -/
theorem conclude_meets {outcome : Outcome} {relation : Relation} (hw : Reachable platform start w) (hs : w.Holds s) :
    (conclude platform token outcome relation).Meets platform start (fun _ _ _ => True) (fun _ _ => True) s w := by
  rw [conclude]
  have hcoverage : Session.Meets platform start
      ((reconcileUsage platform).catching fun _ => return "native-collaboration-usage-unknown")
      (fun _ _ _ => True) (fun _ _ => True) s w :=
    (reconcileUsage_meets hw hs).catching (fun _ _ _ h => h) fun _ _ _ hw _ => .pure hw trivial
  refine hcoverage.bind (fun coverage s₁ w₁ hw₁ _ => ?_) fun _ _ h => h
  refine Session.Meets.inquire_bind hw₁ (by simp) fun drain hw₂ => ?_
  dsimp only
  split
  · exact Session.Meets.inquire_bind hw₂ (by simp) fun _ hw₃ => .pure hw₃ trivial
  · exact .pure hw₂ trivial

/-- **`finish`.** -/
theorem finish_meets {outcome : Outcome} {explicit : Option Int} (hw : Reachable platform start w) :
    (finish platform config token outcome explicit).Meets platform start (fun _ _ => True) w := by
  rw [finish]
  refine readState_bind hw fun s hs _ => ?_
  generalize explicit.getD (if outcome = .completed then 0 else 1) = exitCode
  dsimp only
  split
  · exact .fail hw
  refine Session.Meets.runOn_true ((terminate_meets hw hs).bind (fun _ s₁ w₁ hw₁ hs₁ => ?_) fun _ _ h => h)
  exact conclude_meets hw₁ hs₁

/-- **`usage-reconcile`.** -/
theorem usageReconcile_meets (hw : Reachable platform start w) :
    (usageReconcile platform config token).Meets platform start (fun _ _ => True) w := by
  rw [usageReconcile]
  refine readState_bind hw fun s hs _ => ?_
  refine Session.Meets.runOn_true ((reconcileUsage_meets hw hs).bind (fun _ s₁ w₁ hw₁ _ => ?_) fun _ _ h => h)
  exact Session.Meets.inquire_bind hw₁ (by simp) fun _ hw₂ => .pure hw₂ trivial

/-- An observation is published in a phase that it stays in. -/
theorem recordEvent_meets {kind identity : UString} {rest : Dict} (hw : Reachable platform start w) (hs : w.Holds s)
    (hphase : s.phase = .started ∨ s.phase = .terminal) (hkind : kind ∈ observationKinds) :
    (recordEvent ((lit "kind", .text kind) :: (lit "identity", .text identity) :: rest)).Meets platform start
      (fun _ _ _ => True) (fun _ _ => True) s w := by
  rw [recordEvent]
  refine Session.Meets.bind (publish_meets hw ?_ ?_) ?_ fun _ _ h => h
  · intro hidle
    refine hw.step (.revised hs (.prepares hidle (.observation hphase hkind ?_)))
    rw [List.isPrefixOf_iff_prefix, List.append_assoc]
    exact List.prefix_append _ _
  · exact fun _ _ _ => hs
  · rintro - s₁ w₁ hw₁ -
    refine Session.Meets.inquire_bind hw₁ (by simp) fun drain hw₂ => ?_
    split
    · exact .fail hw₂ trivial
    · refine Session.Meets.get_bind ?_
      dsimp only
      split
      · exact Session.Meets.inquire_bind hw₂ (by simp) fun _ hw₃ => .pure hw₃ trivial
      · exact .pure hw₂ trivial

/-- An observation is only admitted of a dispatch that has started or ended. -/
theorem observe_meets {path : UString} {observation : ObservationKind} (hw : Reachable platform start w)
    (hadmits : ∀ s, observation.admits s = none → s.phase = .started ∨ s.phase = .terminal)
    (hkind : observation.kind ∈ observationKinds) :
    (observe config token path observation).Meets platform start (fun _ _ => True) w := by
  rw [observe]
  refine readState_bind hw fun s hs _ => ?_
  cases hadmit : observation.admits s with
  | some message => exact .fail hw
  | none =>
    refine Command.Meets.inquire_bind hw (by simp) fun answer _ hw₁ => ?_
    rcases answer with message | value
    · exact .fail hw₁
    dsimp only
    cases observation.identity s value with
    | error message => exact .fail hw₁
    | ok identity =>
      exact (recordEvent_meets hw₁ hs (hadmits s hadmit) hkind).runOn_true

/-- A dispatch that is expected has no publication, and so the one of its start is prepared. -/
theorem publishStart_meets {nativeId timestamp : UString} (hw : Reachable platform start w) (hs : w.Holds s)
    (hphase : s.phase = .expected) :
    (publish (startEvents s nativeId timestamp) "started" (some .started)).Meets platform start (fun _ _ _ => True)
      (fun _ _ => True) { s with phase := .startPending, nativeId := some nativeId } w := by
  refine (publish_meets hw ?_ ?_).mono (fun _ _ _ _ _ => trivial) fun _ _ h => h
  · intro hidle
    exact hw.step (.revised hs (.prepares hidle (.start hphase)))
  · intro pending hpending _
    have hnext := (hw.sound.fits s hs.mem pending hpending).phase
    rw [hphase] at hnext
    exact absurd hnext (by simp [Phase.next])

/-- Checks of the arguments have no effects. -/
theorem validateIdentity_bind {name value : UString} {f : Unit → Command α} {ok : α → World → Prop}
    (hw : Reachable platform start w) (h : (f ()).Meets platform start ok w) :
    (validateIdentity name value >>= f).Meets platform start ok w := by
  rw [validateIdentity]
  split
  · exact h
  · exact ⟨hw, trivial⟩

/-- **`started`.** -/
theorem started_meets {nativeId : UString} (hw : Reachable platform start w) :
    (started config token nativeId).Meets platform start (fun _ _ => True) w := by
  rw [started]
  refine readState_bind hw fun s hs _ => validateIdentity_bind hw ?_
  split
  · split
    · exact .fail hw
    · exact .pure hw trivial
  · split
    · split
      · exact .fail hw
      · refine Command.Meets.bind ((publishPending_meets hw hs).runOn fun _ _ _ _ _ => trivial) fun _ _ hw₁ h => ?_
        exact .pure hw₁ trivial
    · split
      · exact .fail hw
      · next hphase =>
        refine Command.Meets.inquire_bind hw (by simp) fun timestamp _ hw₁ => ?_
        refine (publishStart_meets hw₁ hs (not_not.mp hphase)).runOn_true.bind fun _ _ hw₂ _ => ?_
        exact .pure hw₂ trivial

/-! ## Begin -/

/-- The parent is read, and no file is changed. -/
theorem parentOf_meets {args : BeginArgs} {originalItem : UString} (hw : Reachable platform start w) :
    (parentOf config args originalItem).Meets platform start (fun _ w' => w'.disk = w.disk) w := by
  rw [parentOf]
  split
  · refine readState_bind hw fun s hs _ => ?_
    generalize (if args.originalItem = none then s.identity.originalItemId else originalItem) = original
    dsimp only
    split
    · exact .fail hw
    · split
      · exact .fail hw
      · split
        · exact .fail hw
        · exact .pure hw rfl
  · split
    · exact .fail hw
    · split
      · refine Command.Meets.inquire_bind hw (by simp) fun answer _ hw₁ => ?_
        rcases answer with message | digest
        · exact .fail hw₁
        · exact .pure hw₁ rfl
      · exact .pure hw rfl

/-- The turns before a follow-up are asked for, and no file is changed. -/
theorem baseline_meets {relation : Relation} {hostParent : Option UString} {parent : Option DispatchState}
    (hw : Reachable platform start w) :
    (baseline relation hostParent parent).Meets platform start (fun _ w' => w'.disk = w.disk) w := by
  cases parent with
  | none => exact .pure hw rfl
  | some parent =>
    rw [baseline]
    split
    · refine Command.Meets.inquire_bind hw (by simp) fun answer _ hw₁ => ?_
      rcases answer with - | prior
      · exact .pure hw₁ rfl
      · exact .pure hw₁ rfl
    · exact .pure hw rfl

/-- Reading the states of files gives what they hold. -/
theorem readStates_meets {files : Files} (hw : Reachable platform start w) (hfiles : ∀ file ∈ files, file ∈ w.disk) :
    (readStates config (files.map DispatchState.token)).Meets platform start (fun states w' => w' = w ∧ states = files) w := by
  induction files with
  | nil => exact .pure hw ⟨rfl, rfl⟩
  | cons file files ih =>
    rw [List.forall_mem_cons] at hfiles
    rw [List.map_cons, readStates]
    refine readState_bind hw fun s hs htoken => (ih hfiles.2).bind ?_
    rintro states w₁ hw₁ ⟨rfl, rfl⟩
    exact .pure hw₁ ⟨rfl, by rw [hw.sound.eq_of_token hs.mem hfiles.1 htoken]⟩

/-- **`matching_dispatch`**: a dispatch that is found is on file, and where none is found no file has
    its attempt. -/
theorem matchingDispatch_meets {expected : Identity} (hw : Reachable platform start w) :
    (matchingDispatch config expected).Meets platform start (fun found w' => w' = w ∧ (∀ s, found = some s → w.Holds s) ∧
      (found = none → ∀ file ∈ w.disk, file.attempt ≠ (expected.featureId, expected.itemId, expected.attemptId))) w := by
  rw [matchingDispatch]
  refine Command.Meets.files_bind hw ?_
  split
  · exact .fail hw
  refine (readStates_meets hw fun _ h => h).bind ?_
  rintro states w₁ hw₁ ⟨rfl, rfl⟩
  split
  · next hnone =>
    refine .pure hw₁ ⟨rfl, by simp, fun _ file hfile hattempt => ?_⟩
    have hdiffers := List.filter_eq_nil_iff.mp hnone file hfile
    simp only [DispatchState.attempt, Prod.mk.injEq] at hattempt
    exact hdiffers (decide_eq_true hattempt)
  · next s hsome =>
    have hs : s ∈ w₁.disk := (List.mem_filter.mp (hsome ▸ List.mem_singleton_self s)).1
    split
    · exact .fail hw₁
    · refine .pure hw₁ ⟨rfl, ?_, by simp⟩
      intro s' hs'
      obtain rfl := Option.some_inj.mp hs'
      exact hw.sound.holds hs
  · exact .fail hw₁

/-- The first publication of a new dispatch makes its file. -/
theorem publishBegin_meets {timestamp : UString} (hw : Reachable platform start w) (hbegins : Begins w s) :
    (publish (beginEvents platform s timestamp) "begin" (some .expected)).Meets platform start (fun _ _ _ => True)
      (fun _ _ => True) s w := by
  refine (publish_meets hw (fun _ => hw.step (.began hbegins)) ?_).mono (fun _ _ _ _ _ => trivial) fun _ _ h => h
  intro pending hpending
  rw [hbegins.idle] at hpending
  exact absurd hpending (by simp)

/-- Its identities are drawn, so that they are fresh. -/
theorem beginNew_meets {expected : Identity} {hostParent : Option UString} {parent : Option DispatchState}
    (hw : Reachable platform start w)
    (hunique : ∀ file ∈ w.disk, file.attempt ≠ (expected.featureId, expected.itemId, expected.attemptId)) :
    (beginNew platform config expected hostParent parent).Meets platform start (fun _ _ => True) w := by
  rw [beginNew]
  split
  · exact .fail hw
  refine (baseline_meets hw).bind fun baseline w₁ hw₁ hdisk => ?_
  refine Command.Meets.inquire_bind hw₁ (by simp) fun drawn hnew hw₂ => ?_
  refine Command.Meets.inquire_bind hw₂ (by simp) fun timestamp _ hw₃ => ?_
  refine Command.Meets.bind (publishBegin_meets hw₃ ?_).runOn_true fun _ _ hw₄ _ => .pure hw₄ trivial
  refine ⟨rfl, rfl, rfl, rfl, rfl, ⟨drawn.2.1, drawn.2.2.1, ?_⟩, fun file hfile => ?_⟩
  · exact List.mem_append_left _ List.mem_concat_self
  · have hfile : file ∈ w₁.disk := hfile
    obtain ⟨activation, dispatch, hdrawn⟩ := hw₁.sound.drawn file hfile
    obtain ⟨htoken, hinvocation⟩ := hnew _ hdrawn
    exact ⟨htoken.symm, hinvocation.symm, hunique file (hdisk ▸ hfile)⟩

/-- **`begin`.** -/
theorem beginDispatch_meets {args : BeginArgs} (hw : Reachable platform start w) :
    (beginDispatch platform config args).Meets platform start (fun _ _ => True) w := by
  have hoptional : ∀ {name : UString} {value : Option UString} {f : Unit → Command Dict},
      (f ()).Meets platform start (fun _ _ => True) w →
      (validateOptional name value >>= f).Meets platform start (fun _ _ => True) w := by
    intro name value f h
    cases value with
    | none => exact h
    | some value => exact validateIdentity_bind hw h
  rw [beginDispatch]
  refine validateIdentity_bind hw (validateIdentity_bind hw ?_)
  dsimp only
  refine validateIdentity_bind hw (validateIdentity_bind hw (hoptional ?_))
  refine validateIdentity_bind hw (validateIdentity_bind hw (validateIdentity_bind hw ?_))
  split
  · exact .fail hw
  refine (parentOf_meets hw).bind ?_
  rintro ⟨parent, originalItem, assignmentDigest⟩ w₁ hw₁ -
  refine Command.Meets.inquire_bind hw₁ (by simp) fun hostThread _ hw₂ => ?_
  refine (matchingDispatch_meets hw₂).bind ?_
  rintro (- | existing) w₃ hw₃ ⟨rfl, hexisting, hunique⟩
  · exact beginNew_meets hw₃ (hunique rfl)
  · dsimp only
    split
    · exact ((publishPending_meets hw₃ (hexisting existing rfl)).runOn fun _ _ _ _ _ => trivial).bind
        fun _ _ hw₄ _ => .pure hw₄ trivial
    · split
      · exact .fail hw₃
      · exact .pure hw₃ trivial

/-! ## Runs -/

/-- **Every command.** -/
theorem perform_meets {request : Request} (hw : Reachable platform start w) :
    (perform platform config request).Meets platform start (fun _ _ => True) w := by
  cases request with
  | begin args => exact beginDispatch_meets hw
  | started token nativeId => exact started_meets hw
  | finish token outcome exitCode => exact finish_meets hw
  | usageReconcile token => exact usageReconcile_meets hw
  | review token input scope =>
    refine observe_meets hw (fun s hadmits => .inr ?_) (by simp [observationKinds])
    by_contra hphase
    simp [hphase] at hadmits
  | activity token input | complication token input =>
    refine observe_meets hw (fun s hadmits => ?_) (by simp [observationKinds])
    by_contra hphase
    push Not at hphase
    simp [hphase] at hadmits
  | usageAttribution token input =>
    refine observe_meets hw (fun s hadmits => .inr ?_) (by simp [observationKinds])
    by_contra hphase
    simp [hphase] at hadmits

/-- **Whatever the commands were, in whatever order, and wherever they died**, what they leave behind is
    reachable by changes. -/
theorem runFrom_reachable {outside : Record → (question : Question) → question.Answer}
    (houtside : ∀ log question, Allowed log question (outside log question)) (hstart : Sound start)
    (commands : List (HostConfig × Request × Nat)) :
    Reachable platform start (runFrom platform outside start commands) := by
  refine runAll_keeps houtside ?_ (.refl hstart)
  intro process hprocess w hw
  obtain ⟨command, -, rfl⟩ := List.mem_map.mp hprocess
  exact Durable.Holds.mono (fun _ _ _ _ => trivial) (perform_meets hw)

end Rules

end RoadmapTelemetry

end FsQuint
