/-
  Live replay keeps to its script.

  `Goes session cells script Q` says that a part of the body, started on some cells, produces events
  that follow a part of the script; that it leaves the cells in a state with `Q` when none of them
  fails; and that otherwise it ends, as the handlers see it, with the outcome that the failure
  decides.

  There is one rule for each kind of statement of the body (`goes_checkpoint`, `goes_call`,
  `goes_note`, `goes_refused`), and the rest of the session is a premise of each.  The proofs about
  the parts of the body go through the code with these rules, line by line.
-/
import FsQuint.ReplayProtocol
import FsQuint.TraceEncoding

namespace FsQuint.Replay

open Utf16 Collections QuintReplay ReplayInternal Script

variable {ρ : Type}

/-! ## Running a session -/

section Running

variable (k : Unit → Session ρ Unit) (cells : Cells ρ)

/-- An entry in the record, and what follows. -/
theorem note_bind (what : Happening ρ) : (note what >>= k) cells = k () (cells.note what) := rfl

/-- An assignment, and what follows. -/
theorem modify_bind (f : Cells ρ → Cells ρ) :
    ((modify f : Session ρ Unit) >>= k) cells = k () (f cells) := rfl

/-- A look at the cells, and what follows. -/
theorem get_bind (k : Cells ρ → Session ρ Unit) :
    ((get : Session ρ (Cells ρ)) >>= k) cells = k cells cells :=
  rfl

/-- A computation that succeeds, and what follows. -/
theorem calculate_bind {α : Type} (a : α) (k : α → Session ρ Unit) :
    (calculate (.ok a) >>= k) cells = k a cells := rfl

/-- A checkpoint, and what follows it when nothing is cancelled. -/
theorem checkpoint_bind (cancellation : Cancellation ρ) :
    (throwIfCancellationRequested cancellation >>= k) cells =
      if cancellation.linked cells.log then (.error operationCanceled, cells.note (.checked true))
      else k () (cells.note (.checked false)) := by
  cases h : cancellation.linked cells.log <;>
    simp only [throwIfCancellationRequested, bind_assoc, get_bind, note_bind, h] <;> rfl

/-- A callback, and what follows when it answers. -/
theorem call_bind {α : Type} (callback : History ρ → Answer α) (what : Answer α → Happening ρ)
    (k : Except NString α → Session ρ Unit) :
    (call callback what >>= k) cells =
      match callback cells.log with
      | .ok result => k result (cells.note (what (.ok result)))
      | .error e => (.error e, cells.note (what (.error e))) := by
  cases h : callback cells.log <;> simp only [call, bind_assoc, get_bind, note_bind, h] <;> rfl

/-- A part of the body, and what follows when it ends without an exception. -/
theorem bind_run (session : Session ρ Unit) :
    (session >>= k) cells =
      match session cells with
      | (.ok (), cells') => k () cells'
      | (.error e, cells') => (.error e, cells') := by
  rcases h : session cells with ⟨_ | _, cells'⟩ <;>
    simp only [bind, ExceptT.bind, ExceptT.mk, StateT.bind, h] <;> rfl

end Running

/-! ## Cells and their record -/

section Fields

variable (cells : Cells ρ)

/-- A note is appended to the log. -/
@[simp] theorem note_log (what : Happening ρ) :
    (cells.note what).log = cells.log ++ [⟨cells.phase, cells.index, what⟩] := rfl

/-- A note keeps everything but the log. -/
@[simp] theorem note_runtime (what : Happening ρ) : (cells.note what).runtime = cells.runtime := rfl
@[simp] theorem note_applied (what : Happening ρ) : (cells.note what).applied = cells.applied := rfl

/-- Entering a phase sets the phase, and keeps everything else. -/
@[simp] theorem enter_runtime (phase : UString) : (cells.enter phase).runtime = cells.runtime := rfl

/-- The end sets the outcome, and keeps everything else. -/
@[simp] theorem finish_log (outcome : ReplayOutcome) : (cells.finish outcome).log = cells.log := rfl

end Fields

/-- The runtime that initialization returned. -/
def runtimeIn (history : History ρ) : Option ρ :=
  match latest Event.initializeAnswer history with
  | some (.ok (.ok value)) => some value
  | _ => none

/-- The cells agree with the record: on the runtime, and on the number of applications.  Nothing is
    reported of the cleanup yet. -/
structure Tied (cells : Cells ρ) : Prop where
  runtime : cells.runtime = runtimeIn cells.log
  applied : cells.applied = (cells.log.filterMap Event.appliedStep).length
  cleanupFailure : cells.cleanupFailure = none

/-- Setting an outcome keeps the cells tied to the record. -/
theorem Tied.finish {cells : Cells ρ} (h : Tied cells) (outcome : ReplayOutcome) :
    Tied (cells.finish outcome) := ⟨h.runtime, h.applied, h.cleanupFailure⟩

/-- And so does the start of a phase. -/
theorem Tied.enter {cells : Cells ρ} (h : Tied cells) (phase : UString) :
    Tied (cells.enter phase) :=
  ⟨h.runtime, h.applied, h.cleanupFailure⟩

/-- Events other than the calls of Initialize and Apply do not change what the cells agree on. -/
theorem Tied.note {cells : Cells ρ} (h : Tied cells) (what : Happening ρ)
    (hi : Event.initializeAnswer (⟨cells.phase, cells.index, what⟩ : Event ρ) = none)
    (ha : Event.appliedStep (⟨cells.phase, cells.index, what⟩ : Event ρ) = none) :
    Tied (cells.note what) where
  runtime := by
    rw [note_runtime, h.runtime, runtimeIn, runtimeIn, note_log, latest_append_singleton, hi,
      Option.none_or]
  applied := by
    rw [note_applied, h.applied, note_log, List.filterMap_append, List.filterMap_cons, ha]
    simp
  cleanupFailure := h.cleanupFailure

/-! ## The rules -/

section Rules

variable (platform : Platform) (cancellation : Cancellation ρ) (driver : ReplayDriver ρ)
  (trace : QuintReplayTrace)

/-- A session that has ended at a failing event, as the handlers leave it. -/
structure Stopped (x : Except Exn Unit × Cells ρ) (e : Event ρ) : Prop where
  tied : Tied x.2
  outcome : (settle cancellation x).outcome = decides platform cancellation x.2.log e

/-- The session follows a part of the script, and leaves the cells with `Q` when nothing fails. -/
def Goes (session : Session ρ Unit) (cells : Cells ρ) (stages : List Stage) (Q : Cells ρ → Prop) : Prop :=
  ∃ events, (session cells).2.log = cells.log ++ events ∧
    Follows (occurs platform cancellation driver trace) (fails platform) cells.log stages events ∧
    (Clean (fails platform) events → (session cells).1 = .ok () ∧ Q (session cells).2) ∧
    ∀ before e, events = before ++ [e] → fails platform e = true →
      Stopped platform cancellation (session cells) e

variable {platform cancellation driver trace}

variable {session next : Session ρ Unit} {cells cells' : Cells ρ} {stage : Stage} {stages : List Stage}
  {Q : Cells ρ → Prop} {e : Event ρ}

/-- Nothing is left to do. -/
theorem goes_done (hrun : session cells = (.ok (), cells)) (h : Q cells) :
    Goes platform cancellation driver trace session cells [] Q := by
  refine ⟨[], ?_, .finish, fun _ => ?_, fun before e he => absurd he (by simp)⟩
  · rw [hrun, List.append_nil]
  · rw [hrun]
    exact ⟨rfl, h⟩

/-- A statement that leaves no event. -/
theorem goes_silent (hrun : session cells = next cells') (hlog : cells'.log = cells.log)
    (h : Goes platform cancellation driver trace next cells' stages Q) :
    Goes platform cancellation driver trace session cells stages Q := by
  rw [Goes, hrun, ← hlog]
  exact h

/-- A look at the cells is no stage. -/
theorem goes_get {k : Cells ρ → Session ρ Unit}
    (h : Goes platform cancellation driver trace (k cells) cells stages Q) :
    Goes platform cancellation driver trace (get >>= k) cells stages Q :=
  goes_silent (get_bind cells k) rfl h

/-- Nor is an assignment that leaves the record alone. -/
theorem goes_modify {f : Cells ρ → Cells ρ} {k : Unit → Session ρ Unit}
    (hlog : (f cells).log = cells.log)
    (h : Goes platform cancellation driver trace (k ()) (f cells) stages Q) :
    Goes platform cancellation driver trace (modify f >>= k) cells stages Q :=
  goes_silent (modify_bind k cells f) hlog h

/-- A statement at which something happens that does not fail. -/
theorem goes_step (ho : occurs platform cancellation driver trace stage cells.log e)
    (hf : fails platform e = false) (hrun : session cells = next cells')
    (hlog : cells'.log = cells.log ++ [e])
    (h : Goes platform cancellation driver trace next cells' stages Q) :
    Goes platform cancellation driver trace session cells (stage :: stages) Q := by
  obtain ⟨events, hevents, hfollows, hclean, hstop⟩ := h
  rw [hlog] at hevents hfollows
  refine ⟨e :: events, by rw [hrun, hevents]; simp, .advance ho hf hfollows, ?_, ?_⟩
  · intro hc
    rw [hrun]
    exact hclean (clean_cons.mp hc).2
  · intro before last heq hlast
    rw [hrun]
    cases before with
    | nil =>
      obtain ⟨rfl, -⟩ := List.cons.inj heq
      rw [hf] at hlast
      exact absurd hlast (by decide)
    | cons b before => exact hstop before last (List.cons.inj heq).2 hlast

/-- A statement at which something fails. -/
theorem goes_stop (ho : occurs platform cancellation driver trace stage cells.log e)
    (hf : fails platform e = true) (hlog : (session cells).2.log = cells.log ++ [e])
    (hs : Stopped platform cancellation (session cells) e) :
    Goes platform cancellation driver trace session cells (stage :: stages) Q := by
  refine ⟨[e], hlog, .stop ho hf, ?_, ?_⟩
  · intro hc
    rw [(clean_cons.mp hc).1] at hf
    exact absurd hf (by decide)
  · intro before last heq _
    cases before with
    | nil =>
      obtain ⟨rfl, -⟩ := List.cons.inj heq
      exact hs
    | cons b before => exact absurd (List.cons.inj heq).2 (by simp)

/-- What the handlers report of an exception that leaves the cells as they are after an event. -/
theorem settle_error (exception : Exn) (what : Happening ρ) :
    (settle cancellation (.error exception, cells)).outcome =
      raised cancellation cells.log ⟨cells.phase, cells.index, what⟩ exception := by
  simp only [settle, handle, raised]
  split
  · rfl
  · split <;> rfl

/-- A checkpoint. -/
theorem goes_checkpoint {k : Unit → Session ρ Unit} (ht : Tied cells)
    (h : Goes platform cancellation driver trace (k ()) (cells.note (.checked false)) stages Q) :
    Goes platform cancellation driver trace (throwIfCancellationRequested cancellation >>= k) cells
      (.checkpoint cells.phase cells.index :: stages) Q := by
  by_cases hc : cancellation.linked cells.log = true
  · have hrun : (throwIfCancellationRequested cancellation >>= k) cells =
        (.error operationCanceled, cells.note (.checked true)) := by rw [checkpoint_bind, if_pos hc]
    refine goes_stop (e := ⟨cells.phase, cells.index, .checked true⟩) (congrArg _ ?_) rfl ?_ ?_
    · rw [hc]
    · rw [hrun, note_log]
    · rw [hrun]
      exact ⟨ht.note _ rfl rfl, settle_error operationCanceled (.checked true)⟩
  · have hfalse : cancellation.linked cells.log = false := by simpa using hc
    refine goes_step (e := ⟨cells.phase, cells.index, .checked false⟩) (congrArg _ ?_) rfl ?_ rfl h
    · rw [hfalse]
    · rw [checkpoint_bind, if_neg hc]

/-- A call of a callback. -/
theorem goes_call {α : Type} {callback : History ρ → Answer α} {what : Answer α → Happening ρ}
    {k : Except NString α → Session ρ Unit}
    (ho : occurs platform cancellation driver trace stage cells.log
      ⟨cells.phase, cells.index, what (callback cells.log)⟩)
    (hpass : ∀ result, fails platform (⟨cells.phase, cells.index, what (.ok result)⟩ :
      Event ρ) = false)
    (hfail : ∀ exception, fails platform (⟨cells.phase, cells.index, what (.error exception)⟩ :
      Event ρ) = true)
    (hdecides : ∀ history exception, decides platform cancellation history
      ⟨cells.phase, cells.index, what (.error exception)⟩ = raised cancellation history
      ⟨cells.phase, cells.index, what (.error exception)⟩ exception)
    (ht : ∀ exception, callback cells.log = .error exception →
      Tied (cells.note (what (.error exception))))
    (h : ∀ result, callback cells.log = .ok result →
      Goes platform cancellation driver trace (k result) (cells.note (what (.ok result))) stages Q) :
    Goes platform cancellation driver trace (call callback what >>= k)
      cells (stage :: stages) Q := by
  cases hcall : callback cells.log with
  | ok result =>
    rw [hcall] at ho
    exact goes_step ho (hpass result) (by rw [call_bind, hcall]) rfl (h result hcall)
  | error exception =>
    rw [hcall] at ho
    have hrun : (call callback what >>= k) cells =
        (.error exception, cells.note (what (.error exception))) := by rw [call_bind, hcall]
    refine goes_stop ho (hfail exception) ?_ ?_
    · rw [hrun, note_log]
    · rw [hrun]
      exact ⟨ht exception hcall, (settle_error exception (what (.error exception))).trans
        (hdecides _ _).symm⟩

/-- Something happens that does not fail. -/
theorem goes_note {k : Unit → Session ρ Unit} {what : Happening ρ}
    (ho : occurs platform cancellation driver trace stage cells.log
      ⟨cells.phase, cells.index, what⟩)
    (hf : fails platform (⟨cells.phase, cells.index, what⟩ : Event ρ) = false)
    (h : Goes platform cancellation driver trace (k ()) (cells.note what) stages Q) :
    Goes platform cancellation driver trace (note what >>= k) cells (stage :: stages) Q :=
  goes_step ho hf (note_bind k cells what) rfl h

/-- Something happens that fails, and the session ends with an outcome. -/
theorem goes_finish (outcome : ReplayOutcome) {k : Unit → Session ρ Unit} {what : Happening ρ}
    (ho : occurs platform cancellation driver trace stage cells.log
      ⟨cells.phase, cells.index, what⟩)
    (hf : fails platform (⟨cells.phase, cells.index, what⟩ : Event ρ) = true)
    (ht : Tied (cells.note what))
    (hrun : k () (cells.note what) = (.ok (), (cells.note what).finish outcome))
    (hdecides : decides platform cancellation (cells.note what).log
      ⟨cells.phase, cells.index, what⟩ = outcome) :
    Goes platform cancellation driver trace (note what >>= k) cells (stage :: stages) Q := by
  have hrun' : (note what >>= k) cells = (.ok (), (cells.note what).finish outcome) := hrun
  refine goes_stop ho hf ?_ ?_
  · rw [hrun', finish_log, note_log]
  · rw [hrun']
    exact ⟨ht.finish outcome, hdecides.symm⟩

/-- One session after another, where the second has nothing to do once there is an outcome. -/
theorem goes_seq {first second : Session ρ Unit} {stages' : List Stage} {Q' : Cells ρ → Prop}
    (h : Goes platform cancellation driver trace first cells stages Q)
    (h' : ∀ cells', Q cells' → Goes platform cancellation driver trace second cells' stages' Q')
    (hidle : ∀ cells', cells'.outcome.isEquivalent = false → second cells' = (.ok (), cells'))
    (hdecides : ∀ history e, fails platform e = true →
      (decides platform cancellation history e).isEquivalent = false) :
    Goes platform cancellation driver trace (first >>= fun _ => second)
      cells (stages ++ stages') Q' := by
  obtain ⟨events, hlog, hfollows, hclean, hstop⟩ := h
  by_cases hc : Clean (fails platform) events
  · obtain ⟨hok, hq⟩ := hclean hc
    obtain ⟨events', hlog', hfollows', hclean', hstop'⟩ := h' _ hq
    have hrun : (first >>= fun _ => second) cells = second (first cells).2 := by
      rw [bind_run, show first cells = (.ok (), (first cells).2) from Prod.ext hok rfl]
    rw [hlog] at hlog' hfollows'
    refine ⟨events ++ events', ?_, hfollows.append hc hfollows', ?_, ?_⟩
    · rw [hrun, hlog', List.append_assoc]
    · intro hall
      rw [hrun]
      exact hclean' (clean_append.mp hall).2
    · intro before e heq he
      rw [hrun]
      -- the failure is in the second part, since nothing failed in the first
      rcases List.eq_nil_or_concat events' with rfl | ⟨rest, last, rfl⟩
      · have hclean := hc e (by rw [List.append_nil] at heq; simp [heq])
        rw [hclean] at he
        exact absurd he (by decide)
      · rw [List.concat_eq_append, ← List.append_assoc] at heq
        obtain rfl : last = e := by simpa using (List.append_inj' heq rfl).2
        exact hstop' rest last (List.concat_eq_append ..) he
  · obtain ⟨before, e, rfl, hbefore, he⟩ := hfollows.exists_failure hc
    have hs := hstop before e rfl he
    have hrun : (first >>= fun _ => second) cells = first cells := by
      rw [bind_run]
      rcases hfirst : first cells with ⟨_ | _, cells'⟩
      · rfl
      · -- the first part came back with an outcome
        have hout := hs.outcome
        rw [hfirst] at hout
        refine hidle cells' ?_
        rw [show cells'.outcome = _ from hout]
        exact hdecides _ e he
    refine ⟨before ++ [e], ?_, hfollows.extend hc stages', fun h => absurd h hc, ?_⟩
    · rw [hrun, hlog]
    · intro before' e' heq he'
      rw [hrun]
      exact hstop before' e' heq he'

end Rules

section Parts

variable {platform : Platform} {cancellation : Cancellation ρ} {driver : ReplayDriver ρ}
  {trace : QuintReplayTrace}

/-! ## Paths -/

/-- The encodings of the bindings are computed without an exception. -/
theorem encoded_ok (name : NString) (bindings : List (NString × QuintReplayValue)) :
    ∃ found, encoded name bindings = .ok found := by
  rw [encoded]
  cases bindings.find? fun binding => binding.1 = name with
  | none => exact ⟨none, rfl⟩
  | some binding =>
    rcases encodeAt_spec "$" binding.2 with ⟨-, he⟩ | ⟨-, found, -, he⟩
    · exact ⟨_, by simp only [encodeValue, he]; rfl⟩
    · exact ⟨_, by simp only [encodeValue, he]; rfl⟩

/-- The search finds the first name whose bindings have different encodings. -/
theorem firstDiffering_eq (expected actual : QuintReplayState) : ∀ names : List NString,
    firstDiffering expected actual names =
      .ok (names.find? fun name => encoded name expected.bindings ≠ encoded name actual.bindings)
  | [] => rfl
  | name :: names => by
    obtain ⟨a, ha⟩ := encoded_ok name expected.bindings
    obtain ⟨b, hb⟩ := encoded_ok name actual.bindings
    rw [firstDiffering, List.find?_cons, ha, hb, ok_bind, ok_bind]
    by_cases h : a = b
    · simp [h, firstDiffering_eq expected actual names]
    · simp [h]
      rfl

/-- The search for the path of a divergence of valid states comes back. -/
theorem differingPath_ok {expected actual : QuintReplayState} (he : ValidState platform expected)
    (ha : ValidState platform actual) : ∃ path, differingPath expected actual = .ok path := by
  rw [differingPath, firstDiffering_eq, ok_bind]
  split
  · exact ⟨_, rfl⟩
  · -- a bound name of a valid state is not null
    rename_i hfound
    have hmem := List.mem_of_find?_eq_some hfound
    rw [mem_sortOn, mem_distinct, List.map_append, List.mem_append] at hmem
    rcases hmem with hmem | hmem
    · exact absurd rfl (he.content.1.2 none hmem).ne_none
    · exact absurd rfl (ha.content.1.2 none hmem).ne_none
  · exact ⟨_, rfl⟩

/-! ## The parts of the body -/

/-- Valid states are encoded alike exactly when they have one text. -/
theorem encodeAlike_iff {expected actual : QuintReplayState} (he : ValidState platform expected)
    (ha : ValidState platform actual) :
    encodeAlike platform expected actual = true ↔ stateText expected = stateText actual := by
  rw [encodeAlike, (encodeState_eq_ok_iff platform).mpr ⟨he, rfl⟩,
    (encodeState_eq_ok_iff platform).mpr ⟨ha, rfl⟩]
  exact decide_eq_true_iff

/-- An invalid observation is encoded like nothing. -/
theorem encodeAlike_of_not_valid {expected actual : QuintReplayState}
    (ha : ¬ ValidState platform actual) :
    encodeAlike platform expected actual = false := by
  rcases encodeState_spec platform actual with ⟨hv, -⟩ | ⟨-, found, -, h⟩
  · exact absurd hv ha
  · rw [encodeAlike, h]
    split <;> simp_all

/-- A comparison fails when it finds a difference. -/
@[simp] theorem fails_compared (phase : UString) (index : Int) (action : Option NString)
    (source : Option QuintReplaySourceBinding) (expected actual : QuintReplayState) :
    fails platform (⟨phase, index, .compared action source expected actual⟩ : Event ρ) =
      !encodeAlike platform expected actual := rfl

/-- The outcomes that an event can decide. -/
inductive Decision (platform : Platform) (e : Event ρ) : ReplayOutcome → Prop
  | cancelled : Decision platform e .cancelled
  | timedOut : Decision platform e .timedOut
  | driverFailure (message : NString) : Decision platform e (.driverFailure e.phase e.index message)
  | invalidTrace {found : List QuintReplayDiagnostic} : e.what = .validated found →
      Decision platform e (.invalidTrace found)
  | diverged {action : Option NString} {source : Option QuintReplaySourceBinding}
      {expected actual : QuintReplayState} {path : UString} :
      e.what = .compared action source expected actual → ValidState platform actual →
      differingPath expected actual = .ok path →
      Decision platform e (.diverged e.index action source path expected actual)
  | equivalent : fails platform e = false → Decision platform e .equivalent

/-- **What an event decides.** -/
theorem decides_cases (history : History ρ) (e : Event ρ) :
    Decision platform e (decides platform cancellation history e) := by
  have hraised : ∀ exception, Decision platform e (raised cancellation history e exception) := by
    intro exception
    rw [raised]
    split
    · exact .cancelled
    · split
      · exact .timedOut
      · exact .driverFailure _
  rw [decides]
  split
  case h_1 found hwhat => exact .invalidTrace hwhat
  case h_2 | h_3 | h_4 | h_5 => exact hraised _
  case h_6 | h_7 | h_8 => exact .driverFailure _
  case h_9 action source expected actual hwhat =>
    rw [differs]
    rcases encodeState_spec platform actual with ⟨hv, hencoded⟩ | ⟨-, found, -, hencoded⟩
    · simp only [hencoded]
      split
      · rename_i path hpath
        exact .diverged hwhat hv hpath
      · exact hraised _
    · simp only [hencoded]
      exact .driverFailure _
  case h_10 =>
    refine .equivalent ?_
    rw [fails]
    grind

/-- A failing event decides an outcome other than equivalence. -/
theorem isEquivalent_decides (history : History ρ) (e : Event ρ) (h : fails platform e = true) :
    (decides platform cancellation history e).isEquivalent = false := by
  cases hd : decides platform cancellation history e with
  | equivalent =>
    have hdecision : Decision platform e (decides platform cancellation history e) :=
      decides_cases history e
    rw [hd] at hdecision
    cases hdecision with
    | equivalent hpasses => exact absurd (h.symm.trans hpasses) (by decide)
  | _ => rfl

/-- The cells between two rounds: an observation at some index has come out equal. -/
structure Ready (index : Int) (value : ρ) (cells : Cells ρ) : Prop where
  tied : Tied cells
  phase : cells.phase = "observe"
  index : cells.index = index
  runtime : cells.runtime = some value
  outcome : cells.outcome = .equivalent

/-- The record knows the runtime of the cells. -/
theorem Tied.started {cells : Cells ρ} {value : ρ} (h : Tied cells)
    (hv : cells.runtime = some value) :
    Started cells.log value := by
  have hr := h.runtime
  rw [hv, runtimeIn] at hr
  rw [Started]
  split at hr
  · rename_i found hfound
    rw [hfound, Option.some.inj hr]
  · exact absurd hr (by simp)

/-- **The comparison of an observation** goes through its stage. -/
theorem goes_compareStates {cells : Cells ρ} {expected actual : QuintReplayState}
    {action : Option NString} {source : Option QuintReplaySourceBinding} {Q : Cells ρ → Prop}
    (he : ValidState platform expected) (hphase : cells.phase = "observe")
    (hactual : latest Event.observeAnswer cells.log = some (.ok (.ok actual))) (ht : Tied cells)
    (h : Q (cells.note (.compared action source expected actual))) :
    Goes platform cancellation driver trace (compareStates platform expected action source actual)
      cells [.comparison cells.index action source expected] Q := by
  have ho : occurs platform cancellation driver trace
    (.comparison cells.index action source expected) cells.log
      ⟨cells.phase, cells.index, .compared action source expected actual⟩ :=
    ⟨actual, hactual, by rw [hphase]⟩
  have ht' : Tied (cells.note (.compared action source expected actual)) := ht.note _ rfl rfl
  -- the expected state is valid, so the outcome turns on the one that was observed
  have heok := (encodeState_eq_ok_iff platform).mpr ⟨he, rfl⟩
  rcases encodeState_spec platform actual with ⟨ha, haok⟩ | ⟨ha, found, -, haerr⟩
  · by_cases htext : stateText expected = stateText actual
    · refine goes_note ho ?_ (goes_done ?_ h)
      · rw [fails_compared, (encodeAlike_iff he ha).mpr htext]
        rfl
      · simp only [heok, haok, calculate_bind, if_pos htext]
        rfl
    · have hf : fails platform (⟨cells.phase, cells.index,
          .compared action source expected actual⟩ : Event ρ) = true := by
        rw [fails_compared, Bool.not_eq_true', Bool.eq_false_iff, ne_eq, encodeAlike_iff he ha]
        exact htext
      obtain ⟨path, hpath⟩ := differingPath_ok he ha
      refine goes_finish (.diverged cells.index action source path expected actual) ho hf ht' ?_ ?_
      · simp only [heok, haok, calculate_bind, if_neg htext, hpath]
        rfl
      · simp only [decides, differs, haok, hpath]
  · have hf : fails platform (⟨cells.phase, cells.index, .compared action source expected actual⟩ :
        Event ρ) = true := by
      rw [fails_compared, encodeAlike_of_not_valid ha]
      rfl
    refine goes_finish (.driverFailure cells.phase cells.index
      (some (lit "Invalid observed state: " ++ platform.formatDiagnostics found))) ho hf ht' ?_ ?_
    · simp only [heok, haerr, calculate_bind]
      rfl
    · simp only [decides, differs, haerr]

/-- **An observation** goes through its stages, the comparison last. -/
theorem goes_observe {cells : Cells ρ} {value : ρ} {expected : QuintReplayState}
    {action : Option NString} {source : Option QuintReplaySourceBinding}
    (he : ValidState platform expected) (ht : Tied cells) (hr : cells.runtime = some value)
    (ho : cells.outcome = .equivalent) :
    Goes platform cancellation driver trace
      (observe platform cancellation driver expected action source) cells
      (observing cells.index action source expected) (Ready cells.index value) := by
  refine goes_modify rfl ?_
  refine goes_checkpoint (ht.enter "observe") ?_
  have ht₁ : Tied ((cells.enter "observe").note (.checked false)) :=
    (ht.enter "observe").note _ rfl rfl
  have hstarted := ht₁.started hr
  refine goes_get ?_
  simp only [note_runtime, enter_runtime, hr]
  refine goes_call ⟨value, hstarted, rfl⟩ (fun _ => rfl) (fun _ => rfl) (fun _ _ => rfl)
    (fun _ _ => ht₁.note _ rfl rfl) fun observation _ => ?_
  have ht₂ := ht₁.note (.observeCalled value .linked (.ok observation)) rfl rfl
  refine goes_checkpoint ht₂ ?_
  -- the checkpoint after the call leaves its answer the latest one
  have hlatest : latest Event.observeAnswer ((((cells.enter "observe").note (.checked false)).note
      (.observeCalled value .linked (.ok observation))).note (.checked false)).log =
      some (.ok observation) := by
    rw [note_log, latest_append_singleton, note_log, latest_append_singleton]
    rfl
  have ht₃ := ht₂.note (.checked false) rfl rfl
  cases observation with
  | error message => exact goes_finish _ ⟨_, hlatest, rfl⟩ rfl (ht₃.note _ rfl rfl) rfl rfl
  | ok actual =>
    refine goes_note ⟨_, hlatest, rfl⟩ rfl ?_
    have ht₄ := ht₃.note (.observed (.ok actual)) rfl rfl
    refine goes_compareStates he rfl ?_ ht₄ ?_
    · rw [note_log, latest_append_singleton, hlatest]
      rfl
    · exact ⟨ht₄.note _ rfl rfl, rfl, rfl, hr, ho⟩

/-- The application of a step is counted before the call. -/
theorem Tied.apply {cells : Cells ρ} (h : Tied cells) (step : QuintReplayStep) (value : ρ)
    (token : CancellationToken) (answer : Answer Unit) :
    Tied ((cells.advance step).note (.applyCalled step value token answer)) where
  runtime := by
    rw [note_log, runtimeIn, latest_append_singleton]
    exact h.runtime
  applied := by
    rw [note_log, List.filterMap_append, List.length_append]
    exact congrArg (· + 1) h.applied
  cleanupFailure := h.cleanupFailure

/-- **A step** goes through its stages and those of its observation. -/
theorem goes_applyStep {cells : Cells ρ} {value : ρ} {index : Int} {step : QuintReplayStep}
    (he : ValidState platform step.expected) (hready : Ready index value cells) :
    Goes platform cancellation driver trace (applyStep platform cancellation driver value step)
      cells (applying index step ++ observing step.index (some step.action) (some step.source)
        step.expected)
      (Ready step.index value) := by
  obtain ⟨ht, hphase, rfl, hr, ho⟩ := hready
  rw [applying, ← hphase]
  refine goes_checkpoint ht ?_
  have ht₁ := ht.note (.checked false) rfl rfl
  have hstarted := ht₁.started hr
  refine goes_modify rfl ?_
  refine goes_call ⟨value, hstarted, rfl⟩ (fun _ => rfl) (fun _ => rfl) (fun _ _ => rfl)
    (fun _ _ => ht₁.apply step value .linked _) fun result _ => ?_
  have ht₂ := ht₁.apply step value .linked (.ok result)
  refine goes_checkpoint ht₂ ?_
  have hlatest : latest Event.applyAnswer (((((cells.note (.checked false)).advance step).note
      (.applyCalled step value .linked (.ok result))).note (.checked false)).log) =
      some (.ok result) := by
    rw [note_log, latest_append_singleton, note_log, latest_append_singleton]
    rfl
  have ht₃ := ht₂.note (.checked false) rfl rfl
  cases result with
  | error message => exact goes_finish _ ⟨_, hlatest, rfl⟩ rfl (ht₃.note _ rfl rfl) rfl rfl
  | ok done =>
    refine goes_note ⟨_, hlatest, rfl⟩ rfl ?_
    exact goes_observe he (ht₃.note (.applied (.ok done)) rfl rfl) hr ho

/-- Once there is an outcome, the rest of the loop does nothing. -/
theorem applySteps_idle {value : ρ} : ∀ {steps : List QuintReplayStep} {cells : Cells ρ},
    cells.outcome.isEquivalent = false →
      applySteps platform cancellation driver value steps cells = (.ok (), cells)
  | [], _, _ => rfl
  | step :: steps, cells, h => by
    rw [applySteps, get_bind, h]
    exact applySteps_idle h

/-- The loop, by induction on the steps that are left: between two rounds the cells are `Ready`. -/
theorem goes_applySteps {value : ρ} :
    ∀ {steps : List QuintReplayStep} {cells : Cells ρ} {index : Int},
    (∀ step ∈ steps, ValidState platform step.expected) → Ready index value cells →
      Goes platform cancellation driver trace (applySteps platform cancellation driver value steps)
        cells (rounds index steps) fun cells' => cells'.outcome = .equivalent ∧ Tied cells'
  | [], _, _, _, hready => goes_done rfl ⟨hready.outcome, hready.tied⟩
  | step :: steps, cells, index, hsteps, hready => by
    have hstep := hsteps step List.mem_cons_self
    have hrest := fun s hs => hsteps s (List.mem_cons_of_mem step hs)
    rw [applySteps, rounds]
    refine goes_get ?_
    rw [hready.outcome]
    exact goes_seq (goes_applyStep hstep hready) (fun cells' h => goes_applySteps hrest h)
      (fun _ => applySteps_idle) isEquivalent_decides

/-- **The body goes through the script**, and where it comes to the end the outcome stands. -/
theorem goes_body :
    Goes platform cancellation driver trace (body platform cancellation driver trace) {}
      (script trace)
      fun cells => cells.outcome = .equivalent ∧ Tied cells := by
  obtain ⟨found, hfound, hspec⟩ := validateTrace_spec platform trace
  have ht : Tied ({} : Cells ρ) := ⟨rfl, rfl, rfl⟩
  rw [body, hfound]
  refine goes_silent (calculate_bind _ found _) rfl ?_
  have ho : occurs platform cancellation driver trace .validation []
      (⟨"validate", 0, .validated found⟩ : Event ρ) := ⟨found, hfound, rfl⟩
  -- with findings the run is over after one event
  cases found with
  | cons d ds => exact goes_finish (.invalidTrace (d :: ds)) ho rfl (ht.note _ rfl rfl) rfl rfl
  | nil =>
    have hv := hspec.mp rfl
    refine goes_note ho rfl ?_
    have ht₁ := ht.note (.validated []) rfl rfl
    refine goes_checkpoint ht₁ ?_
    have ht₂ := ht₁.note (.checked false) rfl rfl
    refine goes_modify rfl ?_
    refine goes_call rfl (fun _ => rfl) (fun _ => rfl) (fun _ _ => rfl) (fun _ _ => ⟨rfl, rfl, rfl⟩)
      fun result _ => ?_
    cases result with
    | error message => exact goes_finish _ ⟨.error message, rfl, rfl⟩ rfl ⟨rfl, rfl, rfl⟩ rfl rfl
    | ok value =>
      refine goes_note ⟨.ok value, rfl, rfl⟩ rfl ?_
      refine goes_modify rfl ?_
      have hsteps : ∀ step ∈ trace.steps, ValidState platform step.expected := by
        intro step hs
        obtain ⟨i, hi, rfl⟩ := List.mem_iff_getElem.mp hs
        exact (hv.steps i hi).expected
      exact goes_seq (goes_observe hv.initial ⟨rfl, rfl, rfl⟩ rfl rfl)
        (fun cells' h => goes_applySteps hsteps h) (fun _ => applySteps_idle) isEquivalent_decides

/-! ## The run -/

/-- The handlers leave the record alone. -/
theorem settle_log (x : Except Exn Unit × Cells ρ) : (settle cancellation x).log = x.2.log := by
  rcases x with ⟨_ | _, cells⟩
  · simp only [settle, handle]
    split
    · rfl
    · split <;> rfl
  · rfl

/-- And keep the cells tied to it. -/
theorem tied_settle {x : Except Exn Unit × Cells ρ} (h : Tied x.2) :
    Tied (settle cancellation x) := by
  rcases x with ⟨_ | _, cells⟩
  · simp only [settle, handle]
    split
    · exact h.finish _
    · split <;> exact h.finish _
  · exact h

/-- **A run keeps to the script of its trace, and its outcome is the verdict on what happened.** -/
theorem guarded_follows (trace : QuintReplayTrace) :
    Follows (occurs platform cancellation driver trace) (fails platform) [] (script trace)
        (guarded platform cancellation driver trace).log ∧
      Tied (guarded platform cancellation driver trace) ∧
      (guarded platform cancellation driver trace).outcome =
        verdict platform cancellation (guarded platform cancellation driver trace).log := by
  obtain ⟨events, hlog, hfollows, hclean, hstop⟩ :=
    @goes_body ρ platform cancellation driver trace
  have hlog' : (guarded platform cancellation driver trace).log = events := by
    rw [guarded, settle_log, hlog]
    rfl
  refine ⟨by rw [hlog']; exact hfollows, ?_⟩
  rw [hlog', guarded]
  by_cases hc : Clean (fails platform) events
  · obtain ⟨hok, hout, htied⟩ := hclean hc
    refine ⟨tied_settle htied, ?_⟩
    have hbody : body platform cancellation driver trace {} =
        (.ok (), (body platform cancellation driver trace {}).2) := Prod.ext hok rfl
    rw [verdict, find?_of_clean hc, hbody]
    exact hout
  · obtain ⟨before, e, rfl, hbefore, he⟩ := hfollows.exists_failure hc
    have hs := hstop before e rfl he
    refine ⟨tied_settle hs.tied, ?_⟩
    rw [hs.outcome, verdict, find?_failure hbefore he, hlog]
    rfl

end Parts

end FsQuint.Replay
