/-
  The first stop cause survives.

  The cause is recorded twice: `rememberStop` keeps the first, for the exception handler, and `stopOf`
  takes the initial result's or else the final one's.  Results that never take a stop back make the
  two agree.

  1. **The results of a script** (`results`), the first stop among them and what it stands for.
  2. **One invocation** (`executeText_firstStop`): whatever follows, it answers with the outcome of the
     first stop.
  3. **The tool** (`run_firstStop`) reports the same, from the probe or from the workload.
  4. Both do answer (`firstStop_survives`), since every behaviour of the sessions lets them.
-/
import FsQuint.ToolEvidence

set_option linter.unusedSectionVars false

namespace FsQuint

open Utf16 Transition

variable {σ : Type}

/-! ## Results -/

/-- The result that a call of the session comes back with. -/
def Action.result : Action σ → Option TextExecutionResult
  | .run (.ok result) | .observe (.ok result) => some result
  | _ => none

/-- The results of a session, in order. -/
def results (actions : List (Action σ)) : List TextExecutionResult := actions.filterMap Action.result

/-- The first result that reports any stop reports one for this cause. -/
def FirstStop (results : List TextExecutionResult) (cause : StopCause) : Prop :=
  ∃ before result after, results = before ++ result :: after ∧
    (∀ earlier ∈ before, earlier.process.stop = .notRequested) ∧ result.process.stop = .requested cause

/-- A stop that was requested is not taken back. -/
def Steadfast (results : List TextExecutionResult) : Prop :=
  results.Pairwise fun earlier later =>
    ∀ cause, earlier.process.stop = .requested cause → later.process.stop = .requested cause

/-- The outcome that stands for a cause. -/
def StopCause.verdict : StopCause → ToolOutcome
  | .outputLimit => .outputLimit
  | .callerCancellation => .cancelled
  | .workDeadline => .timedOut
  | .other => .incomplete

/-- A requested stop has its verdict for its outcome. -/
theorem outcome_requested (cause : StopCause) :
    (Stop.requested cause).outcome = some cause.verdict := by
  cases cause <;> rfl

/-- The results of a script are those of its parts. -/
theorem results_append (first second : List (Action σ)) :
    results (first ++ second) = results first ++ results second := List.filterMap_append

/-- Without results there is no stop. -/
theorem not_firstStop_nil {cause : StopCause} : ¬ FirstStop [] cause := by
  rintro ⟨before, result, after, h, -⟩
  exact absurd h.symm (by simp)

/-- The first stop that is remembered. -/
def firstOutcome (results : List TextExecutionResult) : Option ToolOutcome :=
  results.findSome? fun result => result.process.stop.outcome

/-- The first stop determines the outcome that is remembered. -/
theorem FirstStop.firstOutcome {rs : List TextExecutionResult} {cause : StopCause}
    (h : FirstStop rs cause) :
    firstOutcome rs = some cause.verdict := by
  obtain ⟨before, result, after, rfl, hbefore, hresult⟩ := h
  have hnone : before.findSome? (fun result => result.process.stop.outcome) = none := by
    rw [List.findSome?_eq_none_iff]
    intro earlier he
    rw [hbefore earlier he]
    rfl
  rw [FsQuint.firstOutcome, List.findSome?_append, hnone, Option.none_or, List.findSome?_cons,
    hresult, outcome_requested]

/-- The stop by which an invocation is judged is the first. -/
theorem FirstStop.stopOf {initial final : TextExecutionResult} {rest : List TextExecutionResult}
    {cause : StopCause} (h : FirstStop (initial :: (rest ++ [final])) cause)
    (hsteady : Steadfast (initial :: (rest ++ [final]))) :
    stopOf initial final = .requested cause := by
  obtain ⟨before, result, after, heq, hbefore, hresult⟩ := h
  cases before with
  | nil =>
    -- the initial result has it
    obtain ⟨rfl, -⟩ := List.cons.inj heq
    rw [FsQuint.stopOf, hresult]
  | cons first before =>
    obtain ⟨rfl, htail⟩ := List.cons.inj heq
    have hinitial : initial.process.stop = .notRequested := hbefore initial List.mem_cons_self
    have hfinal : final.process.stop = .requested cause := by
      rw [Steadfast, htail] at hsteady
      have hlater := (List.pairwise_cons.mp
        (List.pairwise_append.mp (List.pairwise_cons.mp hsteady).2).2.1).1
      -- the final result is the first with a stop, or follows it
      rcases List.eq_nil_or_concat after with rfl | ⟨after, last, rfl⟩
      · obtain ⟨-, hlast⟩ := List.append_inj' htail rfl
        rw [(List.cons.inj hlast).1]
        exact hresult
      · have hsplit : rest ++ [final] = (before ++ result :: after) ++ [last] := by
          rw [htail]
          simp
        obtain ⟨-, hlast⟩ := List.append_inj' hsplit rfl
        rw [(List.cons.inj hlast).1]
        exact hlater last (by simp) cause hresult
    rw [FsQuint.stopOf, hinitial]
    exact hfinal

/-- And the classification, whatever the release answered. -/
theorem classify_of_stop {initial final : TextExecutionResult} {cause : StopCause}
    (h : stopOf initial final = .requested cause) (released : Bool) :
    classify initial final released = cause.verdict := by
  rw [classify, h]
  cases cause <;> rfl

/-! ## One invocation -/

/-- A result on its way out has the outcome of the first stop. -/
def Survives (rs : List TextExecutionResult) (outcome : ToolOutcome) : Prop :=
  ∀ cause, FirstStop rs cause → Steadfast rs → outcome = cause.verdict

/-- The results so far, by the place where the invocation is. -/
def Phase.Heard (rs : List TextExecutionResult) : Phase σ → Prop
  | .entered | .claiming | .preparing _ | .storing _ _ | .running _ _ => rs = []
  | .observing _ _ initial | .pausing _ _ initial | .finishing _ _ initial => ∃ rest, rs = initial :: rest
  | .releasing _ _ initial final => ∃ rest, rs = initial :: (rest ++ [final])
  | .leaving _ result | .ended (.ok result) => Survives rs result.1
  | .ended (.error _) => rs = []

/-- What holds after a script. -/
structure Remembered (rs : List TextExecutionResult) (invocation : Invocation σ) : Prop where
  first : invocation.firstOutcome = firstOutcome rs
  heard : invocation.phase.Heard rs

/-- Before the first observation nothing is lost. -/
theorem survives_nil (outcome : ToolOutcome) : Survives [] outcome :=
  fun _ hfirst => absurd hfirst not_firstStop_nil

namespace Remembered

variable {rs : List TextExecutionResult} {invocation : Invocation σ}

/-- **The remembered outcome is that of the first result that has one.** -/
theorem rememberStop (h : Remembered rs invocation) (result : TextExecutionResult) :
    (invocation.rememberStop result).firstOutcome = firstOutcome (rs ++ [result]) := by
  have hfirst := h.first
  rw [firstOutcome] at hfirst
  rw [firstOutcome, List.findSome?_append, ← hfirst]
  unfold Invocation.rememberStop
  cases hbefore : invocation.firstOutcome with
  | none =>
    rw [Option.none_or, List.findSome?_singleton]
    rfl
  | some outcome => exact hbefore

/-- An exception leaves with the first stop. -/
theorem rescue (h : Remembered rs invocation) (slot : Fin 16) :
    Remembered rs (invocation.rescue slot) := by
  refine ⟨h.first, fun cause hfirst _ => ?_⟩
  show invocation.firstOutcome.getD _ = _
  rw [h.first, hfirst.firstOutcome]
  rfl

variable [DecidableEq σ] {invocation' : Invocation σ} {custody custody' : Custody σ} {action : Action σ}

/-- **Each call adds what it comes back with.** -/
theorem step (h : Remembered rs invocation)
    (hstep : invocation.step custody action = some (custody', invocation')) :
    Remembered (rs ++ action.result.toList) invocation' := by
  have hheard := h.heard
  -- a call that brings no result adds nothing
  have hnone : rs ++ [] = rs := List.append_nil rs
  cases Invocation.step_cases hstep with
  | escape hphase | proceed hphase | claim hphase _ | prepare hphase | store hphase =>
    rw [hphase] at hheard
    exact hnone.symm ▸ ⟨h.first, hheard⟩
  | decline hphase _ | crowd hphase _ _ | refuse hphase _ =>
    rw [hphase] at hheard
    obtain rfl : rs = [] := hheard
    exact ⟨h.first, survives_nil _⟩
  | run hphase =>
    rw [hphase] at hheard
    obtain rfl : rs = [] := hheard
    exact ⟨h.rememberStop _, [], rfl⟩
  | @observe _ _ _ latest _ hphase hnext =>
    rw [hphase] at hheard
    obtain ⟨rest, rfl⟩ := hheard
    rcases hnext with rfl | rfl <;> exact ⟨h.rememberStop latest, rest ++ [latest], rfl⟩
  | pause hphase hnext =>
    rw [hphase] at hheard
    rcases hnext with ⟨rfl, -⟩ | rfl <;> exact hnone.symm ▸ ⟨h.first, hheard⟩
  | finish hphase =>
    rw [hphase] at hheard
    obtain ⟨rest, rfl⟩ := hheard
    exact ⟨h.rememberStop _, rest, rfl⟩
  | @release _ _ initial final _ _ released hphase _ =>
    rw [hphase] at hheard
    obtain ⟨rest, rfl⟩ := hheard
    have hsurvives : Survives (initial :: (rest ++ [final])) (classify initial final released) :=
      fun cause hfirst hsteady => classify_of_stop (hfirst.stopOf hsteady) released
    exact hnone.symm ▸ ⟨h.first, hsurvives⟩
  | leave hphase =>
    rw [hphase] at hheard
    exact hnone.symm ▸ ⟨h.first, hheard⟩
  | interrupt hi =>
    generalize invocation.phase = phase at hi
    cases hi <;> exact hnone.symm ▸ h.rescue _

end Remembered

variable [DecidableEq σ]

/-- It is, after every script that the invocation has followed. -/
theorem remembered_of_foldlM {script : Script σ} {invocation : Invocation σ}
    (h : script.foldlM Invocation.follow {} = some invocation) :
    Remembered (results (script.map Prod.snd)) invocation := by
  refine (Steps.of_foldlM h).history (fun past invocation =>
    Remembered (results (past.map Prod.snd)) invocation) ?_
    ⟨rfl, rfl⟩
  intro past s entry t hs hstep
  obtain ⟨⟨custody', t'⟩, hinner, rfl⟩ := Option.map_eq_some_iff.mp hstep
  have hone : results [entry.2] = entry.2.result.toList := by
    cases hresult : entry.2.result <;> simp [results, hresult]
  rw [List.map_append, results_append, List.map_singleton, hone]
  exact hs.step hinner

/-- **An invocation answers with the outcome of its first stop**, whatever follows it. -/
theorem executeText_firstStop {script : Script σ} {answer : Outcome TextResult}
    {cause : StopCause} (h : executeText script = some answer)
    (hfirst : FirstStop (results (script.map Prod.snd)) cause)
    (hsteady : Steadfast (results (script.map Prod.snd))) :
    ∃ output errors, answer = .ok (cause.verdict, output, errors) := by
  obtain ⟨invocation, hfold, hanswer⟩ := Option.bind_eq_some_iff.mp h
  have hheard := (remembered_of_foldlM hfold).heard
  unfold Phase.answer at hanswer
  split at hanswer
  · rename_i found hphase
    cases hanswer
    rw [hphase] at hheard
    cases answer with
    | error e =>
      have hnil : results (script.map Prod.snd) = [] := hheard
      rw [hnil] at hfirst
      exact absurd hfirst not_firstStop_nil
    | ok result =>
      obtain ⟨outcome, output, errors⟩ := result
      obtain rfl : outcome = cause.verdict := hheard cause hfirst hsteady
      exact ⟨output, errors, rfl⟩
  · exact nomatch hanswer

/-! ## The tool -/

/-- The verdict of a stop is no exit code. -/
theorem verdict_ne_failed (cause : StopCause) (code : Int) : cause.verdict ≠ .failed code := by
  cases cause <;> exact nofun

/-- So the command does not change it. -/
theorem statusOf_verdict (command : QuintCommand) (cause : StopCause) (output errors : UString) :
    Quint.statusOf command cause.verdict output errors = .ok cause.verdict := by
  cases cause <;> rfl

/-- What a session reports as its first stop. -/
def Stops (world : World σ) (call : Launch) (cause : StopCause) : Prop :=
  FirstStop (results ((world.sessions call).map Prod.snd)) cause ∧
    Steadfast (results ((world.sessions call).map Prod.snd))

/-- **A stop of the workload is reported.** -/
theorem workload_firstStop {world : World σ} {request : QuintRequest} {path : UString}
    {cause : StopCause} {reply : Outcome ToolReport}
    (h : (Quint.workload world request path).answer = some reply)
    (hstops : Stops world (Quint.workLaunch request path) cause) :
    ∃ report, reply = .ok report ∧ report.outcome = cause.verdict := by
  unfold Quint.workload Quint.execute at h
  split at h
  · exact nomatch h
  · rename_i e he
    obtain ⟨output, errors, hok⟩ := executeText_firstStop he hstops.1 hstops.2
    exact nomatch hok
  · rename_i result hresult
    obtain ⟨output, errors, hok⟩ := executeText_firstStop hresult hstops.1 hstops.2
    cases hok
    have hreply := Option.some.inj h
    rw [statusOf_verdict] at hreply
    exact ⟨_, hreply.symm, rfl⟩

/-- So is one of the version query, which is then the only call. -/
theorem attempt_firstStop {world : World σ} {request : QuintRequest} {path : UString}
    {cause : StopCause} {reply : Outcome ToolReport}
    (h : (Quint.attempt world request path).answer = some reply) {call : Launch}
    (hcall : call ∈ (Quint.attempt world request path).launched) (hstops : Stops world call cause) :
    ∃ report, reply = .ok report ∧ report.outcome = cause.verdict := by
  -- the probe answers with its first stop, if it has one
  have hversion : ∀ {answer : Outcome TextResult}, call = Quint.versionLaunch request path →
      executeText (world.sessions (Quint.versionLaunch request path)) = some answer →
      ∃ output errors, answer = .ok (cause.verdict, output, errors) := by
    rintro answer rfl hprobe
    exact executeText_firstStop hprobe hstops.1 hstops.2
  -- so a probe that passed is not the call that was stopped
  have hpassed : ∀ {stdout stderr : UString},
    executeText (world.sessions (Quint.versionLaunch request path)) =
      some (.ok (.failed 0, stdout, stderr)) → call ≠ Quint.versionLaunch request path := by
    intro stdout stderr hprobe hcall
    obtain ⟨output, errors, hok⟩ := hversion hcall hprobe
    exact verdict_ne_failed cause 0 (congrArg Prod.fst (Except.ok.inj hok)).symm
  have hcases := attempt_cases world request path
  generalize Quint.attempt world request path = progress at hcases h hcall
  cases hcases with
  | unreadable | otherFile => cases hcall
  | probing => cases h
  | thrown hprobe =>
    obtain ⟨output, errors, hok⟩ := hversion (List.mem_singleton.mp hcall) hprobe
    cases hok
  | refused hprobe =>
    obtain ⟨output, errors, hok⟩ := hversion (List.mem_singleton.mp hcall) hprobe
    cases hok
    exact ⟨_, (Option.some.inj h).symm, rfl⟩
  | otherVersion hprobe => exact absurd (List.mem_singleton.mp hcall) (hpassed hprobe)
  | worked _ _ hprobe =>
    rcases List.mem_cons.mp hcall with he | he
    · exact absurd he (hpassed hprobe)
    · rw [List.mem_singleton.mp he] at hstops
      exact workload_firstStop h hstops

/-- The caller's cancellation is not taken for a timeout. -/
theorem retimed_verdict {world : World σ} {report : ToolReport} {cause : StopCause}
    (h : report.outcome = cause.verdict)
    (hcaller : cause = .callerCancellation → world.callerCancelled = true) :
    Quint.retimed world report = report := by
  unfold Quint.retimed
  split
  · rename_i hcancelled
    obtain ⟨houtcome, hnot, -⟩ := hcancelled
    rw [h] at houtcome
    cases cause with
    | callerCancellation => exact absurd (hcaller rfl) hnot
    | outputLimit | workDeadline | other => exact nomatch houtcome
  · rfl

/-- A call is only launched by the attempt, whose answer goes through the handlers. -/
theorem runInternal_of_launched {world : World σ} {request : QuintRequest} {call : Launch}
    (hcall : call ∈ (Quint.runInternal world request).launched) :
    ∃ path, Quint.runInternal world request =
      ⟨(Quint.attempt world request path).launched,
        (Quint.attempt world request path).answer.map Quint.handled⟩ := by
  generalize hrun : Quint.runInternal world request = progress at hcall ⊢
  unfold Quint.runInternal at hrun
  split at hrun
  · subst hrun
    cases hcall
  · split at hrun
    · subst hrun
      cases hcall
    · split at hrun <;> subst hrun
      · exact ⟨_, rfl⟩
      · cases hcall
      · cases hcall

/-- After them the answer of `run` is compared with the tokens. -/
theorem run_of_launched {world : World σ} {request : QuintRequest} {call : Launch}
    (hcall : call ∈ (Quint.run world request).launched) : ∃ path, Quint.run world request =
      ⟨(Quint.attempt world request path).launched,
        ((Quint.attempt world request path).answer.map Quint.handled).map
          (Except.map (Quint.retimed world))⟩ := by
  generalize hrun : Quint.run world request = progress at hcall ⊢
  unfold Quint.run at hrun
  split at hrun
  · subst hrun
    cases hcall
  · split at hrun
    · subst hrun
      cases hcall
    · split at hrun <;> subst hrun
      · cases hcall
      · obtain ⟨path, hinternal⟩ := runInternal_of_launched hcall
        rw [hinternal]
        exact ⟨path, rfl⟩

/-- A report of the tool has the first stop of each call that it made. -/
theorem run_firstStop {world : World σ} {request : QuintRequest} {cause : StopCause}
    {reply : Outcome ToolReport} (h : (Quint.run world request).answer = some reply) {call : Launch}
    (hcall : call ∈ (Quint.run world request).launched) (hstops : Stops world call cause)
    (hcancelled : cause = .callerCancellation → world.callerCancelled = true) :
    ∃ report, reply = .ok report ∧ report.outcome = cause.verdict := by
  obtain ⟨path, hrun⟩ := run_of_launched hcall
  rw [hrun] at h hcall
  obtain ⟨handled, hhandled, rfl⟩ := Option.map_eq_some_iff.mp h
  obtain ⟨inner, hinner, rfl⟩ := Option.map_eq_some_iff.mp hhandled
  obtain ⟨report, rfl, houtcome⟩ := attempt_firstStop hinner hcall hstops
  refine ⟨report, ?_, houtcome⟩
  show Except.ok (Quint.retimed world report) = _
  rw [retimed_verdict houtcome hcancelled]

/-- **The first stop cause survives everything that follows.**  However the calls behave, an invocation
    comes back with it; and the tool reports it, whether it arose in the version probe or in the
    workload. -/
theorem firstStop_survives {σ : Type} [DecidableEq σ] (cause : StopCause) :
    (∀ behaviour : Behaviour σ, FirstStop (results (behaviour.script.map Prod.snd)) cause →
      Steadfast (results (behaviour.script.map Prod.snd)) →
        ∃ output errors, executeText behaviour.script = some (.ok (cause.verdict, output, errors))) ∧
    ∀ (world : World σ) (request : QuintRequest), world.Responsive →
      ∀ call ∈ (Quint.run world request).launched, Stops world call cause →
        (∀ result ∈ results ((world.sessions call).map Prod.snd),
          result.process.stop = .requested .callerCancellation → world.callerCancelled = true) →
          ∃ report, (Quint.run world request).answer = some (.ok report) ∧
            report.outcome = cause.verdict := by
  constructor
  · intro behaviour hfirst hsteady
    obtain ⟨answer, hanswer⟩ := behaviour.answers
    obtain ⟨output, errors, rfl⟩ := executeText_firstStop hanswer hfirst hsteady
    exact ⟨output, errors, hanswer⟩
  · intro world request hresponsive call hcall hstops hcaller
    obtain ⟨reply, hreply⟩ := hresponsive.run request
    -- one of the results asks for the stop
    have hcancelled : cause = .callerCancellation → world.callerCancelled = true := by
      rintro rfl
      obtain ⟨before, result, after, heq, -, hresult⟩ := hstops.1
      exact hcaller result (by rw [heq]; exact List.mem_append_right _ List.mem_cons_self) hresult
    obtain ⟨report, rfl, houtcome⟩ := run_firstStop hreply hcall hstops hcancelled
    exact ⟨report, hreply, houtcome⟩

/-! ## A deadline, and an observation that throws -/

/-- What a process is like that has not settled. -/
def unsettled (stop : Stop) : TextExecutionResult :=
  ⟨⟨stop, .other, .unknown, .unknown, none, []⟩, false, none, ⟨[], 0, .unknown⟩, ⟨[], 0, .unknown⟩⟩

/-- The first observation reports that the work deadline has passed, and the next one throws. -/
def expiring : Behaviour Nat where
  moment k :=
    { budget := .ok (.ok ⟨false⟩)
      cancelled := false
      claim := fun _ => .ok .releaseRefused
      prepare := .ok (.ok 7)
      run := .ok (unsettled .notRequested)
      observe := if k ≤ 5 then .ok (unsettled (.requested .workDeadline)) else .error ⟨.other, ""⟩
      pause := if k ≤ 6 then .ok (.ok 50000) else .ok (.ok 0)
      release := .ok .releaseRefused
      leave := .ok .releaseRefused }
  window := 7
  expires := by
    intro k ticks hpassed hpause
    have hlate : ¬ k ≤ 6 := by omega
    simp only [if_neg hlate] at hpause
    cases hpause
    exact Int.le_refl 0

/-- The version probe passes, and the workload expires. -/
def expiringWorld : World Nat :=
  { printingWorld with
    sessions := fun call => if call.ordinal = 0 then (printing "0.32.0").script else expiring.script }

/-- Every call of this world comes back. -/
theorem expiringWorld_responsive : expiringWorld.Responsive := by
  intro call
  by_cases hprobe : call.ordinal = 0
  · exact ⟨printing "0.32.0", if_pos hprobe⟩
  · exact ⟨expiring, if_neg hprobe⟩

/-- The tool reports the timeout, not the exception that came after it. -/
theorem firstStop_survives_deadline : ∃ report,
    (Quint.run expiringWorld (typecheckRequest "/quint")).answer = some (.ok report) ∧
      report.outcome = .timedOut := by
  have hlaunched : (Quint.run expiringWorld (typecheckRequest "/quint")).launched =
      [Quint.versionLaunch (typecheckRequest "/quint") "/quint",
        Quint.workLaunch (typecheckRequest "/quint") "/quint"] := rfl
  have hresults : results ((expiringWorld.sessions
      (Quint.workLaunch (typecheckRequest "/quint") "/quint")).map Prod.snd) =
      [unsettled .notRequested, unsettled (.requested .workDeadline)] := rfl
  refine (firstStop_survives .workDeadline).2 expiringWorld (typecheckRequest "/quint")
    expiringWorld_responsive (Quint.workLaunch (typecheckRequest "/quint") "/quint") ?_ ?_ ?_
  · rw [hlaunched]
    exact List.mem_cons_of_mem _ List.mem_cons_self
  · unfold Stops
    rw [hresults]
    refine ⟨⟨[unsettled .notRequested], _, [], rfl, ?_, rfl⟩, ?_⟩
    · intro earlier hearlier
      rw [List.mem_singleton.mp hearlier]
      rfl
    · refine List.pairwise_pair.mpr fun cause hcause => ?_
      cases hcause
  · intro result hresult hcaller
    rw [hresults] at hresult
    rcases List.mem_pair.mp hresult with rfl | rfl <;> cases hcaller

end FsQuint
