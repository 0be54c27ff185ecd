/-
  What a positive result of the tool rests on.

  1. **One invocation** (`executeText_failed`): it answers `Failed code` only after the calls of a
     complete session, in order, and with conclusive evidence in its final snapshot (`Conclusive`).
     No invocation answers with a positive outcome of its own (`executeText_not_positive`).
  2. **The tool** (`run_reported`): a positive outcome takes the digest, a conclusive version probe, and
     then a conclusive workload with the marker of its command (`Marked`).
  3. **The report** (`run_evident`): in every world whose sessions answer, the tool does so too, and its
     answer is such a report.  The exception is a null path that is looked at (`NullPathReached`): the
     check throws outside the `try`, where the checks beside it report a launch failure.
-/
import FsQuint.Lib.Transition
import FsQuint.SessionReturns

set_option linter.unusedSectionVars false

namespace FsQuint

open Utf16 Decimal Transition ReplayInternal

variable {σ : Type}

/-- The outcomes that say something about the model. -/
def ToolOutcome.Positive : ToolOutcome → Prop
  | .typechecked | .testsPassed _ | .samplesPassed | .counterexample => True
  | _ => False

/-! ## One invocation -/

/-- The evidence that a process ran to its end, undisturbed, and left with an exit code. -/
structure Conclusive (initial final : TextExecutionResult) (code : Int) : Prop where
  initialStop : ∀ cause, initial.process.stop ≠ .requested cause
  stop : final.process.stop = .notRequested
  launch : ∀ message, final.process.launch ≠ .refused message ∧ final.process.launch ≠ .ambiguous message
  exit : final.process.exit = .known (.exited code)
  snapshotComplete : final.text.snapshotComplete = true
  textFailure : final.text.firstFailure = none
  stdoutComplete : final.text.stdout.omittedDecodedUtf8Bytes = 0
  stderrComplete : final.text.stderr.omittedDecodedUtf8Bytes = 0
  stdoutEof : final.text.stdout.reader = .known .eof
  stderrEof : final.text.stderr.reader = .known .eof
  processFailure : final.process.firstFailure = none
  violations : final.process.violations = []
  settled : final.process.localTasks = .known .settled

/-- What complete texts are, condition by condition. -/
theorem completeText_iff {final : TextExecutionResult} : completeText final = true ↔
    final.text.snapshotComplete = true ∧ final.text.firstFailure = none ∧
      final.text.stdout.omittedDecodedUtf8Bytes = 0 ∧
      final.text.stderr.omittedDecodedUtf8Bytes = 0 ∧
      final.text.stdout.reader = .known .eof ∧ final.text.stderr.reader = .known .eof ∧
      final.process.firstFailure = none ∧ final.process.violations = [] := by
  simp only [completeText, eof, Bool.and_eq_true, decide_eq_true_eq, Option.isNone_iff_eq_none,
    List.isEmpty_iff, and_assoc]

/-- No stop counts when neither snapshot has one. -/
theorem stopOf_eq_notRequested {initial final : TextExecutionResult} :
    stopOf initial final = .notRequested ↔
      (∀ cause, initial.process.stop ≠ .requested cause) ∧ final.process.stop = .notRequested := by
  unfold stopOf
  split
  · rename_i cause hcause
    exact ⟨fun h => (nomatch h), fun h => absurd hcause (h.1 cause)⟩
  · rename_i hnot
    exact ⟨fun h => ⟨hnot, h⟩, And.right⟩

/-- **The verdict `Failed code` is given on conclusive evidence and an accepted release, and only then.** -/
theorem classify_eq_failed {initial final : TextExecutionResult} {released : Bool} {code : Int} :
    classify initial final released = .failed code ↔ Conclusive initial final code ∧
    released = true := by
  constructor
  · intro h
    unfold classify at h
    split at h
    -- only without a stop is the exit looked at
    case h_6 hstop =>
      obtain ⟨hinitial, hfinal⟩ := stopOf_eq_notRequested.mp hstop
      split at h
      · exact nomatch h
      · exact nomatch h
      · rename_i hlaunch
        split at h
        · rename_i exitCode hexit
          split at h
          · rename_i hall
            cases h
            simp only [Bool.and_eq_true, settled, decide_eq_true_eq] at hall
            obtain ⟨⟨htext, hreleased⟩, hsettled⟩ := hall
            obtain ⟨h1, h2, h3, h4, h5, h6, h7, h8⟩ := completeText_iff.mp htext
            refine ⟨⟨hinitial, hfinal, fun message => ?_, hexit, h1, h2, h3, h4, h5, h6, h7, h8,
              hsettled⟩, hreleased⟩
            rw [hlaunch]
            exact ⟨nofun, nofun⟩
          · exact nomatch h
        · exact nomatch h
    all_goals exact nomatch h
  · rintro ⟨hc, rfl⟩
    have hstop : stopOf initial final = .notRequested :=
      stopOf_eq_notRequested.mpr ⟨hc.initialStop, hc.stop⟩
    have hlaunch : final.process.launch = .other := by
      cases hl : final.process.launch with
      | refused message => exact absurd hl (hc.launch message).1
      | ambiguous message => exact absurd hl (hc.launch message).2
      | other => rfl
    have htext : completeText final = true :=
      completeText_iff.mpr ⟨hc.snapshotComplete, hc.textFailure,
      hc.stdoutComplete, hc.stderrComplete, hc.stdoutEof, hc.stderrEof, hc.processFailure,
      hc.violations⟩
    have hsettled : settled final = true := decide_eq_true hc.settled
    simp only [classify, hstop, hlaunch, hc.exit, htext, hsettled, Bool.and_self, if_true]

/-- **An invocation by itself says nothing positive**: that takes the command and the texts. -/
theorem classify_not_positive (initial final : TextExecutionResult) (released : Bool) :
    ¬ (classify initial final released).Positive := by
  unfold classify
  repeat' split
  all_goals exact id

/-- An outcome that stands for a stop. -/
theorem Stop.outcome_cases {stop : Stop} {outcome : ToolOutcome} (h : stop.outcome = some outcome) :
    outcome = .outputLimit ∨ outcome = .cancelled ∨ outcome = .timedOut ∨
    outcome = .incomplete := by
  unfold Stop.outcome at h
  split at h <;> cases h
  · exact .inl rfl
  · exact .inr (.inl rfl)
  · exact .inr (.inr (.inl rfl))
  · exact .inr (.inr (.inr rfl))
  · exact .inr (.inr (.inr rfl))

/-! ## What has happened so far -/

/-- A call in the observation loop that came back. -/
def Action.InLoop : Action σ → Prop
  | .observe (.ok _) | .pause (.ok _) => True
  | _ => False

/-- The calls of a session from its admission to its first result, and then those of the loop. -/
def Begun (session : σ) (initial : TextExecutionResult) (actions : List (Action σ)) : Prop :=
  ∃ view cancelled replies loop, actions = .budget (.ok (.ok view)) cancelled :: .claim replies ::
    .prepare (.ok (.ok session)) :: .store :: .run (.ok initial) :: loop ∧ ∀ action ∈ loop, action.InLoop

/-- The calls of a session that answered throughout, with its final snapshot and an accepted release. -/
def Finished (initial final : TextExecutionResult) (actions : List (Action σ)) : Prop :=
  ∃ session before, Begun session initial before ∧
    actions = before ++ [.observe (.ok final), .release (.ok .resourcesReleased)]

/-- A session was observed and released, and its final snapshot is conclusive. -/
def Backed (actions : List (Action σ)) (code : Int) (output errors : UString) : Prop :=
  ∃ initial final, Finished initial final actions ∧ Conclusive initial final code ∧
    output = final.text.stdout.chunks.flatten ∧ errors = final.text.stderr.chunks.flatten

/-- **A complete session**, with the outcome, the output and the errors of its final snapshot. -/
def Concluded (script : Script σ) (code : Int) (output errors : UString) : Prop :=
  ∃ before reply, script.map Prod.snd = before ++ [.leave reply] ∧ Backed before code output errors

/-- The calls that lead to a place of an invocation. -/
def Phase.Reached (actions : List (Action σ)) : Phase σ → Prop
  | .entered => actions = []
  | .claiming => ∃ view cancelled, actions = [.budget (.ok (.ok view)) cancelled]
  | .preparing _ => ∃ view cancelled replies, actions = [.budget (.ok (.ok view)) cancelled, .claim replies]
  | .storing _ session => ∃ view cancelled replies, actions =
      [.budget (.ok (.ok view)) cancelled, .claim replies, .prepare (.ok (.ok session))]
  | .running _ session => ∃ view cancelled replies, actions =
      [.budget (.ok (.ok view)) cancelled, .claim replies, .prepare (.ok (.ok session)), .store]
  | .observing _ session initial | .pausing _ session initial | .finishing _ session initial =>
    Begun session initial actions
  | .releasing _ session initial final => ∃ before, Begun session initial before ∧
      actions = before ++ [.observe (.ok final)]
  | .leaving _ (outcome, output, errors) => ¬ outcome.Positive ∧
      ∀ code, outcome = .failed code → Backed actions code output errors
  | .ended (.ok (outcome, output, errors)) => ¬ outcome.Positive ∧
      ∀ code, outcome = .failed code →
        ∃ before reply, actions = before ++ [.leave reply] ∧ Backed before code output errors
  | .ended (.error _) => True

/-- What holds after a script. -/
structure Traced (actions : List (Action σ)) (invocation : Invocation σ) : Prop where
  reached : invocation.phase.Reached actions
  firstOutcome : ∀ outcome, invocation.firstOutcome = some outcome → ∃ stop : Stop, stop.outcome = some outcome

/-- The loop of observations and delays keeps what has begun. -/
theorem Begun.loop {session : σ} {initial : TextExecutionResult} {actions : List (Action σ)}
    {action : Action σ} (h : Begun session initial actions) (ha : action.InLoop) :
    Begun session initial (actions ++ [action]) := by
  obtain ⟨view, cancelled, replies, loop, rfl, hloop⟩ := h
  refine ⟨view, cancelled, replies, loop ++ [action], by simp only [List.cons_append], ?_⟩
  intro a hmem
  rcases List.mem_append.mp hmem with hmem | hmem
  · exact hloop a hmem
  · rw [List.mem_singleton.mp hmem]
    exact ha

/-- What is remembered of a stop says nothing positive, and is no exit code. -/
theorem Stop.not_positive {stop : Stop} {outcome : ToolOutcome} (h : stop.outcome = some outcome) :
    ¬ outcome.Positive ∧ ∀ code, outcome ≠ .failed code := by
  rcases outcome_cases h with rfl | rfl | rfl | rfl <;> exact ⟨id, nofun⟩

/-- Nor does a refusal. -/
theorem Declined.not_positive {outcome : ToolOutcome} (h : Declined outcome) :
    ¬ outcome.Positive ∧ ∀ code, outcome ≠ .failed code := by
  cases h <;> exact ⟨id, by rintro _ ⟨⟩⟩

namespace Traced

variable {actions : List (Action σ)} {invocation : Invocation σ}

/-- A `return` before the `try` keeps the trace. -/
theorem conclude (h : Traced actions invocation) {outcome : ToolOutcome} (hp : ¬ outcome.Positive)
    (hf : ∀ code, outcome ≠ .failed code) (action : Action σ) :
    Traced (actions ++ [action]) (invocation.conclude outcome) :=
  ⟨⟨hp, fun code he => absurd he (hf code)⟩, h.firstOutcome⟩

/-- So does one from within the `try`. -/
theorem quit (h : Traced actions invocation) {outcome : ToolOutcome} (hp : ¬ outcome.Positive)
    (hf : ∀ code, outcome ≠ .failed code) (slot : Fin 16) (action : Action σ) :
    Traced (actions ++ [action]) (invocation.quit slot outcome) :=
  ⟨⟨hp, fun code he => absurd he (hf code)⟩, h.firstOutcome⟩

/-- So does an exception. -/
theorem rescue (h : Traced actions invocation) (slot : Fin 16) (action : Action σ) :
    Traced (actions ++ [action]) (invocation.rescue slot) := by
  unfold Invocation.rescue
  cases hfirst : invocation.firstOutcome with
  | none => exact h.quit id (by rintro _ ⟨⟩) slot action
  | some outcome =>
    obtain ⟨stop, hstop⟩ := h.firstOutcome outcome hfirst
    exact h.quit (Stop.not_positive hstop).1 (Stop.not_positive hstop).2 slot action

/-- What an observation adds to the trace is the outcome of a stop. -/
theorem rememberStop (h : Traced actions invocation) (result : TextExecutionResult)
    (outcome : ToolOutcome) (ho : (invocation.rememberStop result).firstOutcome = some outcome) :
    ∃ stop : Stop, stop.outcome = some outcome := by
  unfold Invocation.rememberStop at ho
  split at ho
  · exact ⟨_, ho⟩
  · exact h.firstOutcome outcome ho

variable [DecidableEq σ] {invocation' : Invocation σ} {custody custody' : Custody σ} {action : Action σ}

/-- **The next call fits the calls before it.** -/
theorem step (h : Traced actions invocation)
    (hstep : invocation.step custody action = some (custody', invocation')) :
    Traced (actions ++ [action]) invocation' := by
  have hreached := h.reached
  cases Invocation.step_cases hstep with
  | escape => exact ⟨trivial, h.firstOutcome⟩
  | decline _ ho | crowd _ _ ho => exact h.conclude ho.not_positive.1 ho.not_positive.2 _
  | refuse _ ho => exact h.quit ho.not_positive.1 ho.not_positive.2 _ _
  | interrupt => exact h.rescue _ _
  | proceed hphase =>
    rw [hphase] at hreached
    obtain rfl : actions = [] := hreached
    exact ⟨⟨_, _, rfl⟩, h.firstOutcome⟩
  | claim hphase _ =>
    rw [hphase] at hreached
    obtain ⟨view, cancelled, rfl⟩ := hreached
    exact ⟨⟨view, cancelled, _, rfl⟩, h.firstOutcome⟩
  | prepare hphase | store hphase =>
    rw [hphase] at hreached
    obtain ⟨view, cancelled, replies, rfl⟩ := hreached
    exact ⟨⟨view, cancelled, replies, rfl⟩, h.firstOutcome⟩
  | @run _ _ initial hphase =>
    rw [hphase] at hreached
    obtain ⟨view, cancelled, replies, rfl⟩ := hreached
    refine ⟨⟨view, cancelled, replies, [], rfl, ?_⟩, h.rememberStop initial⟩
    intro a ha
    cases ha
  | @observe _ session initial latest _ hphase hnext =>
    rw [hphase] at hreached
    have hbegun : Begun session initial (actions ++ [.observe (.ok latest)]) :=
      Begun.loop hreached trivial
    rcases hnext with rfl | rfl <;> exact ⟨hbegun, h.rememberStop latest⟩
  | @pause _ session initial delay _ hphase hnext =>
    rw [hphase] at hreached
    have hbegun : Begun session initial (actions ++ [.pause (.ok delay)]) :=
      Begun.loop hreached trivial
    rcases hnext with ⟨rfl, -⟩ | rfl <;> exact ⟨hbegun, h.firstOutcome⟩
  | @finish _ _ _ final hphase =>
    rw [hphase] at hreached
    exact ⟨⟨actions, hreached, rfl⟩, h.rememberStop final⟩
  -- the verdict rests on the two results and on the release, which are the last calls
  | @release _ session initial final reply _ released hphase hrelease =>
    rw [hphase] at hreached
    obtain ⟨before, hbegun, rfl⟩ := hreached
    refine ⟨⟨classify_not_positive _ _ _, fun code hcode => ?_⟩, h.firstOutcome⟩
    obtain ⟨hconclusive, hreleased⟩ := classify_eq_failed.mp hcode
    have hreply : reply = .ok .resourcesReleased := by
      by_contra hrefused
      rw [releaseSlot_refused hrefused] at hrelease
      cases (Prod.mk.inj hrelease).2.trans hreleased
    refine ⟨initial, final, ⟨session, before, hbegun, ?_⟩, hconclusive, rfl, rfl⟩
    rw [hreply, List.append_assoc]
    rfl
  | @leave _ _ reply hphase =>
    rw [hphase] at hreached
    exact ⟨⟨hreached.1, fun code hcode => ⟨actions, reply, rfl, hreached.2 code hcode⟩⟩,
      h.firstOutcome⟩

end Traced

variable [DecidableEq σ]

/-- What holds after every script. -/
theorem traced_of_foldlM {script : Script σ} {invocation : Invocation σ}
    (h : script.foldlM Invocation.follow {} = some invocation) :
    Traced (script.map Prod.snd) invocation := by
  refine (Steps.of_foldlM h).history
    (fun past invocation => Traced (past.map Prod.snd) invocation) ?_
    ⟨rfl, fun _ hnone => (nomatch hnone)⟩
  intro past s entry t hs hstep
  obtain ⟨⟨custody', t'⟩, hinner, rfl⟩ := Option.map_eq_some_iff.mp hstep
  rw [List.map_append]
  exact hs.step hinner

/-- What an invocation that has come back went through. -/
theorem executeText_reached {script : Script σ} {answer : Outcome TextResult}
    (h : executeText script = some answer) :
    (Phase.ended answer).Reached (script.map Prod.snd) := by
  obtain ⟨invocation, hfold, hanswer⟩ := Option.bind_eq_some_iff.mp h
  have hreached := (traced_of_foldlM hfold).reached
  unfold Phase.answer at hanswer
  split at hanswer
  · rename_i found hphase
    cases hanswer
    rw [hphase] at hreached
    exact hreached
  · exact nomatch hanswer

/-- **An exit code is answered on the evidence of a complete session.** -/
theorem executeText_failed {script : Script σ} {code : Int} {output errors : UString}
    (h : executeText script = some (.ok (.failed code, output, errors))) :
    Concluded script code output errors :=
  (executeText_reached h).2 code rfl

/-- No invocation answers with a positive outcome of its own. -/
theorem executeText_not_positive {script : Script σ} {outcome : ToolOutcome}
    {output errors : UString} (h : executeText script = some (.ok (outcome, output, errors))) :
    ¬ outcome.Positive :=
  (executeText_reached h).1

/-! ## The markers -/

/-- A line of the output says how many tests passed. -/
def Passing (output : UString) (count : Int) : Prop :=
  ∃ before space digits rest n, output = before ++ (space ++ (digits ++ (lit " passing" ++ rest))) ∧
    (before = [] ∨ before.getLast? = some 0x0A) ∧ space.all isWhiteSpace = true ∧ digits.all isDigit = true ∧
    (∃ d ∈ digits.head?, d ≠ 0x30) ∧ rest.head?.all isWhiteSpace = true ∧ parseNat digits = some n ∧
    n < 2 ^ 31 ∧ count = n

/-- What a positive outcome takes from a workload that left with `code`. -/
def Marked (command : QuintCommand) (code : Int) (output errors : UString) : ToolOutcome → Prop
  | .typechecked => code = 0 ∧ command = .typecheck
  | .testsPassed count => code = 0 ∧ (∃ pattern, command = .test pattern) ∧ Passing output count
  | .samplesPassed => code = 0 ∧ ∃ samples steps seed invariant, command = .run samples steps seed invariant ∧
      0 < samples ∧ 0 < steps ∧ lit "[ok] No violation found" <:+: output ∧
      lit "Trace length statistics:" <:+: output
  | .counterexample => code ≠ 0 ∧ lit "[violation]" <:+: output ∧ lit "Invariant violated" <:+: errors
  | _ => False

/-- What is captured stands between white space and ` passing`, begins with no zero, and is followed by
    white space or the end. -/
theorem passingAt_spec {text digits : UString} (h : Quint.passingAt text = some digits) :
    ∃ space rest, text = space ++ (digits ++ (lit " passing" ++ rest)) ∧
      space.all isWhiteSpace = true ∧
      digits.all isDigit = true ∧ (∃ d ∈ digits.head?, d ≠ 0x30) ∧
        rest.head?.all isWhiteSpace = true := by
  unfold Quint.passingAt at h
  dsimp only at h
  split at h
  · rename_i hmatch
    obtain ⟨hhead, ⟨rest, hrest⟩, hafter⟩ := hmatch
    cases h
    have hdrop : (lit " passing" ++ rest).drop (lit " passing").length = rest := List.drop_left
    rw [show (lit " passing").length = 8 by decide] at hdrop
    rw [← hrest, hdrop] at hafter
    refine ⟨text.takeWhile isWhiteSpace, rest, ?_, List.all_takeWhile,
      List.all_takeWhile, ?_, hafter⟩
    · rw [hrest, List.takeWhile_append_dropWhile, List.takeWhile_append_dropWhile]
    · obtain ⟨d, hd, hne⟩ := (Option.any_eq_true _ _).mp hhead
      exact ⟨d, hd, of_decide_eq_true hne⟩
  · exact nomatch h

/-- The line that the pattern finds begins where the text does, or after a line feed. -/
theorem matchPassing_spec {digits : UString} : ∀ {text : UString} {lineStart : Bool},
    Quint.matchPassing lineStart text = some digits →
      ∃ before line, text = before ++ line ∧ Quint.passingAt line = some digits ∧
        (before = [] ∧ lineStart = true ∨ before.getLast? = some 0x0A)
  | [], _, h => nomatch h
  | c :: rest, lineStart, h => by
    -- a match further on
    have hlater : Quint.matchPassing (c = 0x0A) rest = some digits →
      ∃ before line, c :: rest = before ++ line ∧
        Quint.passingAt line = some digits ∧
          (before = [] ∧ lineStart = true ∨ before.getLast? = some 0x0A) := by
      intro hrest
      obtain ⟨before, line, rfl, hline, hstart⟩ := matchPassing_spec hrest
      refine ⟨c :: before, line, rfl, hline, .inr ?_⟩
      rcases hstart with ⟨rfl, hc⟩ | hlast
      · rw [of_decide_eq_true hc]
        rfl
      · rw [List.getLast?_cons, hlast]
        rfl
    unfold Quint.matchPassing at h
    split at h
    · rename_i hstart
      cases hhere : Quint.passingAt (c :: rest) with
      | none =>
        rw [hhere, Option.none_or] at h
        exact hlater h
      | some found =>
        rw [hhere, Option.some_or] at h
        cases h
        exact ⟨[], c :: rest, rfl, hhere, .inl ⟨rfl, hstart⟩⟩
    · exact hlater h

/-- A parsed count is the number of the digits, and fits 32 bits. -/
theorem parseInt32_eq_ok {digits : UString} {count : Int}
    (h : Quint.parseInt32 digits = .ok count) :
    ∃ n, parseNat digits = some n ∧ n < 2 ^ 31 ∧ count = n := by
  unfold Quint.parseInt32 at h
  split at h
  · rename_i n hn
    split at h
    · rename_i hlt
      cases h
      exact ⟨n, hn, hlt, rfl⟩
    · exact nomatch h
  · exact nomatch h

/-- **A positive status is given on the marker of the command, and for nothing but an exit code.** -/
theorem statusOf_positive {command : QuintCommand} {result status : ToolOutcome}
    {output errors : UString} (h : Quint.statusOf command result output errors = .ok status)
    (hp : status.Positive) (hr : ¬ result.Positive) :
    ∃ code, result = .failed code ∧ Marked command code output errors status := by
  unfold Quint.statusOf at h
  split at h
  · rename_i code
    refine ⟨code, rfl, ?_⟩
    split at h
    -- with exit code zero each command has a marker of its own
    · rename_i hzero
      split at h
      · cases h
        exact ⟨hzero, rfl⟩
      · rename_i pattern
        split at h
        · rename_i digits hmatch
          cases hparse : Quint.parseInt32 digits with
          | error e =>
            rw [hparse] at h
            cases h
          | ok count =>
            rw [hparse] at h
            cases h
            obtain ⟨before, line, rfl, hline, hstart⟩ := matchPassing_spec hmatch
            obtain ⟨space, rest, rfl, hspace, hdigits, hhead, hrest⟩ := passingAt_spec hline
            obtain ⟨n, hn, hlt, rfl⟩ := parseInt32_eq_ok hparse
            exact ⟨hzero, ⟨pattern, rfl⟩, before, space, digits, rest, n, rfl,
              hstart.imp And.left id, hspace,
              hdigits, hhead, hrest, hn, hlt, rfl⟩
        · cases h
          exact hp.elim
      · rename_i samples steps seed invariant
        split at h
        · rename_i hmarks
          cases h
          obtain ⟨hsamples, hsteps, hok, hstatistics⟩ := hmarks
          exact ⟨hzero, samples, steps, seed, invariant, rfl, hsamples, hsteps,
            of_decide_eq_true hok,
            of_decide_eq_true hstatistics⟩
        · cases h
          exact hp.elim
    -- with another code only a counterexample is positive
    · rename_i hcode
      split at h
      · rename_i hmarks
        cases h
        exact ⟨hcode, of_decide_eq_true hmarks.1, of_decide_eq_true hmarks.2⟩
      · cases h
        exact hp.elim
  · cases h
    exact absurd hp hr

/-! ## The tool -/

/-- **The tool is the one that was asked for**: the file has the digest, and its version probe ended
    conclusively and printed the version. -/
def Established (world : World σ) (request : QuintRequest) (path : UString) : Prop :=
  (∃ digest, world.hash path = .ok digest ∧ request.sha256 = some (lowerHex digest)) ∧
    ∃ stdout stderr, Concluded (world.sessions (Quint.versionLaunch request path)) 0 stdout stderr ∧
      request.version = some (Quint.trim stdout)

/-- The evidence for a positive report. -/
def Evident (world : World σ) (request : QuintRequest) (report : ToolReport) : Prop :=
  ∃ path code, request.executable = some path ∧ Established world request path ∧
    (Quint.run world request).launched = [Quint.versionLaunch request path, Quint.workLaunch request path] ∧
    Concluded (world.sessions (Quint.workLaunch request path)) code report.standardOutput report.standardError ∧
    Marked request.command code report.standardOutput report.standardError report.outcome

/-- What the calls of a body amount to. -/
structure Accounted (world : World σ) (request : QuintRequest) (path : UString) (progress : Progress ToolReport) :
    Prop where
  /-- the workload is started when the tool is established -/
  launched : ∀ call ∈ progress.launched, call = Quint.versionLaunch request path ∨
    call = Quint.workLaunch request path ∧ Established world request path
  positive : ∀ report, progress.answer = some (.ok report) → report.outcome.Positive →
    Established world request path ∧
      progress.launched = [Quint.versionLaunch request path, Quint.workLaunch request path] ∧
      ∃ code, Concluded (world.sessions (Quint.workLaunch request path)) code report.standardOutput
        report.standardError ∧ Marked request.command code report.standardOutput report.standardError report.outcome

/-- An answer without a launch is accounted for when it is not positive. -/
theorem accounted_answer {world : World σ} {request : QuintRequest} {path : UString}
    {reply : Outcome ToolReport} (h : ∀ report, reply = .ok report → ¬ report.outcome.Positive) :
    Accounted world request path (Quint.answer reply) where
  launched _ hcall := nomatch hcall
  positive report hreply hp := absurd hp (h report (Option.some.inj hreply))

/-- The workload is one call. -/
theorem workload_launched (world : World σ) (request : QuintRequest) (path : UString) :
    (Quint.workload world request path).launched = [Quint.workLaunch request path] := by
  unfold Quint.workload Quint.execute
  split <;> rfl

/-- **A positive outcome of the workload is backed by its process.** -/
theorem workload_positive {world : World σ} {request : QuintRequest} {path : UString}
    {report : ToolReport} (h : (Quint.workload world request path).answer = some (.ok report))
    (hp : report.outcome.Positive) :
    ∃ code, Concluded (world.sessions (Quint.workLaunch request path)) code report.standardOutput
      report.standardError ∧ Marked request.command code report.standardOutput report.standardError
        report.outcome := by
  unfold Quint.workload Quint.execute at h
  split at h
  · exact nomatch h
  · exact nomatch h
  · rename_i result hresult
    obtain ⟨outcome, output, errors⟩ := result
    have hstatus := Option.some.inj h
    cases hs : Quint.statusOf request.command outcome output errors with
    | error e =>
      rw [hs] at hstatus
      exact nomatch hstatus
    | ok status =>
      rw [hs] at hstatus
      cases hstatus
      obtain ⟨code, rfl, hmarked⟩ := statusOf_positive hs hp (executeText_not_positive hresult)
      exact ⟨code, executeText_failed hresult, hmarked⟩

/-- The ways in which the body of `runInternal` can go. -/
inductive Attempted (world : World σ) (request : QuintRequest) (path : UString) : Progress ToolReport → Prop
  | unreadable {e : Exn} : Attempted world request path (Quint.answer (.error e))
  | otherFile : Attempted world request path (Quint.answer (.ok (Quint.report .identityMismatch [] [])))
  /-- the version probe has not come back -/
  | probing : executeText (world.sessions (Quint.versionLaunch request path)) = none →
      Attempted world request path ⟨[Quint.versionLaunch request path], none⟩
  | thrown {e : Exn} : executeText (world.sessions (Quint.versionLaunch request path)) = some (.error e) →
      Attempted world request path ⟨[Quint.versionLaunch request path], some (.error e)⟩
  | refused {version : ToolOutcome} {stdout stderr : UString} :
      executeText (world.sessions (Quint.versionLaunch request path)) = some (.ok (version, stdout, stderr)) →
      version ≠ .failed 0 →
      Attempted world request path
        ⟨[Quint.versionLaunch request path], some (.ok (Quint.report version stdout stderr))⟩
  | otherVersion {stdout stderr : UString} :
      executeText (world.sessions (Quint.versionLaunch request path)) = some (.ok (.failed 0, stdout, stderr)) →
      Attempted world request path
        ⟨[Quint.versionLaunch request path], some (.ok (Quint.report .identityMismatch stdout stderr))⟩
  | worked {digest : Vector UInt8 32} {stdout stderr : UString} :
      world.hash path = .ok digest → request.sha256 = some (lowerHex digest) →
      executeText (world.sessions (Quint.versionLaunch request path)) = some (.ok (.failed 0, stdout, stderr)) →
      request.version = some (Quint.trim stdout) →
      Attempted world request path ⟨[Quint.versionLaunch request path, Quint.workLaunch request path],
        (Quint.workload world request path).answer⟩

/-- **What the body does**: each later claim about it is by cases on this. -/
theorem attempt_cases (world : World σ) (request : QuintRequest) (path : UString) :
    Attempted world request path (Quint.attempt world request path) := by
  unfold Quint.attempt
  split
  · exact .unreadable
  · rename_i digest hhash
    split
    · exact .otherFile
    · rename_i hdigest
      unfold Quint.execute
      split
      · rename_i hprobe
        exact .probing hprobe
      · rename_i hprobe
        exact .thrown hprobe
      · rename_i result hprobe
        obtain ⟨version, stdout, stderr⟩ := result
        dsimp only
        split
        · rename_i hversion
          exact .refused hprobe hversion
        · rename_i hversion
          rw [not_not] at hversion
          subst hversion
          split
          · exact .otherVersion hprobe
          · rename_i htrim
            rw [workload_launched]
            exact .worked hhash (not_not.mp hdigest).symm hprobe (not_not.mp htrim).symm

/-- **So is one of the whole attempt**, whose first call must have printed the version. -/
theorem attempt_accounted (world : World σ) (request : QuintRequest) (path : UString) :
    Accounted world request path (Quint.attempt world request path) := by
  have hcases := attempt_cases world request path
  generalize Quint.attempt world request path = progress at hcases ⊢
  cases hcases with
  | unreadable => exact accounted_answer fun report h => by cases h
  | otherFile =>
    refine accounted_answer fun report h hp => ?_
    cases h
    exact hp
  | probing | thrown =>
    refine ⟨fun call hcall => .inl (List.mem_singleton.mp hcall), fun report h hp => ?_⟩
    cases h
  | refused hprobe =>
    refine ⟨fun call hcall => .inl (List.mem_singleton.mp hcall), fun report h hp => ?_⟩
    cases h
    exact absurd hp (executeText_not_positive hprobe)
  | otherVersion =>
    refine ⟨fun call hcall => .inl (List.mem_singleton.mp hcall), fun report h hp => ?_⟩
    cases h
    exact hp.elim
  | worked hhash hdigest hprobe htrim =>
    -- the tool is established
    have hest : Established world request path :=
      ⟨⟨_, hhash, hdigest⟩, _, _, executeText_failed hprobe, htrim⟩
    refine ⟨fun call hcall => ?_, fun report h hp => ⟨hest, rfl, workload_positive h hp⟩⟩
    rcases List.mem_cons.mp hcall with hversion | hwork
    · exact .inl hversion
    · exact .inr ⟨List.mem_singleton.mp hwork, hest⟩

/-- What a call of `run` or of `runInternal` comes to. -/
inductive Reports (world : World σ) (request : QuintRequest) (progress : Progress ToolReport) : Prop
  /-- the tool was started -/
  | started {path : UString} : request.executable = some path → Accounted world request path progress →
      (∀ reply, progress.answer = some reply → ∃ report, reply = .ok report) → Reports world request progress
  /-- the request was refused -/
  | refused {report : ToolReport} : progress = Quint.answer (.ok report) → ¬ report.outcome.Positive →
      Reports world request progress
  | nullPath : request.executable = none → progress = Quint.answer (.error Quint.nullPath) →
      Reports world request progress

/-- The handlers leave no exception. -/
theorem handled_ok (reply : Outcome ToolReport) : ∃ report, Quint.handled reply = .ok report := by
  cases reply with
  | ok report => exact ⟨report, rfl⟩
  | error e =>
    by_cases he : e.type = .operationCanceled
    · exact ⟨_, if_pos he⟩
    · exact ⟨_, if_neg he⟩

/-- The handlers make nothing positive. -/
theorem handled_positive {reply : Outcome ToolReport} {report : ToolReport}
    (h : Quint.handled reply = .ok report) (hp : report.outcome.Positive) : reply = .ok report := by
  cases reply with
  | ok found => exact h
  | error e =>
    by_cases he : e.type = .operationCanceled
    · cases (if_pos he).symm.trans h
      exact hp.elim
    · cases (if_neg he).symm.trans h
      exact hp.elim

/-- What `runInternal` answers is accounted for, or raised for null. -/
theorem runInternal_reports (world : World σ) (request : QuintRequest) :
    Reports world request (Quint.runInternal world request) := by
  unfold Quint.runInternal
  split
  · exact .refused rfl id
  · split
    · exact .refused rfl id
    · split
      · rename_i path hpath _
        have haccounted := attempt_accounted world request path
        refine .started hpath ⟨haccounted.launched, fun report h hp => ?_⟩ fun reply h => ?_
        · obtain ⟨reply, hreply, hhandled⟩ := Option.map_eq_some_iff.mp h
          rw [handled_positive hhandled hp] at hreply
          exact haccounted.positive report hreply hp
        · obtain ⟨inner, -, rfl⟩ := Option.map_eq_some_iff.mp h
          exact handled_ok inner
      · exact .refused rfl id
      -- the one exception that escapes is that of the path
      · rename_i e he
        cases hexecutable : request.executable with
        | none =>
          rw [hexecutable] at he
          cases he
          exact .nullPath hexecutable rfl
        | some path =>
          rw [hexecutable] at he
          exact nomatch he

/-- A timeout is as little positive as the cancellation that it was. -/
theorem retimed_positive {world : World σ} {report : ToolReport}
    (hp : (Quint.retimed world report).outcome.Positive) :
    Quint.retimed world report = report := by
  unfold Quint.retimed at hp ⊢
  split
  · rename_i hcancelled
    rw [if_pos hcancelled] at hp
    exact hp.elim
  · rfl

/-- And so is what `run` answers. -/
theorem run_reports (world : World σ) (request : QuintRequest) :
    Reports world request (Quint.run world request) := by
  unfold Quint.run
  split
  · exact .refused rfl id
  · split
    · exact .refused rfl id
    · split
      · exact .refused rfl id
      · cases runInternal_reports world request with
        | @started path hpath haccounted hok =>
          refine .started hpath ⟨haccounted.launched, fun report h hp => ?_⟩ fun reply h => ?_
          · obtain ⟨reply, hreply, hretimed⟩ := Option.map_eq_some_iff.mp h
            -- a report that is still positive was not retimed
            obtain ⟨inner, rfl⟩ := hok reply hreply
            cases hretimed
            have hsame := retimed_positive hp
            rw [hsame] at hp ⊢
            exact haccounted.positive inner hreply hp
          · obtain ⟨reply, hreply, rfl⟩ := Option.map_eq_some_iff.mp h
            obtain ⟨inner, rfl⟩ := hok reply hreply
            exact ⟨_, rfl⟩
        | @refused report h hp =>
          rw [h]
          have hsafe : ¬ (Quint.retimed world report).outcome.Positive := by
            intro hp'
            have hsame := retimed_positive hp'
            rw [hsame] at hp'
            exact hp hp'
          exact .refused rfl hsafe
        | nullPath hnull h =>
          rw [h]
          exact .nullPath hnull rfl

/-- What comes back is a report, unless the path is null, and a positive report has its evidence. -/
theorem run_reported (world : World σ) (request : QuintRequest) :
    (∀ reply, (Quint.run world request).answer = some reply →
      (∃ report, reply = .ok report ∧ (report.outcome.Positive → Evident world request report)) ∨
        request.executable = none ∧ reply = .error Quint.nullPath) ∧
      ∀ path, Quint.workLaunch request path ∈ (Quint.run world request).launched →
        request.executable = some path ∧ Established world request path := by
  have hreports := run_reports world request
  cases hreports with
  | @started path hpath haccounted hok =>
    constructor
    · intro reply hreply
      obtain ⟨report, rfl⟩ := hok reply hreply
      refine .inl ⟨report, rfl, fun hp => ?_⟩
      obtain ⟨hest, hlaunched, code, hconcluded, hmarked⟩ := haccounted.positive report hreply hp
      exact ⟨path, code, hpath, hest, hlaunched, hconcluded, hmarked⟩
    · intro path' hlaunch
      rcases haccounted.launched _ hlaunch with hversion | ⟨hwork, hest⟩
      -- the version probe has another ordinal than the workload
      · exact nomatch congrArg Launch.ordinal hversion
      · obtain rfl : path' = path := congrArg Launch.path hwork
        exact ⟨hpath, hest⟩
  | @refused report h hp =>
    rw [h]
    constructor
    · rintro reply hreply
      cases hreply
      exact .inl ⟨report, rfl, fun hp' => absurd hp' hp⟩
    · exact fun path hlaunch => nomatch hlaunch
  | nullPath hnull h =>
    rw [h]
    constructor
    · rintro reply hreply
      cases hreply
      exact .inr ⟨hnull, rfl⟩
    · exact fun path hlaunch => nomatch hlaunch

/-! ## The tool comes back, but for a null path -/

/-- **A null path that is looked at.**  Every check that comes before it has passed. -/
structure NullPathReached (world : World σ) (request : QuintRequest) : Prop where
  executable : request.executable = none
  linux : world.isLinux = true
  x64 : world.isX64 = true
  version : request.version = some (lit "0.32.0")
  positive : 0 < request.timeout
  limit : request.timeout ≤ 42949672940000
  maxOutput : 0 < request.maxOutputBytes
  budget : world.budget (request.timeout + 10000000) 10000000 = .ok ()

/-- `Path.IsPathFullyQualified` throws outside the `try`, and the task of `run` fails with it. -/
theorem NullPathReached.run {world : World σ} {request : QuintRequest} (h : NullPathReached world request) :
    Quint.run world request = Quint.answer (.error Quint.nullPath) := by
  have hinternal : Quint.runInternal world request = Quint.answer (.error Quint.nullPath) := by
    have hpositive := h.positive
    have hmaxOutput := h.maxOutput
    unfold Quint.runInternal
    rw [if_neg (by simp [h.linux, h.x64, h.version]), if_neg (by omega), h.executable]
    rfl
  have hpositive := h.positive
  have hlimit := h.limit
  unfold Quint.run
  rw [if_neg (by omega), if_neg (by omega), h.budget, hinternal]
  rfl

/-- No other request ends in an exception. -/
theorem nullPathReached_of_error {world : World σ} {request : QuintRequest} {e : Exn}
    (h : (Quint.run world request).answer = some (.error e)) : NullPathReached world request := by
  unfold Quint.run at h
  split at h
  · cases h
  · rename_i htimeout
    split at h
    · cases h
    · split at h
      · cases h
      · rename_i granted hbudget
        obtain ⟨reply, hreply, hretimed⟩ := Option.map_eq_some_iff.mp h
        obtain rfl : reply = .error e := by
          cases reply with
          | error found => exact hretimed
          | ok report => cases hretimed
        unfold Quint.runInternal at hreply
        split at hreply
        · cases hreply
        · rename_i hplatform
          split at hreply
          · cases hreply
          · rename_i hchild
            split at hreply
            · -- the handlers of the `try` make a report of everything
              obtain ⟨inner, -, hhandled⟩ := Option.map_eq_some_iff.mp hreply
              obtain ⟨report, hreport⟩ := handled_ok inner
              cases hreport.symm.trans hhandled
            · cases hreply
            · rename_i he
              simp only [Bool.or_eq_true, Bool.not_eq_true', not_or, Bool.not_eq_false, ne_eq,
                decide_eq_true_eq, not_not] at hplatform
              refine ⟨?_, hplatform.1.1, hplatform.1.2, hplatform.2, by omega, by omega, by omega, hbudget⟩
              cases hexecutable : request.executable with
              | none => rfl
              | some path =>
                rw [hexecutable] at he
                cases he

/-- **The tool answers** in every world whose sessions do. -/
theorem World.Responsive.run {world : World σ} (h : world.Responsive) (request : QuintRequest) :
    ∃ reply, (Quint.run world request).answer = some reply := by
  have hinternal : ∃ reply, (Quint.runInternal world request).answer = some reply := by
    unfold Quint.runInternal
    split
    · exact ⟨_, rfl⟩
    · split
      · exact ⟨_, rfl⟩
      · split
        · rename_i path _ _
          obtain ⟨reply, hreply⟩ := h.attempt request path
          exact ⟨Quint.handled reply, by simp only [hreply, Option.map_some]⟩
        · exact ⟨_, rfl⟩
        · exact ⟨_, rfl⟩
  obtain ⟨reply, hreply⟩ := hinternal
  unfold Quint.run
  split
  · exact ⟨_, rfl⟩
  · split
    · exact ⟨_, rfl⟩
    · split
      · exact ⟨_, rfl⟩
      · exact ⟨Except.map (Quint.retimed world) reply, by simp only [hreply, Option.map_some]⟩

/-- What is asked of the tool: it reports, and a positive outcome only on complete evidence; and the
    workload is started only on the tool that was asked for. -/
def Sound (world : World σ) (request : QuintRequest) : Prop :=
  (∃ report, (Quint.run world request).answer = some (.ok report) ∧
    (report.outcome.Positive → Evident world request report)) ∧
    ∀ path, Quint.workLaunch request path ∈ (Quint.run world request).launched →
      request.executable = some path ∧ Established world request path

/-- **No positive result without complete evidence, and a report in every other case**: exactly when
    no null path is looked at. -/
theorem run_evident (world : World σ) (request : QuintRequest) (h : world.Responsive) :
    Sound world request ↔ ¬ NullPathReached world request := by
  obtain ⟨hreported, hstarted⟩ := run_reported world request
  constructor
  · rintro ⟨⟨report, hreport, -⟩, -⟩ hnull
    rw [hnull.run] at hreport
    cases hreport
  · intro hnull
    refine ⟨?_, hstarted⟩
    obtain ⟨reply, hreply⟩ := h.run request
    rcases hreported reply hreply with ⟨report, rfl, hpositive⟩ | ⟨-, rfl⟩
    · exact ⟨report, hreply, hpositive⟩
    · exact absurd (nullPathReached_of_error hreply) hnull

/-! ## A tool that passes, and a null path -/

/-- A session that prints a text and leaves with zero, whatever the pool; its budget grants nothing. -/
def printing (text : UString) : Behaviour Nat where
  moment _ :=
    let result : TextExecutionResult := ⟨⟨.notRequested, .other, .known (.exited 0), .known .settled, none, []⟩,
      true, none, ⟨[text], 0, .known .eof⟩, ⟨[], 0, .known .eof⟩⟩
    { budget := .ok (.ok ⟨false⟩)
      cancelled := false
      claim := fun _ => .ok .releaseRefused
      prepare := .ok (.ok 7)
      run := .ok result
      observe := .ok result
      pause := .ok (.ok 0)
      release := .ok .resourcesReleased
      leave := .ok .releaseRefused }
  window := 0
  expires := by
    intro k ticks _ hpause
    cases hpause
    exact Int.le_refl 0

/-- A process that prints a text and ends with zero is reported so. -/
theorem executeText_printing (text : UString) :
    executeText (printing text).script = some (.ok (.failed 0, [text].flatten, [])) := by
  unfold executeText
  rfl

/-- Every call of the tool prints its version and leaves with zero. -/
def printingWorld : World Nat where
  isLinux := true
  isX64 := true
  budget _ _ := .ok ()
  hash _ := .ok (Vector.replicate 32 0)
  sessions _ := (printing "0.32.0").script
  callerCancelled := false
  workCancelled := false

/-- Every call of this world comes back. -/
theorem printingWorld_responsive : printingWorld.Responsive := fun _ => ⟨printing "0.32.0", rfl⟩

/-- A request whose digest is the one that this world gives to every file. -/
def typecheckRequest (executable : NString) : QuintRequest where
  executable := executable
  sha256 := some (lowerHex (Vector.replicate 32 0))
  version := "0.32.0"
  workingDirectory := "/"
  source := "/model.qnt"
  module := "model"
  command := .typecheck
  timeout := 10000000
  maxOutputBytes := 100

example : (Quint.run printingWorld (typecheckRequest "/quint")).answer =
    some (.ok ⟨.typechecked, "0.32.0", ""⟩) := by rfl

/-- The tool at `/quint` is looked at, and its typechecking is reported on complete evidence. -/
theorem run_evident_typechecked : ∃ report,
    (Quint.run printingWorld (typecheckRequest "/quint")).answer = some (.ok report) ∧
      report.outcome = .typechecked ∧ Evident printingWorld (typecheckRequest "/quint") report := by
  have hnot : ¬ NullPathReached printingWorld (typecheckRequest "/quint") := fun hnull => nomatch hnull.executable
  obtain ⟨⟨report, hreport, hpositive⟩, -⟩ :=
    (run_evident printingWorld (typecheckRequest "/quint") printingWorld_responsive).mpr hnot
  have hanswer : (Quint.run printingWorld (typecheckRequest "/quint")).answer =
    some (.ok ⟨.typechecked, "0.32.0", ""⟩) := rfl
  cases hanswer.symm.trans hreport
  exact ⟨_, hanswer, rfl, hpositive trivial⟩

/-- **A null path is not reported**: it is an exception of the task, although every session answers. -/
theorem run_null_path : printingWorld.Responsive ∧
    (Quint.run printingWorld (typecheckRequest none)).answer = some (.error Quint.nullPath) ∧
    (¬ ∃ report, (Quint.run printingWorld (typecheckRequest none)).answer = some (.ok report)) ∧
    ¬ Sound printingWorld (typecheckRequest none) := by
  have hanswer : (Quint.run printingWorld (typecheckRequest none)).answer =
    some (.error Quint.nullPath) := rfl
  have hnone : ¬ ∃ report, (Quint.run printingWorld (typecheckRequest none)).answer = some (.ok report) := by
    rintro ⟨report, hreport⟩
    exact nomatch hanswer.symm.trans hreport
  refine ⟨printingWorld_responsive, hanswer, hnone, ?_⟩
  rintro ⟨⟨report, hreport, -⟩, -⟩
  exact hnone ⟨report, hreport⟩

end FsQuint
