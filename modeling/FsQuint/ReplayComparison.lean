/-
  Live replay and offline comparison agree.

  Both look for the first step whose expected state differs from what was observed after it
  (`mismatch`).  A live replay finds it because with a driver that never fails the only event that
  can fail is a comparison; the offline comparison finds it because on valid states it compares the
  canonical texts.  On valid states these are one test: the texts agree when the encodings do, and
  then the identities agree too.

  A live replay that finds a difference ends there, while the offline comparison is given all the
  observations; what comes after the first mismatch makes no difference to it either.  The initial
  state is compared by the live replay alone, so a difference there is a case of its own.
-/
import FsQuint.ReplayContract
import FsQuint.OfflineComparison

set_option linter.unusedVariables false

namespace FsQuint.Replay

open Utf16 QuintReplay ReplayInternal Script

variable {ρ : Type}

/-- A driver that never fails, and whose observation after `k` applied steps is `observed k`. -/
structure Obliging (driver : ReplayDriver ρ) (observed : Nat → QuintReplayState) : Prop where
  initializes : ∀ history state token, ∃ value, driver.initializeRuntime history state token = .ok (.ok value)
  applies : ∀ history step value token, driver.apply history step value token = .ok (.ok ())
  observes : ∀ history value token, driver.observe history value token =
    .ok (.ok (observed (history.filterMap Event.appliedStep).length))

/-- The observations of some steps, of which the first comes after `applied` others. -/
def observationsFrom (observed : Nat → QuintReplayState) (applied : Nat) :
    List QuintReplayStep → List QuintReplayObservation
  | [] => []
  | step :: steps =>
    { index := (applied : Int) + 1, action := step.action, source := step.source,
      actual := observed (applied + 1) } :: observationsFrom observed (applied + 1) steps

/-- The first step whose expected state is not what was observed, with the state that was. -/
def mismatch (observed : Nat → QuintReplayState) (applied : Nat) :
    List QuintReplayStep → Option (QuintReplayStep × QuintReplayState)
  | [] => none
  | step :: steps =>
    if stateText step.expected = stateText (observed (applied + 1)) then mismatch observed (applied + 1) steps
    else some (step, observed (applied + 1))

variable {platform : Platform} {cancellation : Cancellation ρ} {driver : ReplayDriver ρ}
  {trace : QuintReplayTrace} {observed : Nat → QuintReplayState}

variable (platform observed) in
/-- Some valid steps, of which the first comes after `applied` others, with a valid observation of each. -/
def Recorded (applied : Nat) : List QuintReplayStep → Prop
  | [] => True
  | step :: steps => ValidStep platform applied step ∧ ValidState platform (observed (applied + 1)) ∧
    Recorded (applied + 1) steps

/-- Steps that are valid and observed validly, one after another. -/
theorem recorded_of_forall : ∀ {steps : List QuintReplayStep} {applied : Nat},
    (∀ (i : Nat) (h : i < steps.length), ValidStep platform (applied + i) steps[i]) →
      (∀ i < steps.length, ValidState platform (observed (applied + i + 1))) →
      Recorded platform observed applied steps
  | [], _, _, _ => trivial
  | step :: steps, applied, hsteps, hstates => by
    refine ⟨hsteps 0 (by simp), hstates 0 (by simp),
      recorded_of_forall (fun i hi => ?_) fun i hi => ?_⟩
    · have := hsteps (i + 1) (by simpa using hi)
      rwa [show applied + (i + 1) = applied + 1 + i by omega] at this
    · have := hstates (i + 1) (by simpa using hi)
      rwa [show applied + (i + 1) + 1 = applied + 1 + i + 1 by omega] at this

/-! ## Offline -/

/-- The observations made of them are valid at their positions. -/
theorem Recorded.observations : ∀ {steps : List QuintReplayStep} {applied : Nat},
    Recorded platform observed applied steps →
    ∀ (i : Nat) (h : i < (observationsFrom observed applied steps).length),
      ValidObservation platform (applied + i) (observationsFrom observed applied steps)[i]
  | [], _, _, i, h => absurd h (Nat.not_lt_zero i)
  | step :: steps, applied, ⟨hstep, hstate, _⟩, 0, _ => ⟨rfl, hstep.action, hstep.source, hstate⟩
  | step :: steps, applied, ⟨_, _, hrest⟩, i + 1, h => by
    have hvalid := Recorded.observations hrest i (Nat.lt_of_succ_lt_succ h)
    rwa [show applied + 1 + i = applied + (i + 1) by omega] at hvalid

/-- The divergence in the state after a step. -/
def stateDivergence (step : QuintReplayStep) (actual : QuintReplayState) : QuintReplayDivergence :=
  ⟨step.index, step.action, step.source, some step.expected, some actual, "state"⟩

/-- **The offline comparison finds the first mismatch.** -/
theorem first_eq :
    ∀ {steps : List QuintReplayStep} {applied : Nat}, Recorded platform observed applied steps →
    first steps (observationsFrom observed applied steps) = .ok
      (match mismatch observed applied steps with
      | none => .equivalent
      | some (step, actual) => .diverged (stateDivergence step actual))
  | [], _, _ => rfl
  | step :: steps, applied, ⟨hstep, hstate, hrest⟩ => by
    have hidentity : stateText step.expected = stateText (observed (applied + 1)) →
        step.expected.identity = (observed (applied + 1)).identity := by
      intro htext
      rw [hstep.expected.identity, hstate.identity, htext]
    rw [observationsFrom, first, encodeStateUnchecked_ok hstep.expected.content,
      encodeStateUnchecked_ok hstate.content, ok_bind, ok_bind, mismatch]
    simp only [hstep.index, ne_eq, not_true, if_false]
    by_cases htext : stateText step.expected = stateText (observed (applied + 1))
    · rw [if_pos htext, ← first_eq hrest]
      simp [htext, hidentity htext]
    · simp [htext]
      rfl

/-- The offline comparison reports the first mismatch. -/
theorem compare_eq (ht : validateTrace platform trace = .ok [])
    (hr : Recorded platform observed 0 trace.steps) :
    QuintReplay.compare platform trace (observationsFrom observed 0 trace.steps) = .ok (.ok
      (match mismatch observed 0 trace.steps with
      | none => .equivalent
      | some (step, actual) => .diverged (stateDivergence step actual))) := by
  have hobservations : ∀ (i : Nat) (h : i < (observationsFrom observed 0 trace.steps).length),
      ValidObservation platform i (observationsFrom observed 0 trace.steps)[i] := by
    simpa only [Nat.zero_add] using hr.observations
  rw [compare_of_valid ((validateTrace_eq_nil_iff platform).mp ht) hobservations, first_eq hr, ok_bind]

/-! ## Live -/

section Live

variable (hd : Obliging driver observed) (hc : ∀ history, cancellation.linked history = false)

include hc in
/-- No checkpoint fails where nothing is cancelled. -/
theorem checkpoint_passes {phase : UString} {index : Int} {history : History ρ} (e : Event ρ)
    (h : occurs platform cancellation driver trace (.checkpoint phase index) history e) :
    fails platform e = false := by
  obtain rfl := h
  exact hc history

include hd hc

/-- With a driver that never fails, only the comparison of an observation can. -/
theorem observing_events {history events : History ρ} {index : Int} {action : Option NString}
    {source : Option QuintReplaySourceBinding} {expected : QuintReplayState}
    (h : Follows (occurs platform cancellation driver trace) (fails platform) history
      (observing index action source expected) events) :
    ∃ before, events = before ++ [⟨"observe", index, .compared action source expected
        (observed (history.filterMap Event.appliedStep).length)⟩] ∧
      Clean (fails platform) before ∧ before.filterMap Event.appliedStep = [] := by
  obtain ⟨_, _, rfl, rfl, h⟩ := h.pass (checkpoint_passes hc)
  obtain ⟨_, _, rfl, ⟨value, -, rfl⟩, h⟩ := h.pass fun e he => by
    obtain ⟨value, -, rfl⟩ := he
    rw [hd.observes]
    rfl
  obtain ⟨_, _, rfl, rfl, h⟩ := h.pass (checkpoint_passes hc)
  have hcount : ((history ++ [(⟨"observe", index, .checked (cancellation.linked history)⟩ :
    Event ρ)]).filterMap
      Event.appliedStep).length = (history.filterMap Event.appliedStep).length := by
    rw [List.filterMap_append]
    exact congrArg List.length (List.append_nil _)
  rw [hd.observes, hcount] at h
  obtain ⟨_, rest, rfl, ⟨result, hresult, rfl⟩, h⟩ := h.pass fun e he => by
    obtain ⟨result, hresult, rfl⟩ := he
    simp only [latest_append_singleton, Event.observeAnswer, Option.some_or, Option.none_or,
      Option.some.injEq, Except.ok.injEq] at hresult
    rw [← hresult]
    rfl
  simp only [latest_append_singleton, Event.observeAnswer, Option.some_or, Option.none_or,
    Option.some.injEq, Except.ok.injEq] at hresult
  subst hresult
  -- the comparison is the last event of the observation, whether it fails or not
  obtain rfl : rest = [⟨"observe", index, .compared action source expected
      (observed (history.filterMap Event.appliedStep).length)⟩] := by
    obtain ⟨e, rfl, actual, hactual, rfl⟩ := h.singleton
    simp only [latest_append_singleton, Event.observeAnswer, Option.some_or, Option.none_or,
      Option.some.injEq, Except.ok.injEq] at hactual
    rw [hactual]
  rw [hd.observes, hcount]
  refine ⟨[_, _, _, _], rfl, ?_, rfl⟩
  intro e he
  simp only [List.mem_cons, List.not_mem_nil, or_false] at he
  rcases he with rfl | rfl | rfl | rfl
  · exact hc _
  · rfl
  · exact hc _
  · rfl

/-- A step is applied without a failure. -/
theorem applying_events {history events : History ρ} {before : Int} {step : QuintReplayStep}
    (h : Follows (occurs platform cancellation driver trace) (fails platform) history
      (applying before step) events) :
    Clean (fails platform) events ∧ events.filterMap Event.appliedStep = [step] := by
  obtain ⟨_, _, rfl, rfl, h⟩ := h.pass (checkpoint_passes hc)
  obtain ⟨_, _, rfl, ⟨value, -, rfl⟩, h⟩ := h.pass fun e he => by
    obtain ⟨value, -, rfl⟩ := he
    rw [hd.applies]
    rfl
  obtain ⟨_, _, rfl, rfl, h⟩ := h.pass (checkpoint_passes hc)
  rw [hd.applies] at h
  obtain ⟨_, _, rfl, ⟨result, hresult, rfl⟩, h⟩ := h.pass fun e he => by
    obtain ⟨result, hresult, rfl⟩ := he
    simp only [latest_append_singleton, Event.applyAnswer, Option.some_or, Option.none_or,
      Option.some.injEq, Except.ok.injEq] at hresult
    rw [← hresult]
    rfl
  simp only [latest_append_singleton, Event.applyAnswer, Option.some_or, Option.none_or,
    Option.some.injEq, Except.ok.injEq] at hresult
  subst hresult
  cases h
  refine ⟨?_, rfl⟩
  intro e he
  simp only [List.mem_cons, List.not_mem_nil, or_false] at he
  rcases he with rfl | rfl | rfl | rfl
  · exact hc _
  · rw [hd.applies]
    rfl
  · exact hc _
  · rfl

/-- And a run with a valid trace is opened without one. -/
theorem opening_events {events : History ρ} (ht : validateTrace platform trace = .ok [])
    (h : Follows (occurs platform cancellation driver trace) (fails platform) [] opening events) :
    Clean (fails platform) events ∧ events.filterMap Event.appliedStep = [] := by
  obtain ⟨_, _, rfl, ⟨found, hfound, rfl⟩, h⟩ := h.pass fun e he => by
    obtain ⟨found, hfound, rfl⟩ := he
    rw [ht] at hfound
    rw [← Except.ok.inj hfound]
    rfl
  obtain rfl : [] = found := Except.ok.inj (ht.symm.trans hfound)
  obtain ⟨_, _, rfl, rfl, h⟩ := h.pass fun e he => by
    obtain rfl := he
    exact hc _
  obtain ⟨value, hvalue⟩ := hd.initializes
    ([] ++ [⟨"validate", 0, .validated []⟩] ++ [⟨"validate", 0, .checked (cancellation.linked
      ([] ++ [⟨"validate", 0, .validated []⟩]))⟩]) trace.initial .linked
  obtain ⟨_, _, rfl, rfl, h⟩ := h.pass fun e he => by
    obtain rfl := he
    rw [hvalue]
    rfl
  rw [hvalue] at h
  obtain ⟨_, _, rfl, ⟨result, hresult, rfl⟩, h⟩ := h.pass fun e he => by
    obtain ⟨result, hresult, rfl⟩ := he
    simp only [latest_append_singleton, Event.initializeAnswer, Option.some_or, Option.none_or,
      Option.some.injEq, Except.ok.injEq] at hresult
    rw [← hresult]
    rfl
  simp only [latest_append_singleton, Event.initializeAnswer, Option.some_or, Option.none_or,
    Option.some.injEq, Except.ok.injEq] at hresult
  subst hresult
  cases h
  rw [hvalue]
  refine ⟨?_, rfl⟩
  intro e he
  simp only [List.mem_cons, List.not_mem_nil, or_false] at he
  rcases he with rfl | rfl | rfl | rfl
  · rfl
  · exact hc _
  · rfl
  · rfl

/-- An observation that is not the expected state is the first failure; else the run goes on. -/
theorem observing_append {history events : History ρ} {index : Int} {action : Option NString}
    {source : Option QuintReplaySourceBinding} {expected actual : QuintReplayState}
    {stages : List Stage}
    (hactual : observed (history.filterMap Event.appliedStep).length = actual)
    (he : ValidState platform expected) (ha : ValidState platform actual)
    (h : Follows (occurs platform cancellation driver trace) (fails platform)
      history (observing index action source expected ++ stages) events) :
    (stateText expected = stateText actual ∧ ∃ first second, events = first ++ second ∧
        Clean (fails platform) first ∧ first.filterMap Event.appliedStep = [] ∧
        Follows (occurs platform cancellation driver trace) (fails platform) (history ++ first)
          stages second) ∨
    (stateText expected ≠ stateText actual ∧
      events.find? (fails platform) =
        some ⟨"observe", index, .compared action source expected actual⟩ ∧
      events.filterMap Event.appliedStep = []) := by
  have hcompared : fails platform (⟨"observe", index, .compared action source expected actual⟩ :
    Event ρ) = false ↔
      stateText expected = stateText actual := by
    rw [fails_compared, Bool.not_eq_false', encodeAlike_iff he ha]
  rcases h.of_append with ⟨h, hdirty⟩ | ⟨first, second, rfl, hfirst, hclean, hsecond⟩
  · obtain ⟨before, rfl, hbefore, happlied⟩ := observing_events hd hc h
    rw [hactual] at hdirty ⊢
    have hne : stateText expected ≠ stateText actual := by
      intro htext
      refine hdirty (clean_append.mpr ⟨hbefore, clean_cons.mpr ⟨hcompared.mpr htext, clean_nil⟩⟩)
    refine .inr ⟨hne, find?_failure hbefore ?_ [], ?_⟩
    · rw [← Bool.not_eq_false, hcompared]
      exact hne
    · rw [List.filterMap_append, happlied]
      rfl
  · obtain ⟨before, rfl, hbefore, happlied⟩ := observing_events hd hc hfirst
    rw [hactual] at hclean hsecond ⊢
    have htext := hcompared.mp (clean_cons.mp (clean_append.mp hclean).2).1
    refine .inl ⟨htext, _, second, rfl, hclean, ?_, hsecond⟩
    rw [List.filterMap_append, happlied]
    rfl

/-- The first failure in the rounds is the comparison of the first mismatch. -/
theorem find?_rounds :
    ∀ {steps : List QuintReplayStep} {history events : History ρ} {before : Int} {applied : Nat},
    Recorded platform observed applied steps →
    (history.filterMap Event.appliedStep).length = applied →
      Follows (occurs platform cancellation driver trace) (fails platform)
        history (rounds before steps) events →
      events.find? (fails platform) = (mismatch observed applied steps).map fun m =>
        ⟨"observe", m.1.index, .compared (some m.1.action) (some m.1.source) m.1.expected m.2⟩
  | [], _, _, _, _, _, _, h => by
    cases h
    rfl
  | step :: steps, history, events, before, applied, ⟨hstep, hstate, hrest⟩, hcount, h => by
    rw [rounds, List.append_assoc] at h
    rcases h.of_append with ⟨h, hdirty⟩ | ⟨first, events, rfl, hfirst, hclean, h⟩
    · exact absurd (applying_events hd hc h).1 hdirty
    have happlied := (applying_events hd hc hfirst).2
    have hcount' : ((history ++ first).filterMap Event.appliedStep).length = applied + 1 := by
      rw [List.filterMap_append, List.length_append, happlied, hcount]
      rfl
    rw [List.find?_append, find?_of_clean hclean, Option.none_or, mismatch]
    rcases observing_append hd hc (congrArg observed hcount') hstep.expected hstate h with
      ⟨htext, second, third, rfl, hclean, happlied, h⟩ | ⟨hne, hfind, -⟩
    · rw [if_pos htext, List.find?_append, find?_of_clean hclean, Option.none_or]
      refine find?_rounds hrest ?_ h
      rw [List.filterMap_append, List.length_append, hcount', happlied]
      rfl
    · rw [if_neg hne, hfind]
      rfl

end Live

/-! ## The agreement -/

/-- Both sides of the first mismatch are valid. -/
theorem mismatch_valid : ∀ {steps : List QuintReplayStep} {applied : Nat} {step : QuintReplayStep}
    {actual : QuintReplayState}, Recorded platform observed applied steps →
      mismatch observed applied steps = some (step, actual) →
      ValidState platform step.expected ∧ ValidState platform actual
  | first :: steps, applied, step, actual, ⟨hstep, hstate, hrest⟩, h => by
    rw [mismatch] at h
    split at h
    · exact mismatch_valid hrest h
    · obtain ⟨rfl, rfl⟩ := Prod.mk.inj (Option.some.inj h)
      exact ⟨hstep.expected, hstate⟩

/-- A comparison of valid states that is the first failure is reported as a divergence. -/
theorem verdict_compared (cancellation : Cancellation ρ) {events : History ρ} {index : Int}
    {action : Option NString} {source : Option QuintReplaySourceBinding}
    {expected actual : QuintReplayState} (he : ValidState platform expected)
    (ha : ValidState platform actual)
    (h : events.find? (fails platform) =
      some ⟨"observe", index, .compared action source expected actual⟩) :
    ∃ path, verdict platform cancellation events = .diverged index action source path
      expected actual := by
  obtain ⟨path, hpath⟩ := differingPath_ok he ha
  refine ⟨path, ?_⟩
  simp only [verdict, h, decides, differs, (encodeState_eq_ok_iff platform).mpr ⟨ha, rfl⟩, hpath]

/-- Where the first failure of a run is the comparison at the first mismatch, the verdict on the run is
    what the offline comparison reports. -/
theorem verdict_agrees (cancellation : Cancellation ρ) {events : History ρ}
    (ht : validateTrace platform trace = .ok []) (hr : Recorded platform observed 0 trace.steps)
    (hfind : events.find? (fails platform) = (mismatch observed 0 trace.steps).map fun m =>
      ⟨"observe", m.1.index, .compared (some m.1.action) (some m.1.source) m.1.expected m.2⟩) :
    (verdict platform cancellation events = .equivalent ↔
      QuintReplay.compare platform trace (observationsFrom observed 0 trace.steps) =
        .ok (.ok .equivalent)) ∧
    ∀ step action source expected actual,
      (∃ path, verdict platform cancellation events =
        .diverged step (some action) (some source) path expected actual) ↔
      QuintReplay.compare platform trace (observationsFrom observed 0 trace.steps) =
        .ok (.ok (.diverged ⟨step, action, source, some expected, some actual, "state"⟩)) := by
  rw [compare_eq ht hr]
  cases hm : mismatch observed 0 trace.steps with
  | none =>
    rw [hm] at hfind
    have hverdict : verdict platform cancellation events = .equivalent := by
      rw [verdict, hfind]
      rfl
    rw [hverdict]
    refine ⟨⟨fun _ => rfl, fun _ => rfl⟩, fun step action source expected actual => ?_⟩
    simp
  | some m =>
    obtain ⟨step, actual⟩ := m
    obtain ⟨he, ha⟩ := mismatch_valid hr hm
    rw [hm] at hfind
    obtain ⟨path, hpath⟩ := verdict_compared cancellation he ha hfind
    rw [hpath]
    refine ⟨iff_of_false (by simp) (by simp), fun step' action source expected actual' => ?_⟩
    simp only [stateDivergence, ReplayOutcome.diverged.injEq, Option.some.injEq, Except.ok.injEq,
      QuintReplayResult.diverged.injEq, QuintReplayDivergence.mk.injEq]
    constructor
    · rintro ⟨_, h₁, h₂, h₃, -, h₄, h₅⟩
      exact ⟨h₁, h₂, h₃, h₄, h₅, trivial⟩
    · rintro ⟨h₁, h₂, h₃, h₄, h₅, -⟩
      exact ⟨path, h₁, h₂, h₃, rfl, h₄, h₅⟩

/-- **Live replay and offline comparison agree.**  For a valid trace, a driver that never fails and
    whose observations are valid states, and no cancellation: a replay diverges at the start when the
    initial observation differs, and otherwise reports what the offline comparison of the same
    observations reports. -/
theorem run_compare (platform : Platform) (cancellation : Cancellation ρ) (driver : ReplayDriver ρ)
    (observed : Nat → QuintReplayState) (timeout : Int) (trace : QuintReplayTrace) (h : Admissible timeout)
    (ht : validateTrace platform trace = .ok [])
    (ho : ∀ k ≤ trace.steps.length, ∃ text, encodeState platform (observed k) = .ok (.ok text))
    (hd : Obliging driver observed) (hc : ∀ history, cancellation.linked history = false) :
    ∃ report, run platform cancellation driver timeout trace = .ok report ∧
      (encodeState platform (observed 0) ≠ encodeState platform trace.initial →
        (∃ path, report.outcome = .diverged 0 none none path trace.initial (observed 0)) ∧
          report.appliedSteps = 0) ∧
      (encodeState platform (observed 0) = encodeState platform trace.initial →
        (report.outcome = .equivalent ↔ QuintReplay.compare platform trace
          (observationsFrom observed 0 trace.steps) = .ok (.ok .equivalent)) ∧
        ∀ step action source expected actual,
          (∃ path, report.outcome = .diverged step (some action) (some source) path expected actual) ↔
            QuintReplay.compare platform trace (observationsFrom observed 0 trace.steps) =
              .ok (.ok (.diverged ⟨step, action, source, some expected, some actual, "state"⟩))) := by
  have hv := (validateTrace_eq_nil_iff platform).mp ht
  have hvalid : ∀ k ≤ trace.steps.length, ValidState platform (observed k) := by
    intro k hk
    obtain ⟨text, htext⟩ := ho k hk
    exact ((encodeState_eq_ok_iff platform).mp htext).1
  have hrecorded : Recorded platform observed 0 trace.steps := by
    refine recorded_of_forall (fun i hi => ?_) fun i hi => hvalid (0 + i + 1) (by omega)
    rw [Nat.zero_add]
    exact hv.steps i hi
  obtain ⟨hfollows, htied, hverdict⟩ := @guarded_follows ρ platform cancellation driver trace
  obtain ⟨-, houtcome, happlied, -⟩ :=
    cleanup_spec driver (guarded platform cancellation driver trace)
  refine ⟨_, run_admissible h, ?_⟩
  simp only [final, houtcome, happlied, hverdict, htied.applied, ne_eq,
    encodeState_eq_iff (hvalid 0 (Nat.zero_le _)) hv.initial]
  generalize (guarded platform cancellation driver trace).log = events at hfollows
  rw [script, List.append_assoc] at hfollows
  -- nothing fails before the initial observation
  rcases hfollows.of_append with ⟨hopening, hdirty⟩ |
    ⟨opened, rest, rfl, hopening, hclean, hfollows⟩
  · exact absurd (opening_events hd hc ht hopening).1 hdirty
  have hcount : (([] ++ opened).filterMap Event.appliedStep).length = 0 := by
    rw [List.nil_append, (opening_events hd hc ht hopening).2]
    rfl
  -- the initial observation, from which the run goes on or at which it ends
  rcases observing_append hd hc (congrArg observed hcount) hv.initial
    (hvalid 0 (Nat.zero_le _)) hfollows with
    ⟨htext, first, second, rfl, hcfirst, hafirst, hrounds⟩ | ⟨hne, hfind, hazero⟩
  · refine ⟨fun hne => absurd htext hne, fun _ => ?_⟩
    have hfind : (opened ++ (first ++ second)).find? (fails platform) =
        (mismatch observed 0 trace.steps).map fun m =>
          ⟨"observe", m.1.index, .compared (some m.1.action) (some m.1.source)
          m.1.expected m.2⟩ := by
      rw [List.find?_append, find?_of_clean hclean, Option.none_or, List.find?_append,
        find?_of_clean hcfirst, Option.none_or]
      refine find?_rounds hd hc hrecorded ?_ hrounds
      rw [List.filterMap_append, List.length_append, hcount, hafirst]
      rfl
    exact verdict_agrees cancellation ht hrecorded hfind
  · refine ⟨fun _ => ⟨?_, ?_⟩, fun htext => absurd htext hne⟩
    · refine verdict_compared cancellation hv.initial (hvalid 0 (Nat.zero_le _)) ?_
      rw [List.find?_append, find?_of_clean hclean, Option.none_or, hfind]
    · rw [List.filterMap_append, (opening_events hd hc ht hopening).2, hazero]
      rfl

/-- The steady driver answers every call. -/
theorem obliging_steadyDriver (observed : Nat → QuintReplayState) :
    Obliging (steadyDriver observed) observed where
  initializes := fun _ _ _ => ⟨(), rfl⟩
  applies := fun _ _ _ _ => rfl
  observes := fun _ _ _ => rfl

/-- A run of one step against an implementation that stays where it is. -/
theorem run_compare_sample :
    ∃ report, run samplePlatform neverCancelled (steadyDriver sampleObserved) 10000 (sampleTrace (.boolean true)) =
        .ok report ∧
      (encodeState samplePlatform (sampleObserved 0) ≠
          encodeState samplePlatform (sampleTrace (.boolean true)).initial →
        (∃ path, report.outcome =
          .diverged 0 none none path (sampleTrace (.boolean true)).initial (sampleObserved 0)) ∧
          report.appliedSteps = 0) ∧
      (encodeState samplePlatform (sampleObserved 0) =
          encodeState samplePlatform (sampleTrace (.boolean true)).initial →
        (report.outcome = .equivalent ↔ QuintReplay.compare samplePlatform (sampleTrace (.boolean true))
          (observationsFrom sampleObserved 0 (sampleTrace (.boolean true)).steps) = .ok (.ok .equivalent)) ∧
        ∀ step action source expected actual,
          (∃ path, report.outcome = .diverged step (some action) (some source) path expected actual) ↔
            QuintReplay.compare samplePlatform (sampleTrace (.boolean true))
                (observationsFrom sampleObserved 0 (sampleTrace (.boolean true)).steps) =
              .ok (.ok (.diverged ⟨step, action, source, some expected, some actual, "state"⟩))) :=
  run_compare samplePlatform neverCancelled (steadyDriver sampleObserved) sampleObserved 10000
    (sampleTrace (.boolean true)) (by decide) (validateTrace_sampleTrace trivial)
    (fun k _ => ⟨_, (encodeState_eq_ok_iff samplePlatform).mpr
    ⟨validState_sampleState trivial, rfl⟩⟩)
    (obliging_steadyDriver sampleObserved) (fun _ => rfl)

end FsQuint.Replay
