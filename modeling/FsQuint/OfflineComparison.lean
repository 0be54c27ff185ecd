/-
  The offline comparison reports the first difference.

  `compare` validates both of its inputs as a whole and then runs down the two lists.  Validation
  puts step `i` and observation `i` at the same index, so the run never sees two indices that
  differ, and it stops at the first position at which one list has ended or the pair disagrees
  (`FirstDifference`).  The induction is on the two lists; what it carries along is the position
  that the heads were validated at.

  What is compared are the canonical texts of states that validation has accepted, so that no
  encoding fails on the way and equality of texts is equality of what the states mean.  Each reason
  has a place in the order in which the code looks for it; the first one that applies is reported,
  and the identity of a step is one that never does.
-/
import FsQuint.TraceEncoding

set_option linter.unusedVariables false

namespace FsQuint

open Utf16 Collections ReplayInternal QuintReplay

variable {platform : Platform}

/-! ## Observations -/

variable (platform) in
/-- The observations that pass validation at a given position. -/
structure ValidObservation (ordinal : Nat) (observation : QuintReplayObservation) : Prop where
  index : observation.index = (ordinal : Int) + 1
  action : ValidName observation.action
  source : ValidSource observation.source
  actual : ValidState platform observation.actual

/-- **The observations**: validation comes back, and says nothing exactly when each is valid at its
    position. -/
theorem observationDiagnostics_spec :
    ∀ (ordinal : Nat) (observations : List QuintReplayObservation),
    ∃ found, observationDiagnostics platform ordinal observations = .ok found ∧
      (found = [] ↔ ∀ (i : Nat) (h : i < observations.length),
        ValidObservation platform (ordinal + i) observations[i])
  | _, [] => ⟨[], rfl, by simp⟩
  | ordinal, observation :: observations => by
    obtain ⟨state, hs, hstate⟩ := validateState_spec platform
      (indexed "$.observations" ordinal ++ lit ".actual") observation.actual
    obtain ⟨rest, hr, hrest⟩ := observationDiagnostics_spec (ordinal + 1) observations
    refine ⟨_, by rw [observationDiagnostics, hs, ok_bind, hr, ok_bind]; rfl, ?_⟩
    rw [List.append_eq_nil_iff, List.append_eq_nil_iff, List.append_eq_nil_iff, List.append_assoc,
      List.append_eq_nil_iff, validName_findings, validateSource_eq_nil, unless_eq_nil, hstate,
      hrest, not_not]
    rw [forall_from_cons_iff]
    constructor
    · rintro ⟨⟨⟨⟨hi, ha⟩, hsource⟩, hactual⟩, htail⟩
      exact ⟨⟨hi, ha, hsource, hactual⟩, htail⟩
    · rintro ⟨h, htail⟩
      exact ⟨⟨⟨⟨h.index, h.action⟩, h.source⟩, h.actual⟩, htail⟩

/-! ## Differences -/

variable (platform) in
/-- A step and an observation agree: in action, in source and in the encoding of their states. -/
structure Agrees (step : QuintReplayStep) (observation : QuintReplayObservation) : Prop where
  action : step.action = observation.action
  source : step.source = observation.source
  state : encodeState platform step.expected = encodeState platform observation.actual

/-- A step to which there is no observation. -/
def missingObservation (step : QuintReplayStep) : QuintReplayDivergence :=
  ⟨step.index, step.action, step.source, some step.expected, none, "missing-observation"⟩

/-- An observation to which there is no step. -/
def unexpectedObservation (observation : QuintReplayObservation) : QuintReplayDivergence :=
  ⟨observation.index, observation.action, observation.source, none, some observation.actual, "unexpected-observation"⟩

variable (platform) in
/-- Why a pair does not agree: the first of the three reasons that applies. -/
def Reason (step : QuintReplayStep) (observation : QuintReplayObservation) (reason : UString) : Prop :=
  (step.action ≠ observation.action ∧ reason = lit "action-identity") ∨
  (step.action = observation.action ∧ step.source ≠ observation.source ∧ reason = lit "source-binding") ∨
  (step.action = observation.action ∧ step.source = observation.source ∧
    encodeState platform step.expected ≠ encodeState platform observation.actual ∧ reason = lit "state")

variable (platform) in
/-- The difference at position `p`: one list has ended there, or the pair does not agree. -/
inductive DifferenceAt (steps : List QuintReplayStep) (observations : List QuintReplayObservation) (p : Nat) :
    QuintReplayDivergence → Prop
  | missing {step : QuintReplayStep} : steps[p]? = some step → observations[p]? = none →
      DifferenceAt steps observations p (missingObservation step)
  | unexpected {observation : QuintReplayObservation} : steps[p]? = none → observations[p]? = some observation →
      DifferenceAt steps observations p (unexpectedObservation observation)
  | pair {step : QuintReplayStep} {observation : QuintReplayObservation} {reason : UString} : steps[p]? = some step →
      observations[p]? = some observation → Reason platform step observation reason →
      DifferenceAt steps observations p (divergence step observation reason)

variable (platform) in
/-- The first difference of two lists, at position `p`: before it every pair agrees. -/
structure FirstDifference (steps : List QuintReplayStep) (observations : List QuintReplayObservation)
    (d : QuintReplayDivergence) (p : Nat) : Prop where
  before : ∀ i < p, ∃ step observation, steps[i]? = some step ∧ observations[i]? = some observation ∧
    Agrees platform step observation
  difference : DifferenceAt platform steps observations p d

/-- A difference at the first position is the first. -/
theorem firstDifference_zero {steps : List QuintReplayStep}
    {observations : List QuintReplayObservation} {d : QuintReplayDivergence}
    (h : DifferenceAt platform steps observations 0 d) :
    FirstDifference platform steps observations d 0 :=
  ⟨fun i hi => absurd hi (Nat.not_lt_zero i), h⟩

/-- A difference behind a pair that agrees. -/
theorem FirstDifference.cons {step : QuintReplayStep} {observation : QuintReplayObservation}
    {steps : List QuintReplayStep} {observations : List QuintReplayObservation}
    {d : QuintReplayDivergence} {p : Nat} (hagrees : Agrees platform step observation)
    (h : FirstDifference platform steps observations d p) :
    FirstDifference platform (step :: steps) (observation :: observations) d (p + 1) := by
  constructor
  · intro i hi
    cases i with
    | zero => exact ⟨step, observation, rfl, rfl, hagrees⟩
    | succ i => exact h.before i (by omega)
  · cases h.difference with
    | missing hs ho => exact .missing hs ho
    | unexpected hs ho => exact .unexpected hs ho
    | pair hs ho hr => exact .pair hs ho hr

/-- **On validated lists the run finds the first difference**, or there is none.  The heads of the lists
    were validated at position `k`. -/
theorem first_spec :
    ∀ {steps : List QuintReplayStep} {observations : List QuintReplayObservation} {k : Nat},
    (∀ (i : Nat) (h : i < steps.length), ValidStep platform (k + i) steps[i]) →
    (∀ (i : Nat) (h : i < observations.length), ValidObservation platform (k + i) observations[i]) →
    (first steps observations = .ok .equivalent ∧
      List.Forall₂ (Agrees platform) steps observations) ∨
      ∃ d, ∃ p : Nat, first steps observations = .ok (.diverged d) ∧ d.step = (k : Int) + p + 1 ∧
        FirstDifference platform steps observations d p
  | [], [], _, _, _ => .inl ⟨rfl, .nil⟩
  | step :: steps, [], k, hs, _ => by
    have hstep := (forall_from_cons_iff.mp hs).1
    refine .inr ⟨missingObservation step, 0, rfl, ?_, firstDifference_zero (.missing rfl rfl)⟩
    show step.index = _
    rw [hstep.index]
    omega
  | [], observation :: observations, k, _, ho => by
    have hobservation := (forall_from_cons_iff.mp ho).1
    refine .inr ⟨unexpectedObservation observation, 0, rfl, ?_,
      firstDifference_zero (.unexpected rfl rfl)⟩
    show observation.index = _
    rw [hobservation.index]
    omega
  | step :: steps, observation :: observations, k, hs, ho => by
    obtain ⟨hstep, hsteps⟩ := forall_from_cons_iff.mp hs
    obtain ⟨hobservation, hobservations⟩ := forall_from_cons_iff.mp ho
    have hindex : step.index = observation.index := hstep.index.trans hobservation.index.symm
    have hstate := encodeState_eq_iff hstep.expected hobservation.actual
    -- a pair that does not agree is reported at once
    have hreport : ∀ reason, Reason platform step observation reason →
        ∃ d, ∃ p : Nat, Except.ok (QuintReplayResult.diverged
          (divergence step observation reason)) =
          (Except.ok (.diverged d) : Outcome QuintReplayResult) ∧ d.step = (k : Int) + p + 1 ∧
            FirstDifference platform (step :: steps) (observation :: observations) d p := by
      intro reason hreason
      refine ⟨divergence step observation reason, 0, rfl, ?_,
        firstDifference_zero (.pair rfl rfl hreason)⟩
      show step.index = _
      rw [hstep.index]
      omega
    rw [first, encodeStateUnchecked_ok hstep.expected.content, ok_bind,
      encodeStateUnchecked_ok hobservation.actual.content, ok_bind, if_neg (not_not.mpr hindex)]
    by_cases haction : step.action = observation.action
    · rw [if_neg (not_not.mpr haction)]
      by_cases hsource : step.source = observation.source
      · rw [if_neg (not_not.mpr hsource)]
        by_cases htext : stateText step.expected = stateText observation.actual
        · -- the texts determine the identities of valid states
          have hidentity : step.expected.identity = observation.actual.identity := by
            rw [hstep.expected.identity, hobservation.actual.identity, htext]
          have hagrees : Agrees platform step observation :=
            ⟨haction, hsource, hstate.mpr htext.symm⟩
          rw [if_neg (by rw [not_or, not_not, not_not]; exact ⟨hidentity, htext⟩)]
          rcases first_spec hsteps hobservations with ⟨hfirst, hall⟩ |
            ⟨d, p, hfirst, hd, hdifference⟩
          · exact .inl ⟨hfirst, .cons hagrees hall⟩
          · refine .inr ⟨d, p + 1, hfirst, ?_, hdifference.cons hagrees⟩
            rw [hd]
            omega
        · rw [if_pos (.inr htext)]
          refine .inr (hreport "state" (.inr (.inr ⟨haction, hsource, fun h => htext ?_, rfl⟩)))
          exact (hstate.mp h).symm
      · rw [if_pos hsource]
        exact .inr (hreport "source-binding" (.inr (.inl ⟨haction, hsource, rfl⟩)))
    · rw [if_pos haction]
      exact .inr (hreport "action-identity" (.inl ⟨haction, rfl⟩))

/-- Lists that agree throughout have no difference. -/
theorem FirstDifference.not_all {steps : List QuintReplayStep}
    {observations : List QuintReplayObservation} {d : QuintReplayDivergence} {p : Nat}
    (h : FirstDifference platform steps observations d p) :
    ¬ List.Forall₂ (Agrees platform) steps observations := by
  intro hall
  have hlength := hall.length_eq
  cases h.difference with
  | missing hs ho =>
    rw [List.getElem?_eq_some_iff] at hs
    rw [List.getElem?_eq_none_iff] at ho
    obtain ⟨hlt, _⟩ := hs
    omega
  | unexpected hs ho =>
    rw [List.getElem?_eq_some_iff] at ho
    rw [List.getElem?_eq_none_iff] at hs
    obtain ⟨hlt, _⟩ := ho
    omega
  | pair hs ho hreason =>
    obtain ⟨hlt, rfl⟩ := List.getElem?_eq_some_iff.mp hs
    obtain ⟨hlt', rfl⟩ := List.getElem?_eq_some_iff.mp ho
    obtain ⟨haction, hsource, hstate⟩ := (List.forall₂_iff_get.mp hall).2 p hlt hlt'
    rcases hreason with ⟨hne, _⟩ | ⟨_, hne, _⟩ | ⟨_, _, hne, _⟩
    · exact hne haction
    · exact hne hsource
    · exact hne hstate

/-- The state is the reason exactly when it is all that the pair differs in. -/
theorem Reason.eq_state_iff {step : QuintReplayStep} {observation : QuintReplayObservation}
    {reason : UString} (h : Reason platform step observation reason) :
    reason = lit "state" ↔ step.action = observation.action ∧ step.source = observation.source ∧
      encodeState platform step.expected ≠ encodeState platform observation.actual := by
  rcases h with ⟨hne, rfl⟩ | ⟨_, hne, rfl⟩ | ⟨haction, hsource, hstate, rfl⟩
  · exact iff_of_false (by decide) fun h => hne h.1
  · exact iff_of_false (by decide) fun h => hne h.2.1
  · exact iff_of_true rfl ⟨haction, hsource, hstate⟩

/-- The reason `step-identity` is never given: both sides count their steps from one. -/
theorem DifferenceAt.reason_ne {steps : List QuintReplayStep}
    {observations : List QuintReplayObservation} {p : Nat} {d : QuintReplayDivergence}
    (h : DifferenceAt platform steps observations p d) :
    d.reason ≠ lit "step-identity" := by
  cases h with
  | missing hs ho => exact (by decide : lit "missing-observation" ≠ lit "step-identity")
  | unexpected hs ho => exact (by decide : lit "unexpected-observation" ≠ lit "step-identity")
  | pair hs ho hreason =>
    rcases hreason with ⟨_, rfl⟩ | ⟨_, _, rfl⟩ | ⟨_, _, _, rfl⟩
    · exact (by decide : lit "action-identity" ≠ lit "step-identity")
    · exact (by decide : lit "source-binding" ≠ lit "step-identity")
    · exact (by decide : lit "state" ≠ lit "step-identity")

/-- The state is the reason of a difference exactly when a pair differs in nothing else. -/
theorem DifferenceAt.reason_eq_state_iff {steps : List QuintReplayStep}
    {observations : List QuintReplayObservation} {p : Nat} {d : QuintReplayDivergence}
    (h : DifferenceAt platform steps observations p d) :
    d.reason = lit "state" ↔ ∃ step observation, steps[p]? = some step ∧
      observations[p]? = some observation ∧
      step.action = observation.action ∧ step.source = observation.source ∧
      encodeState platform step.expected ≠ encodeState platform observation.actual := by
  cases h with
  | missing hs ho =>
    refine iff_of_false (by decide : lit "missing-observation" ≠ lit "state") ?_
    rintro ⟨step, observation, _, hobservation, _⟩
    rw [ho] at hobservation
    cases hobservation
  | unexpected hs ho =>
    refine iff_of_false (by decide : lit "unexpected-observation" ≠ lit "state") ?_
    rintro ⟨step, observation, hstep, _⟩
    rw [hs] at hstep
    cases hstep
  | pair hs ho hreason =>
    rw [divergence, Reason.eq_state_iff hreason]
    constructor
    · intro hdiffers
      exact ⟨_, _, hs, ho, hdiffers⟩
    · rintro ⟨step, observation, hstep, hobservation, hdiffers⟩
      rw [hs] at hstep
      rw [ho] at hobservation
      rw [Option.some.inj hstep, Option.some.inj hobservation]
      exact hdiffers

section Compare

variable (platform) (trace : QuintReplayTrace) (observations : List QuintReplayObservation)

/-- The findings of a comparison are none exactly on valid inputs. -/
theorem findings_eq_nil_iff : ∃ traceFindings observationFindings,
    validateTrace platform trace = .ok traceFindings ∧
    observationDiagnostics platform 0 observations = .ok observationFindings ∧
    (sortDiagnostics (traceFindings ++ sortDiagnostics observationFindings) = [] ↔
      ValidTrace platform trace ∧
        ∀ (i : Nat) (h : i < observations.length),
          ValidObservation platform i observations[i]) := by
  obtain ⟨traceFindings, htrace, hvalid⟩ := validateTrace_spec platform trace
  obtain ⟨observationFindings, hobservations, hvalids⟩ :=
    @observationDiagnostics_spec platform 0 observations
  simp only [Nat.zero_add] at hvalids
  refine ⟨traceFindings, observationFindings, htrace, hobservations, ?_⟩
  rw [sortDiagnostics_eq_nil, List.append_eq_nil_iff, sortDiagnostics_eq_nil, hvalid, hvalids]

variable {platform trace observations}

/-- On valid inputs the comparison is the run down the lists. -/
theorem compare_of_valid (ht : ValidTrace platform trace)
    (ho : ∀ (i : Nat) (h : i < observations.length), ValidObservation platform i observations[i]) :
    QuintReplay.compare platform trace observations =
      (first trace.steps observations >>= fun answer => .ok (.ok answer)) := by
  obtain ⟨traceFindings, observationFindings, htrace, hobservations, hclean⟩ :=
    findings_eq_nil_iff platform trace observations
  rw [QuintReplay.compare, htrace, ok_bind, hobservations, ok_bind]
  simp only [hclean.mpr ⟨ht, ho⟩]
  rfl

/-- Other inputs are refused. -/
theorem compare_of_invalid (hbad : ¬ (ValidTrace platform trace ∧
      ∀ (i : Nat) (h : i < observations.length), ValidObservation platform i observations[i])) :
    ∃ found, QuintReplay.compare platform trace observations = .ok (.error found) := by
  obtain ⟨traceFindings, observationFindings, htrace, hobservations, hclean⟩ :=
    findings_eq_nil_iff platform trace observations
  rw [QuintReplay.compare, htrace, ok_bind, hobservations, ok_bind]
  cases hfound : sortDiagnostics (traceFindings ++ sortDiagnostics observationFindings) with
  | nil => exact absurd (hclean.mp hfound) hbad
  | cons finding findings => exact ⟨finding :: findings, rfl⟩

/-- **What the comparison of a valid trace with valid observations comes to**: they agree throughout, or
    the difference that is reported is the first. -/
theorem compare_cases (ht : ValidTrace platform trace)
    (ho : ∀ (i : Nat) (h : i < observations.length), ValidObservation platform i observations[i]) :
    (QuintReplay.compare platform trace observations = .ok (.ok .equivalent) ∧
      List.Forall₂ (Agrees platform) trace.steps observations) ∨
    ∃ d, ∃ p : Nat, QuintReplay.compare platform trace observations = .ok (.ok (.diverged d)) ∧
      d.step = (p : Int) + 1 ∧ FirstDifference platform trace.steps observations d p := by
  have hsteps : ∀ (i : Nat) (h : i < trace.steps.length),
      ValidStep platform (0 + i) trace.steps[i] := by
    simpa only [Nat.zero_add] using ht.steps
  rw [compare_of_valid ht ho]
  rcases first_spec hsteps (by simpa only [Nat.zero_add] using ho) with ⟨hfirst, hall⟩ |
    ⟨d, p, hfirst, hd, hdifference⟩
  · exact .inl ⟨by rw [hfirst, ok_bind], hall⟩
  · refine .inr ⟨d, p, by rw [hfirst, ok_bind], ?_, hdifference⟩
    rw [hd]
    omega

end Compare

/-- **The offline comparison returns the exact first difference.**  It refuses its inputs exactly when
    the trace or an observation is invalid; on valid inputs it finds the lists equivalent when they
    agree pair by pair, and reports their first difference otherwise. -/
theorem compare_firstDifference (platform : Platform) (trace : QuintReplayTrace)
    (observations : List QuintReplayObservation) :
    ((∃ found, QuintReplay.compare platform trace observations = .ok (.error found)) ↔
      validateTrace platform trace ≠ .ok [] ∨
        ∃ (i : Nat) (h : i < observations.length), ¬ ValidObservation platform i observations[i]) ∧
    (validateTrace platform trace = .ok [] →
      (∀ (i : Nat) (h : i < observations.length), ValidObservation platform i observations[i]) →
      (QuintReplay.compare platform trace observations = .ok (.ok .equivalent) ∧
        List.Forall₂ (Agrees platform) trace.steps observations) ∨
      (¬ List.Forall₂ (Agrees platform) trace.steps observations ∧
        ∃ d, ∃ p : Nat, QuintReplay.compare platform trace observations = .ok (.ok (.diverged d)) ∧
          d.step = (p : Int) + 1 ∧ FirstDifference platform trace.steps observations d p ∧
          d.reason ≠ lit "step-identity" ∧
          (d.reason = lit "state" ↔ ∃ step observation, trace.steps[p]? = some step ∧
            observations[p]? = some observation ∧ step.action = observation.action ∧
            step.source = observation.source ∧
            encodeState platform step.expected ≠ encodeState platform observation.actual))) := by
  constructor
  · rw [ne_eq, validateTrace_eq_nil_iff]
    constructor
    · rintro ⟨found, hfound⟩
      by_contra hno
      simp only [not_or, not_not, not_exists] at hno
      -- on valid inputs the comparison answers
      rcases compare_cases hno.1 hno.2 with ⟨hok, _⟩ | ⟨d, p, hok, _⟩
      · rw [hok] at hfound
        cases Except.ok.inj hfound
      · rw [hok] at hfound
        cases Except.ok.inj hfound
    · intro hbad
      refine compare_of_invalid ?_
      rintro ⟨ht, ho⟩
      rcases hbad with hbad | ⟨i, hi, hbad⟩
      · exact hbad ht
      · exact hbad (ho i hi)
  · intro ht ho
    rcases compare_cases ((validateTrace_eq_nil_iff platform).mp ht) ho with hequivalent |
      ⟨d, p, hok, hd, hdifference⟩
    · exact .inl hequivalent
    · exact .inr ⟨hdifference.not_all, d, p, hok, hd, hdifference, hdifference.difference.reason_ne,
        hdifference.difference.reason_eq_state_iff⟩

end FsQuint
