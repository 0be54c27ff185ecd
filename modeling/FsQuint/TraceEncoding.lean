/-
  What the trace encoders write, and what trace validation accepts.

  The encoders of sources, environments, steps and traces concatenate literals, escaped strings and
  the encodings of states.  What they write is the compact text of a JSON tree (`traceTree`), whose
  objects keep the order in which the encoder names their members.  They come back whenever no
  string is null and every state can be encoded (`Encodable`), which is less than validation asks
  for.

  Validation of a trace finds nothing exactly when every part of it is valid and its identity is
  the fingerprint of that text (`validateTrace_spec`).
-/
import FsQuint.Validation

set_option linter.unusedVariables false

namespace FsQuint

open Utf16 Collections Decimal Json Unordered ReplayInternal QuintReplay

/-! ## The trees of the encoders -/

/-- The tree of a source binding. -/
def sourceTree (source : QuintReplaySourceBinding) : JsonElement :=
  .object [(lit "path", .string (printed source.path)), (lit "line", .number (decimal source.line)),
    (lit "column", .number (decimal source.column))]

/-- The tree of some bounds, in the order of their names. -/
def boundsTree (bounds : List (NString × Int)) : JsonElement :=
  .object (sortOn ordinal Prod.fst (bounds.map fun b => (printed b.1, .number (decimal b.2))))

/-- The tree of an environment. -/
def environmentTree (environment : QuintReplayEnvironment) : JsonElement :=
  .object [(lit "seed", .string (printed environment.seed)), (lit "bounds", boundsTree environment.bounds),
    (lit "toolFingerprint", .string (printed environment.toolFingerprint)),
    (lit "profileFingerprint", .string (printed environment.profileFingerprint)),
    (lit "contractFingerprint", .string (printed environment.contractFingerprint)),
    (lit "adapterFingerprint", .string (printed environment.adapterFingerprint)),
    (lit "implementationFingerprint", .string (printed environment.implementationFingerprint))]

/-- The tree of a state: that of the Record of its bindings.  The claimed identity is no part of it. -/
def stateTree (state : QuintReplayState) : JsonElement := tree jsonQuoting (doc (.record state.bindings))

/-- The tree of a step. -/
def stepTree (step : QuintReplayStep) : JsonElement :=
  .object [(lit "index", .number (decimal step.index)), (lit "action", .string (printed step.action)),
    (lit "source", sourceTree step.source), (lit "expected", stateTree step.expected)]

/-- The tree of a trace, without its identity. -/
def traceTree (trace : QuintReplayTrace) : JsonElement :=
  .object [(lit "schemaVersion", .number (decimal trace.schemaVersion)),
    (lit "environment", environmentTree trace.environment), (lit "initial", stateTree trace.initial),
    (lit "steps", .array (trace.steps.map stepTree))]

/-- The canonical text of a trace. -/
def traceText (trace : QuintReplayTrace) : UString := write jsonQuoting (traceTree trace)

/-- The text of an object, member by member. -/
theorem write_object (members : List (UString × JsonElement)) :
    write jsonQuoting (.object members) =
      0x7B :: (concat [0x2C] (members.map fun m => literal m.1 ++ 0x3A :: write jsonQuoting m.2) ++
        [0x7D]) := by
  rw [write, writeMembers_eq_map]
  rfl

/-- How an array is written. -/
theorem write_array (items : List JsonElement) :
    write jsonQuoting (.array items) = 0x5B ::
      (concat [0x2C] (items.map (write jsonQuoting)) ++ [0x5D]) := by
  rw [write, writeItems_eq_map]

/-- A string is written as its literal. -/
theorem write_string (s : UString) : write jsonQuoting (.string s) = literal s := rfl

/-- And a number as it stands. -/
theorem write_number (raw : UString) : write jsonQuoting (.number raw) = raw := rfl

/-- The text of a state is that of its tree. -/
theorem write_stateTree (state : QuintReplayState) :
    write jsonQuoting (stateTree state) = stateText state := rfl

/-! ## The encoders come back -/

/-- A source binding with a path is written as its tree. -/
theorem encodeSource_ok {source : QuintReplaySourceBinding} (h : source.path ≠ none) :
    encodeSource source = .ok (write jsonQuoting (sourceTree source)) := by
  rw [encodeSource, escapeJson_ok h, ok_bind, sourceTree, write_object]
  simp only [List.map_cons, List.map_nil, concat, write_string, write_number, List.append_assoc,
    List.cons_append, List.nil_append]
  rfl

/-- Bounds with names are written in the order of their printed names. -/
theorem encodeBounds_ok {bounds : List (NString × Int)} (h : ∀ b ∈ bounds, b.1 ≠ none) :
    (sortOn ordinal.nullFirst Prod.fst bounds).mapM (fun b : NString × Int =>
        (do return (← Primitives.escapeJson b.1) ++ 0x3A :: decimal b.2 : Outcome UString)) =
      .ok ((sortOn ordinal Prod.fst (bounds.map fun b =>
        (printed b.1, JsonElement.number (decimal b.2)))).map
        fun m => literal m.1 ++ 0x3A :: write jsonQuoting m.2) := by
  rw [← sortOn_names h fun n => JsonElement.number (decimal n), List.map_map]
  refine mapM_ok fun b hb => ?_
  rw [escapeJson_ok (h b (mem_sortOn.mp hb)), ok_bind]
  rfl

/-- The environments none of whose strings is null. -/
structure EncodableEnvironment (environment : QuintReplayEnvironment) : Prop where
  seed : environment.seed ≠ none
  bounds : ∀ b ∈ environment.bounds, b.1 ≠ none
  toolFingerprint : environment.toolFingerprint ≠ none
  profileFingerprint : environment.profileFingerprint ≠ none
  contractFingerprint : environment.contractFingerprint ≠ none
  adapterFingerprint : environment.adapterFingerprint ≠ none
  implementationFingerprint : environment.implementationFingerprint ≠ none

/-- An environment without null strings is written as its tree. -/
theorem encodeEnvironment_ok {environment : QuintReplayEnvironment}
    (h : EncodableEnvironment environment) :
    encodeEnvironment environment = .ok (write jsonQuoting (environmentTree environment)) := by
  have hb := encodeBounds_ok h.bounds
  rw [encodeEnvironment]
  simp only [hb, escapeJson_ok h.seed, escapeJson_ok h.toolFingerprint,
    escapeJson_ok h.profileFingerprint, escapeJson_ok h.contractFingerprint,
    escapeJson_ok h.adapterFingerprint, escapeJson_ok h.implementationFingerprint, ok_bind]
  rw [environmentTree, write_object]
  simp only [List.map_cons, List.map_nil, concat, boundsTree, write_object, write_string,
    List.append_assoc, List.cons_append, List.nil_append]
  rfl

/-- The steps that have no null string and a state that can be encoded. -/
structure EncodableStep (step : QuintReplayStep) : Prop where
  action : step.action ≠ none
  source : step.source.path ≠ none
  expected : ValidContent step.expected

/-- And so is a step whose strings are not null and whose state is valid. -/
theorem encodeStep_ok {step : QuintReplayStep} (h : EncodableStep step) :
    encodeStep step = .ok (write jsonQuoting (stepTree step)) := by
  rw [encodeStep, escapeJson_ok h.action, ok_bind, encodeSource_ok h.source, ok_bind,
    encodeStateUnchecked_ok h.expected, ok_bind, stepTree, write_object]
  simp only [List.map_cons, List.map_nil, concat, write_stateTree, write_string, write_number,
    List.append_assoc, List.cons_append, List.nil_append]
  rfl

/-- The traces that the unchecked encoder can encode. -/
structure Encodable (trace : QuintReplayTrace) : Prop where
  environment : EncodableEnvironment trace.environment
  initial : ValidContent trace.initial
  steps : ∀ step ∈ trace.steps, EncodableStep step

/-- **On an encodable trace the unchecked encoder comes back, with the canonical text.** -/
theorem encodeTraceUnchecked_ok {trace : QuintReplayTrace} (h : Encodable trace) :
    encodeTraceUnchecked trace = .ok (traceText trace) := by
  have hsteps : trace.steps.mapM encodeStep =
      .ok (trace.steps.map fun s => write jsonQuoting (stepTree s)) :=
    mapM_ok fun step hs => encodeStep_ok (h.steps step hs)
  rw [encodeTraceUnchecked, hsteps, ok_bind, encodeEnvironment_ok h.environment, ok_bind,
    encodeStateUnchecked_ok h.initial, ok_bind, traceText, traceTree, write_object]
  simp only [List.map_cons, List.map_nil, concat, write_stateTree, write_array, List.map_map,
    write_number, List.append_assoc, List.cons_append, List.nil_append]
  rfl

/-! ## The traces that pass validation -/

/-- What validation asks of an environment. -/
structure ValidEnvironment (environment : QuintReplayEnvironment) : Prop where
  seed : ValidName environment.seed
  bounds : ValidNames (environment.bounds.map Prod.fst)
  nonnegative : ∀ b ∈ environment.bounds, 0 ≤ b.2
  toolFingerprint : isLowerSha256 environment.toolFingerprint = true
  profileFingerprint : isLowerSha256 environment.profileFingerprint = true
  contractFingerprint : isLowerSha256 environment.contractFingerprint = true
  adapterFingerprint : isLowerSha256 environment.adapterFingerprint = true
  implementationFingerprint : isLowerSha256 environment.implementationFingerprint = true

/-- Nothing is said about the bounds exactly when their names are valid and none is negative. -/
theorem boundsDiagnostics_eq_nil {bounds : List (NString × Int)} :
    boundsDiagnostics bounds = [] ↔ ValidNames (bounds.map Prod.fst) ∧ ∀ b ∈ bounds, 0 ≤ b.2 := by
  rw [boundsDiagnostics, List.append_eq_nil_iff, nameDiagnostics_eq_nil, flatten_mapIdx_eq_nil,
    List.forall_mem_iff_forall_getElem]
  refine and_congr_right fun _ => forall_congr' fun i => forall_congr' fun hi => ?_
  rw [unless_eq_nil]
  omega

/-- Nothing is said about a fingerprint exactly when it has the form of one. -/
theorem validateFingerprint_eq_nil {path : UString} {value : NString} :
    validateFingerprint path value = [] ↔ isLowerSha256 value = true := by
  rw [validateFingerprint]
  by_cases h : isLowerSha256 value = true <;> simp [h]

section Platform

variable (platform : Platform)

/-- The steps that pass validation at a given position. -/
structure ValidStep (ordinal : Nat) (step : QuintReplayStep) : Prop where
  index : step.index = (ordinal : Int) + 1
  action : ValidName step.action
  source : ValidSource step.source
  expected : ValidState platform step.expected

/-- **The steps of a trace**: validation comes back, and says nothing exactly when each is valid at its
    position. -/
theorem stepDiagnostics_spec : ∀ (ordinal : Nat) (steps : List QuintReplayStep),
    ∃ found, stepDiagnostics platform ordinal steps = .ok found ∧
      (found = [] ↔ ∀ (i : Nat) (h : i < steps.length), ValidStep platform (ordinal + i) steps[i])
  | _, [] => ⟨[], rfl, by simp⟩
  | ordinal, step :: steps => by
    obtain ⟨state, hs, hstate⟩ := validateState_spec platform
      (indexed "$.steps" ordinal ++ lit ".expected") step.expected
    obtain ⟨rest, hr, hrest⟩ := stepDiagnostics_spec (ordinal + 1) steps
    refine ⟨_, by rw [stepDiagnostics, hs, ok_bind, hr, ok_bind]; rfl, ?_⟩
    rw [List.append_eq_nil_iff, List.append_eq_nil_iff, List.append_eq_nil_iff, List.append_assoc,
      List.append_eq_nil_iff, validName_findings, validateSource_eq_nil, unless_eq_nil, hstate,
      hrest, not_not]
    rw [forall_from_cons_iff]
    constructor
    · rintro ⟨⟨⟨⟨hi, ha⟩, hsource⟩, hexpected⟩, htail⟩
      exact ⟨⟨hi, ha, hsource, hexpected⟩, htail⟩
    · rintro ⟨h, htail⟩
      exact ⟨⟨⟨⟨h.index, h.action⟩, h.source⟩, h.expected⟩, htail⟩

/-- The traces that pass the structural part of validation. -/
structure ValidStructure (trace : QuintReplayTrace) : Prop where
  schemaVersion : trace.schemaVersion = 1
  traceIdentity : isLowerSha256 trace.traceIdentity = true
  environment : ValidEnvironment trace.environment
  initial : ValidState platform trace.initial
  steps : ∀ (i : Nat) (h : i < trace.steps.length), ValidStep platform i trace.steps[i]

/-- **The structure of a trace**: validation comes back, and says nothing exactly when it is valid. -/
theorem structuralDiagnostics_spec (trace : QuintReplayTrace) :
    ∃ found, structuralDiagnostics platform trace = .ok found ∧
      (found = [] ↔ ValidStructure platform trace) := by
  obtain ⟨steps, hs, hsteps⟩ := stepDiagnostics_spec platform 0 trace.steps
  obtain ⟨initial, hi, hinitial⟩ := validateState_spec platform "$.initial" trace.initial
  refine ⟨_, by rw [structuralDiagnostics, hs, ok_bind, hi, ok_bind]; rfl, ?_⟩
  simp only [sortDiagnostics_eq_nil, List.append_assoc]
  rw [List.append_eq_nil_iff, List.append_eq_nil_iff, ← List.append_assoc, List.append_eq_nil_iff,
    validName_findings]
  simp only [List.append_eq_nil_iff, unless_eq_nil, validateFingerprint_eq_nil,
    boundsDiagnostics_eq_nil, hinitial, hsteps, Nat.zero_add, not_not, Bool.not_eq_true',
    Bool.not_eq_false]
  constructor
  · rintro ⟨hv, hid, hseed, ht, hp, hc, ha, him, ⟨hb, hn⟩, hinit, hst⟩
    exact ⟨hv, hid, ⟨hseed, hb, hn, ht, hp, hc, ha, him⟩, hinit, hst⟩
  · rintro ⟨hv, hid, ⟨hseed, hb, hn, ht, hp, hc, ha, him⟩, hinit, hst⟩
    exact ⟨hv, hid, hseed, ht, hp, hc, ha, him, ⟨hb, hn⟩, hinit, hst⟩

/-- A fingerprint is not null. -/
theorem ne_none_of_isLowerSha256 {value : NString} (h : isLowerSha256 value = true) :
    value ≠ none := by
  rintro rfl
  simp [isLowerSha256] at h

/-- A valid environment has no null string. -/
theorem ValidEnvironment.encodable {environment : QuintReplayEnvironment}
    (h : ValidEnvironment environment) :
    EncodableEnvironment environment where
  seed := h.seed.ne_none
  bounds := fun b hb => (h.bounds.2 b.1 (List.mem_map_of_mem hb)).ne_none
  toolFingerprint := ne_none_of_isLowerSha256 h.toolFingerprint
  profileFingerprint := ne_none_of_isLowerSha256 h.profileFingerprint
  contractFingerprint := ne_none_of_isLowerSha256 h.contractFingerprint
  adapterFingerprint := ne_none_of_isLowerSha256 h.adapterFingerprint
  implementationFingerprint := ne_none_of_isLowerSha256 h.implementationFingerprint

variable {platform} in
/-- What passes the structural part of validation can be encoded. -/
theorem ValidStructure.encodable {trace : QuintReplayTrace} (h : ValidStructure platform trace) :
    Encodable trace where
  environment := h.environment.encodable
  initial := h.initial.content
  steps := by
    intro step hs
    obtain ⟨i, hi, rfl⟩ := List.mem_iff_getElem.mp hs
    have hstep := h.steps i hi
    exact ⟨hstep.action.ne_none, hstep.source.path.ne_none, hstep.expected.content⟩

/-- The traces that pass validation. -/
structure ValidTrace (trace : QuintReplayTrace) : Prop extends ValidStructure platform trace where
  identity : trace.traceIdentity = some (fingerprint platform (traceText trace))

/-- **Validation comes back, and finds nothing exactly on the valid traces.** -/
theorem validateTrace_spec (trace : QuintReplayTrace) :
    ∃ found, validateTrace platform trace = .ok found ∧
      (found = [] ↔ ValidTrace platform trace) := by
  obtain ⟨structural, hs, hspec⟩ := structuralDiagnostics_spec platform trace
  rw [validateTrace, hs, ok_bind]
  cases structural with
  | cons d ds =>
    refine ⟨_, rfl, ?_⟩
    simp only [reduceCtorEq, false_iff] at hspec ⊢
    exact fun h => hspec h.toValidStructure
  | nil =>
    have hv := hspec.mp rfl
    have hfp : ReplayInternal.traceFingerprint platform trace =
        .ok (fingerprint platform (traceText trace)) := by
      rw [ReplayInternal.traceFingerprint, encodeTraceUnchecked_ok hv.encodable]
      rfl
    simp only [hfp, ok_bind]
    by_cases hid : trace.traceIdentity = some (fingerprint platform (traceText trace))
    · simp only [if_pos hid]
      exact ⟨[], rfl, iff_of_true rfl ⟨hv, hid⟩⟩
    · simp only [if_neg hid]
      exact ⟨_, rfl, iff_of_false (by simp) fun h => hid h.identity⟩

/-- A trace passes validation exactly when it is valid. -/
theorem validateTrace_eq_nil_iff {trace : QuintReplayTrace} :
    validateTrace platform trace = .ok [] ↔ ValidTrace platform trace := by
  obtain ⟨found, hf, hspec⟩ := validateTrace_spec platform trace
  rw [hf, Except.ok.injEq, hspec]

end Platform

end FsQuint
