/-
  The operations of the replay format: encoding, fingerprints, validation, decoding and offline
  comparison.

  `decodeItf` first reads the text with `Itf.read` under the default limits and then decodes it a
  second time by itself (`decodeItfUnchecked`), with its own rules.  The second decoder collects
  findings as it goes; they are sorted at the end, so the order in which they are found is of no
  consequence.  It fingerprints every state, and the whole trace, before anything is validated.
-/
import FsQuint.ReplayInternal
import FsQuint.Itf

namespace FsQuint.QuintReplay

open Utf16 Collections Decimal Json ReplayInternal

variable (platform : Platform)

/-- The encoding of a value, under the root path. -/
def encodeValue [Primitives] (value : QuintReplayValue) : Outcome (Result UString) := encodeAt "$" value

/-- The encoding of a state, or the findings about it. -/
def encodeState [Primitives] (state : QuintReplayState) : Outcome (Result UString) := do
  match ← validateState platform "$" state with
  | [] => return .ok (← encodeStateUnchecked state)
  | diagnostics => return .error diagnostics

/-- The fingerprint that a state should claim, or the findings about its bindings.  What it claims is
    not looked at. -/
def stateFingerprint [Primitives] (state : QuintReplayState) : Outcome (Result UString) := do
  match ← validateStateContent "$" state with
  | [] => return .ok (← ReplayInternal.stateFingerprint platform state)
  | diagnostics => return .error diagnostics

/-! ## Validation of a trace -/

/-- The findings about the bounds: those about their names, then the negative ones. -/
def boundsDiagnostics (bounds : List (NString × Int)) : List QuintReplayDiagnostic :=
  nameDiagnostics "QRP-BOUND-NAME" "QRP-BOUND-DUPLICATE" "$.environment.bounds"
    "Bound names cannot be blank." "Bound" (bounds.map Prod.fst) ++
  (bounds.mapIdx fun index bound =>
    if bound.2 < 0 then
      [diagnostic "QRP-BOUND-VALUE" (indexed "$.environment.bounds" index)
        "Bound values cannot be negative."]
    else []).flatten

/-- The findings about the steps from position `ordinal` on. -/
def stepDiagnostics [Primitives] (ordinal : Nat) : List QuintReplayStep → Outcome (List QuintReplayDiagnostic)
  | [] => return []
  | step :: steps => do
    let path := indexed "$.steps" ordinal
    let state ← validateState platform (path ++ lit ".expected") step.expected
    let rest ← stepDiagnostics (ordinal + 1) steps
    return (if step.index ≠ (ordinal : Int) + 1 then
        [diagnostic "QRP-STEP-ORDER" (path ++ lit ".index")
          (lit "Expected step index " ++ natText (ordinal + 1) ++ lit ".")] else []) ++
      (if isNullOrWhiteSpace step.action then
        [diagnostic "QRP-STEP-ACTION" (path ++ lit ".action") "Action is required."] else []) ++
      unicodeDiagnostics (path ++ lit ".action") step.action ++
      validateSource (path ++ lit ".source") step.source ++ state ++ rest

/-- The findings about a trace, apart from its own fingerprint. -/
def structuralDiagnostics [Primitives] (trace : QuintReplayTrace) : Outcome (List QuintReplayDiagnostic) := do
  let environment := trace.environment
  let steps ← stepDiagnostics platform 0 trace.steps
  let initial ← validateState platform "$.initial" trace.initial
  return sortDiagnostics (
    (if trace.schemaVersion ≠ 1 then
      [diagnostic "QRP-SCHEMA-VERSION" "$.schemaVersion"
        "Only quint-replay-v1 schema version 1 is supported."] else []) ++
    (if !isLowerSha256 trace.traceIdentity then
      [diagnostic "QRP-TRACE-IDENTITY" "$.traceIdentity"
        "Trace identity must be a lowercase SHA-256 digest."] else []) ++
    (if isNullOrWhiteSpace environment.seed then
      [diagnostic "QRP-SEED" "$.environment.seed" "Replay seed is required."] else []) ++
    unicodeDiagnostics "$.environment.seed" environment.seed ++
    validateFingerprint "$.environment.toolFingerprint" environment.toolFingerprint ++
    validateFingerprint "$.environment.profileFingerprint" environment.profileFingerprint ++
    validateFingerprint "$.environment.contractFingerprint" environment.contractFingerprint ++
    validateFingerprint "$.environment.adapterFingerprint" environment.adapterFingerprint ++
    validateFingerprint "$.environment.implementationFingerprint" environment.implementationFingerprint ++
    boundsDiagnostics environment.bounds ++ initial ++ steps)

/-- The findings about a trace: the structural ones and, when there are none, whether it has the
    fingerprint that it claims. -/
def validateTrace [Primitives] (trace : QuintReplayTrace) : Outcome (List QuintReplayDiagnostic) := do
  match ← structuralDiagnostics platform trace with
  | [] =>
    let expected ← ReplayInternal.traceFingerprint platform trace
    if trace.traceIdentity = some expected then return []
    else return [diagnostic "QRP-TRACE-FINGERPRINT" "$.traceIdentity"
      (lit "Trace identity does not match canonical trace fingerprint '" ++ expected ++ lit "'.")]
  | structural => return structural

/-- `String.replicate 64 "0"`. -/
def zeroIdentity : NString := some (List.replicate 64 0x30)

/-- The fingerprint that a trace should claim, or the structural findings about it.  It is validated
    with a placeholder for the identity, and the one finding that the placeholder causes is passed over. -/
def traceFingerprint [Primitives] (trace : QuintReplayTrace) : Outcome (Result UString) := do
  let placeholder := { trace with traceIdentity := zeroIdentity }
  match (← validateTrace platform placeholder).filter fun finding =>
      finding.code ≠ lit "QRP-TRACE-FINGERPRINT" with
  | [] => return .ok (← ReplayInternal.traceFingerprint platform placeholder)
  | diagnostics => return .error diagnostics

/-! ## Decoding -/

/-- The finding about one of the metadata fields with a fixed value. -/
def metadataFinding (name expected : UString) (metadata : JsonElement) :
    Outcome (List QuintReplayDiagnostic) := do
  let finding := [diagnostic "QRP-ITF-META" (lit "$/#meta/" ++ name)
    (lit "Expected ITF metadata '" ++ name ++ lit "' to be '" ++ expected ++ lit "'.")]
  match ← property name metadata with
  | some (.string s) => if (← stringText s) = expected then return [] else return finding
  | _ => return finding

/-- The findings about the metadata of the document. -/
def metadataDiagnostics (root : JsonElement) : Outcome (List QuintReplayDiagnostic) := do
  match ← property "#meta" root with
  | none => return []
  | some metadata =>
    let metaFields := setOf [lit "format", lit "format-description", lit "source", lit "status"]
    let fields ← checkFields "$/#meta" metaFields metaFields metadata
    let format ← metadataFinding "format" "ITF" metadata
    let status ← metadataFinding "status" "ok" metadata
    return fields ++ format ++ status

/-- The variable names among some items of `vars`, the first at position `index`, with a finding
    for each item that is not a string. -/
def variableItems (index : Nat) : List JsonElement → Outcome (List UString × List QuintReplayDiagnostic)
  | [] => return ([], [])
  | .string s :: items => do
    let name ← stringText s
    let (names, findings) ← variableItems (index + 1) items
    return (name :: names, findings)
  | _ :: items => do
    let (names, findings) ← variableItems (index + 1) items
    return (names, diagnostic "QRP-ITF-VAR" (lit "$/vars/" ++ natText index)
      "ITF variable names must be strings." :: findings)

/-- The variables of the document, with the findings about them. -/
def decodeVariables (root : JsonElement) : Outcome (List UString × List QuintReplayDiagnostic) := do
  let (names, findings) ← match ← property "vars" root with
    | some (.array items) => variableItems 0 items
    | some _ => pure ([], [diagnostic "QRP-ITF-TYPE" "$/vars" "ITF vars must be an array."])
    | none => pure ([], [])
  if names = [] ∨ (distinct names).length ≠ names.length then
    return (names, diagnostic "QRP-ITF-VARS" "$/vars" "ITF variables must be non-empty and unique." :: findings)
  return (names, findings)

/-- The states of the document as trees, with the findings about their list. -/
def rawStates (root : JsonElement) : Outcome (List JsonElement × List QuintReplayDiagnostic) := do
  let (states, findings) ← match ← property "states" root with
    | some (.array items) => pure (items, [])
    | some _ => pure ([], [diagnostic "QRP-ITF-TYPE" "$/states" "ITF states must be an array."])
    | none => pure ([], [])
  match states with
  | [] => return ([], diagnostic "QRP-ITF-STATES" "$/states" "ITF needs an initial state." :: findings)
  | states => return (states, findings)

/-- The findings about the metadata of the state at position `index`. -/
def stateMetadataDiagnostics (path : UString) (index : Nat) (state : JsonElement) :
    Outcome (List QuintReplayDiagnostic) := do
  match ← property "#meta" state with
  | none => return []
  | some metadata =>
    let required := setOf [lit "index"]
    let fields ← checkFields (path ++ lit "/#meta") required required metadata
    match ← property "index" metadata with
    | some (.number raw) =>
      if (← tryGetInt32 (.number raw)) = some (index : Int) then return fields
      let message := lit "Expected ITF state index " ++ natText index ++ lit "."
      return diagnostic "QRP-ITF-STATE-INDEX" (path ++ lit "/#meta/index") message :: fields
    | _ =>
      let message := lit "ITF state index must be an integer."
      return diagnostic "QRP-ITF-STATE-INDEX" (path ++ lit "/#meta/index") message :: fields

/-- The bindings of a state, with the findings about those that cannot be decoded. -/
def decodeBindings (path : UString) (state : JsonElement) :
    List UString → Outcome (List (NString × QuintReplayValue) × List QuintReplayDiagnostic)
  | [] => return ([], [])
  | name :: names => do
    let binding ← match ← property name state with
      | some value => do
        match ← decodeItfValue (path ++ lit "/" ++ name) value with
        | .ok decoded => pure ([(some name, decoded)], [])
        | .error findings => pure ([], findings)
      | none => pure ([], [])
    let (bindings, findings) ← decodeBindings path state names
    return (binding.1 ++ bindings, binding.2 ++ findings)

/-- The state at position `index`, with the findings about it.  It is fingerprinted whether or not
    anything was found. -/
def decodeState (variableNames : List UString) (index : Nat) (state : JsonElement) :
    Outcome (QuintReplayState × List QuintReplayDiagnostic) := do
  let path := lit "$/states/" ++ natText index
  let fields := setOf (lit "#meta" :: variableNames)
  let fieldFindings ← checkFields path fields fields state
  let metadataFindings ← stateMetadataDiagnostics path index state
  let (bindings, findings) ← decodeBindings path state variableNames
  let draft : QuintReplayState := { identity := some [], bindings := bindings }
  let identity ← ReplayInternal.stateFingerprint platform draft
  return ({ draft with identity := some identity }, fieldFindings ++ metadataFindings ++ findings)

/-- The states from position `index` on. -/
def decodeStates (variableNames : List UString) (index : Nat) :
    List JsonElement → Outcome (List QuintReplayState × List QuintReplayDiagnostic)
  | [] => return ([], [])
  | state :: states => do
    let (decoded, findings) ← decodeState platform variableNames index state
    let (rest, restFindings) ← decodeStates variableNames (index + 1) states
    return (decoded :: rest, findings ++ restFindings)

/-- A step of the trace: its state, with what the context says about its action. -/
def stepOf (state : QuintReplayState) (binding : QuintItfStepBinding) : QuintReplayStep :=
  { index := binding.index, action := binding.action, source := binding.source, expected := state }

/-- The trace of some decoded states, before it is fingerprinted. -/
def draftTrace (context : QuintItfDecodeContext) (states : List QuintReplayState) : QuintReplayTrace :=
  let transitionStates := states.drop (min 1 states.length)
  { schemaVersion := 1
    traceIdentity := zeroIdentity
    environment := context.environment
    initial := states.head?.getD { identity := zeroIdentity, bindings := [] }
    steps := if transitionStates.length = context.steps.length then
      List.zipWith stepOf transitionStates context.steps else [] }

/-- The finding about a context that does not have one binding for each transition. -/
def stepBindingDiagnostics (context : QuintItfDecodeContext) (states : List QuintReplayState) :
    List QuintReplayDiagnostic :=
  if (context.steps.length : Int) ≠ max 0 ((states.length : Int) - 1) then
    [diagnostic "QRP-ITF-STEP-BINDINGS" "$.context.steps"
      "One consumer action/source binding is required per ITF transition."]
  else []

/-- What is decoded from the root of a document. -/
def decodeRoot (context : QuintItfDecodeContext) (root : JsonElement) : Outcome (Result QuintReplayTrace) := do
  let rootFields := setOf [lit "#meta", lit "vars", lit "states"]
  let rootFindings ← checkFields "$" rootFields rootFields root
  let metadataFindings ← metadataDiagnostics root
  let (variableNames, variableFindings) ← decodeVariables root
  let (states, statesFindings) ← rawStates root
  let (decodedStates, stateFindings) ← decodeStates platform variableNames 0 states
  let draft := draftTrace context decodedStates
  let identity ← ReplayInternal.traceFingerprint platform draft
  let trace := { draft with traceIdentity := some identity }
  match sortDiagnostics (rootFindings ++ metadataFindings ++ variableFindings ++ statesFindings ++
      stateFindings ++ stepBindingDiagnostics context decodedStates ++ (← validateTrace platform trace)) with
  | [] => return .ok trace
  | all => return .error all

/-- The nesting depth that `JsonDocument.Parse` allows by default. -/
def defaultMaxDepth : Nat := 64

/-- Answer exceptions of one type with a finding, and let the others through. -/
def handle {α : Type} (type : ExceptionType) (finding : Exn → QuintReplayDiagnostic) :
    Outcome (Result α) → Outcome (Result α)
  | .ok answer => .ok answer
  | .error e => if e.type = type then .ok (.error [finding e]) else .error e

/-- The second reading of a text, which `Itf.read` has accepted. -/
def decodeItfUnchecked (context : QuintItfDecodeContext) (text : UString) :
    Outcome (Result QuintReplayTrace) :=
  handle .json (fun e => diagnostic "QRP-ITF-MALFORMED" "$" e.message)
    (match parse defaultMaxDepth text with
    | some root => decodeRoot platform context root
    | none => .error ⟨.json, platform.jsonMessage text⟩)

/-- The first reading, by `Itf.read`, and then the second. -/
def decodeItfEncoded (context : QuintItfDecodeContext) (text : UString) :
    Outcome (Result QuintReplayTrace) :=
  match getBytes text with
  | none => .error ⟨.encoderFallback, "Unable to translate Unicode character to specified code page."⟩
  | some bytes => do
    match ← Itf.read Itf.defaultLimits (some bytes) with
    | .error errors => return .error errors
    | .ok _ => decodeItfUnchecked platform context text

/-- The trace that an ITF text stands for under a context, or findings. -/
def decodeItf (context : QuintItfDecodeContext) : NString → Outcome (Result QuintReplayTrace)
  | none => return .error [diagnostic "QRP-ITF-LIMIT" "$" "Input is null or exceeds the input limit."]
  | some text =>
    if (text.length : Int) > Itf.defaultLimits.maxBytes then
      return .error [diagnostic "QRP-ITF-LIMIT" "$" "Input is null or exceeds the input limit."]
    else handle .encoderFallback
      (fun _ => diagnostic "QRP-ITF-UTF8" "$" "Input contains an invalid Unicode scalar.")
      (decodeItfEncoded platform context text)

/-! ## Offline comparison -/

/-- The findings about the observations from position `ordinal` on. -/
def observationDiagnostics [Primitives] (ordinal : Nat) :
    List QuintReplayObservation → Outcome (List QuintReplayDiagnostic)
  | [] => return []
  | observation :: observations => do
    let path := indexed "$.observations" ordinal
    let state ← validateState platform (path ++ lit ".actual") observation.actual
    let rest ← observationDiagnostics (ordinal + 1) observations
    return (if observation.index ≠ (ordinal : Int) + 1 then
        [diagnostic "QRP-OBSERVATION-ORDER" (path ++ lit ".index")
          (lit "Expected observation index " ++ natText (ordinal + 1) ++ lit ".")] else []) ++
      (if isNullOrWhiteSpace observation.action then
        [diagnostic "QRP-OBSERVATION-ACTION" (path ++ lit ".action") "Observed action is required."]
        else []) ++
      unicodeDiagnostics (path ++ lit ".action") observation.action ++
      validateSource (path ++ lit ".source") observation.source ++ state ++ rest

/-- The divergence of a step from its observation, for a given reason. -/
def divergence (step : QuintReplayStep) (observation : QuintReplayObservation) (reason : UString) :
    QuintReplayDivergence :=
  { step := step.index, action := step.action, source := step.source, expected := some step.expected,
    actual := some observation.actual, reason := reason }

/-- The first difference between the steps of a trace and the observations, both of which have been
    validated.  At one step the reasons are tried in the order index, action, source binding, state. -/
def first [Primitives] : List QuintReplayStep → List QuintReplayObservation → Outcome QuintReplayResult
  | [], [] => return .equivalent
  | step :: _, [] =>
    return .diverged { step := step.index, action := step.action, source := step.source,
                       expected := some step.expected, actual := none, reason := "missing-observation" }
  | [], observation :: _ =>
    return .diverged { step := observation.index, action := observation.action,
                       source := observation.source, expected := none,
                       actual := some observation.actual, reason := "unexpected-observation" }
  | step :: remainingExpected, observation :: remainingActual => do
    let expectedJson ← encodeStateUnchecked step.expected
    let actualJson ← encodeStateUnchecked observation.actual
    if step.index ≠ observation.index then
      return .diverged { divergence step observation "step-identity" with
        step := min step.index observation.index }
    else if step.action ≠ observation.action then
      return .diverged (divergence step observation "action-identity")
    else if step.source ≠ observation.source then
      return .diverged (divergence step observation "source-binding")
    else if step.expected.identity ≠ observation.actual.identity ∨ expectedJson ≠ actualJson then
      return .diverged (divergence step observation "state")
    else first remainingExpected remainingActual

/-- Offline comparison: the findings about the trace and about the observations, or the verdict. -/
def compare [Primitives] (trace : QuintReplayTrace) (observations : List QuintReplayObservation) :
    Outcome (Result QuintReplayResult) := do
  let traceDiagnostics ← validateTrace platform trace
  let observationFindings ← observationDiagnostics platform 0 observations
  match sortDiagnostics (traceDiagnostics ++ sortDiagnostics observationFindings) with
  | [] => return .ok (← first trace.steps observations)
  | diagnostics => return .error diagnostics

end FsQuint.QuintReplay
