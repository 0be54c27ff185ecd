/-
  The replay decoder and the raw decoder agree.

  `decodeItf` runs `Itf.read` as a guard and then decodes the text once more.  On a document that the
  guard accepts (`Accepted`), the second decoder has no finding exactly when the document stays within
  the replay subset and the context fits it (`Replayable`), and its trace then shows the image of
  every state of the document, under the actions of the context (`TraceOf`).  It comes back at all
  exactly when nothing it encodes before validation is out of order (`Safe`).

  The text is decoded twice, and nothing but the text is handed from the first decoder to the
  second, so what has to be shown is that their readings of one tree fit together: a value that the
  second accepts is the image of what the first makes of the same element, name by name and state by
  state.  The limits of the guard are the default ones; what exceeds them never reaches the second
  decoder.

  `Safe` is where the two disagree for no reason in the document's meaning: a record key of blanks
  passes the guard, is encoded for a fingerprint before validation could refuse it, and raises.
-/
import FsQuint.ReplayDecoding
import FsQuint.ItfExceptions
import FsQuint.TraceIdentity

set_option linter.unusedVariables false

namespace FsQuint

open Utf16 Collections Decimal Json ReplayInternal QuintReplay Itf

/-! ## The guard -/

/-- The guard accepts `bytes`, the encoding of `text`: the root has the given members, among them the
    states `items`, and the document is `document`. -/
structure Accepted (bytes : ByteArray) (text : UString) (members : List (UString × JsonElement))
    (items : List JsonElement) (document : ItfDocument) : Prop where
  encoded : getBytes text = some bytes
  size : (bytes.size : Int) ≤ defaultLimits.maxBytes
  parsed : parse defaultMaxDepth text = some (.object members)
  named : WellNamed (.object members)
  bounded : Bounded defaultLimits.maxCollection (.object members)
  grammar : DocumentOf defaultLimits members items document
  legible : Legible items document

/-- The default limits are positive. -/
theorem positive_defaultLimits : Positive defaultLimits := by
  constructor <;> decide

/-- **The guard accepts what is in the grammar.** -/
theorem read_defaultLimits_iff {bytes : ByteArray} {text : UString} {document : ItfDocument}
    (h : getBytes text = some bytes) :
    read defaultLimits (some bytes) = .ok (.ok document) ↔
      ∃ members items, Accepted bytes text members items document := by
  have htext := getString_getBytes h
  have hlimits : ¬ (defaultLimits.maxBytes ≤ 0 ∨ defaultLimits.maxDepth ≤ 0 ∨
    defaultLimits.maxStates ≤ 0 ∨
      defaultLimits.maxCollection ≤ 0) := by decide
  have hparse : parse defaultLimits.maxDepth.toNat text = parse defaultMaxDepth text := rfl
  rw [read_eq_ok_iff]
  -- each test of the guard is a condition of `Accepted`
  constructor
  · intro hread
    rw [readUnguarded, if_neg hlimits] at hread
    by_cases hsize : (bytes.size : Int) > defaultLimits.maxBytes
    · simp only [if_pos hsize] at hread
      cases hread
    · simp only [if_neg hsize, htext, hparse] at hread
      cases hroot : parse defaultMaxDepth text with
      | none =>
        rw [hroot] at hread
        cases hread
      | some root =>
        rw [hroot] at hread
        obtain ⟨hnamed, hbounded, members, items, rfl, hdocument, hlegible⟩ :=
          (readDocument_eq_ok_iff positive_defaultLimits.int32).mp hread
        exact ⟨members, items, h, not_lt.mp hsize, hroot, hnamed, hbounded, hdocument, hlegible⟩
  · rintro ⟨members, items, ha⟩
    rw [readUnguarded_eq positive_defaultLimits ha.size htext (hparse.trans ha.parsed),
      readDocument_eq_ok_iff positive_defaultLimits.int32]
    exact ⟨ha.named, ha.bounded, members, items, rfl, ha.grammar, ha.legible⟩

/-- The decoder then looks at the root that the guard has seen. -/
theorem Accepted.decodeItf_eq {platform : Platform} {context : QuintItfDecodeContext}
    {bytes : ByteArray} {text : UString} {members : List (UString × JsonElement)}
    {items : List JsonElement} {document : ItfDocument}
    (h : Accepted bytes text members items document) :
    decodeItf platform context (some text) =
      handle .encoderFallback (fun _ => diagnostic "QRP-ITF-UTF8" "$"
        "Input contains an invalid Unicode scalar.")
        (handle .json (fun e => diagnostic "QRP-ITF-MALFORMED" "$" e.message)
          (decodeRoot platform context (.object members))) := by
  have hlength : ¬ (text.length : Int) > defaultLimits.maxBytes := by
    have hle := length_le_size h.encoded
    have hsize := h.size
    omega
  have hread := (read_defaultLimits_iff h.encoded).mpr ⟨members, items, h⟩
  rw [decodeItf, if_neg hlength, decodeItfEncoded, h.encoded]
  simp only [hread, ok_bind, decodeItfUnchecked, h.parsed]

/-- Neither handler is for an exception that escapes. -/
theorem Escapes.handle {α : Type} {type : ExceptionType} {finding : Exn → QuintReplayDiagnostic}
    {x : Outcome (Result α)} (ht : type = .json ∨ type = .encoderFallback) (h : Escapes x) :
    Escapes (QuintReplay.handle type finding x) := by
  obtain ⟨e, rfl, hjson, hfallback⟩ := h
  have hne : e.type ≠ type := by
    rcases ht with rfl | rfl
    · exact hjson
    · exact hfallback
  exact ⟨e, if_neg hne, hjson, hfallback⟩

/-! ## The draft of a trace -/

section Draft

variable {platform : Platform} {context : QuintItfDecodeContext} {first : QuintReplayState} {rest : List QuintReplayState}

/-- The context has one binding for each transition. -/
theorem draftTrace_steps (h : rest.length = context.steps.length) :
    (draftTrace context (first :: rest)).steps = List.zipWith stepOf rest context.steps := by
  simp [draftTrace, h]

/-- Without one binding for each transition the draft has no steps. -/
theorem draftTrace_no_steps (h : rest.length ≠ context.steps.length) :
    (draftTrace context (first :: rest)).steps = [] := by
  simp [draftTrace, h]

/-- What the steps of a draft are: the states after the first, under the bindings of the context. -/
theorem forall_draftTrace_steps {P : Nat → QuintReplayStep → Prop} :
    (∀ (i : Nat) (h : i < (draftTrace context (first :: rest)).steps.length),
        P i (draftTrace context (first :: rest)).steps[i]) ↔
      (rest.length = context.steps.length →
        ∀ (i : Nat) (hr : i < rest.length) (hc : i < context.steps.length),
          P i (stepOf rest[i] context.steps[i])) := by
  by_cases hcount : rest.length = context.steps.length
  · rw [draftTrace_steps hcount]
    simp only [List.length_zipWith, List.getElem_zipWith, hcount, forall_const, Nat.min_self]
    exact ⟨fun h i _ hc => h i hc, fun h i hc => h i hc hc⟩
  · rw [draftTrace_no_steps hcount]
    exact iff_of_true (fun i h => absurd h (Nat.not_lt_zero i)) fun h => absurd h hcount

/-- A binding of the context that passes validation at its position. -/
structure ValidBinding (i : Nat) (b : QuintItfStepBinding) : Prop where
  index : b.index = (i : Int) + 1
  action : ValidName b.action
  source : ValidSource b.source

variable (hfirst : ValidState platform first) (hrest : ∀ s ∈ rest, ValidState platform s)

include hfirst hrest in
/-- The draft can be encoded when the context has no null string. -/
theorem encodable_draftTrace_iff :
    Encodable (draftTrace context (first :: rest)) ↔ EncodableEnvironment context.environment ∧
      (rest.length = context.steps.length → ∀ b ∈ context.steps, b.action ≠ none ∧
        b.source.path ≠ none) := by
  have hsteps : (∀ step ∈ (draftTrace context (first :: rest)).steps, EncodableStep step) ↔
      (rest.length = context.steps.length → ∀ b ∈ context.steps, b.action ≠ none ∧
      b.source.path ≠ none) := by
    rw [List.forall_mem_iff_forall_getElem,
      @forall_draftTrace_steps context first rest fun _ => EncodableStep,
      List.forall_mem_iff_forall_getElem]
    refine forall_congr' fun hcount => ?_
    constructor
    · intro h i hc
      have hstep := h i (hcount ▸ hc) hc
      exact ⟨hstep.action, hstep.source⟩
    · intro h i hr hc
      exact ⟨(h i hc).1, (h i hc).2, (hrest _ (List.getElem_mem hr)).content⟩
  constructor
  · intro h
    exact ⟨h.environment, hsteps.mp h.steps⟩
  · rintro ⟨henvironment, h⟩
    exact ⟨henvironment, hfirst.content, hsteps.mpr h⟩

include hfirst hrest in
/-- The draft is fingerprinted when the context has no null string. -/
theorem settles_traceFingerprint :
    Settles (EncodableEnvironment context.environment ∧
        (rest.length = context.steps.length → ∀ b ∈ context.steps, b.action ≠ none ∧
          b.source.path ≠ none))
      (ReplayInternal.traceFingerprint platform (draftTrace context (first :: rest)))
      (· = fingerprint platform (traceText (draftTrace context (first :: rest)))) := by
  have hsteps : ∀ step ∈ (draftTrace context (first :: rest)).steps,
      ValidContent step.expected := by
    rw [List.forall_mem_iff_forall_getElem,
      @forall_draftTrace_steps context first rest fun _ step => ValidContent step.expected]
    intro _ i hr _
    exact (hrest _ (List.getElem_mem hr)).content
  refine ((settles_encodeTraceUnchecked hfirst.content hsteps).map fun text htext =>
    ⟨_, rfl, ?_⟩).congr
    (encodable_draftTrace_iff hfirst hrest) fun _ => id
  rw [htext]

include hfirst hrest in
/-- With its fingerprint the draft is valid when the context is. -/
theorem validTrace_draftTrace_iff :
    ValidTrace platform { draftTrace context (first :: rest) with
        traceIdentity := some (fingerprint platform
          (traceText (draftTrace context (first :: rest)))) } ↔
      ValidEnvironment context.environment ∧ (rest.length = context.steps.length →
        ∀ (i : Nat) (h : i < context.steps.length), ValidBinding i context.steps[i]) := by
  -- the states are valid, so a step is when its binding is
  have hsteps : (∀ (i : Nat) (h : i < (draftTrace context (first :: rest)).steps.length),
        ValidStep platform i (draftTrace context (first :: rest)).steps[i]) ↔
      (rest.length = context.steps.length →
        ∀ (i : Nat) (h : i < context.steps.length), ValidBinding i context.steps[i]) := by
    rw [@forall_draftTrace_steps context first rest (ValidStep platform)]
    refine forall_congr' fun hcount => ?_
    constructor
    · intro h i hc
      have hstep := h i (hcount ▸ hc) hc
      exact ⟨hstep.index, hstep.action, hstep.source⟩
    · intro h i hr hc
      have hbinding := h i hc
      exact ⟨hbinding.index, hbinding.action, hbinding.source, hrest _ (List.getElem_mem hr)⟩
  constructor
  · intro h
    exact ⟨h.environment, hsteps.mp h.steps⟩
  · rintro ⟨henvironment, h⟩
    exact ⟨⟨rfl, isLowerSha256_lowerHex _, henvironment, hfirst, hsteps.mpr h⟩, rfl⟩

end Draft

/-! ## Documents -/

/-- Nothing that the decoder encodes or reads before validation is out of order: the status is
    well-formed, no bound value of the subset has a blank record key, and the context has no null string. -/
structure Safe (context : QuintItfDecodeContext) (members : List (UString × JsonElement)) (items : List JsonElement)
    (document : ItfDocument) : Prop where
  status : StatusLegible members
  states : List.Forall₂ SafeState items document.states
  environment : EncodableEnvironment context.environment
  steps : context.steps.length + 1 = document.states.length →
    ∀ b ∈ context.steps, b.action ≠ none ∧ b.source.path ≠ none

/-- The document and the context have nothing that the decoder reports. -/
structure Replayable (context : QuintItfDecodeContext) (members : List (UString × JsonElement)) (items : List JsonElement)
    (document : ItfDocument) : Prop where
  metadata : ReplayMetadata members
  states : List.Forall₂ ReplayableState items document.states
  count : context.steps.length + 1 = document.states.length
  environment : ValidEnvironment context.environment
  steps : ∀ (i : Nat) (h : i < context.steps.length), ValidBinding i context.steps[i]

/-- A step of the trace carries what the context says about it. -/
structure Carries (b : QuintItfStepBinding) (step : QuintReplayStep) : Prop where
  index : step.index = b.index
  action : step.action = b.action
  source : step.source = b.source

/-- The states of a trace, from the initial one on. -/
def traceStates (trace : QuintReplayTrace) : List QuintReplayState :=
  trace.initial :: trace.steps.map QuintReplayStep.expected

/-- The trace that replays a document under a context. -/
structure TraceOf (platform : Platform) (context : QuintItfDecodeContext) (document : ItfDocument)
    (trace : QuintReplayTrace) : Prop where
  valid : ValidTrace platform trace
  environment : trace.environment = context.environment
  states : List.Forall₂ (fun bindings s => imageFields bindings = some s.bindings) document.states (traceStates trace)
  steps : List.Forall₂ Carries context.steps trace.steps

/-- What is decoded from a root: the trace of the document, or findings. -/
def Decoded (platform : Platform) (context : QuintItfDecodeContext) (members : List (UString × JsonElement))
    (items : List JsonElement) (document : ItfDocument) (result : Result QuintReplayTrace) : Prop :=
  (Replayable context members items document ∧ ∃ trace, result = .ok trace ∧ TraceOf platform context document trace) ∨
  (¬ Replayable context members items document ∧ ∃ found, result = .error found)

/-- The steps of a draft carry the bindings, and show the states after the first. -/
theorem carries_zipWith : ∀ {rest : List QuintReplayState} {bindings : List QuintItfStepBinding},
    rest.length = bindings.length → List.Forall₂ Carries bindings
      (List.zipWith stepOf rest bindings) ∧
      (List.zipWith stepOf rest bindings).map QuintReplayStep.expected = rest
  | [], [], _ => ⟨.nil, rfl⟩
  | [], b :: bs, h => by simp at h
  | s :: rest, [], h => by simp at h
  | s :: rest, b :: bs, h => by
    obtain ⟨hcarries, hstates⟩ := carries_zipWith (Nat.succ.inj h)
    exact ⟨.cons ⟨rfl, rfl, rfl⟩ hcarries, congrArg (s :: ·) hstates⟩

/-- A root with variables and states has the wanted fields when it has metadata. -/
theorem hasFields_root_iff {members : List (UString × JsonElement)} {items : List JsonElement}
    {document : ItfDocument} (h : DocumentOf defaultLimits members items document) :
    HasFields [lit "#meta", lit "vars", lit "states"] members ↔
      lit "#meta" ∈ members.map Prod.fst := by
  constructor
  · intro hall
    exact (hall _).mpr List.mem_cons_self
  · intro hmeta name
    simp only [List.mem_cons, List.not_mem_nil, or_false]
    constructor
    · exact h.keys name
    · rintro (rfl | rfl | rfl)
      · exact hmeta
      · exact List.mem_map_of_mem h.vars
      · exact List.mem_map_of_mem h.states

/-- Nothing is said about the bindings of the context when there is one for each transition. -/
theorem stepBindingDiagnostics_eq_nil {context : QuintItfDecodeContext}
    {states : List QuintReplayState} (h : 1 ≤ states.length) :
    stepBindingDiagnostics context states = [] ↔ context.steps.length + 1 = states.length := by
  rw [stepBindingDiagnostics, unless_eq_nil, not_not]
  omega

/-- The states of an accepted document are decoded one by one. -/
theorem Accepted.decodesStates (platform : Platform) {bytes : ByteArray} {text : UString}
    {members : List (UString × JsonElement)} {items : List JsonElement} {document : ItfDocument}
    (h : Accepted bytes text members items document) :
    Settles (List.Forall₂ SafeState items document.states)
      (decodeStates platform document.variableNames 0 items)
      (DecodedStates platform items document.states) := by
  have hd := h.grammar
  have hnamed := (wellNamedMembers_iff.mp h.named _ hd.states).2
  have hbounded := boundedFields_iff.mp h.bounded.2.2 _ hd.states
  have hnames : ∀ name ∈ document.variableNames, ValidName (some name) := by
    intro name hname
    exact ⟨(hd.variableName name hname).1, h.legible.variableName name hname⟩
  have hlegible : ∀ item ∈ items, LegibleState document.variableNames item := by
    intro item hitem fields hfields
    exact h.legible.bound fields (hfields ▸ hitem)
  have hstateAt : ∀ i state bindings, items[i]? = some state → document.states[i]? = some bindings →
      ∃ fields, state = .object fields ∧
        StateOf document.variableNames (0 + i) fields bindings := by
    intro i state bindings hi hb
    rw [Nat.zero_add]
    exact hd.state i state bindings hi hb
  -- the index of a state is read as a 32-bit integer
  have hcount : ((0 : Nat) : Int) + items.length ≤ 2 ^ 31 := by
    have hmax := hd.statesBounded
    have hlimit := positive_defaultLimits.int32
    omega
  exact settles_decodeStates platform hd.distinctVariables hnames hcount hnamed hbounded.2 hlegible
    hd.stateCount hstateAt

/-- The sealed draft of a document with nothing to report is its trace. -/
theorem traceOf_draft {platform : Platform} {context : QuintItfDecodeContext}
    {members : List (UString × JsonElement)} {items : List JsonElement} {document : ItfDocument}
    {first : QuintReplayState} {rest : List QuintReplayState}
    {stateFindings : List QuintReplayDiagnostic}
    (hdecoded : DecodedStates platform items document.states (first :: rest, stateFindings))
    (hcount : rest.length = context.steps.length)
    (hready : Replayable context members items document) :
    TraceOf platform context document { draftTrace context (first :: rest) with
      traceIdentity := some (fingerprint platform
        (traceText (draftTrace context (first :: rest)))) } := by
  obtain ⟨hfirst, hrest⟩ := List.forall_mem_cons.mp hdecoded.valid
  obtain ⟨hcarries, hexpected⟩ := carries_zipWith hcount
  refine ⟨?_, rfl, ?_, ?_⟩
  · rw [validTrace_draftTrace_iff hfirst hrest]
    exact ⟨hready.environment, fun _ => hready.steps⟩
  · have himages := hdecoded.image (hdecoded.clean.mpr hready.states)
    rw [traceStates, draftTrace_steps hcount, hexpected]
    exact himages
  · rw [draftTrace_steps hcount]
    exact hcarries

/-- **What the decoder does at an accepted root.** -/
theorem settles_decodeRoot (platform : Platform) (context : QuintItfDecodeContext)
    {bytes : ByteArray} {text : UString} {members : List (UString × JsonElement)}
    {items : List JsonElement} {document : ItfDocument}
    (h : Accepted bytes text members items document) :
    Settles (Safe context members items document) (decodeRoot platform context (.object members))
      (Decoded platform context members items document) := by
  have hd := h.grammar
  have hnodup := h.bounded.2.1
  obtain ⟨rootFindings, hroot, hrootFields⟩ :=
    @checkFields_spec "$" [lit "#meta", lit "vars", lit "states"] members
    (fun m hm => (wellNamedMembers_iff.mp h.named m hm).1) hnodup
  rw [hasFields_root_iff hd] at hrootFields
  have hmetadata := settles_metadataDiagnostics h.named h.bounded hd.metadata
  have hstates := h.decodesStates platform
  have hall : Settles (StatusLegible members ∧ List.Forall₂ SafeState items document.states ∧
      EncodableEnvironment context.environment ∧
        (context.steps.length + 1 = document.states.length →
        ∀ b ∈ context.steps, b.action ≠ none ∧ b.source.path ≠ none))
      (decodeRoot platform context (.object members))
      (Decoded platform context members items document) := by
    rw [decodeRoot]
    refine Settles.after hroot (hmetadata.bind fun metadataFindings hmeta =>
      Settles.after (decodeVariables_eq hnodup hd.vars h.legible.variableName hd.someVariable
        hd.distinctVariables)
      (Settles.after (rawStates_eq hnodup hd.states hd.someState)
      (hstates.bind fun decoded hdecoded => ?_)))
    -- what is left is the draft, its fingerprint and its validation
    obtain ⟨decodedStates, stateFindings⟩ := decoded
    have hlength : decodedStates.length = document.states.length :=
      hdecoded.count.trans hd.stateCount
    have hsome : 1 ≤ decodedStates.length := by
      have := hd.someState
      have := hd.stateCount
      omega
    obtain ⟨first, rest, rfl⟩ := List.exists_cons_of_length_pos hsome
    obtain ⟨hfirst, hrest⟩ := List.forall_mem_cons.mp hdecoded.valid
    have htransitions : rest.length = context.steps.length ↔
        context.steps.length + 1 = document.states.length := by
      rw [← hlength, List.length_cons]
      omega
    have hfingerprint := @settles_traceFingerprint platform context first rest hfirst hrest
    have hvalid := @validTrace_draftTrace_iff platform context first rest hfirst hrest
    rw [htransitions] at hfingerprint hvalid
    refine hfingerprint.map fun identity hidentity => ?_
    obtain rfl := hidentity
    obtain ⟨found, hfound, hclean⟩ :=
      validateTrace_spec platform { draftTrace context (first :: rest) with
        traceIdentity := some (fingerprint platform
          (traceText (draftTrace context (first :: rest)))) }
    rw [hvalid] at hclean
    -- the findings are none exactly when the document is replayable
    have hnone : sortDiagnostics (rootFindings ++ metadataFindings ++ [] ++ [] ++ stateFindings ++
        stepBindingDiagnostics context (first :: rest) ++ found) = [] ↔
          Replayable context members items document := by
      rw [sortDiagnostics_eq_nil]
      simp only [List.append_eq_nil_iff, and_true]
      rw [stepBindingDiagnostics_eq_nil hsome, hlength, hclean, hdecoded.clean, hrootFields, hmeta]
      constructor
      · rintro ⟨⟨⟨hmetadata, hstates⟩, hcount⟩, henvironment, hsteps⟩
        exact ⟨hmetadata, hstates, hcount, henvironment, hsteps hcount⟩
      · rintro ⟨hmetadata, hstates, hcount, henvironment, hsteps⟩
        exact ⟨⟨⟨hmetadata, hstates⟩, hcount⟩, henvironment, fun _ => hsteps⟩
    simp only [hfound, ok_bind]
    cases hall : sortDiagnostics (rootFindings ++ metadataFindings ++ [] ++ [] ++ stateFindings ++
        stepBindingDiagnostics context (first :: rest) ++ found) with
    | nil =>
      have hready := hnone.mp hall
      have htrace := traceOf_draft hdecoded (htransitions.mpr hready.count) hready
      exact ⟨_, rfl, .inl ⟨hready, _, rfl, htrace⟩⟩
    | cons finding findings =>
      refine ⟨_, rfl, .inr ⟨fun hready => ?_, _, rfl⟩⟩
      rw [hnone.mpr hready] at hall
      cases hall
  refine hall.congr ?_ fun _ => id
  constructor
  · rintro ⟨hstatus, hstates, henvironment, hsteps⟩
    exact ⟨hstatus, hstates, henvironment, hsteps⟩
  · rintro ⟨hstatus, hstates, henvironment, hsteps⟩
    exact ⟨hstatus, hstates, henvironment, hsteps⟩

/-! ## Documents with one variable -/

/-- The state in which the variable `x` has a given tree. -/
def oneItem (index x : JsonElement) : JsonElement :=
  .object [(lit "#meta", .object [(lit "index", index)]), (lit "x", x)]

/-- The states in which `x` has the given trees one after another, each with its position as index. -/
def itemsOf (xs : List JsonElement) : List JsonElement :=
  xs.mapIdx fun i x => oneItem (.number (decimal i)) x

/-- A root with the metadata that is wanted and the given states. -/
def rootOf (items : List JsonElement) : List (UString × JsonElement) :=
  [(lit "#meta", .object [(lit "format", .string "ITF"), (lit "format-description", .string []),
      (lit "source", .string []), (lit "status", .string "ok")]),
   (lit "vars", .array [.string "x"]),
   (lit "states", .array items)]

/-- The text of such a root. -/
def textOf (items : List JsonElement) : UString := write jsonQuoting (.object (rootOf items))

/-- The document in which `x` has the given values one after another. -/
def documentOf (vs : List ItfValue) : ItfDocument where
  variableNames := [lit "x"]
  states := vs.map fun v => [(lit "x", v)]

/-- A root with one state, whose index is given too. -/
def oneMembers (index x : JsonElement) : List (UString × JsonElement) := rootOf [oneItem index x]

/-- The text of a root with one state. -/
def oneText (index x : JsonElement) : UString := textOf [oneItem index x]

/-- The document with one state. -/
def oneDocument (v : ItfValue) : ItfDocument := documentOf [v]

/-- With one tree there is one state, and its index is zero. -/
theorem itemsOf_singleton (x : JsonElement) : itemsOf [x] = [oneItem (.number "0") x] := by
  have hzero : decimal ((0 : Nat) : Int) = "0" := by decide
  rw [itemsOf, List.mapIdx_cons, List.mapIdx_nil, hzero]

/-- Each state of `itemsOf` comes from a tree, at its position. -/
theorem mem_itemsOf {xs : List JsonElement} {item : JsonElement} (h : item ∈ itemsOf xs) :
    ∃ (i : Nat) (x : JsonElement), x ∈ xs ∧ item = oneItem (.number (decimal i)) x := by
  obtain ⟨i, hi, rfl⟩ := List.mem_mapIdx.mp h
  exact ⟨i, xs[i], List.getElem_mem hi, rfl⟩

/-- The text of a root is parsed into that root, when its states can be written and are not too deep. -/
theorem parse_textOf {items : List JsonElement} (hw : ∀ item ∈ items, Writable jsonQuoting item)
    (hh : ∀ item ∈ items, height item ≤ 62) :
    parse defaultMaxDepth (textOf items) = some (.object (rootOf items)) := by
  refine parse_write jsonQuoting defaultMaxDepth ?_ ?_
  · simp only [rootOf, Writable, WritableMembers, WritableItems, jsonQuoting, and_true, true_and]
    exact writableItems_iff.mpr hw
  · have hitems := itemsHeight_le hh
    simp only [rootOf, height, membersHeight, itemsHeight, defaultMaxDepth]
    omega

/-- A state is as writable as its index and its tree. -/
theorem writable_oneItem {index x : JsonElement} (hi : Writable jsonQuoting index)
    (hx : Writable jsonQuoting x) : Writable jsonQuoting (oneItem index x) := by
  simp only [oneItem, Writable, WritableMembers, jsonQuoting, and_true, true_and]
  exact ⟨hi, hx⟩

/-- A state is two levels deeper than its index, and one deeper than its tree. -/
theorem height_oneItem_le {index x : JsonElement} (hi : height index ≤ 60) (hx : height x ≤ 60) :
    height (oneItem index x) ≤ 62 := by
  simp only [oneItem, height, membersHeight]
  omega

/-- The text with one state is parsed into its root. -/
theorem parse_oneText {index x : JsonElement} (hi : Writable jsonQuoting index)
    (hx : Writable jsonQuoting x) (hih : height index ≤ 60) (hxh : height x ≤ 60) :
    parse defaultMaxDepth (oneText index x) = some (.object (oneMembers index x)) := by
  refine parse_textOf (fun item hitem => ?_) fun item hitem => ?_
  · rw [List.mem_singleton.mp hitem]
    exact writable_oneItem hi hx
  · rw [List.mem_singleton.mp hitem]
    exact height_oneItem_le hih hxh

/-- The members of the `i`th state bind `x`, next to the index. -/
theorem stateOf_oneItem {x : JsonElement} {v : ItfValue} (i : Nat) (h : Denotes x v) :
    StateOf [lit "x"] i [(lit "#meta", .object [(lit "index", .number (decimal i))]), (lit "x", x)]
      [(lit "x", v)] := by
  refine ⟨fun name => ?_, fun metadata hm => ?_, .cons ⟨rfl, x, ?_, h⟩ .nil⟩
  · simp only [List.map_cons, List.map_nil, List.mem_cons, List.not_mem_nil, or_false]
    constructor
    · rintro ⟨hmeta | hname, hne⟩
      · exact absurd hmeta hne
      · exact hname
    · rintro rfl
      exact ⟨.inr rfl, by decide⟩
  · simp only [List.mem_cons, Prod.mk.injEq, List.not_mem_nil, or_false,
      show lit "#meta" ≠ lit "x" by decide,
      false_and, true_and] at hm
    exact ⟨_, _, hm, List.mem_cons_self, parseInteger_decimal i⟩
  · exact List.mem_cons_of_mem _ List.mem_cons_self

/-- **A root in the grammar.**  When the trees denote the values, the root says that `x` has these values
    one after another. -/
theorem documentOf_items {xs : List JsonElement} {vs : List ItfValue} (h : List.Forall₂ Denotes xs vs)
    (hsome : xs ≠ []) (hmany : (xs.length : Int) ≤ defaultLimits.maxStates) :
    DocumentOf defaultLimits (rootOf (itemsOf xs)) (itemsOf xs) (documentOf vs) where
  keys name hname := by
    simp only [rootOf, List.map_cons, List.map_nil, List.mem_cons, List.not_mem_nil,
      or_false] at hname
    exact hname
  metadata metadata hm := by
    simp only [rootOf, List.mem_cons, Prod.mk.injEq, List.not_mem_nil, or_false,
      show lit "#meta" ≠ lit "vars" by decide, show lit "#meta" ≠ lit "states" by decide, false_and, true_and] at hm
    exact ⟨_, hm, List.mem_cons_self⟩
  vars := List.mem_cons_of_mem _ List.mem_cons_self
  someVariable := List.cons_ne_nil _ _
  distinctVariables := List.nodup_singleton _
  variableName name hname := by
    rw [List.mem_singleton.mp hname]
    decide
  states := List.mem_cons_of_mem _ (List.mem_cons_of_mem _ List.mem_cons_self)
  someState := by
    rw [itemsOf, List.length_mapIdx]
    exact List.length_pos_of_ne_nil hsome
  statesBounded := by
    rw [itemsOf, List.length_mapIdx]
    exact hmany
  stateCount := by
    rw [itemsOf, List.length_mapIdx, documentOf, List.length_map]
    exact h.length_eq
  state i state bindings hi hb := by
    rw [itemsOf, List.getElem?_mapIdx] at hi
    rw [documentOf, List.getElem?_map] at hb
    obtain ⟨x, hx, rfl⟩ := Option.map_eq_some_iff.mp hi
    obtain ⟨v, hv, rfl⟩ := Option.map_eq_some_iff.mp hb
    obtain ⟨hix, rfl⟩ := List.getElem?_eq_some_iff.mp hx
    obtain ⟨hiv, rfl⟩ := List.getElem?_eq_some_iff.mp hv
    exact ⟨_, rfl, stateOf_oneItem i ((List.forall₂_iff_get.mp h).2 i hix hiv)⟩

/-- A tree that a document of the tests may give to `x`, and its value. -/
structure Given (x : JsonElement) (v : ItfValue) : Prop where
  writable : Writable jsonQuoting x
  low : height x ≤ 60
  wellFormed : WellFormed x
  bounded : Bounded defaultLimits.maxCollection x
  denotes : Denotes x v

/-- **The guard accepts such a document**, when its text is not too long. -/
theorem accepted_items {xs : List JsonElement} {vs : List ItfValue} {bytes : ByteArray}
    (h : List.Forall₂ Given xs vs) (hsome : xs ≠ [])
    (hmany : (xs.length : Int) ≤ defaultLimits.maxStates)
    (hbytes : getBytes (textOf (itemsOf xs)) = some bytes)
    (hsize : (bytes.size : Int) ≤ defaultLimits.maxBytes) :
    Accepted bytes (textOf (itemsOf xs)) (rootOf (itemsOf xs)) (itemsOf xs) (documentOf vs) := by
  -- what is given of a tree passes to the state that binds it
  have hitem : ∀ item ∈ itemsOf xs, Writable jsonQuoting item ∧ height item ≤ 62 ∧
      WellFormed item ∧ Bounded defaultLimits.maxCollection item := by
    intro item hmem
    obtain ⟨i, x, hx, rfl⟩ := mem_itemsOf hmem
    obtain ⟨v, _, hgiven⟩ := forall₂_mem_left h x hx
    refine ⟨writable_oneItem (numberToken_decimal i) hgiven.writable,
      height_oneItem_le (Nat.zero_le 60) hgiven.low, ?_, ?_⟩
    · simp only [oneItem, WellFormed, WellFormedMembers, and_true, hgiven.wellFormed]
      decide
    · simp only [oneItem, Bounded, BoundedFields, and_true, hgiven.bounded,
        List.length_cons, List.length_nil, List.map_cons, List.map_nil]
      decide
  have hwell : WellFormed (.object (rootOf (itemsOf xs))) := by
    simp only [rootOf, WellFormed, WellFormedMembers, WellFormedItems, and_true,
      wellFormedItems_iff.mpr fun item hmem => (hitem item hmem).2.2.1]
    decide
  have hcount : ((itemsOf xs).length : Int) ≤ defaultLimits.maxCollection := by
    rw [itemsOf, List.length_mapIdx]
    exact hmany.trans (by decide)
  have hbounded : Bounded defaultLimits.maxCollection (.object (rootOf (itemsOf xs))) := by
    simp only [rootOf, Bounded, BoundedFields, BoundedItems, and_true, hcount,
      boundedItems_iff.mpr fun item hmem => (hitem item hmem).2.2.2,
      List.length_cons, List.length_nil, List.map_cons, List.map_nil]
    decide
  have hgrammar := documentOf_items (h.imp fun _ _ hgiven => hgiven.denotes) hsome hmany
  exact
    { encoded := hbytes
      size := hsize
      parsed := parse_textOf (fun item hmem => (hitem item hmem).1) fun item hmem => (hitem item hmem).2.1
      named := hwell.wellNamed
      bounded := hbounded
      grammar := hgrammar
      legible := hgrammar.legible hwell }

/-- The guard accepts a document with one state. -/
theorem accepted_one {x : JsonElement} {v : ItfValue} {bytes : ByteArray} (h : Given x v)
    (hbytes : getBytes (oneText (.number "0") x) = some bytes)
    (hsize : (bytes.size : Int) ≤ defaultLimits.maxBytes) :
    Accepted bytes (oneText (.number "0") x) (oneMembers (.number "0") x)
      [oneItem (.number "0") x] (oneDocument v) := by
  have haccepted := accepted_items (.cons h .nil) (List.cons_ne_nil x [])
    (show ((1 : Nat) : Int) ≤ defaultLimits.maxStates by decide)
    (itemsOf_singleton x ▸ hbytes) hsize
  rw [itemsOf_singleton] at haccepted
  exact haccepted

/-! ## Texts -/

/-- A text that the guard does not accept is answered with findings. -/
theorem decodeItf_of_not_accepted (platform : Platform) (context : QuintItfDecodeContext)
    {text : NString}
    (h : ∀ json bytes members items document, text = some json →
      ¬ Accepted bytes json members items document) :
    ∃ found, decodeItf platform context text = .ok (.error found) := by
  cases text with
  | none => exact ⟨_, rfl⟩
  | some json =>
    rw [decodeItf]
    by_cases hlength : (json.length : Int) > defaultLimits.maxBytes
    · rw [if_pos hlength]
      exact ⟨_, rfl⟩
    · rw [if_neg hlength, decodeItfEncoded]
      cases hbytes : getBytes json with
      | none => exact ⟨_, rfl⟩
      | some bytes =>
        obtain ⟨answer, hread⟩ := read_answers defaultLimits (some bytes)
        simp only [hread, ok_bind]
        cases answer with
        | error found => exact ⟨found, rfl⟩
        | ok document =>
          obtain ⟨members, items, ha⟩ := (read_defaultLimits_iff hbytes).mp hread
          exact absurd ha (h json bytes members items document rfl)

/-- On a text that the guard accepts the decoder settles as it does at the root. -/
theorem Accepted.settles (platform : Platform) (context : QuintItfDecodeContext)
    {bytes : ByteArray} {text : UString} {members : List (UString × JsonElement)}
    {items : List JsonElement} {document : ItfDocument}
    (h : Accepted bytes text members items document) :
    Settles (Safe context members items document) (decodeItf platform context (some text))
      (Decoded platform context members items document) := by
  obtain ⟨hgood, hbad⟩ := settles_decodeRoot platform context h
  rw [h.decodeItf_eq]
  constructor
  · intro hsafe
    obtain ⟨result, hresult, hdecoded⟩ := hgood hsafe
    exact ⟨result, by rw [hresult]; rfl, hdecoded⟩
  · intro hunsafe
    exact ((hbad hunsafe).handle (.inl rfl)).handle (.inr rfl)

/-- **Exactly the texts on which `decodeItf` answers**: all that the guard refuses, and of those that it
    accepts the ones on which nothing is out of order before validation. -/
theorem decodeItf_answers_iff (platform : Platform) (context : QuintItfDecodeContext) (text : NString) :
    Outcome.Answers (decodeItf platform context text) ↔ ∀ json bytes members items document, text = some json →
      Accepted bytes json members items document → Safe context members items document := by
  constructor
  · rintro hanswers json bytes members items document rfl ha
    exact (ha.settles platform context).answers_iff.mp hanswers
  · intro hsafe
    by_cases h : ∀ json bytes members items document, text = some json →
      ¬ Accepted bytes json members items document
    · obtain ⟨found, hfound⟩ := decodeItf_of_not_accepted platform context h
      exact ⟨_, hfound⟩
    · simp only [not_forall, not_not] at h
      obtain ⟨json, bytes, members, items, document, rfl, ha⟩ := h
      exact (ha.settles platform context).answers_iff.mpr
        (hsafe json bytes members items document rfl ha)

/-- A record whose only key is blank. -/
def blankKey : JsonElement := .object [(lit " ", .number "1")]

/-- A document whose only state binds `x` to it. -/
def blankKeyText : UString :=
  "\x7b\"#meta\":\x7b\"format\":\"ITF\",\"format-description\":\"\",\"source\":\"\",\"status\":\"ok\"\x7d,\"vars\":[\"x\"],\"states\":[\x7b\"#meta\":\x7b\"index\":0\x7d,\"x\":\x7b\" \":1\x7d\x7d]\x7d"

/-- A context for a document with one state. -/
def oneContext : QuintItfDecodeContext := { environment := sampleEnvironment, steps := [] }

/-- The guard accepts the document. -/
theorem accepted_blankKey :
    Accepted (getBytesLossy blankKeyText) blankKeyText (oneMembers (.number "0") blankKey)
    [oneItem (.number "0") blankKey] (oneDocument (.record [(lit " ", .integer 1)])) := by
  have htext : blankKeyText = oneText (.number "0") blankKey := by decide +kernel
  have hone : NumberToken "1" := numberToken_decimal 1
  have hbounded : Bounded defaultLimits.maxCollection blankKey := by
    simp only [blankKey, Bounded, BoundedFields]
    decide
  have hgiven : Given blankKey (.record [(lit " ", .integer 1)]) :=
    { writable := ⟨trivial, hone, trivial⟩
      low := by decide
      wellFormed := ⟨by decide, trivial, trivial⟩
      bounded := hbounded
      denotes := .record (by decide) rfl (.cons (.number rfl) .nil) }
  have hbytes : getBytes blankKeyText = some (getBytesLossy blankKeyText) :=
    getBytes_eq_lossy (by decide +kernel)
  have hsize : ((getBytesLossy blankKeyText).size : Int) ≤
    defaultLimits.maxBytes := by decide +kernel
  rw [htext] at hbytes hsize ⊢
  exact accepted_one hgiven hbytes hsize

/-- The fingerprint of the state is computed although its record cannot be encoded. -/
theorem decodeItf_escapes : ¬ Outcome.Answers (decodeItf samplePlatform oneContext (some blankKeyText)) := by
  intro hanswers
  have hsafe := (accepted_blankKey.settles samplePlatform oneContext).answers_iff.mp hanswers
  have hstate : SafeState (oneItem (.number "0") blankKey)
      [(lit "x", .record [(lit " ", .integer 1)])] := by
    obtain ⟨hstate, _⟩ := List.forall₂_cons.mp hsafe.states
    exact hstate
  have hin : InSubset [(lit "#meta", .object [(lit "index", .number "0")]), (lit "x", blankKey)]
      (lit "x", .record [(lit " ", .integer 1)]) := by
    refine ⟨fun field hfield => ?_, trivial, trivial⟩
    simp only [List.mem_cons, Prod.mk.injEq, List.not_mem_nil, or_false,
      show lit "x" ≠ lit "#meta" by decide,
      false_and, true_and, false_or] at hfield
    rw [hfield]
    refine ⟨fun n hn => ?_, trivial⟩
    obtain rfl : (1 : Int) = n := Option.some.inj hn
    decide
  obtain ⟨hblank, _⟩ : BlankFree (.record [(lit " ", .integer 1)]) :=
    hstate _ rfl _ List.mem_cons_self hin
  revert hblank
  decide

/-- A trace comes from a replayable document. -/
theorem decodeItf_trace {platform : Platform} {context : QuintItfDecodeContext} {text : NString}
    {trace : QuintReplayTrace} (h : decodeItf platform context text = .ok (.ok trace)) :
    ∃ json bytes members items document, text = some json ∧
      Accepted bytes json members items document ∧
      Safe context members items document ∧ Replayable context members items document ∧
      TraceOf platform context document trace := by
  by_cases hno : ∀ json bytes members items document, text = some json →
    ¬ Accepted bytes json members items document
  · obtain ⟨found, hfound⟩ := decodeItf_of_not_accepted platform context hno
    rw [hfound] at h
    cases Except.ok.inj h
  · simp only [not_forall, not_not] at hno
    obtain ⟨json, bytes, members, items, document, rfl, ha⟩ := hno
    have hsettles := ha.settles platform context
    have hsafe := hsettles.answers_iff.mp ⟨_, h⟩
    obtain ⟨result, hresult, hdecoded⟩ := hsettles.1 hsafe
    rw [hresult] at h
    obtain rfl := Except.ok.inj h
    rcases hdecoded with ⟨hready, decoded, hok, htrace⟩ | ⟨_, found, hfound⟩
    · obtain rfl := Except.ok.inj hok
      exact ⟨json, bytes, members, items, document, rfl, ha, hsafe, hready, htrace⟩
    · cases hfound

/-- A replayable document is decoded. -/
theorem Accepted.decodes {platform : Platform} {context : QuintItfDecodeContext}
    {bytes : ByteArray} {text : UString} {members : List (UString × JsonElement)}
    {items : List JsonElement} {document : ItfDocument}
    (h : Accepted bytes text members items document) (hsafe : Safe context members items document)
    (hready : Replayable context members items document) :
    ∃ trace, decodeItf platform context (some text) = .ok (.ok trace) ∧
      TraceOf platform context document trace := by
  obtain ⟨result, hresult, hdecoded⟩ := (h.settles platform context).1 hsafe
  rcases hdecoded with ⟨_, trace, rfl, htrace⟩ | ⟨hnot, _⟩
  · exact ⟨trace, hresult, htrace⟩
  · exact absurd hready hnot

/-! ## Agreement -/

/-- A document in the replay subset, with the metadata that the replay decoder wants. -/
structure ReplaySubset (members : List (UString × JsonElement)) (document : ItfDocument) : Prop where
  plain : ∀ bindings ∈ document.states, ∀ b ∈ bindings, Plain b.2
  keys : ∀ bindings ∈ document.states, ∀ b ∈ bindings, BlankFree b.2
  within : ∀ items, (lit "states", .array items) ∈ members → ∀ fields, .object fields ∈ items →
    ∀ name ∈ document.variableNames, ∀ field, (name, field) ∈ fields → WithinInt64 field
  metadata : ReplayMetadata members
  index : ∀ items, (lit "states", .array items) ∈ members → ∀ fields, .object fields ∈ items → IndexMetadata fields

/-- A context with a valid environment, and with one valid binding for each transition, in order. -/
structure ContextFor (context : QuintItfDecodeContext) (document : ItfDocument) : Prop where
  environment : ValidEnvironment context.environment
  count : context.steps.length + 1 = document.states.length
  steps : ∀ (i : Nat) (h : i < context.steps.length), ValidBinding i context.steps[i]

/-- The states of a document, item by item. -/
theorem forall₂_states {members : List (UString × JsonElement)} {items : List JsonElement}
    {document : ItfDocument} (h : DocumentOf defaultLimits members items document) :
    List.Forall₂ (fun item bindings => item ∈ items ∧ bindings ∈ document.states ∧
      ∃ i fields, item = .object fields ∧ StateOf document.variableNames i fields bindings)
        items document.states := by
  rw [List.forall₂_iff_get]
  refine ⟨h.stateCount, fun i hi hb => ?_⟩
  obtain ⟨fields, hfields, hstate⟩ :=
    h.state i items[i] document.states[i] (List.getElem?_eq_getElem hi)
    (List.getElem?_eq_getElem hb)
  exact ⟨List.getElem_mem hi, List.getElem_mem hb, i, fields, hfields, hstate⟩

/-- The names of the bindings of a state are the variables, in their order. -/
theorem Itf.StateOf.names {names : List UString} {i : Nat} {fields : List (UString × JsonElement)}
    {bindings : List (UString × ItfValue)} (h : StateOf names i fields bindings) :
    bindings.map Prod.fst = names := by
  have hnames := map_eq_map_iff.mpr (h.bound.imp fun name b hb => show id name = b.1 from hb.1.symm)
  rw [List.map_id] at hnames
  exact hnames.symm

/-- The metadata that is wanted is read without an exception. -/
theorem ReplayMetadata.legible {limit : Int} {members : List (UString × JsonElement)}
    (h : ReplayMetadata members) (hb : Bounded limit (.object members)) :
    StatusLegible members := by
  obtain ⟨metadata, hmem, _, _, hok⟩ := h
  intro other hother s hs
  -- no key is repeated, so there is one metadata and one status
  have hsame := List.inj_on_of_nodup_map hb.2.1 hother hmem rfl
  obtain rfl := JsonElement.object.inj (Prod.mk.inj hsame).2
  have hbounded : Bounded limit (.object other) := boundedFields_iff.mp hb.2.2 _ hmem
  have hstatus := List.inj_on_of_nodup_map hbounded.2.1 hs hok rfl
  rw [JsonElement.string.inj (Prod.mk.inj hstatus).2]
  decide

/-- In the subset, and under a context for it, nothing stands in the way of the decoder. -/
theorem Accepted.ready {context : QuintItfDecodeContext} {bytes : ByteArray} {text : UString}
    {members : List (UString × JsonElement)} {items : List JsonElement} {document : ItfDocument}
    (h : Accepted bytes text members items document) (hs : ReplaySubset members document)
    (hc : ContextFor context document) :
    Safe context members items document ∧ Replayable context members items document := by
  have hstates := forall₂_states h.grammar
  constructor
  · refine ⟨hs.metadata.legible h.bounded, hstates.imp ?_, hc.environment.encodable,
      fun _ b hb => ?_⟩
    · rintro item bindings ⟨_, hbindings, _⟩ fields _ b hb _
      exact hs.keys bindings hbindings b hb
    · obtain ⟨i, hi, rfl⟩ := List.mem_iff_getElem.mp hb
      exact ⟨(hc.steps i hi).action.ne_none, (hc.steps i hi).source.path.ne_none⟩
  · refine ⟨hs.metadata, hstates.imp ?_, hc.count, hc.environment, hc.steps⟩
    rintro item bindings ⟨hitem, hbindings, i, fields, rfl, hstate⟩
    refine ⟨fields, rfl, hs.index items h.grammar.states fields hitem,
      fun b hb => ⟨?_, hs.plain bindings hbindings b hb⟩⟩
    have hname : b.1 ∈ document.variableNames := hstate.names ▸ List.mem_map_of_mem hb
    exact hs.within items h.grammar.states fields hitem b.1 hname

/-- **The replay decoder and the raw decoder agree.**  A trace shows the document that the raw decoder
    reads from the same text, state by state, under the bindings of the context; and every document of
    the replay subset is decoded under every context for it. -/
theorem decodeItf_agrees (platform : Platform) (context : QuintItfDecodeContext) :
    (∀ text trace, decodeItf platform context text = .ok (.ok trace) → ∃ json bytes document, text = some json ∧
      getBytes json = some bytes ∧ read defaultLimits (some bytes) = .ok (.ok document) ∧
      trace.steps.length + 1 = document.states.length ∧ List.Forall₂ Carries context.steps trace.steps ∧
      List.Forall₂ (fun bindings s => imageFields bindings = some s.bindings) document.states (traceStates trace) ∧
      ∀ bindings ∈ document.states, bindings.map Prod.fst = document.variableNames ∧ ∀ b ∈ bindings, Plain b.2) ∧
    (∀ json bytes members document, getBytes json = some bytes →
      read defaultLimits (some bytes) = .ok (.ok document) → parse defaultMaxDepth json = some (.object members) →
      ReplaySubset members document → ContextFor context document →
      ∃ trace, decodeItf platform context (some json) = .ok (.ok trace)) := by
  constructor
  -- what a trace was decoded from has been accepted by the guard, which is the raw decoder
  · intro text trace h
    obtain ⟨json, bytes, members, items, document, rfl, ha, _, hready, htrace⟩ := decodeItf_trace h
    have hread := (read_defaultLimits_iff ha.encoded).mpr ⟨members, items, ha⟩
    refine ⟨json, bytes, document, rfl, ha.encoded, hread, ?_, htrace.steps, htrace.states, ?_⟩
    · rw [← htrace.steps.length_eq]
      exact hready.count
    · intro bindings hbindings
      obtain ⟨item, _, hitem, _, i, fields, rfl, hstate⟩ :=
        forall₂_mem_right (forall₂_states ha.grammar) bindings hbindings
      refine ⟨hstate.names, fun b hb => ?_⟩
      obtain ⟨s, _, himage⟩ := forall₂_mem_left htrace.states bindings hbindings
      obtain ⟨g, _, _, hg⟩ := forall₂_mem_left (imageFields_eq_some_iff.mp himage) b hb
      exact plain_iff.mpr ⟨g.2, hg⟩
  · intro json bytes members document hbytes hread hparse hsubset hcontext
    obtain ⟨found, items, ha⟩ := (read_defaultLimits_iff hbytes).mp hread
    obtain rfl : found = members := JsonElement.object.inj
      (Option.some.inj (ha.parsed.symm.trans hparse))
    obtain ⟨hsafe, hready⟩ := ha.ready hsubset hcontext
    obtain ⟨trace, htrace, _⟩ := ha.decodes hsafe hready
    exact ⟨trace, htrace⟩

/-- What the replay subset asks of a tree and its value. -/
structure Replayed (x : JsonElement) (v : ItfValue) : Prop extends Given x v where
  within : WithinInt64 x
  plain : Plain v
  blankFree : BlankFree v

/-- A document of such trees is in the replay subset. -/
theorem replaySubset_items {xs : List JsonElement} {vs : List ItfValue} {bytes : ByteArray}
    {text : UString} (h : List.Forall₂ Replayed xs vs)
    (ha : Accepted bytes text (rootOf (itemsOf xs)) (itemsOf xs) (documentOf vs)) :
    ReplaySubset (rootOf (itemsOf xs)) (documentOf vs) := by
  -- there is one list of states
  have hfields : ∀ items, (lit "states", .array items) ∈ rootOf (itemsOf xs) →
      ∀ fields, .object fields ∈ items → ∃ (i : Nat) (x : JsonElement), x ∈ xs ∧
        fields = [(lit "#meta", .object [(lit "index", .number (decimal i))]), (lit "x", x)] := by
    intro items hitems fields hmem
    have hsame := List.inj_on_of_nodup_map ha.bounded.2.1 hitems ha.grammar.states rfl
    obtain rfl := JsonElement.array.inj (Prod.mk.inj hsame).2
    obtain ⟨i, x, hx, hitem⟩ := mem_itemsOf hmem
    exact ⟨i, x, hx, JsonElement.object.inj hitem⟩
  have hvalues : ∀ bindings ∈ (documentOf vs).states, ∀ b ∈ bindings, ∃ x ∈ xs, Replayed x b.2 := by
    intro bindings hbindings b hb
    obtain ⟨v, hv, rfl⟩ := List.mem_map.mp hbindings
    rw [List.mem_singleton.mp hb]
    exact forall₂_mem_right h v hv
  constructor
  · intro bindings hbindings b hb
    obtain ⟨x, _, hx⟩ := hvalues bindings hbindings b hb
    exact hx.plain
  · intro bindings hbindings b hb
    obtain ⟨x, _, hx⟩ := hvalues bindings hbindings b hb
    exact hx.blankFree
  · intro items hitems fields hmem name hname field hfield
    obtain ⟨i, x, hx, rfl⟩ := hfields items hitems fields hmem
    obtain ⟨v, _, hreplayed⟩ := forall₂_mem_left h x hx
    rw [List.mem_singleton.mp hname] at hfield
    simp only [List.mem_cons, Prod.mk.injEq, List.not_mem_nil, or_false,
      show lit "x" ≠ lit "#meta" by decide,
      false_and, true_and, false_or] at hfield
    rw [hfield]
    exact hreplayed.within
  · refine ⟨_, List.mem_cons_self, fun name => Iff.rfl, List.mem_cons_self, ?_⟩
    simp
  · intro items hitems fields hmem
    obtain ⟨i, x, _, rfl⟩ := hfields items hitems fields hmem
    exact ⟨_, List.mem_cons_self, fun name => Iff.rfl⟩

/-- The set of the integers 1 and 2. -/
def pairTree : JsonElement := .object [(lit "#set", .array [.number "1", .number "2"])]

/-- The set is in the replay subset. -/
theorem replayed_pairTree : Replayed pairTree (.set [.integer 1, .integer 2]) where
  writable := ⟨trivial, ⟨numberToken_decimal 1, numberToken_decimal 2, trivial⟩, trivial⟩
  low := by decide
  wellFormed := ⟨by decide, ⟨trivial, trivial, trivial⟩, trivial⟩
  bounded := by
    simp only [pairTree, Bounded, BoundedFields, BoundedItems]
    decide
  denotes := by
    refine .set (.cons (.number rfl) (.cons (.number rfl) .nil)) ?_
    simp [ItfEquiv]
  within := by
    refine ⟨⟨fun n hn => ?_, fun n hn => ?_, trivial⟩, trivial⟩
    · obtain rfl : (1 : Int) = n := Option.some.inj hn
      decide
    · obtain rfl : (2 : Int) = n := Option.some.inj hn
      decide
  plain := ⟨trivial, trivial, trivial⟩
  blankFree := ⟨trivial, trivial, trivial⟩

/-- The guard accepts the document in which `x` is this set. -/
theorem accepted_pairTree :
    Accepted (getBytesLossy (oneText (.number "0") pairTree)) (oneText (.number "0") pairTree)
    (oneMembers (.number "0") pairTree) [oneItem (.number "0") pairTree]
      (oneDocument (.set [.integer 1, .integer 2])) :=
  accepted_one replayed_pairTree.toGiven (getBytes_eq_lossy (by decide +kernel)) (by decide +kernel)

/-- And the document is in the replay subset. -/
theorem replaySubset_pairTree :
    ReplaySubset (oneMembers (.number "0") pairTree)
      (oneDocument (.set [.integer 1, .integer 2])) := by
  have hsubset := replaySubset_items (.cons replayed_pairTree .nil)
    (itemsOf_singleton pairTree ▸ accepted_pairTree)
  rw [itemsOf_singleton] at hsubset
  exact hsubset

/-- Without steps the context is for every document with one state. -/
theorem contextFor_oneContext (v : ItfValue) : ContextFor oneContext (oneDocument v) :=
  ⟨validEnvironment_sampleEnvironment, rfl, fun i hi => absurd hi (Nat.not_lt_zero i)⟩

/-- A context for a document with one transition. -/
def stepContext : QuintItfDecodeContext where
  environment := sampleEnvironment
  steps := [{ index := 1, action := "increment", source := sampleSource }]

/-- It is for every document with two states. -/
theorem contextFor_stepContext (v w : ItfValue) : ContextFor stepContext (documentOf [v, w]) where
  environment := validEnvironment_sampleEnvironment
  count := rfl
  steps i hi := by
    obtain rfl : i = 0 := Nat.lt_one_iff.mp hi
    have haction : ValidName (some (lit "increment")) := ⟨by decide, by decide⟩
    exact ⟨rfl, haction, validSource_sampleSource⟩

/-- The number 3. -/
def threeTree : JsonElement := .number "3"

/-- And so is the number. -/
theorem replayed_threeTree : Replayed threeTree (.integer 3) where
  writable := numberToken_decimal 3
  low := by decide
  wellFormed := trivial
  bounded := trivial
  denotes := .number rfl
  within n hn := by
    obtain rfl : (3 : Int) = n := Option.some.inj hn
    decide
  plain := trivial
  blankFree := trivial

/-- A transition from a set of two integers to an integer. -/
theorem decodeItf_agrees_sample :
    ∃ trace, decodeItf samplePlatform stepContext (some (textOf (itemsOf [pairTree, threeTree]))) =
      .ok (.ok trace) := by
  have htrees : List.Forall₂ Replayed [pairTree, threeTree]
      [.set [.integer 1, .integer 2], .integer 3] :=
    .cons replayed_pairTree (.cons replayed_threeTree .nil)
  have haccepted := accepted_items (htrees.imp fun _ _ h => h.toGiven) (List.cons_ne_nil _ _)
    (show ((2 : Nat) : Int) ≤ defaultLimits.maxStates by decide)
    (getBytes_eq_lossy (by decide +kernel)) (by decide +kernel)
  have hread := (read_defaultLimits_iff haccepted.encoded).mpr ⟨_, _, haccepted⟩
  exact (decodeItf_agrees samplePlatform stepContext).2 _ _ _ _ haccepted.encoded hread haccepted.parsed
    (replaySubset_items htrees haccepted) (contextFor_stepContext _ _)

end FsQuint
