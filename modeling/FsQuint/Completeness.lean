/-
  Validation is complete with respect to encoding.

  What is encoded has been validated before: no string that is null or ill-formed is ever handed to
  `escapeJson`, and the branch of `encodeStateUnchecked` for a value without an encoding is never
  taken.

  1. **Other primitives**: the encoders, the validation, the fingerprints, the offline comparison and
     the live replay are written over any `Primitives`.  These may do anything at all where they are not
     supposed to be used: raise an alarm, for instance (`alarmed`), which nothing would catch.
  2. **What is well formed is written alike**: the encoder checks every string before it is written
     (`encodeAt_eq`), so that findings do not depend on the primitives either.
  3. **What has been validated is written alike** (`encodeStateUnchecked_eq`, `encodeTraceUnchecked_eq`):
     validation covers every string that an unchecked encoder prints.
  4. **Completeness** (`validation_complete`): an encoding exists exactly for what validation accepts,
     and no operation notices which primitives it runs with, the whole of a live replay included.
-/
import FsQuint.OfflineComparison
import FsQuint.Replay
import FsQuint.Sealing
import FsQuint.TraceIdentity

set_option linter.unusedVariables false

namespace FsQuint

open Utf16 Collections Decimal Json Unordered ReplayInternal QuintReplay

/-! ## Other primitives -/

/-- Primitives that raise the given alarms when they are used where they should not be. -/
abbrev alarmed (escaped reached : Exn) : Primitives where
  escapeJson
    | none => throw escaped
    | some s => if validUnicode s then ReplayInternal.escapeJson (some s) else throw escaped
  invalidOp := throw reached
  wellFormed h := if_pos h

/-- An alarm is heard where nothing has been validated. -/
example (escaped reached : Exn) : @encodeSource (alarmed escaped reached) ⟨none, 1, 1⟩ = .error escaped := rfl

namespace ReplayInternal.Primitives

variable {p : Primitives} {platform : Platform}

/-! ## What is well formed is written alike -/

/-- A name that is there and well-formed is escaped in one way. -/
theorem escapeJson_eq {name : NString} (h : ∀ s, name = some s → validUnicode s = true)
    (hne : name ≠ none) : p.escapeJson name = source.escapeJson name := by
  cases name with
  | none => exact absurd rfl hne
  | some s => exact p.wellFormed (h s rfl)

/-- A name that passes validation is written alike. -/
theorem escapeJson_validName {name : NString} (h : ValidName name) :
    p.escapeJson name = source.escapeJson name := by
  refine escapeJson_eq (fun s hs => ?_) h.ne_none
  subst hs
  exact h.2

/-- And so is a fingerprint. -/
theorem escapeJson_fingerprint {value : NString} (h : isLowerSha256 value = true) :
    p.escapeJson value = source.escapeJson value := by
  refine escapeJson_eq (fun s hs => ?_) (ne_none_of_isLowerSha256 h)
  subst hs
  exact validUnicode_of_isLowerSha256 h

/-- Traversals that agree item by item. -/
theorem mapM_congr {α β : Type} {f g : α → Outcome β} :
    ∀ {xs : List α}, (∀ x ∈ xs, f x = g x) → xs.mapM f = xs.mapM g
  | [], _ => rfl
  | x :: xs, h => by
    rw [List.mapM_cons, List.mapM_cons, h x List.mem_cons_self,
      mapM_congr fun y hy => h y (List.mem_cons_of_mem x hy)]

mutual

/-- **The encoder does not notice**: it checks every string before it is written. -/
theorem encodeAt_eq : ∀ (path : UString) (v : QuintReplayValue), @encodeAt p path v = @encodeAt source path v
  | _, .null => rfl
  | _, .boolean true => rfl
  | _, .boolean false => rfl
  | _, .integer _ => by simp only [encodeAt]
  | _, .text none => rfl
  | path, .text (some s) => by
    simp only [encodeAt]
    by_cases h : validUnicode s = true
    · rw [p.wellFormed h, source.wellFormed h]
    · simp only [h, Bool.not_false, if_true]
  | path, .sequence xs => by simp only [encodeAt, encodeItems_eq path 0 xs]
  | path, .set xs => by simp only [encodeAt, encodeItems_eq path 0 xs]
  | path, .record fs => by
    simp only [encodeAt]
    by_cases hn : ∀ name ∈ fs.map Prod.fst, ValidName name
    · rw [encodeFields_eq path fs fun f hf => hn f.1 (List.mem_map_of_mem hf)]
    · have hd : duplicates (fs.map Prod.fst) ≠ [] ∨ keyDiagnostics path (fs.map Prod.fst) ≠ [] :=
        .inr fun h => hn (keyDiagnostics_eq_nil.mp h)
      simp only [if_pos hd]

/-- So are the items of a sequence. -/
theorem encodeItems_eq : ∀ (path : UString) (index : Nat) (xs : List QuintReplayValue),
    @encodeItems p path index xs = @encodeItems source path index xs
  | _, _, [] => rfl
  | path, index, x :: xs => by
    simp only [encodeItems, encodeAt_eq (indexed path index) x, encodeItems_eq path (index + 1) xs]

/-- So are the fields of a record, whose names are valid. -/
theorem encodeFields_eq : ∀ (path : UString) (fs : List (NString × QuintReplayValue)),
    (∀ f ∈ fs, ValidName f.1) → @encodeFields p path fs = @encodeFields source path fs
  | _, [], _ => rfl
  | path, (name, x) :: fs, hn => by
    have hname : p.escapeJson name = source.escapeJson name :=
      escapeJson_validName (hn (name, x) List.mem_cons_self)
    simp only [encodeFields, encodeAt_eq (path ++ lit "." ++ printed name) x,
      encodeFields_eq path fs fun f hf => hn f (List.mem_cons_of_mem _ hf), hname]

end

/-- The findings about the values of a state are the same. -/
theorem bindingDiagnostics_eq (path : UString) : ∀ (index : Nat) (values : List QuintReplayValue),
    @bindingDiagnostics p path index values = @bindingDiagnostics source path index values
  | _, [] => rfl
  | index, value :: values => by
    simp only [bindingDiagnostics, encodeAt_eq, bindingDiagnostics_eq path (index + 1) values]

/-- The checks of a state’s content reach none of the cases in which primitives differ. -/
theorem validateStateContent_eq (path : UString) (state : QuintReplayState) :
    @validateStateContent p path state = @validateStateContent source path state := by
  simp only [validateStateContent, bindingDiagnostics_eq]

/-! ## What has been validated is written alike -/

/-- Nor does the encoding of a binding that has passed them. -/
theorem encodeBindingUnchecked_eq {binding : NString × QuintReplayValue}
    (hn : ValidName binding.1) (hv : Valid binding.2) :
    @encodeBindingUnchecked p binding = @encodeBindingUnchecked source binding := by
  rcases encodeAt_spec "$.bindings" binding.2 with ⟨-, he⟩ | ⟨hv', -⟩
  · simp only [encodeBindingUnchecked, encodeAt_eq, he, ok_bind, escapeJson_validName hn]
  · exact absurd hv hv'

/-- A state whose content is valid is written alike. -/
theorem encodeStateUnchecked_eq {state : QuintReplayState} (h : ValidContent state) :
    @encodeStateUnchecked p state = @encodeStateUnchecked source state := by
  have hbindings : (sortOn ordinal.nullFirst Prod.fst state.bindings).mapM (@encodeBindingUnchecked p) =
      (sortOn ordinal.nullFirst Prod.fst state.bindings).mapM (@encodeBindingUnchecked source) := by
    refine mapM_congr fun binding hb => encodeBindingUnchecked_eq ?_ ?_
    · exact h.1.2 binding.1 (List.mem_map_of_mem (mem_sortOn.mp hb))
    · exact validFields_iff.mp h.2 binding (mem_sortOn.mp hb)
  simp only [encodeStateUnchecked, hbindings]

/-- Nor that of a valid source binding. -/
theorem encodeSource_eq {binding : QuintReplaySourceBinding} (h : ValidName binding.path) :
    @encodeSource p binding = @encodeSource source binding := by
  simp only [encodeSource, escapeJson_validName h]

/-- Nor that of a valid environment. -/
theorem encodeEnvironment_eq {environment : QuintReplayEnvironment} (h : ValidEnvironment environment) :
    @encodeEnvironment p environment = @encodeEnvironment source environment := by
  have hbounds : (sortOn ordinal.nullFirst Prod.fst environment.bounds).mapM (fun bound =>
        (do return (← p.escapeJson bound.1) ++ 0x3A :: decimal bound.2 : Outcome UString)) =
      (sortOn ordinal.nullFirst Prod.fst environment.bounds).mapM fun bound =>
        (do return (← source.escapeJson bound.1) ++ 0x3A :: decimal bound.2 : Outcome UString) := by
    refine mapM_congr fun bound hb => ?_
    rw [escapeJson_validName (h.bounds.2 bound.1 (List.mem_map_of_mem (mem_sortOn.mp hb)))]
  simp only [encodeEnvironment, hbounds, escapeJson_validName h.seed,
    escapeJson_fingerprint h.toolFingerprint, escapeJson_fingerprint h.profileFingerprint,
    escapeJson_fingerprint h.contractFingerprint, escapeJson_fingerprint h.adapterFingerprint,
    escapeJson_fingerprint h.implementationFingerprint]

/-- Nor that of a valid step. -/
theorem encodeStep_eq {ordinal : Nat} {step : QuintReplayStep} (h : ValidStep platform ordinal step) :
    @encodeStep p step = @encodeStep source step := by
  simp only [encodeStep, escapeJson_validName h.action, encodeSource_eq h.source.path,
    encodeStateUnchecked_eq h.expected.content]

/-- A trace whose structure is valid is written alike: validation covers every string in it. -/
theorem encodeTraceUnchecked_eq {trace : QuintReplayTrace} (h : ValidStructure platform trace) :
    @encodeTraceUnchecked p trace = @encodeTraceUnchecked source trace := by
  have hsteps : trace.steps.mapM (@encodeStep p) = trace.steps.mapM (@encodeStep source) := by
    refine mapM_congr fun step hs => ?_
    obtain ⟨i, hi, rfl⟩ := List.mem_iff_getElem.mp hs
    exact encodeStep_eq (h.steps i hi)
  simp only [encodeTraceUnchecked, hsteps, encodeEnvironment_eq h.environment,
    encodeStateUnchecked_eq h.initial.content]

/-! ## The operations -/

variable (platform)

/-- **The validation of a state** is the same for all primitives. -/
theorem validateState_eq (path : UString) (state : QuintReplayState) :
    @validateState p platform path state = @validateState source platform path state := by
  obtain ⟨content, hc, hspec⟩ := validateStateContent_spec path state
  simp only [validateState, validateStateContent_eq, hc, ok_bind]
  by_cases hnil : content = []
  · simp only [ReplayInternal.stateFingerprint, encodeStateUnchecked_eq (hspec.mp hnil)]
  · simp only [if_neg hnil]

/-- **So is its encoding.** -/
theorem encodeState_eq (state : QuintReplayState) :
    @QuintReplay.encodeState platform p state = @QuintReplay.encodeState platform source state := by
  obtain ⟨found, hf, hspec⟩ := validateState_spec platform "$" state
  simp only [encodeState, validateState_eq, hf, ok_bind]
  cases found with
  | cons d ds => rfl
  | nil => simp only [encodeStateUnchecked_eq (hspec.mp rfl).content]

/-- **So is its fingerprint.** -/
theorem stateFingerprint_eq (state : QuintReplayState) :
    @QuintReplay.stateFingerprint platform p state = @QuintReplay.stateFingerprint platform source state := by
  obtain ⟨found, hf, hspec⟩ := validateStateContent_spec "$" state
  simp only [QuintReplay.stateFingerprint, validateStateContent_eq, hf, ok_bind]
  cases found with
  | cons d ds => rfl
  | nil => simp only [ReplayInternal.stateFingerprint, encodeStateUnchecked_eq (hspec.mp rfl)]

/-- So are the diagnostics of steps. -/
theorem stepDiagnostics_eq : ∀ (ordinal : Nat) (steps : List QuintReplayStep),
    @stepDiagnostics platform p ordinal steps = @stepDiagnostics platform source ordinal steps
  | _, [] => rfl
  | ordinal, step :: steps => by
    simp only [stepDiagnostics, validateState_eq, stepDiagnostics_eq (ordinal + 1) steps]

/-- So are those of a trace. -/
theorem structuralDiagnostics_eq (trace : QuintReplayTrace) :
    @structuralDiagnostics platform p trace = @structuralDiagnostics platform source trace := by
  simp only [structuralDiagnostics, stepDiagnostics_eq, validateState_eq]

/-- **The validation of a trace** is the same for all primitives. -/
theorem validateTrace_eq (trace : QuintReplayTrace) :
    @validateTrace platform p trace = @validateTrace platform source trace := by
  obtain ⟨structural, hs, hspec⟩ := structuralDiagnostics_spec platform trace
  simp only [validateTrace, structuralDiagnostics_eq, hs, ok_bind]
  cases structural with
  | cons d ds => rfl
  | nil => simp only [ReplayInternal.traceFingerprint, encodeTraceUnchecked_eq (hspec.mp rfl)]

/-- **So is its fingerprint.** -/
theorem traceFingerprint_eq (trace : QuintReplayTrace) :
    @QuintReplay.traceFingerprint platform p trace = @QuintReplay.traceFingerprint platform source trace := by
  obtain ⟨found, hf, hspec⟩ := filter_placeholder platform trace
  have hplaceholder : ({ trace with traceIdentity := zeroIdentity } : QuintReplayTrace) = placeholder trace := rfl
  simp only [QuintReplay.traceFingerprint, hplaceholder, validateTrace_eq, hf, ok_bind]
  split
  · next hnil =>
    simp only [ReplayInternal.traceFingerprint, encodeTraceUnchecked_eq (hspec.mp hnil)]
  · rfl

/-- So are the diagnostics of observations. -/
theorem observationDiagnostics_eq : ∀ (ordinal : Nat) (observations : List QuintReplayObservation),
    @observationDiagnostics platform p ordinal observations =
      @observationDiagnostics platform source ordinal observations
  | _, [] => rfl
  | ordinal, observation :: observations => by
    simp only [observationDiagnostics, validateState_eq, observationDiagnostics_eq (ordinal + 1) observations]

variable {platform} in
/-- Both sides have been validated when they are compared. -/
theorem first_eq :
    ∀ {steps : List QuintReplayStep} {observations : List QuintReplayObservation} {k : Nat},
    (∀ (i : Nat) (h : i < steps.length), ValidStep platform (k + i) steps[i]) →
    (∀ (i : Nat) (h : i < observations.length), ValidObservation platform (k + i) observations[i]) →
    @first p steps observations = @first source steps observations
  | [], [], _, _, _ => rfl
  | _ :: _, [], _, _, _ => rfl
  | [], _ :: _, _, _, _ => rfl
  | step :: steps, observation :: observations, k, hs, ho => by
    obtain ⟨hstep, hsteps⟩ := forall_from_cons_iff.mp hs
    obtain ⟨hobservation, hobservations⟩ := forall_from_cons_iff.mp ho
    simp only [first, encodeStateUnchecked_eq hstep.expected.content,
      encodeStateUnchecked_eq hobservation.actual.content, first_eq hsteps hobservations]

/-- **So is the offline comparison.** -/
theorem compare_eq (trace : QuintReplayTrace) (observations : List QuintReplayObservation) :
    @QuintReplay.compare platform p trace observations =
      @QuintReplay.compare platform source trace observations := by
  obtain ⟨found, hf, hspec⟩ := validateTrace_spec platform trace
  obtain ⟨found', hf', hspec'⟩ := @observationDiagnostics_spec platform 0 observations
  simp only [QuintReplay.compare, validateTrace_eq, observationDiagnostics_eq, hf, ok_bind, hf']
  cases hall : sortDiagnostics (found ++ sortDiagnostics found') with
  | cons d ds => rfl
  | nil =>
    rw [sortDiagnostics_eq_nil, List.append_eq_nil_iff, sortDiagnostics_eq_nil] at hall
    have hsteps : ∀ (i : Nat) (h : i < trace.steps.length), ValidStep platform (0 + i) trace.steps[i] := by
      simpa only [Nat.zero_add] using (hspec.mp hall.1).steps
    simp only [first_eq hsteps (hspec'.mp hall.2)]

/-! ## The live replay -/

variable {ρ : Type} (cancellation : Cancellation ρ) (driver : ReplayDriver ρ)

/-- So is the search for the binding that differs. -/
theorem firstDiffering_eq (expected actual : QuintReplayState) : ∀ names : List NString,
    @Replay.firstDiffering p expected actual names = @Replay.firstDiffering source expected actual names
  | [] => rfl
  | name :: names => by
    have hencoded : @Replay.encoded p = @Replay.encoded source := by
      funext name bindings
      simp only [Replay.encoded, encodeValue, encodeAt_eq]
    simp only [Replay.firstDiffering, hencoded, firstDiffering_eq expected actual names]

/-- The comparison of two states in a session is the same computation. -/
theorem compareStates_eq (expected : QuintReplayState) (action : Option NString)
    (origin : Option QuintReplaySourceBinding) (actual : QuintReplayState) :
    (@Replay.compareStates ρ platform p expected action origin actual : Session ρ Unit) =
      @Replay.compareStates ρ platform source expected action origin actual := by
  simp only [Replay.compareStates, encodeState_eq, Replay.differingPath, firstDiffering_eq]

/-- A step of the live replay is the same. -/
theorem applyStep_eq (value : ρ) (step : QuintReplayStep) :
    @Replay.applyStep ρ platform cancellation driver p value step =
      @Replay.applyStep ρ platform cancellation driver source value step := by
  simp only [Replay.applyStep, Replay.observe, compareStates_eq]

/-- So are all of its steps. -/
theorem applySteps_eq (value : ρ) : ∀ steps : List QuintReplayStep,
    @Replay.applySteps ρ platform cancellation driver p value steps =
      @Replay.applySteps ρ platform cancellation driver source value steps
  | [] => rfl
  | step :: steps => by
    simp only [Replay.applySteps, applyStep_eq, applySteps_eq value steps]

/-- **A whole run does not notice**, whatever the driver and the cancellation do. -/
theorem run_eq (timeout : Int) (trace : QuintReplayTrace) :
    @Replay.run ρ platform cancellation driver p timeout trace =
      @Replay.run ρ platform cancellation driver source timeout trace := by
  simp only [Replay.run, Replay.final, Replay.guarded, Replay.body, Replay.observe, validateTrace_eq,
    compareStates_eq, applySteps_eq]

end ReplayInternal.Primitives

/-! ## Completeness -/

/-- Nothing is noticed of the primitives: each function that uses them does the same as with those of the
    source, on every input. -/
structure Unnoticed (platform : Platform) (p : Primitives) : Prop where
  encodeAt : ∀ path v, @encodeAt p path v = @encodeAt .source path v
  validateState : ∀ path state, @validateState p platform path state = @validateState .source platform path state
  encodeState : ∀ state, @QuintReplay.encodeState platform p state = @QuintReplay.encodeState platform .source state
  stateFingerprint : ∀ state,
    @QuintReplay.stateFingerprint platform p state = @QuintReplay.stateFingerprint platform .source state
  validateTrace : ∀ trace, @QuintReplay.validateTrace platform p trace = @QuintReplay.validateTrace platform .source trace
  traceFingerprint : ∀ trace,
    @QuintReplay.traceFingerprint platform p trace = @QuintReplay.traceFingerprint platform .source trace
  compare : ∀ trace observations,
    @QuintReplay.compare platform p trace observations = @QuintReplay.compare platform .source trace observations
  compareStates : ∀ {ρ : Type} expected action origin actual,
    (@Replay.compareStates ρ platform p expected action origin actual : Session ρ Unit) =
      @Replay.compareStates ρ platform .source expected action origin actual
  run : ∀ {ρ : Type} (cancellation : Cancellation ρ) (driver : ReplayDriver ρ) timeout trace,
    @Replay.run ρ platform cancellation driver p timeout trace =
      @Replay.run ρ platform cancellation driver .source timeout trace

/-- **Validation is complete with respect to encoding.**  A value is encoded exactly when it is valid,
    under every path and to one text; and no operation uses `escapeJson` on a string that is null or
    ill-formed, or gets to the failing branch, whatever these might do. -/
theorem validation_complete (platform : Platform) :
    (∀ path v, (∃ text, encodeAt path v = .ok (.ok text)) ↔ Valid v) ∧
    (∀ path v, Valid v → encodeAt path v = .ok (.ok (valueText v))) ∧
    ∀ p : Primitives, Unnoticed platform p := by
  refine ⟨fun path v => ?_, fun path v hv => ?_, fun p => ?_⟩
  · rcases encodeAt_spec path v with ⟨hv, he⟩ | ⟨hv, found, hne, he⟩
    · exact iff_of_true ⟨_, he⟩ hv
    · refine iff_of_false ?_ hv
      rintro ⟨text, ht⟩
      rw [he] at ht
      cases ht
  · rcases encodeAt_spec path v with ⟨-, he⟩ | ⟨hv', -⟩
    · exact he
    · exact absurd hv hv'
  · exact ⟨Primitives.encodeAt_eq, Primitives.validateState_eq platform, Primitives.encodeState_eq platform,
      Primitives.stateFingerprint_eq platform, Primitives.validateTrace_eq platform,
      Primitives.traceFingerprint_eq platform, Primitives.compare_eq platform,
      Primitives.compareStates_eq platform, Primitives.run_eq platform⟩

end FsQuint
