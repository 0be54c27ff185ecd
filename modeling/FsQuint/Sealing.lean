/-
  Sealing and validation agree.

  A state or a trace is sealed by giving it the fingerprint that is computed for it as its identity.
  A trace is fingerprinted by validating it under a placeholder and passing over the one finding that
  the placeholder earns.

  1. **The finding that is passed over** (`Untagged`): nothing but the last check of validation gives
     it, so that a structural defect is never passed over.
  2. **States and traces** (`stateFingerprint_spec`, `traceFingerprint_spec`): a fingerprint is answered
     for what is valid but for its identity.
  3. **The agreement** (`sealing`).
-/
import FsQuint.TraceEncoding

set_option linter.unusedVariables false

namespace FsQuint

open Utf16 Collections Decimal Json Unordered ReplayInternal QuintReplay

/-! ## The finding that is passed over -/

/-- None of the findings is the one that `traceFingerprint` passes over. -/
def Untagged (found : List QuintReplayDiagnostic) : Prop :=
  ∀ finding ∈ found, finding.code ≠ lit "QRP-TRACE-FINGERPRINT"

/-- What a call comes back with is free of that finding. -/
def Returns {α : Type} (P : α → Prop) (x : Outcome α) : Prop := ∀ a, x = .ok a → P a

/-- A value that is returned at once. -/
theorem returns_pure {α : Type} {P : α → Prop} {a : α} (h : P a) : Returns P (pure a) :=
  fun b hb => Except.ok.inj hb ▸ h

/-- A computation after another. -/
theorem Returns.bind {α β : Type} {P : α → Prop} {Q : β → Prop} {x : Outcome α} {f : α → Outcome β}
    (hx : Returns P x) (hf : ∀ a, P a → Returns Q (f a)) : Returns Q (x >>= f) := by
  intro b hb
  obtain ⟨a, ha, hfa⟩ := bind_eq_ok.mp hb
  exact hf a (hx a ha) b hfa

/-- Where nothing was found nothing has the code. -/
theorem untagged_nil : Untagged [] := fun _ h => (nomatch h)

/-- Two lists of findings, one after the other. -/
theorem untagged_append {first second : List QuintReplayDiagnostic} :
    Untagged (first ++ second) ↔ Untagged first ∧ Untagged second :=
  List.forall_mem_append

/-- A finding with another code. -/
theorem untagged_singleton {code path message : UString} (h : code ≠ lit "QRP-TRACE-FINGERPRINT") :
    Untagged [diagnostic code path message] := by
  intro finding hf
  rw [List.mem_singleton.mp hf]
  exact h

/-- And one that is there on a condition. -/
theorem untagged_if {p : Prop} [Decidable p] {code path message : UString}
    (h : code ≠ lit "QRP-TRACE-FINGERPRINT") :
    Untagged (if p then [diagnostic code path message] else []) := by
  split
  · exact untagged_singleton h
  · exact untagged_nil

/-- Sorting adds no findings. -/
theorem untagged_sort {found : List QuintReplayDiagnostic} (h : Untagged found) :
    Untagged (sortDiagnostics found) := fun finding hf => h finding (mem_sortDiagnostics.mp hf)

/-- Lists of findings, list by list. -/
theorem untagged_flatten {lists : List (List QuintReplayDiagnostic)}
    (h : ∀ list ∈ lists, Untagged list) :
    Untagged lists.flatten := by
  intro finding hf
  obtain ⟨list, hl, hf⟩ := List.mem_flatten.mp hf
  exact h list hl finding hf

/-- Findings that are made position by position. -/
theorem untagged_mapIdx {α : Type} {f : Nat → α → List QuintReplayDiagnostic} {xs : List α}
    (h : ∀ i x, Untagged (f i x)) : Untagged (xs.mapIdx f).flatten := by
  refine untagged_flatten fun list hl => ?_
  obtain ⟨i, hi, rfl⟩ := List.mem_mapIdx.mp hl
  exact h i _

/-- Findings that are made from a list, one for each member. -/
theorem untagged_map {α : Type} {f : α → QuintReplayDiagnostic} {xs : List α}
    (h : ∀ x, (f x).code ≠ lit "QRP-TRACE-FINGERPRINT") : Untagged (xs.map f) := by
  intro finding hf
  obtain ⟨x, -, rfl⟩ := List.mem_map.mp hf
  exact h x

/-- The finding about the characters of a string has another code. -/
theorem untagged_unicode (path : UString) (name : NString) :
    Untagged (unicodeDiagnostics path name) := by
  unfold unicodeDiagnostics
  split
  · exact untagged_nil
  · split
    · exact untagged_nil
    · exact untagged_singleton (by decide)

/-- And so have those about names. -/
theorem untagged_names {blankCode duplicateCode path blank noun : UString} {names : List NString}
    (hb : blankCode ≠ lit "QRP-TRACE-FINGERPRINT")
    (hd : duplicateCode ≠ lit "QRP-TRACE-FINGERPRINT") :
    Untagged (nameDiagnostics blankCode duplicateCode path blank noun names) := by
  refine untagged_append.mpr ⟨untagged_mapIdx fun i name => ?_, untagged_map fun name => hd⟩
  exact untagged_append.mpr ⟨untagged_if hb, untagged_unicode _ _⟩

/-- And those about a source binding. -/
theorem untagged_source (path : UString) (source : QuintReplaySourceBinding) :
    Untagged (validateSource path source) := by
  unfold validateSource
  simp only [untagged_append, and_assoc]
  exact ⟨untagged_if (by decide), untagged_unicode _ _, untagged_if (by decide),
    untagged_if (by decide)⟩

/-- The findings of several results together. -/
theorem untagged_collect {α : Type} {results : List (Result α)}
    (h : ∀ result ∈ results, Untagged (findings result)) :
    Untagged (findings (collectDecoded results)) := by
  unfold collectDecoded
  dsimp only
  split
  · exact untagged_nil
  · refine untagged_sort fun finding hf => ?_
    obtain ⟨result, hr, hf⟩ := List.mem_flatMap.mp hf
    exact h result hr finding hf

/-- What a result is mapped to has the same findings. -/
theorem findings_map {α β : Type} (f : α → β) (result : Result α) :
    findings (result.map f) = findings result := by
  cases result <;> rfl

/-- The findings about the keys of a Record. -/
theorem untagged_record (path : UString) (names : List NString) :
    Untagged (recordDiagnostics path names) := by
  refine untagged_append.mpr ⟨untagged_map fun name => ?_, untagged_mapIdx fun i name => ?_⟩
  · show lit "QRP-VALUE-RECORD-DUPLICATE" ≠ lit "QRP-TRACE-FINGERPRINT"
    decide
  · split
    · exact untagged_singleton (by decide)
    · exact untagged_unicode _ _

mutual

/-- **No finding about a value has the code of the trace fingerprint**, at any depth. -/
theorem returns_encodeAt : ∀ (path : UString) (v : QuintReplayValue),
    Returns (fun result => Untagged (findings result)) (encodeAt path v)
  | _, .null => returns_pure untagged_nil
  | _, .boolean true => returns_pure untagged_nil
  | _, .boolean false => returns_pure untagged_nil
  | path, .integer s => by
    rw [encodeAt]
    split
    · exact returns_pure untagged_nil
    · exact returns_pure (untagged_singleton (by decide))
  | path, .text none => returns_pure (untagged_singleton (by decide))
  | path, .text (some s) => by
    rw [encodeAt]
    have hfound : Untagged (findings (.error (unicodeDiagnostics path (some s)) :
        Result UString)) :=
      untagged_unicode path (some s)
    split
    · exact returns_pure hfound
    · exact returns_pure untagged_nil
  | path, .sequence xs => by
    rw [encodeAt]
    refine (returns_encodeItems path 0 xs).bind fun results h => returns_pure ?_
    rw [findings_map]
    exact untagged_collect h
  | path, .set xs => by
    rw [encodeAt]
    refine (returns_encodeItems path 0 xs).bind fun results h => returns_pure ?_
    have hcollect := untagged_collect h
    rw [collect]
    cases hc : collectDecoded results with
    | error found =>
      rw [hc] at hcollect
      exact hcollect
    | ok encoded =>
      simp only [Except.bind]
      split
      · exact untagged_singleton (by decide)
      · exact untagged_nil
  | path, .record fs => by
    rw [encodeAt]
    split
    · exact returns_pure (untagged_sort (untagged_record _ _))
    -- sorting the fields only permutes the results
    · refine (returns_encodeFields path fs).bind fun results h => returns_pure ?_
      rw [findings_map]
      refine untagged_collect fun result hr => ?_
      obtain ⟨field, hf, rfl⟩ := List.mem_map.mp hr
      exact h field (mem_sortOn.mp hf)

/-- Item by item. -/
theorem returns_encodeItems : ∀ (path : UString) (index : Nat) (xs : List QuintReplayValue),
    Returns (fun results => ∀ result ∈ results, Untagged (findings result))
      (encodeItems path index xs)
  | _, _, [] => returns_pure fun _ h => (nomatch h)
  | path, index, x :: xs => by
    rw [encodeItems]
    refine (returns_encodeAt (indexed path index) x).bind fun result hr =>
      (returns_encodeItems path (index + 1) xs).bind fun results h => returns_pure ?_
    exact List.forall_mem_cons.mpr ⟨hr, h⟩

/-- Field by field. -/
theorem returns_encodeFields : ∀ (path : UString) (fs : List (NString × QuintReplayValue)),
    Returns (fun results => ∀ field ∈ results, Untagged (findings field.2)) (encodeFields path fs)
  | _, [] => returns_pure fun _ h => (nomatch h)
  | path, (name, x) :: fs => by
    rw [encodeFields]
    refine (returns_encodeAt (path ++ lit "." ++ printed name) x).bind fun result hr => ?_
    -- the field is written, or its findings are passed on; the rest follows either way
    have hrest : ∀ field, Untagged (findings field) → Returns
        (fun results => ∀ entry ∈ results, Untagged (findings entry.2))
        (do let rest ← encodeFields path fs; pure ((name, field) :: rest)) := by
      intro field hf
      refine (returns_encodeFields path fs).bind fun results h => returns_pure ?_
      intro entry he
      rcases List.mem_cons.mp he with rfl | he
      · exact hf
      · exact h entry he
    cases result with
    | error found => exact hrest (.error found) hr
    | ok encoded =>
      cases hname : Primitives.escapeJson name with
      | error e =>
        intro results h
        cases h
      | ok written => exact hrest (.ok (written ++ 0x3A :: encoded)) untagged_nil

end

/-- And so for the values of a state. -/
theorem returns_bindings (path : UString) : ∀ (index : Nat) (values : List QuintReplayValue),
    Returns Untagged (bindingDiagnostics path index values)
  | _, [] => returns_pure untagged_nil
  | index, value :: values => by
    rw [bindingDiagnostics]
    exact (returns_encodeAt (indexed path index) value).bind fun result hr =>
      (returns_bindings path (index + 1) values).bind fun rest h =>
      returns_pure (untagged_append.mpr ⟨hr, h⟩)

/-- And for all of its bindings. -/
theorem returns_content (path : UString) (state : QuintReplayState) :
    Returns Untagged (validateStateContent path state) := by
  refine (returns_bindings (path ++ lit ".bindings") 0 _).bind fun found h => returns_pure ?_
  exact untagged_sort (untagged_append.mpr ⟨untagged_names (by decide) (by decide), h⟩)

/-- The finding about a fingerprint of the environment. -/
theorem untagged_fingerprint (path : UString) (value : NString) :
    Untagged (validateFingerprint path value) := by
  unfold validateFingerprint
  split
  · exact untagged_nil
  · exact untagged_singleton (by decide)

/-- Those about the bounds. -/
theorem untagged_bounds (bounds : List (NString × Int)) : Untagged (boundsDiagnostics bounds) :=
  untagged_append.mpr ⟨untagged_names (by decide) (by decide),
    untagged_mapIdx fun i bound => untagged_if (by decide)⟩

section Platform

variable (platform : Platform)

/-- Those about a state. -/
theorem returns_state (path : UString) (state : QuintReplayState) :
    Returns Untagged (validateState platform path state) := by
  refine (returns_content path state).bind fun content hc => ?_
  have hdone : ∀ found, Untagged found →
      Returns Untagged (pure (sortDiagnostics (content ++ found))) :=
    fun found hf => returns_pure (untagged_sort (untagged_append.mpr ⟨hc, hf⟩))
  show Returns Untagged (if _ then _ else _)
  split
  · exact hdone _ (untagged_singleton (by decide))
  · split
    · refine Returns.bind (P := fun _ => True) (fun _ _ => trivial) fun expected _ => ?_
      split
      · exact hdone _ (untagged_singleton (by decide))
      · exact hdone [] untagged_nil
    · exact hdone [] untagged_nil

/-- And those about the steps of a trace. -/
theorem returns_steps : ∀ (ordinal : Nat) (steps : List QuintReplayStep),
    Returns Untagged (stepDiagnostics platform ordinal steps)
  | _, [] => returns_pure untagged_nil
  | ordinal, step :: steps => by
    rw [stepDiagnostics]
    refine (returns_state platform _ step.expected).bind fun state hs =>
      (returns_steps (ordinal + 1) steps).bind fun rest hr => returns_pure ?_
    simp only [untagged_append, and_assoc]
    exact ⟨untagged_if (by decide), untagged_if (by decide), untagged_unicode _ _,
      untagged_source _ _, hs, hr⟩

/-- **The structural part of validation never gives the finding that is passed over.** -/
theorem returns_structural (trace : QuintReplayTrace) :
    Returns Untagged (structuralDiagnostics platform trace) := by
  refine (returns_steps platform 0 trace.steps).bind fun steps hs =>
    (returns_state platform _ trace.initial).bind fun initial hi => returns_pure (untagged_sort ?_)
  simp only [untagged_append, untagged_fingerprint, untagged_unicode, untagged_bounds, hi, hs,
    and_true]
  exact ⟨⟨untagged_if (by decide), untagged_if (by decide)⟩, untagged_if (by decide)⟩

/-! ## States -/

/-- **A state is fingerprinted exactly when its bindings can be encoded.** -/
theorem stateFingerprint_eq_ok_iff {state : QuintReplayState} {f : UString} :
    QuintReplay.stateFingerprint platform state = .ok (.ok f) ↔
      ValidContent state ∧ f = fingerprint platform (stateText state) := by
  obtain ⟨found, hf, hspec⟩ := validateStateContent_spec "$" state
  rw [QuintReplay.stateFingerprint, hf, ok_bind]
  cases found with
  | nil =>
    have hv := hspec.mp rfl
    simp only [ReplayInternal.stateFingerprint, encodeStateUnchecked_ok hv, ok_bind, pure_eq_ok,
      Except.ok.injEq]
    exact ⟨fun h => ⟨hv, h.symm⟩, fun h => h.2.symm⟩
  | cons d ds =>
    have hv : ¬ ValidContent state := fun h => by simpa using hspec.mpr h
    constructor
    · intro h
      cases h
    · intro h
      exact absurd h.1 hv

/-- Some text comes back exactly for a valid state. -/
theorem encodeState_accepts_iff {state : QuintReplayState} :
    (∃ text, encodeState platform state = .ok (.ok text)) ↔ ValidState platform state := by
  simp only [encodeState_eq_ok_iff]
  exact ⟨fun ⟨_, h, _⟩ => h, fun h => ⟨_, h, rfl⟩⟩

/-! ## Traces -/

/-- The trace under the identity that `traceFingerprint` validates it with. -/
def placeholder (trace : QuintReplayTrace) : QuintReplayTrace := { trace with traceIdentity := zeroIdentity }

/-- Validation of the placeholder, with the one finding passed over. -/
theorem filter_placeholder (trace : QuintReplayTrace) :
    ∃ found, validateTrace platform (placeholder trace) = .ok found ∧
      (found.filter (fun finding => finding.code ≠ lit "QRP-TRACE-FINGERPRINT") = [] ↔
        ValidStructure platform (placeholder trace)) := by
  obtain ⟨structural, hs, hspec⟩ := structuralDiagnostics_spec platform (placeholder trace)
  have hclean := returns_structural platform (placeholder trace) structural hs
  rw [validateTrace, hs, ok_bind]
  cases structural with
  | cons d ds =>
    refine ⟨d :: ds, rfl, ?_⟩
    -- every structural finding survives the filter
    rw [← hspec, List.filter_eq_self.mpr fun finding hf => decide_eq_true (hclean finding hf)]
  | nil =>
    have hv := hspec.mp rfl
    simp only [ReplayInternal.traceFingerprint, encodeTraceUnchecked_ok hv.encodable, ok_bind,
      pure_eq_ok]
    split
    · exact ⟨[], rfl, iff_of_true rfl hv⟩
    · refine ⟨_, rfl, iff_of_true ?_ hv⟩
      rw [List.filter_cons_of_neg (by simp [diagnostic]), List.filter_nil]

/-- **A trace is fingerprinted exactly when it is valid in everything but its identity.** -/
theorem traceFingerprint_eq_ok_iff {trace : QuintReplayTrace} {f : UString} :
    QuintReplay.traceFingerprint platform trace = .ok (.ok f) ↔
      ValidStructure platform (placeholder trace) ∧ f = fingerprint platform (traceText trace) := by
  obtain ⟨found, hf, hspec⟩ := filter_placeholder platform trace
  show (validateTrace platform (placeholder trace) >>= _) = _ ↔ _
  rw [hf, ok_bind]
  split
  · next hnil =>
    have hv := hspec.mp hnil
    show (ReplayInternal.traceFingerprint platform (placeholder trace) >>= _) = _ ↔ _
    rw [ReplayInternal.traceFingerprint, encodeTraceUnchecked_ok hv.encodable]
    simp only [ok_bind, pure_eq_ok, Except.ok.injEq]
    exact ⟨fun h => ⟨hv, h.symm⟩, fun h => h.2.symm⟩
  · next hne =>
    constructor
    · intro h
      cases h
    · intro h
      exact absurd (hspec.mpr h.1) hne

/-- The placeholder has the form of a fingerprint, so that it causes no structural finding. -/
theorem isLowerSha256_zeroIdentity : isLowerSha256 zeroIdentity = true := by decide

/-- The structural part of validation looks at no more of the identity than its form. -/
theorem validStructure_placeholder_iff {trace : QuintReplayTrace}
    (h : isLowerSha256 trace.traceIdentity = true) :
    ValidStructure platform (placeholder trace) ↔ ValidStructure platform trace := by
  constructor
  · intro hv
    exact ⟨hv.schemaVersion, h, hv.environment, hv.initial, hv.steps⟩
  · intro hv
    exact ⟨hv.schemaVersion, isLowerSha256_zeroIdentity, hv.environment, hv.initial, hv.steps⟩

/-- A trace is valid when its structure is and it claims its fingerprint. -/
theorem validTrace_iff {trace : QuintReplayTrace} :
    ValidTrace platform trace ↔ ValidStructure platform (placeholder trace) ∧
      trace.traceIdentity = some (fingerprint platform (traceText trace)) := by
  constructor
  · intro h
    exact ⟨(validStructure_placeholder_iff platform h.traceIdentity).mpr h.toValidStructure,
      h.identity⟩
  · rintro ⟨hv, hid⟩
    refine ⟨(validStructure_placeholder_iff platform ?_).mp hv, hid⟩
    rw [hid]
    exact isLowerSha256_lowerHex _

/-! ## The agreement -/

/-- What it takes for things that carry an identity to be sealed with a fingerprint: what is accepted
    is what carries its own fingerprint, and the fingerprint does not depend on the identity, so that
    the thing is accepted once it carries it. -/
structure Seals {α : Type} (identity : α → NString) (withIdentity : α → NString → α) (accepts : α → Prop)
    (fingerprintOf : α → Outcome (Result UString)) : Prop where
  accepts_iff : ∀ a, accepts a ↔ ∃ f, identity a = some f ∧ fingerprintOf a = .ok (.ok f)
  ignores : ∀ a i, fingerprintOf (withIdentity a i) = fingerprintOf a
  sealed : ∀ a f, fingerprintOf a = .ok (.ok f) → accepts (withIdentity a (some f))

/-- It is enough that one notion of content decides both. -/
theorem seals_of_content {α : Type} {identity : α → NString} {withIdentity : α → NString → α}
    {accepts : α → Prop} {fingerprintOf : α → Outcome (Result UString)} {digest : α → UString}
    (content : α → Prop) (hid : ∀ a i, identity (withIdentity a i) = i)
    (hignores : ∀ a i, fingerprintOf (withIdentity a i) = fingerprintOf a)
    (haccepts : ∀ a, accepts a ↔ content a ∧ identity a = some (digest a))
    (hdigest : ∀ a f, fingerprintOf a = .ok (.ok f) ↔ content a ∧ f = digest a) :
    Seals identity withIdentity accepts fingerprintOf where
  ignores := hignores
  accepts_iff := by
    intro a
    rw [haccepts]
    constructor
    · rintro ⟨hc, hi⟩
      exact ⟨digest a, hi, (hdigest a _).mpr ⟨hc, rfl⟩⟩
    · rintro ⟨f, hi, hf⟩
      obtain ⟨hc, rfl⟩ := (hdigest a f).mp hf
      exact ⟨hc, hi⟩
  sealed := by
    intro a f hf
    have hf' := (hignores a (some f)).trans hf
    obtain ⟨hc, he⟩ := (hdigest (withIdentity a (some f)) f).mp hf'
    exact (haccepts _).mpr ⟨hc, (hid a (some f)).trans (congrArg some he)⟩

/-- **Sealing and validation agree**, for states and for traces, whatever the hash function. -/
theorem sealing :
    Seals QuintReplayState.identity (fun state identity => { state with identity := identity })
      (fun state => ∃ text, encodeState platform state = .ok (.ok text)) (QuintReplay.stateFingerprint platform) ∧
    Seals QuintReplayTrace.traceIdentity (fun trace identity => { trace with traceIdentity := identity })
      (fun trace => validateTrace platform trace = .ok []) (QuintReplay.traceFingerprint platform) := by
  constructor
  · refine seals_of_content ValidContent (fun _ _ => rfl) (fun _ _ => rfl) ?_
      fun state f => stateFingerprint_eq_ok_iff platform
    intro state
    rw [encodeState_accepts_iff]
    exact ⟨fun h => ⟨h.content, h.identity⟩, fun h => ⟨h.1, h.2⟩⟩
  · refine seals_of_content (fun trace => ValidStructure platform (placeholder trace))
      (fun _ _ => rfl) (fun _ _ => rfl) ?_ fun trace f => traceFingerprint_eq_ok_iff platform
    intro trace
    rw [validateTrace_eq_nil_iff, validTrace_iff]

end Platform

end FsQuint
