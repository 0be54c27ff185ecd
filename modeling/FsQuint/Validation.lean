/-
  What validation accepts.

  Each validator answers with a list of findings.  For each there is a predicate that says what it
  looks for, and one lemma: the validator comes back without an exception, and it has found
  nothing exactly when the predicate holds (`validateState_spec`, `validateTrace_spec`).  Callers
  use these lemmas and never the findings themselves.

  On what is valid, the unchecked encoders come back too: a state is encoded like the Record of its
  bindings (`encodeStateUnchecked_ok`), and a trace as the compact text of a JSON tree
  (`traceTree`, `encodeTraceUnchecked_ok`).
-/
import FsQuint.QuintReplay
import FsQuint.ValueEncoding

set_option linter.unusedVariables false

namespace FsQuint

open Utf16 Collections Decimal Json Unordered ReplayInternal QuintReplay

/-! ## Names and sources -/

/-- A list that is there unless something holds. -/
theorem unless_eq_nil {α : Type} {p : Prop} [Decidable p] {a : α} {as : List α} :
    (if p then a :: as else []) = [] ↔ ¬ p := by
  by_cases h : p <;> simp [h]

/-- A name is reported when it is blank, and when it is ill-formed. -/
theorem validName_findings {name : NString} {path : UString} {blank : QuintReplayDiagnostic} :
    (if isNullOrWhiteSpace name then [blank] else []) ++ unicodeDiagnostics path name = [] ↔
      ValidName name := by
  rw [List.append_eq_nil_iff, unless_eq_nil, Bool.not_eq_true, validName_iff]
  refine and_congr_right fun _ => ?_
  rw [unicodeDiagnostics_eq_nil]
  simp only [unicodeDiagnostics_eq_nil]
  exact ⟨fun h _ => h, fun h => h path⟩

/-- **Nothing is said about a list of names exactly when they are proper and distinct.** -/
theorem nameDiagnostics_eq_nil {blankCode duplicateCode path blank noun : UString}
    {names : List NString} :
    nameDiagnostics blankCode duplicateCode path blank noun names = [] ↔ ValidNames names := by
  rw [nameDiagnostics, List.append_eq_nil_iff, flatten_mapIdx_eq_nil, List.map_eq_nil_iff,
    sortOn_eq_nil, duplicates_eq_nil, ValidNames, List.forall_mem_iff_forall_getElem, and_comm]
  exact and_congr_right fun _ => forall_congr' fun i => forall_congr' fun hi => validName_findings

/-- The source bindings that pass validation. -/
structure ValidSource (source : QuintReplaySourceBinding) : Prop where
  path : ValidName source.path
  line : 1 ≤ source.line
  column : 1 ≤ source.column

/-- **Nothing is said about a source binding exactly when it is valid.** -/
theorem validateSource_eq_nil {path : UString} {source : QuintReplaySourceBinding} :
    validateSource path source = [] ↔ ValidSource source := by
  rw [validateSource, List.append_eq_nil_iff, List.append_eq_nil_iff, validName_findings,
    unless_eq_nil, unless_eq_nil]
  constructor
  · rintro ⟨⟨hp, hl⟩, hc⟩
    exact ⟨hp, by omega, by omega⟩
  · rintro ⟨hp, hl, hc⟩
    exact ⟨⟨hp, by omega⟩, by omega⟩

/-! ## States -/

/-- The values of some fields, with and without their names. -/
theorem validItems_map_snd {fs : List (NString × QuintReplayValue)} :
    ValidItems (fs.map Prod.snd) ↔ ValidFields fs := by
  rw [validItems_iff, validFields_iff, List.forall_mem_map]

/-- The values of a state are looked at without an exception, and nothing is said when all are valid. -/
theorem bindingDiagnostics_spec (path : UString) : ∀ (index : Nat) (values : List QuintReplayValue),
    ∃ found, bindingDiagnostics path index values = .ok found ∧ (found = [] ↔ ValidItems values)
  | _, [] => ⟨[], rfl, by simp [ValidItems]⟩
  | index, value :: values => by
    obtain ⟨rest, hrest, hspec⟩ := bindingDiagnostics_spec path (index + 1) values
    rcases encodeAt_spec (indexed path index) value with ⟨hv, he⟩ | ⟨hv, found, hne, he⟩
    · refine ⟨rest, by rw [bindingDiagnostics, he, hrest]; rfl, ?_⟩
      rw [hspec, ValidItems]
      exact ⟨fun h => ⟨hv, h⟩, fun h => h.2⟩
    · refine ⟨found ++ rest, by rw [bindingDiagnostics, he, hrest]; rfl, ?_⟩
      rw [List.append_eq_nil_iff, ValidItems]
      exact ⟨fun h => absurd h.1 hne, fun h => absurd h.1 hv⟩

/-- The bindings of a state can be encoded when the Record of them can. -/
def ValidContent (state : QuintReplayState) : Prop := Valid (.record state.bindings)

/-- **The bindings of a state**: validation comes back, and says nothing exactly when they are valid. -/
theorem validateStateContent_spec (path : UString) (state : QuintReplayState) :
    ∃ found, validateStateContent path state = .ok found ∧ (found = [] ↔ ValidContent state) := by
  obtain ⟨found, hf, hspec⟩ := bindingDiagnostics_spec (path ++ lit ".bindings") 0
    (state.bindings.map Prod.snd)
  refine ⟨_, by rw [validateStateContent, hf]; rfl, ?_⟩
  rw [sortDiagnostics_eq_nil, List.append_eq_nil_iff, nameDiagnostics_eq_nil, hspec,
    validItems_map_snd]
  rfl

/-- The canonical text of a state: that of the Record of its bindings. -/
def stateText (state : QuintReplayState) : UString := valueText (.record state.bindings)

/-- A valid binding is encoded as the field of a Record. -/
theorem encodeBindingUnchecked_ok {binding : NString × QuintReplayValue} (hn : ValidName binding.1)
    (hv : Valid binding.2) :
    encodeBindingUnchecked binding =
      .ok (fieldText jsonQuoting (printed binding.1, valueText binding.2)) := by
  rcases encodeAt_spec "$.bindings" binding.2 with ⟨-, he⟩ | ⟨hv', -⟩
  · rw [encodeBindingUnchecked, he, ok_bind, escapeJson_ok hn.ne_none]
    rfl
  · exact absurd hv hv'

/-- **On valid content the unchecked encoder comes back, with the canonical text.** -/
theorem encodeStateUnchecked_ok {state : QuintReplayState} (h : ValidContent state) :
    encodeStateUnchecked state = .ok (stateText state) := by
  have hnames : ∀ f ∈ state.bindings, ValidName f.1 :=
    fun f hf => h.1.2 f.1 (List.mem_map_of_mem hf)
  have hmap : (sortOn ordinal.nullFirst Prod.fst state.bindings).mapM encodeBindingUnchecked =
      .ok ((sortOn ordinal.nullFirst Prod.fst state.bindings).map fun f =>
        fieldText jsonQuoting (printed f.1, valueText f.2)) :=
    mapM_ok fun f hf => encodeBindingUnchecked_ok (hnames f (mem_sortOn.mp hf))
      (validFields_iff.mp h.2 f (mem_sortOn.mp hf))
  rw [encodeStateUnchecked, hmap, ok_bind, stateText, valueText_record,
    ← sortOn_names (fun f hf => (hnames f hf).ne_none) valueText, List.map_map]
  rfl

/-- The digits of a fingerprint have the form that validation asks for. -/
theorem isLowerHexDigit_hexDigitLower :
    ∀ n < 16, isLowerHexDigit (hexDigitLower n) = true := by decide

/-- All of them. -/
theorem all_lowerHex (digest : Vector UInt8 32) : (lowerHex digest).all isLowerHexDigit = true := by
  rw [lowerHex, List.all_flatMap, List.all_eq_true]
  intro b _
  have hb : b.toNat < 256 := b.toNat_lt
  simp only [List.all_cons, List.all_nil, Bool.and_true, Bool.and_eq_true]
  exact ⟨isLowerHexDigit_hexDigitLower _ (by omega), isLowerHexDigit_hexDigitLower _ (by omega)⟩

/-- And there are sixty-four. -/
theorem length_lowerHex (digest : Vector UInt8 32) : (lowerHex digest).length = 64 := by
  rw [lowerHex, List.length_flatMap]
  simp

/-- A digit is no white space, so that a fingerprint is not blank. -/
theorem not_isWhiteSpace_of_isLowerHexDigit {c : UInt16} (h : isLowerHexDigit c = true) :
    isWhiteSpace c = false := by
  by_contra hw
  simp only [isWhiteSpace, Bool.or_eq_true, decide_eq_true_eq, isLowerHexDigit, Bool.not_eq_false,
    UInt16.le_iff_toNat_le, ← UInt16.toNat_inj] at h hw
  simp at h hw
  omega

/-- A fingerprint is a lower-case SHA-256 digest. -/
theorem isLowerSha256_lowerHex (digest : Vector UInt8 32) :
    isLowerSha256 (some (lowerHex digest)) = true := by
  have hall := all_lowerHex digest
  have hlen := length_lowerHex digest
  have hblank : isNullOrWhiteSpace (some (lowerHex digest)) = false := by
    cases hd : lowerHex digest with
    | nil => rw [hd] at hlen; simp at hlen
    | cons c rest =>
      rw [hd, List.all_cons, Bool.and_eq_true] at hall
      rw [isNullOrWhiteSpace, List.all_cons, not_isWhiteSpace_of_isLowerHexDigit hall.1,
        Bool.false_and]
  rw [isLowerSha256, hblank, hlen, hall]
  rfl

section Platform

variable (platform : Platform)

/-- The states that pass validation: they can be encoded, and their identity is the fingerprint of
    their encoding. -/
structure ValidState (state : QuintReplayState) : Prop where
  content : ValidContent state
  identity : state.identity = some (fingerprint platform (stateText state))

/-- **A state**: validation comes back, and says nothing exactly when the state is valid. -/
theorem validateState_spec (path : UString) (state : QuintReplayState) :
    ∃ found, validateState platform path state = .ok found ∧
      (found = [] ↔ ValidState platform state) := by
  obtain ⟨content, hc, hspec⟩ := validateStateContent_spec path state
  rw [validateState, hc, ok_bind]
  by_cases hi : isLowerSha256 state.identity = true
  · simp only [hi, Bool.not_true, Bool.false_eq_true, if_false]
    by_cases hv : ValidContent state
    · have hfp : ReplayInternal.stateFingerprint platform state =
          .ok (fingerprint platform (stateText state)) := by
        rw [ReplayInternal.stateFingerprint, encodeStateUnchecked_ok hv]
        rfl
      simp only [hspec.mpr hv, if_true, hfp, ok_bind]
      by_cases he : state.identity = some (fingerprint platform (stateText state))
      · simp only [he, ne_eq, not_true, if_false]
        exact ⟨[], rfl, by simp [ValidState.mk hv he]⟩
      · simp only [ne_eq, he, not_false_iff, if_true]
        refine ⟨_, rfl, ?_⟩
        rw [sortDiagnostics_eq_nil, List.nil_append]
        exact ⟨fun h => absurd h (by simp), fun h => absurd h.identity he⟩
    · have hne : content ≠ [] := fun h => hv (hspec.mp h)
      simp only [if_neg hne]
      refine ⟨_, rfl, ?_⟩
      rw [sortDiagnostics_eq_nil, List.append_eq_nil_iff]
      exact ⟨fun h => absurd h.1 hne, fun h => absurd h.content hv⟩
  · simp only [hi, Bool.not_false, if_true]
    refine ⟨_, rfl, ?_⟩
    rw [sortDiagnostics_eq_nil, List.append_eq_nil_iff]
    refine ⟨fun h => absurd h.2 (by simp), fun h => ?_⟩
    rw [h.identity] at hi
    exact absurd (isLowerSha256_lowerHex _) hi

/-- **A state is encoded exactly when it is valid.** -/
theorem encodeState_spec (state : QuintReplayState) :
    (ValidState platform state ∧ encodeState platform state = .ok (.ok (stateText state))) ∨
    (¬ ValidState platform state ∧ ∃ found, found ≠ [] ∧
      encodeState platform state = .ok (.error found)) := by
  obtain ⟨found, hf, hspec⟩ := validateState_spec platform "$" state
  cases found with
  | nil =>
    have hv := hspec.mp rfl
    refine .inl ⟨hv, ?_⟩
    rw [encodeState, hf, ok_bind]
    simp only [encodeStateUnchecked_ok hv.content]
    rfl
  | cons d ds =>
    refine .inr ⟨fun hv => absurd (hspec.mpr hv) (by simp), d :: ds, by simp, ?_⟩
    rw [encodeState, hf]
    rfl

/-- A state is encoded exactly when it is valid, and to its text. -/
theorem encodeState_eq_ok_iff {state : QuintReplayState} {text : UString} :
    encodeState platform state = .ok (.ok text) ↔ ValidState platform state ∧
    stateText state = text := by
  rcases encodeState_spec platform state with ⟨hv, he⟩ | ⟨hv, found, -, he⟩
  · rw [he]
    simp [hv]
  · rw [he]
    simp [hv]

variable {platform} in
/-- Valid states have one encoding when they have one text. -/
theorem encodeState_eq_iff {first second : QuintReplayState} (hf : ValidState platform first)
    (hs : ValidState platform second) :
    encodeState platform first = encodeState platform second ↔
      stateText second = stateText first := by
  rw [(encodeState_eq_ok_iff platform).mpr ⟨hf, rfl⟩,
    (encodeState_eq_ok_iff platform).mpr ⟨hs, rfl⟩, Except.ok.injEq, Except.ok.injEq, eq_comm]

end Platform

end FsQuint
