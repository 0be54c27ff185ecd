/-
  The identity of a validated trace.

  A valid trace carries the digest of its canonical text, so what the identity binds is what the
  text determines.  The argument goes down through the three layers:

  1. **Digest to bytes**: the lower-case digits determine the digest (`lowerHex_inj`), and the digest
     determines the bytes where the hash does not collide.
  2. **Bytes to text**: the text of a valid trace is well-formed Unicode (`validUnicode_traceText`),
     on which UTF-8 is injective.
  3. **Text to trace**: the text determines the JSON tree, and the tree determines the trace up to
     the order of bounds and bindings and up to the equivalence of values (`agree_of_traceTree`).
-/
import FsQuint.ValueIdentity
import FsQuint.TraceEncoding
import FsQuint.Lib.Sha256

set_option linter.unusedVariables false

namespace FsQuint

open Utf16 Collections Decimal Json Unordered ReplayInternal QuintReplay

/-! ## What two traces agree on -/

/-- States with equivalent bindings, in any order. -/
def StateEquiv (s s' : QuintReplayState) : Prop := UpToOrder FieldEquiv s.bindings s'.bindings

/-- Two steps say the same: one action from one place, to equivalent states. -/
structure StepAgree (s s' : QuintReplayStep) : Prop where
  index : s.index = s'.index
  action : s.action = s'.action
  source : s.source = s'.source
  expected : StateEquiv s.expected s'.expected

/-- Traces with one content, whatever their identities say. -/
structure TraceAgree (t u : QuintReplayTrace) : Prop where
  schemaVersion : t.schemaVersion = u.schemaVersion
  seed : t.environment.seed = u.environment.seed
  toolFingerprint : t.environment.toolFingerprint = u.environment.toolFingerprint
  profileFingerprint : t.environment.profileFingerprint = u.environment.profileFingerprint
  contractFingerprint : t.environment.contractFingerprint = u.environment.contractFingerprint
  adapterFingerprint : t.environment.adapterFingerprint = u.environment.adapterFingerprint
  implementationFingerprint :
    t.environment.implementationFingerprint = u.environment.implementationFingerprint
  bounds : ∀ b, b ∈ t.environment.bounds ↔ b ∈ u.environment.bounds
  initial : StateEquiv t.initial u.initial
  steps : List.Forall₂ StepAgree t.steps u.steps

/-- No Record key in the values of a state starts with `#`. -/
def HashFreeState (s : QuintReplayState) : Prop := ∀ b ∈ s.bindings, HashFree b.2

/-- No Record key in the states of a trace starts with `#`. -/
def HashFreeTrace (t : QuintReplayTrace) : Prop :=
  HashFreeState t.initial ∧ ∀ step ∈ t.steps, HashFreeState step.expected

/-! ## Well-formed texts -/

/-- What is written for a character is that character, or ASCII. -/
theorem escapeChar_cases (c : UInt16) : ∀ u ∈ escapeChar c, u = c ∨ u.toNat < 0x80 := by
  have hdigit : ∀ n < 16, (hexDigitLower n).toNat < 0x80 := by decide
  have hshort : ∀ d : UInt16, d.toNat < 0x80 → ∀ u ∈ [0x5C, d], u = c ∨ u.toNat < 0x80 := by
    intro d hd u hu
    simp only [List.mem_cons, List.not_mem_nil, or_false] at hu
    rcases hu with rfl | rfl
    · exact Or.inr (by decide)
    · exact Or.inr hd
  unfold escapeChar
  split_ifs with h1 h2 h3 h4 h5 h6 h7 h8
  · exact hshort _ (by decide)
  · exact hshort _ (by decide)
  · exact hshort _ (by decide)
  · exact hshort _ (by decide)
  · exact hshort _ (by decide)
  · exact hshort _ (by decide)
  · exact hshort _ (by decide)
  · intro u hu
    simp only [List.mem_cons, List.not_mem_nil, or_false] at hu
    rcases hu with rfl | rfl | rfl | rfl | rfl | rfl
    · exact Or.inr (by decide)
    · exact Or.inr (by decide)
    · exact Or.inr (by decide)
    · exact Or.inr (by decide)
    · exact Or.inr (hdigit _ (by omega))
    · exact Or.inr (hdigit _ (by omega))
  · exact fun u hu => Or.inl (List.mem_singleton.mp hu)

/-- A surrogate is written as it stands. -/
theorem escapeChar_surrogate {c : UInt16} (h : 0xD800 ≤ c.toNat) : escapeChar c = [c] := by
  have hne : ∀ d : UInt16, d.toNat < 0xD800 → c ≠ d := by
    rintro d hd rfl
    omega
  unfold escapeChar
  rw [if_neg (hne 0x22 (by decide)), if_neg (hne 0x5C (by decide)), if_neg (hne 0x08 (by decide)),
    if_neg (hne 0x0C (by decide)), if_neg (hne 0x0A (by decide)), if_neg (hne 0x0D (by decide)),
    if_neg (hne 0x09 (by decide)), if_neg (by omega)]

/-- Escaping keeps a scalar value well-formed. -/
theorem validUnicode_escapeChar {c : UInt16} (h : (unitScalar c).isSome = true) :
    validUnicode (escapeChar c) = true := by
  refine validUnicode_of_forall fun u hu => ?_
  rcases escapeChar_cases c u hu with rfl | hlt
  · unfold unitScalar at h
    split at h
    · assumption
    · simp at h
  · exact Or.inl (by omega)

/-- Escaping keeps surrogate pairs together. -/
theorem validUnicode_flatMap_escapeChar (s : UString) (h : validUnicode s = true) :
    validUnicode (s.flatMap escapeChar) = true := by
  induction s using scalars.induct with
  | case1 => rfl
  | case2 u =>
    simp only [validUnicode, scalars, List.all_cons, List.all_nil, Bool.and_true] at h
    rw [List.flatMap_singleton]
    exact validUnicode_escapeChar h
  | case3 u v rest hs ih =>
    rw [validUnicode_pair hs] at h
    obtain ⟨hu, hv⟩ := Bool.and_eq_true_iff.mp hs
    simp only [isHighSurrogate, isLowSurrogate, Bool.and_eq_true, decide_eq_true_eq] at hu hv
    rw [List.flatMap_cons, List.flatMap_cons, escapeChar_surrogate (by omega),
      escapeChar_surrogate (by omega), List.singleton_append, List.singleton_append,
      validUnicode_pair hs]
    exact ih h
  | case4 u v rest hs ih =>
    rw [validUnicode_unit hs, Bool.and_eq_true] at h
    rw [List.flatMap_cons]
    exact validUnicode_append (validUnicode_escapeChar h.1) (ih h.2)

/-- The literal of a well-formed string is well-formed. -/
theorem validUnicode_literal {s : UString} (h : validUnicode s = true) :
    validUnicode (literal s) = true := by
  have hescaped := validUnicode_flatMap_escapeChar s h
  exact validUnicode_cons (by decide) (validUnicode_append hescaped (by decide))

mutual

/-- The tree of a valid value holds no lone surrogate. -/
theorem wellFormed_tree : ∀ {v : QuintReplayValue}, Valid v → WellFormed (tree jsonQuoting (doc v))
  | .null, _ => trivial
  | .boolean _, _ => trivial
  | .integer _, _ => trivial
  | .text s, h => by
    obtain ⟨t, rfl, ht⟩ := h
    exact ht
  | .sequence xs, h => by
    rw [doc, tree, WellFormed, wellFormedItems_iff, treeItems_eq_map, docItems_eq_map,
      List.forall_mem_map, List.forall_mem_map]
    exact wellFormed_treeItems h
  | .set xs, h => by
    rw [doc, tree, WellFormed, WellFormedMembers, WellFormed, wellFormedItems_iff, treeItems_eq_map,
      docItems_eq_map]
    refine ⟨by decide, fun j hj => ?_, trivial⟩
    have hj' := mem_sortOn.mp hj
    simp only [List.mem_map, exists_exists_and_eq_and] at hj'
    obtain ⟨x, hx, rfl⟩ := hj'
    exact wellFormed_treeItems h.1 x hx
  | .record fs, h => by
    rw [doc, tree, WellFormed, wellFormedMembers_iff, treeFields_eq_map, docFields_eq_map]
    intro m hm
    have hm' := mem_sortOn.mp hm
    simp only [List.mem_map, exists_exists_and_eq_and] at hm'
    obtain ⟨f, hf, rfl⟩ := hm'
    exact ⟨(h.1.2 f.1 (List.mem_map_of_mem hf)).2, wellFormed_treeFields h.2 f hf⟩

/-- Item by item. -/
theorem wellFormed_treeItems : ∀ {xs : List QuintReplayValue}, ValidItems xs →
    ∀ x ∈ xs, WellFormed (tree jsonQuoting (doc x))
  | [], _, x, hx => by simp at hx
  | y :: ys, h, x, hx => by
    rcases List.mem_cons.mp hx with hxy | hx
    · rw [hxy]
      exact wellFormed_tree h.1
    · exact wellFormed_treeItems h.2 x hx

/-- Field by field. -/
theorem wellFormed_treeFields : ∀ {fs : List (NString × QuintReplayValue)}, ValidFields fs →
    ∀ f ∈ fs, WellFormed (tree jsonQuoting (doc f.2))
  | [], _, f, hf => by simp at hf
  | (name, y) :: fs, h, f, hf => by
    rcases List.mem_cons.mp hf with hfy | hf
    · rw [hfy]
      exact wellFormed_tree h.1
    · exact wellFormed_treeFields h.2 f hf

end

section Platform

variable {platform : Platform}

/-- The digits of a fingerprint are ASCII. -/
theorem isLowerHexDigit_lt {c : UInt16} (h : isLowerHexDigit c = true) : c.toNat < 0x80 := by
  simp only [isLowerHexDigit, Bool.or_eq_true, decide_eq_true_eq, UInt16.le_iff_toNat_le] at h
  simp at h
  omega

/-- A fingerprint is well-formed. -/
theorem validUnicode_of_isLowerSha256 {value : NString} (h : isLowerSha256 value = true) :
    validUnicode (printed value) = true := by
  cases value with
  | none => rfl
  | some value =>
    simp only [isLowerSha256, Bool.and_eq_true] at h
    refine validUnicode_of_forall fun u hu => ?_
    have := isLowerHexDigit_lt (List.all_eq_true.mp h.2 u hu)
    omega

/-- Nor does that of a valid source binding. -/
theorem wellFormed_sourceTree {source : QuintReplaySourceBinding} (h : ValidSource source) :
    WellFormed (sourceTree source) :=
  ⟨by decide, h.path.2, by decide, trivial, by decide, trivial, trivial⟩

/-- Nor that of a valid environment. -/
theorem wellFormed_environmentTree {environment : QuintReplayEnvironment}
    (h : ValidEnvironment environment) : WellFormed (environmentTree environment) := by
  have hbounds : WellFormed (boundsTree environment.bounds) := by
    rw [boundsTree, WellFormed, wellFormedMembers_iff]
    intro m hm
    obtain ⟨b, hb, rfl⟩ := List.mem_map.mp (mem_sortOn.mp hm)
    exact ⟨(h.bounds.2 b.1 (List.mem_map_of_mem hb)).2, trivial⟩
  exact ⟨by decide, h.seed.2, by decide, hbounds, by decide, validUnicode_of_isLowerSha256 h.toolFingerprint,
    by decide, validUnicode_of_isLowerSha256 h.profileFingerprint, by decide,
    validUnicode_of_isLowerSha256 h.contractFingerprint, by decide,
    validUnicode_of_isLowerSha256 h.adapterFingerprint, by decide,
    validUnicode_of_isLowerSha256 h.implementationFingerprint, trivial⟩

/-- Nor that of a valid step. -/
theorem wellFormed_stepTree {ordinal : Nat} {step : QuintReplayStep}
    (h : ValidStep platform ordinal step) :
    WellFormed (stepTree step) :=
  ⟨by decide, trivial, by decide, h.action.2, by decide, wellFormed_sourceTree h.source,
    by decide, wellFormed_tree h.expected.content, trivial⟩

/-- **Nor that of a trace with a valid structure**: every string in it has been looked at. -/
theorem wellFormed_traceTree {t : QuintReplayTrace} (h : ValidStructure platform t) :
    WellFormed (traceTree t) := by
  have hsteps : WellFormedItems (t.steps.map stepTree) := by
    rw [wellFormedItems_iff, List.forall_mem_map]
    intro step hs
    obtain ⟨i, hi, rfl⟩ := List.mem_iff_getElem.mp hs
    exact wellFormed_stepTree (h.steps i hi)
  exact ⟨by decide, trivial, by decide, wellFormed_environmentTree h.environment,
    by decide, wellFormed_tree h.initial.content, by decide, hsteps, trivial⟩

/-- The tree of a document can be written. -/
theorem writable_tree_doc (d : Doc) : Writable jsonQuoting (tree jsonQuoting d) :=
  writable_tree jsonQuoting (fits_jsonQuoting d)

/-- And so can that of a trace. -/
theorem writable_traceTree (t : QuintReplayTrace) : Writable jsonQuoting (traceTree t) := by
  have hbounds : Writable jsonQuoting (boundsTree t.environment.bounds) := by
    rw [boundsTree, Writable, writableMembers_iff]
    intro m hm
    obtain ⟨b, -, rfl⟩ := List.mem_map.mp (mem_sortOn.mp hm)
    exact ⟨trivial, numberToken_decimal _⟩
  have hstep : ∀ step : QuintReplayStep, Writable jsonQuoting (stepTree step) := fun step =>
    ⟨trivial, numberToken_decimal _, trivial, trivial, trivial,
      ⟨trivial, trivial, trivial, numberToken_decimal _, trivial, numberToken_decimal _, trivial⟩,
      trivial, writable_tree_doc _, trivial⟩
  have hsteps : WritableItems jsonQuoting (t.steps.map stepTree) := by
    rw [writableItems_iff, List.forall_mem_map]
    exact fun step _ => hstep step
  exact ⟨trivial, numberToken_decimal _, trivial,
    ⟨trivial, trivial, trivial, hbounds, trivial, trivial, trivial, trivial, trivial,
    trivial, trivial,
      trivial, trivial, trivial, trivial⟩,
    trivial, writable_tree_doc _, trivial, hsteps, trivial⟩

/-- The text of a valid trace is well-formed Unicode. -/
theorem validUnicode_traceText {t : QuintReplayTrace} (h : ValidStructure platform t) :
    validUnicode (traceText t) = true :=
  validUnicode_write (q := jsonQuoting) (fun s => validUnicode_literal) (writable_traceTree t)
    (wellFormed_traceTree h)

/-! ## Text to trace -/

/-- Strings that are not null print as themselves. -/
theorem printed_inj {a b : NString} (ha : a ≠ none) (hb : b ≠ none) (h : printed a = printed b) :
    a = b := by
  rw [← some_printed ha, ← some_printed hb, h]

/-- States with one tree are equivalent. -/
theorem stateEquiv_of_tree_eq {s s' : QuintReplayState} (hs : ValidContent s)
    (hs' : ValidContent s') (hf : HashFreeState s) (hf' : HashFreeState s')
    (h : stateTree s = stateTree s') : StateEquiv s s' := by
  simp only [stateTree, doc, tree, treeFields_eq_map, docFields_eq_map, List.map_map,
    JsonElement.object.injEq] at h
  refine (upToOrder_of_sorted h).imp fun b hb b' hb' hbb => ?_
  obtain ⟨hname, htree⟩ := Prod.mk.inj hbb
  have hn := (hs.1.2 b.1 (List.mem_map_of_mem hb)).ne_none
  have hn' := (hs'.1.2 b'.1 (List.mem_map_of_mem hb')).ne_none
  exact ⟨printed_inj hn hn' hname, valueEquiv_of_docEquiv (validFields_iff.mp hs.2 b hb)
    (validFields_iff.mp hs'.2 b' hb')
    (equiv_of_tree_eq jsonQuoting hashIsTag (wellTagged_doc (hf b hb))
      (wellTagged_doc (hf' b' hb')) htree)⟩

/-- Equivalent states have one text. -/
theorem stateText_congr {s s' : QuintReplayState} (hs : ValidContent s) (h : StateEquiv s s') :
    stateText s = stateText s' := by
  obtain ⟨bs, hp, hbs⟩ := h
  exact valueText_congr hs ⟨bs, hp, valueEquivFields_iff.mpr hbs⟩

/-- The tree of a source binding determines it. -/
theorem source_eq_of_tree_eq {a b : QuintReplaySourceBinding} (ha : ValidSource a)
    (hb : ValidSource b) (h : sourceTree a = sourceTree b) : a = b := by
  simp only [sourceTree, JsonElement.object.injEq, List.cons.injEq, Prod.mk.injEq,
    JsonElement.string.injEq, JsonElement.number.injEq, true_and, and_true] at h
  obtain ⟨hp, hl, hc⟩ := h
  obtain ⟨pa, la, ca⟩ := a
  obtain ⟨pb, lb, cb⟩ := b
  rw [QuintReplaySourceBinding.mk.injEq]
  exact ⟨printed_inj ha.path.ne_none hb.path.ne_none hp, decimal_inj hl, decimal_inj hc⟩

/-- Bounds with one tree are the same pairs. -/
theorem bounds_perm_of_tree_eq {bs cs : List (NString × Int)} (hb : ∀ b ∈ bs, b.1 ≠ none)
    (hc : ∀ c ∈ cs, c.1 ≠ none) (h : boundsTree bs = boundsTree cs) : bs.Perm cs := by
  rw [boundsTree, boundsTree, JsonElement.object.injEq] at h
  have hsame : UpToOrder (fun b c => b = c) bs cs := by
    refine (upToOrder_of_sorted h).imp fun b hbm c hcm hbc => ?_
    obtain ⟨hname, hvalue⟩ := Prod.mk.inj hbc
    rw [JsonElement.number.injEq] at hvalue
    exact Prod.ext (printed_inj (hb b hbm) (hc c hcm) hname) (decimal_inj hvalue)
  have hperm : (bs.map id).Perm (cs.map id) := hsame.map_perm fun b _ c h => h
  rwa [List.map_id, List.map_id] at hperm

/-- Each step of a valid trace is valid at its position. -/
theorem ValidStructure.step_of_mem {t : QuintReplayTrace} (h : ValidStructure platform t)
    {step : QuintReplayStep} (hs : step ∈ t.steps) : ∃ i, ValidStep platform i step := by
  obtain ⟨i, hi, rfl⟩ := List.mem_iff_getElem.mp hs
  exact ⟨i, h.steps i hi⟩

/-- The tree of a step determines what it says. -/
theorem stepAgree_of_tree_eq {i j : Nat} {s s' : QuintReplayStep} (hs : ValidStep platform i s)
    (hs' : ValidStep platform j s') (hf : HashFreeState s.expected)
    (hf' : HashFreeState s'.expected) (h : stepTree s = stepTree s') : StepAgree s s' := by
  simp only [stepTree, JsonElement.object.injEq, List.cons.injEq, Prod.mk.injEq,
    JsonElement.string.injEq, JsonElement.number.injEq, true_and, and_true] at h
  obtain ⟨hindex, haction, hsource, hexpected⟩ := h
  exact ⟨decimal_inj hindex, printed_inj hs.action.ne_none hs'.action.ne_none haction,
    source_eq_of_tree_eq hs.source hs'.source hsource,
    stateEquiv_of_tree_eq hs.expected.content hs'.expected.content hf hf' hexpected⟩

/-- **The tree of a valid trace determines its content.** -/
theorem agree_of_traceTree {t u : QuintReplayTrace} (ht : ValidStructure platform t)
    (hu : ValidStructure platform u) (hft : HashFreeTrace t) (hfu : HashFreeTrace u)
    (h : traceTree t = traceTree u) : TraceAgree t u := by
  simp only [traceTree, environmentTree, JsonElement.object.injEq, List.cons.injEq, Prod.mk.injEq,
    JsonElement.string.injEq, JsonElement.number.injEq, JsonElement.array.injEq, true_and,
    and_true] at h
  obtain ⟨hversion, ⟨hseed, hbounds, htool, hprofile, hcontract, hadapter, himplementation⟩,
      hinitial, hsteps⟩ :=
    h
  have het := ht.encodable.environment
  have heu := hu.encodable.environment
  have hperm := bounds_perm_of_tree_eq het.bounds heu.bounds hbounds
  exact
    { schemaVersion := decimal_inj hversion
      seed := printed_inj het.seed heu.seed hseed
      toolFingerprint := printed_inj het.toolFingerprint heu.toolFingerprint htool
      profileFingerprint := printed_inj het.profileFingerprint heu.profileFingerprint hprofile
      contractFingerprint := printed_inj het.contractFingerprint heu.contractFingerprint hcontract
      adapterFingerprint := printed_inj het.adapterFingerprint heu.adapterFingerprint hadapter
      implementationFingerprint :=
        printed_inj het.implementationFingerprint heu.implementationFingerprint himplementation
      bounds := fun b => hperm.mem_iff
      initial := stateEquiv_of_tree_eq ht.initial.content hu.initial.content hft.1 hfu.1 hinitial
      steps := forall₂_imp_of_mem (map_eq_map_iff.mp hsteps) fun s hs s' hs' he => by
        obtain ⟨i, hi⟩ := ht.step_of_mem hs
        obtain ⟨j, hj⟩ := hu.step_of_mem hs'
        exact stepAgree_of_tree_eq hi hj (hft.2 s hs) (hfu.2 s' hs') he }

/-- Traces with one content have one text. -/
theorem traceText_congr {t u : QuintReplayTrace} (ht : ValidStructure platform t)
    (hu : ValidStructure platform u) (h : TraceAgree t u) : traceText t = traceText u := by
  have hnodup : ∀ {bs : List (NString × Int)}, ValidNames (bs.map Prod.fst) → bs.Nodup :=
    fun hb => List.Nodup.of_map Prod.fst hb.1
  have hperm : t.environment.bounds.Perm u.environment.bounds := by
    rw [List.perm_ext_iff_of_nodup (hnodup ht.environment.bounds) (hnodup hu.environment.bounds)]
    exact h.bounds
  -- bounds without duplicate names have one sorted order
  have hbounds : boundsTree t.environment.bounds = boundsTree u.environment.bounds := by
    refine congrArg JsonElement.object (sortOn_eq_of_perm ordinal Prod.fst (hperm.map _) ?_)
    have hn := nodup_printed ht.environment.bounds
    rw [List.map_map] at hn ⊢
    exact hn
  have henvironment : environmentTree t.environment = environmentTree u.environment := by
    rw [environmentTree, environmentTree, hbounds, h.seed, h.toolFingerprint, h.profileFingerprint,
      h.contractFingerprint, h.adapterFingerprint, h.implementationFingerprint]
  have hsteps : t.steps.map (fun s => write jsonQuoting (stepTree s)) =
      u.steps.map fun s => write jsonQuoting (stepTree s) := by
    rw [map_eq_map_iff]
    refine forall₂_imp_of_mem h.steps fun s hs s' _ hss => ?_
    obtain ⟨i, hi⟩ := ht.step_of_mem hs
    simp only [stepTree, write_object, List.map_cons, List.map_nil, write_stateTree, hss.index,
      hss.action, hss.source, stateText_congr hi.expected.content hss.expected]
  simp only [traceText, traceTree, write_object, write_array, List.map_cons, List.map_nil,
    List.map_map, write_stateTree, h.schemaVersion, henvironment,
    stateText_congr ht.initial.content h.initial]
  simp only [Function.comp_def, hsteps]

/-! ## Identity to trace -/

variable (platform) in
/-- SHA-256 does not collide on the encodings of two traces. -/
def NoCollision (t u : QuintReplayTrace) : Prop :=
  ∀ a b, encodeTraceUnchecked t = .ok a → encodeTraceUnchecked u = .ok b →
    platform.hashData (getBytesLossy a) = platform.hashData (getBytesLossy b) →
    getBytesLossy a = getBytesLossy b

/-- **The identity of a validated trace binds its whole content.** -/
theorem traceIdentity_eq_iff (platform : Platform) (t u : QuintReplayTrace)
    (ht : validateTrace platform t = .ok []) (hu : validateTrace platform u = .ok [])
    (hft : HashFreeTrace t) (hfu : HashFreeTrace u) (hash : NoCollision platform t u) :
    t.traceIdentity = u.traceIdentity ↔ TraceAgree t u := by
  have hvt := (validateTrace_eq_nil_iff platform).mp ht
  have hvu := (validateTrace_eq_nil_iff platform).mp hu
  rw [hvt.identity, hvu.identity, Option.some.injEq]
  constructor
  · intro h
    have hbytes := hash _ _ (encodeTraceUnchecked_ok hvt.encodable)
      (encodeTraceUnchecked_ok hvu.encodable)
      (lowerHex_inj h)
    have htext := getBytesLossy_inj (validUnicode_traceText hvt.toValidStructure)
      (validUnicode_traceText hvu.toValidStructure) hbytes
    exact agree_of_traceTree hvt.toValidStructure hvu.toValidStructure hft hfu
      (write_inj (writable_traceTree t) (writable_traceTree u) htext)
  · intro h
    rw [traceText_congr hvt.toValidStructure hvu.toValidStructure h]

end Platform

/-! ## Sealed traces -/

/-- A state with the identity of its bindings. -/
def sealState (platform : Platform) (bindings : List (NString × QuintReplayValue)) : QuintReplayState :=
  { identity := some (fingerprint platform (valueText (.record bindings))), bindings := bindings }

/-- A trace with the identity of its content. -/
def sealTrace (platform : Platform) (trace : QuintReplayTrace) : QuintReplayTrace :=
  { trace with traceIdentity := some (fingerprint platform (traceText trace)) }

/-- A state with valid bindings is valid once it has its fingerprint. -/
theorem validState_sealState (platform : Platform) {bindings : List (NString × QuintReplayValue)}
    (h : Valid (.record bindings)) : ValidState platform (sealState platform bindings) := ⟨h, rfl⟩

/-- Sealing is all that a trace with valid parts needs. -/
theorem validTrace_sealTrace (platform : Platform) {trace : QuintReplayTrace}
    (hv : trace.schemaVersion = 1) (he : ValidEnvironment trace.environment)
    (hi : ValidState platform trace.initial)
    (hs : ∀ (i : Nat) (h : i < trace.steps.length), ValidStep platform i trace.steps[i]) :
    ValidTrace platform (sealTrace platform trace) :=
  { schemaVersion := hv, traceIdentity := isLowerSha256_lowerHex _, environment :=
    he, initial := hi,
    steps := hs, identity := rfl }

/-- The platform with SHA-256, which prints nothing. -/
def samplePlatform : Platform where
  hashData := Sha256.hashData
  formatDiagnostics := fun _ => []
  jsonMessage := fun _ => []

/-- A string in the form of a digest. -/
def sampleDigest : NString := some (List.replicate 64 0x61)

/-- A valid environment. -/
def sampleEnvironment : QuintReplayEnvironment where
  seed := "0x1"
  bounds := [(some (lit "maxSteps"), 5)]
  toolFingerprint := sampleDigest
  profileFingerprint := sampleDigest
  contractFingerprint := sampleDigest
  adapterFingerprint := sampleDigest
  implementationFingerprint := sampleDigest

/-- A place in a specification. -/
def sampleSource : QuintReplaySourceBinding where
  path := "counter.qnt"
  line := 3
  column := 1

/-- The state in which the variable `x` has a given value. -/
def sampleState (x : QuintReplayValue) : QuintReplayState := sealState samplePlatform [(some (lit "x"), x)]

/-- A step to such a state. -/
def sampleStep (x : QuintReplayValue) : QuintReplayStep where
  index := 1
  action := "increment"
  source := sampleSource
  expected := sampleState x

/-- A trace of one step, at both ends of which `x` has a given value. -/
def sampleTrace (x : QuintReplayValue) : QuintReplayTrace :=
  sealTrace samplePlatform
    { schemaVersion := 1, traceIdentity := none, environment := sampleEnvironment,
      initial := sampleState x, steps := [sampleStep x] }

/-- `x` is a proper name. -/
theorem validName_x : ValidName (some (lit "x")) := ⟨by decide, by decide⟩

/-- The state is valid when the value is. -/
theorem validState_sampleState {x : QuintReplayValue} (h : Valid x) :
    ValidState samplePlatform (sampleState x) := by
  refine validState_sealState _ ⟨⟨List.nodup_singleton _, ?_⟩, h, trivial⟩
  rw [List.map_singleton, List.forall_mem_singleton]
  exact validName_x

/-- The environment passes validation. -/
theorem validEnvironment_sampleEnvironment : ValidEnvironment sampleEnvironment where
  seed := ⟨by decide, by decide⟩
  bounds := ⟨List.nodup_singleton _, by
    rw [sampleEnvironment, List.map_singleton, List.forall_mem_singleton]
    exact ⟨by decide, by decide⟩⟩
  nonnegative := by decide
  toolFingerprint := by decide
  profileFingerprint := by decide
  contractFingerprint := by decide
  adapterFingerprint := by decide
  implementationFingerprint := by decide

/-- And so does the source binding. -/
theorem validSource_sampleSource : ValidSource sampleSource :=
  ⟨⟨by decide, by decide⟩, by decide, by decide⟩

/-- And the trace, when the value is valid. -/
theorem validateTrace_sampleTrace {x : QuintReplayValue} (h : Valid x) :
    validateTrace samplePlatform (sampleTrace x) = .ok [] := by
  rw [validateTrace_eq_nil_iff]
  refine validTrace_sealTrace _ rfl validEnvironment_sampleEnvironment (validState_sampleState h) ?_
  intro i hi
  obtain rfl : i = 0 := by simpa using hi
  have haction : ValidName (some (lit "increment")) := ⟨by decide, by decide⟩
  exact ⟨rfl, haction, validSource_sampleSource, validState_sampleState h⟩

/-- A set of two integers, and the same set in another order and spelling. -/
def sampleSet : QuintReplayValue := .set [.integer "1", .integer "2"]

/-- The same members in another order, one of them spelled with a sign and a leading zero. -/
def sampleSetRespelled : QuintReplayValue := .set [.integer "+02", .integer "1"]

/-- The set is valid: its members have different texts. -/
theorem valid_sampleSet : Valid sampleSet := ⟨⟨rfl, rfl, trivial⟩, by decide⟩

/-- And so is the other. -/
theorem valid_sampleSetRespelled : Valid sampleSetRespelled := ⟨⟨rfl, rfl, trivial⟩, by decide⟩

/-- Two traces that differ in the order and the spelling of a Set. -/
theorem traceIdentity_eq_iff_sample :
    (sampleTrace sampleSet).traceIdentity = (sampleTrace sampleSetRespelled).traceIdentity ↔
      TraceAgree (sampleTrace sampleSet) (sampleTrace sampleSetRespelled) := by
  have hfree : ∀ x : QuintReplayValue, HashFree x → HashFreeTrace (sampleTrace x) := fun x hx =>
    ⟨fun b hb => by rw [List.mem_singleton.mp hb]; exact hx, fun step hs b hb => by
      rw [List.mem_singleton.mp hs] at hb
      rw [List.mem_singleton.mp hb]
      exact hx⟩
  refine traceIdentity_eq_iff samplePlatform _ _ (validateTrace_sampleTrace valid_sampleSet)
    (validateTrace_sampleTrace valid_sampleSetRespelled) (hfree _ ⟨trivial, trivial, trivial⟩)
    (hfree _ ⟨trivial, trivial, trivial⟩) ?_
  intro a b ha hb _
  have hab : encodeTraceUnchecked (sampleTrace sampleSet) =
      encodeTraceUnchecked (sampleTrace sampleSetRespelled) := by decide +kernel
  rw [ha, hb] at hab
  rw [Except.ok.inj hab]

end FsQuint
