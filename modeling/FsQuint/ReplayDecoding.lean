/-
  The replay decoder on the documents that the raw decoder accepts.

  The second decoder looks at the same tree by other rules: it wants metadata at the root and at
  every state, with fixed fields, and it fingerprints what it has decoded before anything is
  validated.  Each of its parts has one lemma here, in two halves (`Settles`): under which condition
  the part comes back, with what findings; and that otherwise an exception escapes from it, of a type
  that no handler of `decodeItf` is for.

  The findings themselves are never described: of each part it only matters whether there are any,
  because one finding is enough for a document to be refused.  So the lemmas compose by appending
  lists, and a document is refused exactly when some part of it has a finding.
-/
import FsQuint.ReplayImage
import FsQuint.TraceEncoding

set_option linter.unusedVariables false

namespace FsQuint

open Utf16 Collections Decimal Json Unordered ReplayInternal QuintReplay Itf

/-! ## Exceptions -/

/-- An exception escapes that no handler of `decodeItf` is for. -/
def Escapes {α : Type} (x : Outcome α) : Prop :=
  ∃ e, x = .error e ∧ e.type ≠ .json ∧ e.type ≠ .encoderFallback

/-- Where `good` holds, a call comes back with something that has the property `P`; elsewhere an
    exception escapes. -/
def Settles {α : Type} (good : Prop) (x : Outcome α) (P : α → Prop) : Prop :=
  (good → ∃ a, x = .ok a ∧ P a) ∧ (¬ good → Escapes x)

section Settles

variable {α β : Type} {good good' : Prop} {x : Outcome α} {f : α → Outcome β} {P P' : α → Prop} {Q : β → Prop}

/-- What settles answers exactly when all is good. -/
theorem Settles.answers_iff (h : Settles good x P) : Outcome.Answers x ↔ good := by
  constructor
  · rintro ⟨a, ha⟩
    by_contra hbad
    obtain ⟨e, he, _⟩ := h.2 hbad
    rw [ha] at he
    cases he
  · intro hg
    obtain ⟨a, ha, _⟩ := h.1 hg
    exact ⟨a, ha⟩

/-- A computation that succeeds. -/
theorem settles_ok {a : α} (hg : good) (hx : x = .ok a) (hp : P a) : Settles good x P :=
  ⟨fun _ => ⟨a, hx, hp⟩, fun h => absurd hg h⟩

/-- The condition may be replaced by an equivalent one, and what is said of the value weakened. -/
theorem Settles.congr (h : Settles good x P) (hg : good ↔ good') (hp : ∀ a, P a → P' a) :
    Settles good' x P' := by
  refine ⟨fun hgood => ?_, fun hbad => h.2 fun hgood => hbad (hg.mp hgood)⟩
  obtain ⟨a, ha, hpa⟩ := h.1 (hg.mpr hgood)
  exact ⟨a, ha, hp a hpa⟩

/-- What a call comes back with may be known on its own. -/
theorem Settles.of_eq {a : α} (h : Settles good x P) (hx : good → x = .ok a) :
    Settles good x (· = a) :=
  ⟨fun hg => ⟨a, hx hg, rfl⟩, h.2⟩

/-- **One computation after another**: both have to be good. -/
theorem Settles.bind (hx : Settles good x P) (hf : ∀ a, P a → Settles good' (f a) Q) :
    Settles (good ∧ good') (x >>= f) Q := by
  by_cases hg : good
  · obtain ⟨a, rfl, ha⟩ := hx.1 hg
    rw [ok_bind]
    exact ⟨fun h => (hf a ha).1 h.2, fun h => (hf a ha).2 fun hg' => h ⟨hg, hg'⟩⟩
  · obtain ⟨e, rfl, he⟩ := hx.2 hg
    exact ⟨fun h => absurd h.1 hg, fun _ => ⟨e, rfl, he⟩⟩

/-- A call that comes back, followed by another. -/
theorem Settles.after {a : α} (hx : x = .ok a) (hf : Settles good (f a) Q) :
    Settles good (x >>= f) Q := by
  rw [hx, ok_bind]
  exact hf

/-- A call, followed by something that comes back. -/
theorem Settles.map (hx : Settles good x P) (hf : ∀ a, P a → ∃ b, f a = .ok b ∧ Q b) :
    Settles good (x >>= f) Q := by
  have hthen : ∀ a, P a → Settles True (f a) Q := by
    intro a ha
    obtain ⟨b, hb, hq⟩ := hf a ha
    exact settles_ok trivial hb hq
  exact (hx.bind hthen).congr (by rw [and_true]) fun _ => id

/-- A traversal settles as its calls do. -/
theorem settles_mapM {goodAt : α → Prop} {R : α → β → Prop} : ∀ {xs : List α},
    (∀ x ∈ xs, Settles (goodAt x) (f x) (R x)) →
      Settles (∀ x ∈ xs, goodAt x) (xs.mapM f) (List.Forall₂ R xs)
  | [], _ => settles_ok (fun x hx => absurd hx List.not_mem_nil) rfl .nil
  | x :: xs, h => by
    obtain ⟨hx, hxs⟩ := List.forall_mem_cons.mp h
    rw [List.mapM_cons]
    refine (hx.bind fun y hy => (settles_mapM hxs).map fun ys hys => ?_).congr
      List.forall_mem_cons.symm fun _ => id
    exact ⟨y :: ys, rfl, .cons hy hys⟩

end Settles

/-- The text of a string can be read when it is well-formed. -/
theorem settles_stringText (s : UString) :
    Settles (validUnicode s = true) (stringText s) (· = s) := by
  refine ⟨fun h => ⟨s, stringText_eq h, rfl⟩, fun h => ⟨invalidUtf16, if_neg h, ?_⟩⟩
  decide

/-- A string can be written when it is not null. -/
theorem settles_escapeJson (name : NString) :
    Settles (name ≠ none) (Primitives.escapeJson name) fun _ => True := by
  cases name with
  | none => exact ⟨fun h => absurd rfl h, fun _ => ⟨nullReference, rfl, by decide⟩⟩
  | some s => exact ⟨fun _ => ⟨_, rfl, trivial⟩, fun h => absurd (Option.some_ne_none s) h⟩

/-! ## The encoders -/

/-- A binding that has a name is encoded when its value can be. -/
theorem settles_encodeBindingUnchecked {binding : NString × QuintReplayValue}
    (hn : binding.1 ≠ none) :
    Settles (Valid binding.2) (encodeBindingUnchecked binding) fun _ => True := by
  rcases encodeAt_spec "$.bindings" binding.2 with ⟨hv, he⟩ | ⟨hv, found, -, he⟩
  · refine ⟨fun _ => ?_, fun h => absurd hv h⟩
    rw [encodeBindingUnchecked, he, ok_bind, escapeJson_ok hn]
    exact ⟨_, rfl, trivial⟩
  · refine ⟨fun h => absurd h hv, fun _ => ?_⟩
    rw [encodeBindingUnchecked, he]
    exact ⟨_, rfl, by decide⟩

/-- **A state whose bindings have proper names is encoded when their values can be**; otherwise the
    exception of `encodeStateUnchecked` escapes. -/
theorem settles_encodeStateUnchecked {state : QuintReplayState}
    (hn : ValidNames (state.bindings.map Prod.fst)) :
    Settles (ValidFields state.bindings) (encodeStateUnchecked state) (· = stateText state) := by
  have hbindings : ∀ b ∈ sortOn ordinal.nullFirst Prod.fst state.bindings,
      Settles (Valid b.2) (encodeBindingUnchecked b) fun _ => True := fun b hb =>
    settles_encodeBindingUnchecked (hn.2 b.1 (List.mem_map_of_mem (mem_sortOn.mp hb))).ne_none
  have hstate : Settles (ValidFields state.bindings) (encodeStateUnchecked state)
      fun _ => True := by
    refine ((settles_mapM hbindings).map fun texts _ => ⟨_, rfl, trivial⟩).congr ?_ fun _ => id
    simp only [mem_sortOn, validFields_iff]
  exact hstate.of_eq fun hv => encodeStateUnchecked_ok ⟨hn, hv⟩

/-- A source binding can be when its path is not null. -/
theorem settles_encodeSource (source : QuintReplaySourceBinding) :
    Settles (source.path ≠ none) (encodeSource source) fun _ => True :=
  (settles_escapeJson source.path).map fun path _ => ⟨_, rfl, trivial⟩

/-- An environment can be when none of its strings is null. -/
theorem settles_encodeEnvironment (environment : QuintReplayEnvironment) :
    Settles (EncodableEnvironment environment) (encodeEnvironment environment) fun _ => True := by
  have hbounds : ∀ b ∈ sortOn ordinal.nullFirst Prod.fst environment.bounds,
      Settles (b.1 ≠ none) (do return (← Primitives.escapeJson b.1) ++ 0x3A :: decimal b.2 : Outcome UString)
        fun _ => True :=
    fun b _ => (settles_escapeJson b.1).map fun name _ => ⟨_, rfl, trivial⟩
  refine ((settles_mapM hbounds).bind fun bounds _ =>
    (settles_escapeJson environment.seed).bind fun seed _ =>
    (settles_escapeJson environment.toolFingerprint).bind fun tool _ =>
    (settles_escapeJson environment.profileFingerprint).bind fun profile _ =>
    (settles_escapeJson environment.contractFingerprint).bind fun contract _ =>
    (settles_escapeJson environment.adapterFingerprint).bind fun adapter _ =>
    (settles_escapeJson environment.implementationFingerprint).map fun implementation _ =>
      ⟨_, rfl, trivial⟩).congr ?_ fun _ => id
  simp only [mem_sortOn]
  constructor
  · rintro ⟨hbounds, hseed, htool, hprofile, hcontract, hadapter, himplementation⟩
    exact ⟨hseed, hbounds, htool, hprofile, hcontract, hadapter, himplementation⟩
  · rintro ⟨hseed, hbounds, htool, hprofile, hcontract, hadapter, himplementation⟩
    exact ⟨hbounds, hseed, htool, hprofile, hcontract, hadapter, himplementation⟩

/-- A step with a valid state can be when its action and its path are not null. -/
theorem settles_encodeStep {step : QuintReplayStep} (hs : ValidContent step.expected) :
    Settles (step.action ≠ none ∧ step.source.path ≠ none) (encodeStep step) fun _ => True :=
  (settles_escapeJson step.action).bind fun action _ =>
    (settles_encodeSource step.source).map fun source _ => by
      rw [encodeStateUnchecked_ok hs]
      exact ⟨_, rfl, trivial⟩

/-- **A trace whose states can be encoded is encoded when no string of it is null.** -/
theorem settles_encodeTraceUnchecked {trace : QuintReplayTrace} (hi : ValidContent trace.initial)
    (hs : ∀ step ∈ trace.steps, ValidContent step.expected) :
    Settles (Encodable trace) (encodeTraceUnchecked trace) (· = traceText trace) := by
  have htrace : Settles (Encodable trace) (encodeTraceUnchecked trace) fun _ => True := by
    refine ((settles_mapM fun step hstep => settles_encodeStep (hs step hstep)).bind fun steps _ =>
      (settles_encodeEnvironment trace.environment).map fun environment _ => ?_).congr
      ?_ fun _ => id
    · rw [encodeStateUnchecked_ok hi]
      exact ⟨_, rfl, trivial⟩
    · constructor
      · rintro ⟨hsteps, he⟩
        exact ⟨he, hi, fun step hstep =>
          ⟨(hsteps step hstep).1, (hsteps step hstep).2, hs step hstep⟩⟩
      · rintro ⟨he, _, hsteps⟩
        exact ⟨fun step hstep => ⟨(hsteps step hstep).action, (hsteps step hstep).source⟩, he⟩
  exact htrace.of_eq encodeTraceUnchecked_ok

/-! ## Fields -/

/-- The members of an object have exactly the names of a list. -/
def HasFields (names : List UString) (members : List (UString × JsonElement)) : Prop :=
  ∀ name, name ∈ members.map Prod.fst ↔ name ∈ names

/-- `checkFields` with one set of names says nothing exactly when these are the keys. -/
theorem checkFields_spec {path : UString} {names : List UString}
    {members : List (UString × JsonElement)} (hn : ∀ m ∈ members, validUnicode m.1 = true)
    (hd : (members.map Prod.fst).Nodup) :
    ∃ found, ReplayInternal.checkFields path (setOf names) (setOf names)
      (.object members) = .ok found ∧
      (found = [] ↔ HasFields names members) := by
  refine ⟨_, by rw [ReplayInternal.checkFields, propertyNames_eq hn, ok_bind]; rfl, ?_⟩
  have hcount : ∀ p ∈ countBy (members.map Prod.fst), ¬ 1 < p.2 := forall_countBy_le_one.mpr hd
  rw [List.append_eq_nil_iff, List.append_eq_nil_iff, List.flatMap_eq_nil_iff,
    List.flatMap_eq_nil_iff, List.flatMap_eq_nil_iff]
  simp only [unless_eq_nil, not_not, mem_setOf, mem_distinct, HasFields]
  constructor
  · rintro ⟨⟨_, hallowed⟩, hrequired⟩ name
    exact ⟨hallowed name, hrequired name⟩
  · intro h
    exact ⟨⟨hcount, fun name hname => (h name).mp hname⟩, fun name hname => (h name).mpr hname⟩

/-- The replay decoder wants a metadata field to be a given string, which it reads. -/
theorem settles_metadataFinding {name expected : UString} {metadata : List (UString × JsonElement)}
    (hd : (metadata.map Prod.fst).Nodup) :
    Settles (∀ s, (name, .string s) ∈ metadata → validUnicode s = true)
      (metadataFinding name expected (.object metadata))
      fun found => found = [] ↔ (name, .string expected) ∈ metadata := by
  rw [metadataFinding, ReplayInternal.property, tryGetProperty, ok_bind]
  cases hl : lastMember name metadata with
  | none =>
    have habsent : ∀ s, (name, .string s) ∉ metadata := fun s hs =>
      lastMember_eq_none.mp hl (List.mem_map_of_mem hs)
    exact settles_ok (fun s hs => absurd hs (habsent s)) rfl
      (iff_of_false (List.cons_ne_nil _ _) (habsent expected))
  | some field =>
    -- the field that is looked up is the only member of its name
    have honly : ∀ s, (name, .string s) ∈ metadata ↔ field = .string s := by
      intro s
      constructor
      · intro hs
        exact Option.some.inj (hl.symm.trans (lastMember_of_mem hd hs))
      · rintro rfl
        exact lastMember_eq_some hl
    simp only [honly]
    cases field with
    | string s =>
      refine ((settles_stringText s).map fun read hread => ?_).congr ?_ fun _ => id
      · obtain rfl : read = s := hread
        by_cases hs : read = expected
        · exact ⟨[], if_pos hs, iff_of_true rfl (by rw [hs])⟩
        · exact ⟨_, if_neg hs, iff_of_false (List.cons_ne_nil _ _) fun h =>
            hs (JsonElement.string.inj h)⟩
      · exact ⟨fun hs t ht => JsonElement.string.inj ht ▸ hs, fun h => h s rfl⟩
    | _ =>
      refine settles_ok ?_ rfl (iff_of_false (List.cons_ne_nil _ _) ?_)
      · intro s h
        cases h
      · intro h
        cases h

/-! ## Roots -/

/-- The status in the metadata of the document, where it is a string, is well-formed Unicode. -/
def StatusLegible (members : List (UString × JsonElement)) : Prop :=
  ∀ metadata, (lit "#meta", .object metadata) ∈ members → ∀ s, (lit "status", .string s) ∈ metadata →
    validUnicode s = true

/-- The metadata that the replay decoder wants at the root. -/
def ReplayMetadata (members : List (UString × JsonElement)) : Prop :=
  ∃ metadata, (lit "#meta", .object metadata) ∈ members ∧
    HasFields [lit "format", lit "format-description", lit "source", lit "status"] metadata ∧
    (lit "format", .string (lit "ITF")) ∈ metadata ∧ (lit "status", .string (lit "ok")) ∈ metadata

/-- The metadata are looked at without an exception when the status can be read. -/
theorem settles_metadataDiagnostics {limit : Int} {members : List (UString × JsonElement)}
    (hs : WellNamed (.object members)) (hb : Bounded limit (.object members))
    (hm : ∀ metadata, (lit "#meta", metadata) ∈ members →
      ∃ fields, metadata = .object fields ∧ (lit "format", .string (lit "ITF")) ∈ fields) :
    Settles (StatusLegible members) (metadataDiagnostics (.object members))
      fun found => lit "#meta" ∈ members.map Prod.fst ∧ found = [] ↔ ReplayMetadata members := by
  rw [metadataDiagnostics, ReplayInternal.property, tryGetProperty, ok_bind]
  cases hl : lastMember "#meta" members with
  | none =>
    have habsent := lastMember_eq_none.mp hl
    refine settles_ok ?_ rfl (iff_of_false (fun h => habsent h.1) ?_)
    · intro metadata hmem
      exact absurd (List.mem_map_of_mem hmem) habsent
    · rintro ⟨metadata, hmem, _⟩
      exact habsent (List.mem_map_of_mem hmem)
  | some metadata =>
    have hmem := lastMember_eq_some hl
    obtain ⟨fields, rfl, hformat⟩ := hm metadata hmem
    have honly : ∀ {other}, (lit "#meta", .object other) ∈ members → other = fields := by
      intro other h
      exact JsonElement.object.inj (Option.some.inj ((lastMember_of_mem hb.2.1 h).symm.trans hl))
    have hnamed := wellNamedMembers_iff.mp (wellNamedMembers_iff.mp hs _ hmem).2
    have hbounded : Bounded limit (.object fields) := boundedFields_iff.mp hb.2.2 _ hmem
    obtain ⟨found, hfound, hfields⟩ := @checkFields_spec "$/#meta"
      [lit "format", lit "format-description", lit "source", lit "status"] fields
        (fun m hm => (hnamed m hm).1) hbounded.2.1
    -- the guard has compared the format with a constant
    have hread : ∀ s, (lit "format", .string s) ∈ fields → validUnicode s = true := by
      intro s h
      have hsame := List.inj_on_of_nodup_map hbounded.2.1 h hformat rfl
      rw [JsonElement.string.inj (Prod.mk.inj hsame).2]
      decide
    refine Settles.after hfound (((settles_metadataFinding hbounded.2.1).bind fun format hf =>
      (settles_metadataFinding hbounded.2.1).map fun status hst => ⟨_, rfl, ?_⟩).congr
      ?_ fun _ => id)
    · rw [List.append_eq_nil_iff, List.append_eq_nil_iff, hfields, hf, hst]
      constructor
      · rintro ⟨_, ⟨hfields, hf⟩, hst⟩
        exact ⟨fields, hmem, hfields, hf, hst⟩
      · rintro ⟨other, hother, hfields, hf, hst⟩
        rw [honly hother] at hfields hf hst
        exact ⟨List.mem_map_of_mem hmem, ⟨hfields, hf⟩, hst⟩
    · constructor
      · rintro ⟨_, hst⟩ other hother
        rw [honly hother]
        exact hst
      · intro hst
        exact ⟨hread, hst fields hmem⟩

/-- A list of strings is read as the names. -/
theorem variableItems_strings :
    ∀ {names : List UString} {index : Nat}, (∀ name ∈ names, validUnicode name = true) →
    variableItems index (names.map .string) = .ok (names, [])
  | [], _, _ => rfl
  | name :: names, index, h => by
    obtain ⟨hname, hnames⟩ := List.forall_mem_cons.mp h
    rw [List.map_cons, variableItems, stringText_eq hname, ok_bind, variableItems_strings hnames]
    rfl

/-- Distinct names that can be read are read as the variables. -/
theorem decodeVariables_eq {members : List (UString × JsonElement)} {names : List UString}
    (hd : (members.map Prod.fst).Nodup) (hm : (lit "vars", .array (names.map .string)) ∈ members)
    (hs : ∀ name ∈ names, validUnicode name = true) (hne : names ≠ []) (hn : names.Nodup) :
    decodeVariables (.object members) = .ok (names, []) := by
  have hcount : ¬ (names = [] ∨ (distinct names).length ≠ names.length) := by
    rw [not_or, not_not]
    exact ⟨hne, length_distinct_eq_iff.mpr hn⟩
  rw [decodeVariables, ReplayInternal.property, tryGetProperty, ok_bind, lastMember_of_mem hd hm]
  simp only [variableItems_strings hs, ok_bind, if_neg hcount]
  rfl

/-- The states are found without a finding. -/
theorem rawStates_eq {members : List (UString × JsonElement)} {items : List JsonElement}
    (hd : (members.map Prod.fst).Nodup) (hm : (lit "states", .array items) ∈ members)
    (hne : 1 ≤ items.length) :
    rawStates (.object members) = .ok (items, []) := by
  rw [rawStates, ReplayInternal.property, tryGetProperty, ok_bind, lastMember_of_mem hd hm]
  cases items with
  | nil => simp at hne
  | cons item items => rfl

/-! ## States -/

/-- A binding is in the replay subset: no tuple and no map is bound, and no bare number exceeds 64 bits. -/
structure InSubset (fields : List (UString × JsonElement)) (b : UString × ItfValue) : Prop where
  within : ∀ field, (b.1, field) ∈ fields → WithinInt64 field
  plain : Plain b.2

/-- No value of the replay subset that is bound in a state has a blank record key. -/
def SafeState (state : JsonElement) (bindings : List (UString × ItfValue)) : Prop :=
  ∀ fields, state = .object fields → ∀ b ∈ bindings, InSubset fields b → BlankFree b.2

/-- The metadata of a state is exactly its index. -/
def IndexMetadata (fields : List (UString × JsonElement)) : Prop :=
  ∃ metadata, (lit "#meta", .object metadata) ∈ fields ∧ HasFields [lit "index"] metadata

/-- The replay decoder has no finding about a state. -/
def ReplayableState (state : JsonElement) (bindings : List (UString × ItfValue)) : Prop :=
  ∃ fields, state = .object fields ∧ IndexMetadata fields ∧ ∀ b ∈ bindings, InSubset fields b

/-- What is decoded for the variables `names`: the images of the bindings in the subset, and findings
    about the others. -/
structure DecodedBindings (fields : List (UString × JsonElement)) (names : List UString)
    (bindings : List (UString × ItfValue)) (decoded : List (NString × QuintReplayValue))
    (found : List QuintReplayDiagnostic) : Prop where
  sublist : (decoded.map Prod.fst).Sublist (names.map some)
  valid : ValidFields decoded ↔ ∀ b ∈ bindings, InSubset fields b → BlankFree b.2
  clean : found = [] ↔ ∀ b ∈ bindings, InSubset fields b
  image : found = [] → imageFields bindings = some decoded

/-- **The bindings of a state**: one for each variable whose value is in the subset, and findings about
    the others. -/
theorem decodeBindings_spec {limit : Int} {fields : List (UString × JsonElement)} {path : UString}
    {names : List UString} {bindings : List (UString × ItfValue)}
    (hd : (fields.map Prod.fst).Nodup) (hb : BoundedFields limit fields)
    (hw : ∀ name ∈ names, ∀ field, (name, field) ∈ fields → WellFormed field)
    (h : List.Forall₂ (fun name b => b.1 = name ∧ ∃ field, (name, field) ∈ fields ∧
      Denotes field b.2) names bindings) :
    ∃ decoded found, decodeBindings path (.object fields) names = .ok (decoded, found) ∧
      DecodedBindings fields names bindings decoded found := by
  induction h with
  | nil =>
    refine ⟨[], [], rfl, List.Sublist.slnil, ?_, ?_, fun _ => rfl⟩
    · exact iff_of_true trivial fun _ hb => absurd hb List.not_mem_nil
    · exact iff_of_true rfl fun _ hb => absurd hb List.not_mem_nil
  | @cons name b names bindings hbound hbounds ih =>
    obtain ⟨hwell, hwells⟩ := List.forall_mem_cons.mp hw
    obtain ⟨decoded, found, hrest, hspec⟩ := ih hwells
    obtain ⟨x, v⟩ := b
    obtain ⟨rfl, field, hmem, hdenotes⟩ := hbound
    have hfind : lastMember x fields = some field := lastMember_of_mem hd hmem
    have hsubset : InSubset fields (x, v) ↔ WithinInt64 field ∧ ∃ w, image v = some w := by
      rw [← plain_iff]
      constructor
      · rintro ⟨hwithin, hplain⟩
        exact ⟨(forall_member_iff hd hfind).mp hwithin, hplain⟩
      · rintro ⟨hwithin, hplain⟩
        exact ⟨(forall_member_iff hd hfind).mpr hwithin, hplain⟩
    have hproduced : Produced v := produced_of_denotes hdenotes (hwell field hmem)
      (boundedFields_iff.mp hb _ hmem)
    obtain ⟨result, hresult, hyield⟩ :=
      @decodeItfValue_spec field v (path ++ lit "/" ++ x) hdenotes (hwell field hmem)
    rw [decodeBindings, ReplayInternal.property, tryGetProperty, ok_bind, hfind]
    simp only [hresult, ok_bind]
    rcases hyield with ⟨w, ⟨hwithin, himage⟩, rfl⟩ | ⟨hnone, findings, hne, rfl⟩
    -- a variable outside the subset is reported and left out of the state
    · have hin : InSubset fields (x, v) := hsubset.mpr ⟨hwithin, w, himage⟩
      refine ⟨(some x, w) :: decoded, found, by rw [hrest]; rfl, ?_, ?_, ?_, fun hfound => ?_⟩
      · exact hspec.sublist.cons_cons (some x)
      · rw [ValidFields, valid_image_iff hproduced himage, hspec.valid, List.forall_mem_cons]
        exact and_congr_left fun _ => ⟨fun hblank _ => hblank, fun hblank => hblank hin⟩
      · rw [hspec.clean, List.forall_mem_cons]
        exact (and_iff_right hin).symm
      · rw [imageFields_eq_some_iff]
        exact .cons ⟨rfl, himage⟩ (imageFields_eq_some_iff.mp (hspec.image hfound))
    · have hout : ¬ InSubset fields (x, v) := by
        intro hin
        obtain ⟨hwithin, w, himage⟩ := hsubset.mp hin
        exact hnone ⟨w, hwithin, himage⟩
      have hfindings : findings ++ found ≠ [] := fun h => hne (List.append_eq_nil_iff.mp h).1
      refine ⟨decoded, findings ++ found,
        by rw [hrest]; rfl, ?_, ?_, ?_, fun h => absurd h hfindings⟩
      · exact hspec.sublist.trans (List.sublist_cons_self _ _)
      · rw [hspec.valid, List.forall_mem_cons]
        exact (and_iff_right fun hin => absurd hin hout).symm
      · exact iff_of_false hfindings fun hall => hout (hall _ List.mem_cons_self)

/-- The metadata of a state cause no finding exactly when they are the index. -/
theorem stateMetadataDiagnostics_spec {limit : Int} {path : UString} {names : List UString}
    {i : Nat} {fields : List (UString × JsonElement)} {bindings : List (UString × ItfValue)}
    (hi : (i : Int) < 2 ^ 31) (hs : WellNamed (.object fields))
    (hb : Bounded limit (.object fields)) (h : StateOf names i fields bindings) :
    ∃ found, stateMetadataDiagnostics path i (.object fields) = .ok found ∧
      (lit "#meta" ∈ fields.map Prod.fst ∧ found = [] ↔ IndexMetadata fields) := by
  rw [stateMetadataDiagnostics, ReplayInternal.property, tryGetProperty, ok_bind]
  cases hl : lastMember "#meta" fields with
  | none =>
    have habsent := lastMember_eq_none.mp hl
    refine ⟨[], rfl, iff_of_false (fun h => habsent h.1) ?_⟩
    rintro ⟨metadata, hmem, _⟩
    exact habsent (List.mem_map_of_mem hmem)
  | some element =>
    have hmem := lastMember_eq_some hl
    obtain ⟨metadata, raw, rfl, hraw, hindex⟩ := h.index element hmem
    have hnamed := wellNamedMembers_iff.mp (wellNamedMembers_iff.mp hs _ hmem).2
    have hbounded : Bounded limit (.object metadata) := boundedFields_iff.mp hb.2.2 _ hmem
    obtain ⟨found, hfound, hfields⟩ :=
      @checkFields_spec (path ++ lit "/#meta") [lit "index"] metadata
      (fun m hm => (hnamed m hm).1) hbounded.2.1
    -- the guard has compared the index with the position, so it can be read again
    have hread : tryGetInt32 (.number raw) = .ok (some (i : Int)) := by
      rw [tryGetInt32_eq hi]
      exact ⟨raw, rfl, hindex⟩
    refine ⟨found, ?_, ?_⟩
    · simp only [hfound, ok_bind, ReplayInternal.property, tryGetProperty,
        lastMember_of_mem hbounded.2.1 hraw, hread, if_true]
      rfl
    · rw [hfields]
      constructor
      · rintro ⟨_, hhas⟩
        exact ⟨metadata, hmem, hhas⟩
      · rintro ⟨other, hother, hhas⟩
        obtain rfl := JsonElement.object.inj
          (Option.some.inj ((lastMember_of_mem hb.2.1 hother).symm.trans hl))
        exact ⟨List.mem_map_of_mem hmem, hhas⟩

section Platform

variable (platform : Platform)

/-- What is decoded for a state: a valid state, of the images of all bindings when nothing is found. -/
structure DecodedState (state : JsonElement) (bindings : List (UString × ItfValue))
    (r : QuintReplayState × List QuintReplayDiagnostic) : Prop where
  valid : ValidState platform r.1
  clean : r.2 = [] ↔ ReplayableState state bindings
  image : r.2 = [] → imageFields bindings = some r.1.bindings

/-- **A state**: it is fingerprinted, and so no key in its bindings may be blank; the findings are
    those about what is not in the subset. -/
theorem settles_decodeState {limit : Int} {names : List UString} {i : Nat}
    {fields : List (UString × JsonElement)} {bindings : List (UString × ItfValue)}
    (hi : (i : Int) < 2 ^ 31) (hs : WellNamed (.object fields))
    (hb : Bounded limit (.object fields)) (hw : LegibleState names (.object fields))
    (hd : names.Nodup) (hn : ∀ name ∈ names, ValidName (some name))
    (h : StateOf names i fields bindings) :
    Settles (SafeState (.object fields) bindings) (decodeState platform names i (.object fields))
      (DecodedState platform (.object fields) bindings) := by
  have hnamed := wellNamedMembers_iff.mp hs
  obtain ⟨fieldFindings, hfields, hhas⟩ :=
    @checkFields_spec (lit "$/states/" ++ natText i) (lit "#meta" :: names) fields
    (fun m hm => (hnamed m hm).1) hb.2.1
  obtain ⟨metadataFindings, hmetadata, hindex⟩ :=
    @stateMetadataDiagnostics_spec limit (lit "$/states/" ++ natText i)
      names i fields bindings hi hs hb h
  obtain ⟨decoded, findings, hdecoded, hspec⟩ :=
    @decodeBindings_spec limit fields (lit "$/states/" ++ natText i)
      names bindings hb.2.1 hb.2.2 (hw fields rfl) h.bound
  -- the keys other than the metadata are right already
  have hkeys : HasFields (lit "#meta" :: names) fields ↔ lit "#meta" ∈ fields.map Prod.fst := by
    constructor
    · intro hall
      exact (hall _).mpr List.mem_cons_self
    · intro hmeta name
      rw [List.mem_cons, ← h.keys]
      by_cases hname : name = lit "#meta"
      · rw [hname]
        exact iff_of_true hmeta (.inl rfl)
      · exact ⟨fun hmem => .inr ⟨hmem, hname⟩, fun hor => (hor.resolve_left hname).1⟩
  have hnames : ValidNames (decoded.map Prod.fst) := by
    refine ⟨(hd.map (Option.some_injective _)).sublist hspec.sublist, fun name hname => ?_⟩
    obtain ⟨n, hn', rfl⟩ := List.mem_map.mp (hspec.sublist.subset hname)
    exact hn n hn'
  have hsafe : ValidFields decoded ↔ SafeState (.object fields) bindings := by
    rw [hspec.valid]
    constructor
    · intro hall other hother
      rwa [← JsonElement.object.inj hother]
    · intro hall
      exact hall fields rfl
  have hencode := @settles_encodeStateUnchecked { identity := some [], bindings := decoded } hnames
  rw [decodeState]
  refine Settles.after hfields (Settles.after hmetadata (Settles.after hdecoded ?_))
  refine Settles.congr ?_ hsafe fun r hr => hr
  -- whether the state is fingerprinted decides about the rest
  have hfingerprint : Settles (ValidFields decoded)
      (ReplayInternal.stateFingerprint platform { identity := some [], bindings := decoded })
      fun identity => ValidState platform { identity := some identity, bindings := decoded } := by
    constructor
    · intro hv
      obtain ⟨text, htext, rfl⟩ := hencode.1 hv
      exact ⟨_, by rw [ReplayInternal.stateFingerprint, htext]; rfl, ⟨hnames, hv⟩, rfl⟩
    · intro hv
      obtain ⟨e, he, hunhandled⟩ := hencode.2 hv
      exact ⟨e, by rw [ReplayInternal.stateFingerprint, he]; rfl, hunhandled⟩
  refine hfingerprint.map fun identity hidentity => ⟨_, rfl, hidentity, ?_, fun hnone => ?_⟩
  · rw [List.append_eq_nil_iff, List.append_eq_nil_iff, hhas, hkeys, hindex, hspec.clean]
    constructor
    · rintro ⟨hmetadata, hsubset⟩
      exact ⟨fields, rfl, hmetadata, hsubset⟩
    · rintro ⟨other, hother, hmetadata, hsubset⟩
      rw [← JsonElement.object.inj hother] at hmetadata hsubset
      exact ⟨hmetadata, hsubset⟩
  · exact hspec.image (List.append_eq_nil_iff.mp hnone).2

/-- What is decoded for the states. -/
structure DecodedStates (items : List JsonElement) (states : List (List (UString × ItfValue)))
    (r : List QuintReplayState × List QuintReplayDiagnostic) : Prop where
  count : r.1.length = items.length
  valid : ∀ s ∈ r.1, ValidState platform s
  clean : r.2 = [] ↔ List.Forall₂ ReplayableState items states
  image : r.2 = [] → List.Forall₂ (fun bindings s => imageFields bindings = some s.bindings) states r.1

/-- The states are decoded one by one, the first at position `k`. -/
theorem settles_decodeStates {limit : Int} {names : List UString} {items : List JsonElement}
    {k : Nat} {states : List (List (UString × ItfValue))} (hd : names.Nodup)
    (hn : ∀ name ∈ names, ValidName (some name)) (hk : (k : Int) + items.length ≤ 2 ^ 31)
    (hs : WellNamedItems items) (hb : BoundedItems limit items)
    (hw : ∀ item ∈ items, LegibleState names item) (hlength : items.length = states.length)
    (hstates : ∀ i state bindings, items[i]? = some state → states[i]? = some bindings →
      ∃ fields, state = .object fields ∧ StateOf names (k + i) fields bindings) :
    Settles (List.Forall₂ SafeState items states) (decodeStates platform names k items)
      (DecodedStates platform items states) := by
  induction items generalizing k states with
  | nil =>
    obtain rfl := List.eq_nil_of_length_eq_zero hlength.symm
    refine settles_ok .nil rfl ⟨rfl, fun s hs => absurd hs List.not_mem_nil, ?_, fun _ => .nil⟩
    exact iff_of_true rfl .nil
  | cons item items ih =>
    obtain ⟨bindings, states, rfl⟩ := List.exists_cons_of_length_eq_add_one hlength.symm
    rw [List.length_cons] at hk
    obtain ⟨hwell, hwells⟩ := List.forall_mem_cons.mp hw
    obtain ⟨fields, rfl, hstate⟩ := hstates 0 item bindings rfl rfl
    have htail : ∀ i state bindings, items[i]? = some state → states[i]? = some bindings →
        ∃ fields, state = .object fields ∧ StateOf names (k + 1 + i) fields bindings := by
      intro i state bindings hi hb
      rw [show k + 1 + i = k + (i + 1) by omega]
      exact hstates (i + 1) state bindings hi hb
    -- the rest is decoded whether or not the first state has findings
    have hrest := @ih (k + 1) states (by omega) hs.2 hb.2 hwells (Nat.succ.inj hlength) htail
    rw [decodeStates]
    refine ((settles_decodeState platform (by omega) hs.1 hb.1 hwell hd hn hstate).bind
      fun first hfirst =>
      hrest.map fun rest hrest => ⟨_, rfl, ?_⟩).congr List.forall₂_cons.symm fun _ => id
    refine ⟨congrArg (· + 1) hrest.count, List.forall_mem_cons.mpr ⟨hfirst.valid, hrest.valid⟩, ?_,
      fun hnone => ?_⟩
    · rw [List.append_eq_nil_iff, hfirst.clean, hrest.clean, List.forall₂_cons]
    · obtain ⟨hnone, hnones⟩ := List.append_eq_nil_iff.mp hnone
      exact .cons (hfirst.image hnone) (hrest.image hnones)

end Platform

end FsQuint
