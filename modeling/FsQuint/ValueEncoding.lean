/-
  What `encodeAt` writes.

  The encoding of a value is the canonical JSON text of a document of `Unordered.Doc`: a Set is a
  bag under the tag `#set`, a Record is a record, an Integer literal stands for the integer it
  denotes (`doc`).  The main result (`encodeAt_spec`) says that `encodeAt` never throws, that it
  answers with exactly that text on the values that are `Valid`, and with at least one finding on
  all others; the path it is given matters for the findings only.

  The induction is on the value, with one lemma for the items of a Sequence or Set
  (`encodeItems_spec`) and one for the fields of a Record (`encodeFields_spec`).
-/
import FsQuint.Lib.Unordered
import FsQuint.ReplayInternal

namespace FsQuint.ReplayInternal

open Utf16 Collections Decimal Json Unordered

/-! ## Integers and strings -/

/-- The integer that a literal denotes: an optional sign followed by decimal digits. -/
def denotes (s : NString) : Option Int := s.bind parseInteger

/-- White space is neither a digit nor a sign. -/
theorem isDigit_of_isWhiteSpace {c : UInt16} (h : isWhiteSpace c = true) :
    isDigit c = false ∧ c ≠ 0x2D ∧ c ≠ 0x2B := by
  refine ⟨?_, ?_, ?_⟩
  · by_contra hd
    simp only [isWhiteSpace, Bool.or_eq_true, decide_eq_true_eq, isDigit, Bool.not_eq_false,
      Bool.and_eq_true, UInt16.le_iff_toNat_le, ← UInt16.toNat_inj] at h hd
    simp at h
    omega
  · rintro rfl
    exact absurd h (by decide)
  · rintro rfl
    exact absurd h (by decide)

/-- No string of white space denotes an integer. -/
theorem parseInteger_whiteSpace {s : UString} (h : s.all isWhiteSpace = true) :
    parseInteger s = none := by
  cases s with
  | nil => rfl
  | cons c rest =>
    rw [List.all_cons, Bool.and_eq_true] at h
    obtain ⟨hd, hm, hp⟩ := isDigit_of_isWhiteSpace h.1
    rw [parseInteger, if_neg hm, if_neg hp, parseNat, readDigits, hd]
    · rfl
    · simp

/-- The blank literals denote nothing anyway. -/
theorem canonicalInteger_eq (s : NString) : canonicalInteger s = (denotes s).map decimal := by
  cases s with
  | none => rfl
  | some s =>
    by_cases h : s.all isWhiteSpace = true
    · rw [canonicalInteger, isNullOrWhiteSpace, if_pos h, denotes, Option.bind_some,
        parseInteger_whiteSpace h, Option.map_none]
    · rw [canonicalInteger, isNullOrWhiteSpace, if_neg h]
      rfl

/-- The four digits that `escapeJson` writes for a control character read as that character. -/
theorem hexUnit_hexDigitLower : ∀ n < 0x20,
    hexUnit 0x30 0x30 (hexDigitLower (n / 16)) (hexDigitLower (n % 16)) =
      some (UInt16.ofNat n) := by
  decide

/-- **Each character is read back from what is written for it.** -/
theorem readsUnit_escapeChar (c : UInt16) : ReadsUnit (escapeChar c) c := by
  unfold escapeChar
  by_cases h1 : c = 0x22
  · rw [if_pos h1, h1]
    exact readsUnit_short (by decide) (by decide)
  by_cases h2 : c = 0x5C
  · rw [if_neg h1, if_pos h2, h2]
    exact readsUnit_short (by decide) (by decide)
  by_cases h3 : c = 0x08
  · rw [if_neg h1, if_neg h2, if_pos h3, h3]
    exact readsUnit_short (by decide) (by decide)
  by_cases h4 : c = 0x0C
  · rw [if_neg h1, if_neg h2, if_neg h3, if_pos h4, h4]
    exact readsUnit_short (by decide) (by decide)
  by_cases h5 : c = 0x0A
  · rw [if_neg h1, if_neg h2, if_neg h3, if_neg h4, if_pos h5, h5]
    exact readsUnit_short (by decide) (by decide)
  by_cases h6 : c = 0x0D
  · rw [if_neg h1, if_neg h2, if_neg h3, if_neg h4, if_neg h5, if_pos h6, h6]
    exact readsUnit_short (by decide) (by decide)
  by_cases h7 : c = 0x09
  · rw [if_neg h1, if_neg h2, if_neg h3, if_neg h4, if_neg h5, if_neg h6, if_pos h7, h7]
    exact readsUnit_short (by decide) (by decide)
  rw [if_neg h1, if_neg h2, if_neg h3, if_neg h4, if_neg h5, if_neg h6, if_neg h7]
  by_cases h8 : c.toNat < 0x20
  · rw [if_pos h8]
    refine readsUnit_hex ?_
    rw [hexUnit_hexDigitLower _ h8, UInt16.ofNat_toNat]
  · rw [if_neg h8]
    exact readsUnit_plain h1 h2 h8

/-- The literals of `escapeJson` as a quoting: every string that is not null can be written. -/
def jsonQuoting : Quoting where
  quote := literal
  Fits := fun _ => True
  reads {s} _ := by
    refine ⟨s.flatMap escapeChar ++ [0x22], rfl, fun rest => ?_⟩
    rw [List.append_assoc]
    exact readString_flatMap readsUnit_escapeChar s rest

/-! ## The document of a value -/

mutual

/-- The document that a value is encoded as. -/
def doc : QuintReplayValue → Doc
  | .null => .null
  | .boolean b => .boolean b
  | .integer s => .number ((denotes s).getD 0)
  | .text s => .string (printed s)
  | .sequence xs => .list (docItems xs)
  | .set xs => .bag (lit "#set") (docItems xs)
  | .record fs => .record (docFields fs)

/-- The documents of some values. -/
def docItems : List QuintReplayValue → List Doc
  | [] => []
  | x :: xs => doc x :: docItems xs

/-- The documents of some fields, under their printed names. -/
def docFields : List (NString × QuintReplayValue) → List (UString × Doc)
  | [] => []
  | (name, x) :: fs => (printed name, doc x) :: docFields fs

end

/-- `docItems` is a map, which the mutual definition hides. -/
theorem docItems_eq_map : ∀ xs, docItems xs = xs.map doc
  | [] => rfl
  | x :: xs => by rw [docItems, docItems_eq_map xs, List.map_cons]

/-- And so is `docFields`. -/
theorem docFields_eq_map : ∀ fs, docFields fs = fs.map fun f => (printed f.1, doc f.2)
  | [] => rfl
  | (name, x) :: fs => by rw [docFields, docFields_eq_map fs, List.map_cons]

/-- The canonical text of a value. -/
def valueText (v : QuintReplayValue) : UString := text jsonQuoting (doc v)

/-- A name that can be written: neither blank nor ill-formed. -/
def ValidName (name : NString) : Prop :=
  isNullOrWhiteSpace name = false ∧ validUnicode (printed name) = true

/-- Names that can be written, none of them twice. -/
def ValidNames (names : List NString) : Prop := names.Nodup ∧ ∀ name ∈ names, ValidName name

mutual

/-- The values that have an encoding: integers are decimal literals, texts are well-formed
    strings, record keys are names without duplicates, and no two members of a set have one
    text. -/
def Valid : QuintReplayValue → Prop
  | .integer s => (denotes s).isSome = true
  | .text s => ∃ t, s = some t ∧ validUnicode t = true
  | .sequence xs => ValidItems xs
  | .set xs => ValidItems xs ∧ (xs.map valueText).Nodup
  | .record fs => ValidNames (fs.map Prod.fst) ∧ ValidFields fs
  | _ => True

/-- All of some values are valid. -/
def ValidItems : List QuintReplayValue → Prop
  | [] => True
  | x :: xs => Valid x ∧ ValidItems xs

/-- The values of some fields are valid. -/
def ValidFields : List (NString × QuintReplayValue) → Prop
  | [] => True
  | (_, x) :: fs => Valid x ∧ ValidFields fs

end

/-- `ValidItems`, member by member. -/
theorem validItems_iff : ∀ {xs : List QuintReplayValue}, ValidItems xs ↔ ∀ x ∈ xs, Valid x
  | [] => by simp [ValidItems]
  | x :: xs => by simp [ValidItems, @validItems_iff xs]

/-- `ValidFields`, field by field. -/
theorem validFields_iff :
    ∀ {fs : List (NString × QuintReplayValue)}, ValidFields fs ↔ ∀ f ∈ fs, Valid f.2
  | [] => by simp [ValidFields]
  | (name, x) :: fs => by simp [ValidFields, @validFields_iff fs]

/-- A proper name is not null. -/
theorem ValidName.ne_none {name : NString} (h : ValidName name) : name ≠ none := by
  rintro rfl
  exact absurd h.1 (by simp [isNullOrWhiteSpace])

/-- A string that is not null is what it prints as. -/
theorem some_printed {name : NString} (h : name ≠ none) : some (printed name) = name := by
  cases name with
  | none => exact absurd rfl h
  | some name => rfl

/-- **Every string that is not null is written**, as the literal of what it prints as. -/
theorem escapeJson_ok {name : NString} (h : name ≠ none) :
    Primitives.escapeJson name = .ok (literal (printed name)) := by
  rw [← some_printed h]
  rfl

/-- Sorting by names that are not null is sorting by their texts. -/
theorem sortOn_names {α β : Type} {fs : List (NString × α)} (hn : ∀ f ∈ fs, f.1 ≠ none)
    (g : α → β) :
    (sortOn ordinal.nullFirst Prod.fst fs).map (fun f => (printed f.1, g f.2)) =
      sortOn ordinal Prod.fst (fs.map fun f => (printed f.1, g f.2)) := by
  have hfs : (fs.map fun f => (printed f.1, f.2)).map (fun d => (some d.1, d.2)) = fs := by
    rw [List.map_map]
    refine (List.map_congr_left fun f hf => ?_).trans (List.map_id fs)
    exact Prod.ext (some_printed (hn f hf)) rfl
  have hsort := map_sortOn ordinal.nullFirst (fun d : UString × α => some d.1) Prod.fst
    (fun d => (some d.1, d.2)) (fun _ => rfl) (fs.map fun f => (printed f.1, f.2))
  rw [hfs] at hsort
  have hmap := map_sortOn ordinal Prod.fst Prod.fst (fun d : UString × α => (d.1, g d.2))
    (fun _ => rfl)
    (fs.map fun f => (printed f.1, f.2))
  rw [List.map_map] at hmap
  rw [← hsort, List.map_map]
  exact hmap

/-! ## Collecting results -/

/-- Sorting loses no finding: nothing is left only of nothing. -/
theorem sortDiagnostics_eq_nil {diagnostics : List QuintReplayDiagnostic} :
    sortDiagnostics diagnostics = [] ↔ diagnostics = [] := by
  rw [sortDiagnostics, sortOn_eq_nil, distinct_eq_nil]

/-- And adds none. -/
theorem mem_sortDiagnostics {d : QuintReplayDiagnostic} {diagnostics : List QuintReplayDiagnostic} :
    d ∈ sortDiagnostics diagnostics ↔ d ∈ diagnostics := by
  rw [sortDiagnostics, mem_sortOn, mem_distinct]

/-- Results that are all `ok`. -/
theorem collectDecoded_ok {α : Type} (values : List α) :
    collectDecoded (values.map .ok) = .ok values := by
  have hd : (values.map Except.ok).flatMap (findings : Result α →
      List QuintReplayDiagnostic) = [] := by
    rw [List.flatMap_map]
    exact List.flatMap_eq_nil_iff.mpr fun _ _ => rfl
  have hv : (values.map Except.ok).filterMap (value? : Result α → Option α) = values := by
    rw [List.filterMap_map]
    exact List.filterMap_some
  rw [collectDecoded, hd, hv, if_pos rfl]

/-- One result with a finding is enough for the whole to fail. -/
theorem collectDecoded_error {α : Type} {results : List (Result α)}
    {found : List QuintReplayDiagnostic} (hne : found ≠ []) (h : .error found ∈ results) :
    ∃ all, all ≠ [] ∧ collectDecoded results = .error all := by
  have hd : results.flatMap findings ≠ [] := fun he => hne (List.flatMap_eq_nil_iff.mp he _ h)
  exact ⟨_, fun he => hd (sortDiagnostics_eq_nil.mp he), by rw [collectDecoded, if_neg hd]⟩

/-! ## The findings about names -/

/-- Nothing is said about a string exactly when it is null or well-formed. -/
theorem unicodeDiagnostics_eq_nil {path : UString} {name : NString} :
    unicodeDiagnostics path name = [] ↔ ∀ s, name = some s → validUnicode s = true := by
  cases name with
  | none => simp [unicodeDiagnostics]
  | some s => simp [unicodeDiagnostics]

/-- A name is proper when it is not blank and nothing is said about its characters. -/
theorem validName_iff {name : NString} :
    ValidName name ↔
      isNullOrWhiteSpace name = false ∧ ∀ path, unicodeDiagnostics path name = [] := by
  cases name with
  | none => simp [ValidName, isNullOrWhiteSpace]
  | some s => simp [ValidName, unicodeDiagnostics_eq_nil, printed]

/-- No name is listed as a duplicate exactly when all are distinct. -/
theorem duplicates_eq_nil {names : List NString} : duplicates names = [] ↔ names.Nodup := by
  rw [← forall_countBy_le_one, duplicates, List.filterMap_eq_nil_iff]
  constructor
  · intro h p hp hlt
    have := h p hp
    simp [hlt] at this
  · intro h p hp
    simp [h p hp]

/-- Nothing is said about the keys exactly when all are proper. -/
theorem keyDiagnostics_eq_nil {path : UString} {names : List NString} :
    keyDiagnostics path names = [] ↔ ∀ name ∈ names, ValidName name := by
  rw [keyDiagnostics, flatten_mapIdx_eq_nil, List.forall_mem_iff_forall_getElem]
  refine forall_congr' fun i => forall_congr' fun hi => ?_
  by_cases hb : isNullOrWhiteSpace names[i] = true
  · simp [hb, ValidName]
  · rw [if_neg hb, validName_iff, unicodeDiagnostics_eq_nil]
    simp [hb, unicodeDiagnostics_eq_nil]

/-! ## The encoder -/

/-- What the encoder answers on a value. -/
def EncodesTo (path : UString) (v : QuintReplayValue) : Prop :=
  (Valid v ∧ encodeAt path v = .ok (.ok (valueText v))) ∨
    (¬ Valid v ∧ ∃ findings, findings ≠ [] ∧ encodeAt path v = .ok (.error findings))

/-- The encoding of a Sequence or a Set, once the results of its items are known. -/
theorem collect_items {xs : List QuintReplayValue} {results : List (Result UString)}
    (path : UString)
    (h : (ValidItems xs ∧ results = (xs.map valueText).map .ok) ∨
      (¬ ValidItems xs ∧ ∃ findings, findings ≠ [] ∧ .error findings ∈ results)) :
    (ValidItems xs ∧ collect path results = .ok (xs.map valueText)) ∨
      (¬ ValidItems xs ∧ ∃ all, all ≠ [] ∧ collect path results = .error all) := by
  rcases h with ⟨hv, rfl⟩ | ⟨hv, findings, hne, hm⟩
  · exact Or.inl ⟨hv, collectDecoded_ok _⟩
  · exact Or.inr ⟨hv, collectDecoded_error hne hm⟩

/-- The same for the fields of a Record, in the order of their names. -/
theorem collect_fields {fs : List (NString × QuintReplayValue)}
    {results : List (NString × Result UString)} (path : UString) (hn : ∀ f ∈ fs, ValidName f.1)
    (h : (ValidFields fs ∧ results = fs.map fun f =>
        (f.1, .ok (fieldText jsonQuoting (printed f.1, valueText f.2)))) ∨
      (¬ ValidFields fs ∧ ∃ name findings, findings ≠ [] ∧ (name, .error findings) ∈ results)) :
    (ValidFields fs ∧ collect path ((sortOn ordinal.nullFirst Prod.fst results).map Prod.snd) =
        .ok ((sortOn ordinal Prod.fst (fs.map fun f => (printed f.1, valueText f.2))).map
          (fieldText jsonQuoting))) ∨
      (¬ ValidFields fs ∧ ∃ all, all ≠ [] ∧
        collect path ((sortOn ordinal.nullFirst Prod.fst results).map Prod.snd) = .error all) := by
  rcases h with ⟨hv, rfl⟩ | ⟨hv, name, findings, hne, hm⟩
  · -- the results are sorted by their names, the texts by the printed names
    have hsorted : (sortOn ordinal.nullFirst Prod.fst (fs.map fun f =>
          (f.1, (.ok (fieldText jsonQuoting (printed f.1, valueText f.2)) : Result UString)))).map
            Prod.snd =
        ((sortOn ordinal Prod.fst (fs.map fun f => (printed f.1, valueText f.2))).map
          (fieldText jsonQuoting)).map .ok := by
      rw [← map_sortOn ordinal.nullFirst Prod.fst Prod.fst
        (fun f : NString × QuintReplayValue =>
          (f.1, Except.ok (fieldText jsonQuoting (printed f.1, valueText f.2)))) (fun _ => rfl),
        ← sortOn_names (fun f hf => (hn f hf).ne_none) valueText, List.map_map, List.map_map,
        List.map_map]
      rfl
    rw [hsorted]
    exact Or.inl ⟨hv, collectDecoded_ok _⟩
  · have hmem : (.error findings : Result UString) ∈
        (sortOn ordinal.nullFirst Prod.fst results).map Prod.snd :=
      List.mem_map.mpr ⟨_, mem_sortOn.mpr hm, rfl⟩
    exact Or.inr ⟨hv, collectDecoded_error hne hmem⟩

/-- The condition on which a Record is refused is that its keys are not valid. -/
theorem names_refused_iff {path : UString} {names : List NString} :
    (duplicates names ≠ [] ∨ keyDiagnostics path names ≠ []) ↔ ¬ ValidNames names := by
  rw [Ne, Ne, duplicates_eq_nil, keyDiagnostics_eq_nil, ← not_and_or]
  rfl

/-- And then there is a finding. -/
theorem recordDiagnostics_eq_nil {path : UString} {names : List NString} :
    recordDiagnostics path names = [] ↔ ValidNames names := by
  rw [recordDiagnostics, List.append_eq_nil_iff, List.map_eq_nil_iff, sortOn_eq_nil,
    duplicates_eq_nil, keyDiagnostics_eq_nil]
  rfl

/-- The text of a Sequence is that of its items in their order. -/
theorem valueText_sequence (xs : List QuintReplayValue) :
    valueText (.sequence xs) = 0x5B :: (concat [0x2C] (xs.map valueText) ++ [0x5D]) := by
  rw [valueText, doc, text_list, docItems_eq_map, List.map_map]
  rfl

/-- The text of a Set is that of its members in ordinal order, under the tag. -/
theorem valueText_set (xs : List QuintReplayValue) :
    valueText (.set xs) =
      lit "\x7b\"#set\":[" ++ concat [0x2C] (sortOn ordinal id (xs.map valueText)) ++
        lit "]\x7d" := by
  rw [valueText, doc, text_bag, docItems_eq_map, List.map_map]
  rfl

/-- The text of a Record is that of its fields in the order of their names. -/
theorem valueText_record (fs : List (NString × QuintReplayValue)) :
    valueText (.record fs) = 0x7B :: (concat [0x2C]
      ((sortOn ordinal Prod.fst (fs.map fun f => (printed f.1, valueText f.2))).map
        (fieldText jsonQuoting)) ++ [0x7D]) := by
  rw [valueText, doc, text_record, docFields_eq_map, List.map_map]
  rfl

mutual

/-- **The encoder answers, with the canonical text on valid values and with findings on others.** -/
theorem encodeAt_spec : ∀ (path : UString) (v : QuintReplayValue), EncodesTo path v
  | _, .null => Or.inl ⟨trivial, rfl⟩
  | _, .boolean true => Or.inl ⟨trivial, rfl⟩
  | _, .boolean false => Or.inl ⟨trivial, rfl⟩
  | path, .integer s => by
    rw [EncodesTo, Valid, encodeAt, canonicalInteger_eq]
    cases h : denotes s with
    | none => exact Or.inr ⟨by simp, _, by simp, rfl⟩
    | some n =>
      refine Or.inl ⟨rfl, ?_⟩
      rw [valueText, doc, h]
      rfl
  | path, .text none => Or.inr ⟨by simp [Valid], _, by simp, rfl⟩
  | path, .text (some s) => by
    rw [EncodesTo, Valid, encodeAt]
    by_cases h : validUnicode s = true
    · simp only [h, Bool.not_true, Bool.false_eq_true, if_false]
      exact Or.inl ⟨⟨s, rfl, h⟩, rfl⟩
    · have hne : unicodeDiagnostics path (some s) ≠ [] := by
        intro he
        exact h (unicodeDiagnostics_eq_nil.mp he s rfl)
      simp only [h, Bool.not_false, if_true]
      refine Or.inr ⟨?_, _, hne, rfl⟩
      rintro ⟨t, ht, hv⟩
      exact h (Option.some.inj ht ▸ hv)
  | path, .sequence xs => by
    obtain ⟨results, hr, hspec⟩ := encodeItems_spec path 0 xs
    rw [EncodesTo, Valid, encodeAt, hr]
    show (_ ∧ Except.ok ((collect path results).map _) = _) ∨ _ ∧ ∃ findings, _ ∧
      Except.ok ((collect path results).map _) = _
    rcases collect_items path hspec with ⟨hv, hc⟩ | ⟨hv, all, hne, hc⟩
    · rw [hc, valueText_sequence]
      exact Or.inl ⟨hv, rfl⟩
    · rw [hc]
      exact Or.inr ⟨hv, all, hne, rfl⟩
  | path, .set xs => by
    obtain ⟨results, hr, hspec⟩ := encodeItems_spec path 0 xs
    rw [EncodesTo, Valid, encodeAt, hr]
    show (_ ∧ Except.ok ((collect path results).bind _) = _) ∨ _ ∧ ∃ findings, _ ∧
      Except.ok ((collect path results).bind _) = _
    rcases collect_items path hspec with ⟨hv, hc⟩ | ⟨hv, all, hne, hc⟩
    · have hnodup : (sortOn ordinal id (xs.map valueText)).Nodup ↔ (xs.map valueText).Nodup :=
        (sortOn_perm ordinal id _).nodup_iff
      rw [hc]
      simp only [Except.bind, ne_eq, length_distinct_eq_iff, hnodup]
      by_cases hn : (xs.map valueText).Nodup
      · rw [if_neg (not_not.mpr hn), valueText_set]
        exact Or.inl ⟨⟨hv, hn⟩, rfl⟩
      · rw [if_pos hn]
        exact Or.inr ⟨fun h => hn h.2, _, by simp, rfl⟩
    · rw [hc]
      exact Or.inr ⟨fun h => hv h.1, all, hne, rfl⟩
  | path, .record fs => by
    rw [EncodesTo, Valid, encodeAt]
    by_cases hn : ValidNames (fs.map Prod.fst)
    · have hnames : ∀ f ∈ fs, ValidName f.1 := fun f hf => hn.2 f.1 (List.mem_map_of_mem hf)
      have hfindings : ¬ (duplicates (fs.map Prod.fst) ≠ [] ∨
          keyDiagnostics path (fs.map Prod.fst) ≠ []) := fun h => names_refused_iff.mp h hn
      obtain ⟨results, hr, hspec⟩ := encodeFields_spec path fs hnames
      simp only [if_neg hfindings, hr]
      show (_ ∧ Except.ok ((collect path _).map _) = _) ∨ _ ∧ ∃ findings, _ ∧
        Except.ok ((collect path _).map _) = _
      rcases collect_fields path hnames hspec with ⟨hv, hc⟩ | ⟨hv, all, hne, hc⟩
      · rw [hc, valueText_record]
        exact Or.inl ⟨⟨hn, hv⟩, rfl⟩
      · rw [hc]
        exact Or.inr ⟨fun h => hv h.2, all, hne, rfl⟩
    · simp only [if_pos (names_refused_iff.mpr hn)]
      refine Or.inr ⟨fun h => hn h.1, _, ?_, rfl⟩
      rwa [Ne, sortDiagnostics_eq_nil, recordDiagnostics_eq_nil]

/-- The items of a collection: all are encoded when they are valid, and otherwise one of them has
    findings. -/
theorem encodeItems_spec : ∀ (path : UString) (index : Nat) (xs : List QuintReplayValue),
    ∃ results, encodeItems path index xs = .ok results ∧
      ((ValidItems xs ∧ results = (xs.map valueText).map .ok) ∨
        (¬ ValidItems xs ∧ ∃ findings, findings ≠ [] ∧ .error findings ∈ results))
  | _, _, [] => ⟨[], rfl, Or.inl ⟨trivial, rfl⟩⟩
  | path, index, x :: xs => by
    obtain ⟨results, hr, hspec⟩ := encodeItems_spec path (index + 1) xs
    rcases encodeAt_spec (indexed path index) x with ⟨hx, he⟩ | ⟨hx, findings, hne, he⟩
    · refine ⟨.ok (valueText x) :: results, by rw [encodeItems, he, hr]; rfl, ?_⟩
      rcases hspec with ⟨hv, rfl⟩ | ⟨hv, findings, hne, hm⟩
      · exact Or.inl ⟨⟨hx, hv⟩, rfl⟩
      · exact Or.inr ⟨fun h => hv h.2, findings, hne, List.mem_cons_of_mem _ hm⟩
    · exact ⟨.error findings :: results, by rw [encodeItems, he, hr]; rfl,
        Or.inr ⟨fun h => hx h.1, findings, hne, List.mem_cons_self⟩⟩

/-- The fields of a Record with proper names: the same. -/
theorem encodeFields_spec : ∀ (path : UString) (fs : List (NString × QuintReplayValue)),
    (∀ f ∈ fs, ValidName f.1) →
    ∃ results, encodeFields path fs = .ok results ∧
      ((ValidFields fs ∧ results = fs.map fun f =>
          (f.1, .ok (fieldText jsonQuoting (printed f.1, valueText f.2)))) ∨
        (¬ ValidFields fs ∧ ∃ name findings, findings ≠ [] ∧ (name, .error findings) ∈ results))
  | _, [], _ => ⟨[], rfl, Or.inl ⟨trivial, rfl⟩⟩
  | path, (name, x) :: fs, hn => by
    obtain ⟨results, hr, hspec⟩ := encodeFields_spec path fs fun f hf =>
      hn f (List.mem_cons_of_mem _ hf)
    rcases encodeAt_spec (path ++ lit "." ++ printed name) x with ⟨hx, he⟩ | ⟨hx, findings, hne, he⟩
    · have hname : name ≠ none := (hn (name, x) List.mem_cons_self).ne_none
      have hstep : encodeFields path ((name, x) :: fs) =
          .ok ((name, .ok (fieldText jsonQuoting (printed name, valueText x))) :: results) := by
        rw [encodeFields, he, hr]
        simp only [escapeJson_ok hname]
        rfl
      refine ⟨_, hstep, ?_⟩
      rcases hspec with ⟨hv, rfl⟩ | ⟨hv, name', findings, hne, hm⟩
      · exact Or.inl ⟨⟨hx, hv⟩, rfl⟩
      · exact Or.inr ⟨fun h => hv h.2, name', findings, hne, List.mem_cons_of_mem _ hm⟩
    · exact ⟨(name, .error findings) :: results, by rw [encodeFields, he, hr]; rfl,
        Or.inr ⟨fun h => hx h.1, name, findings, hne, List.mem_cons_self⟩⟩

end

end FsQuint.ReplayInternal
