/-
  The encoding of a value as its identity.

  `ValueEquiv` is what an identity of values should tell apart and no more: equality up to the
  order of Set members and of Record fields and up to the spelling of integers, at any depth.

  1. **Invariance**: equivalent values are valid together and have one text
     (`valid_congr`, `valueText_congr`).

  2. **Injectivity, up to the tag**: the text of a Set is that of a Record whose only field is
     `#set`, bound to the Sequence of the members in the order of their texts.  `setsAsRecords`
     rewrites every Set into that Record.  It keeps the text (`valueText_setsAsRecords`), and the
     documents it leaves have no bags, so that two values have one text exactly when their
     rewritten forms are equivalent (`valueText_eq_iff`).

  3. Values without keys that start with `#` are told apart by their texts
     (`valueEquiv_of_text_eq`).

  4. **The collisions**: two valid values that are equivalent up to the tag are equivalent unless somewhere,
     at corresponding positions, a Set of one meets a Record `#set` of the other
     (`setMeetsRecord_iff`).  These pairs, the lookalikes, are all that the encoding confuses
     (`encodeValue_canonical_iff`).
-/
import FsQuint.QuintReplay
import FsQuint.ValueEncoding

set_option linter.unusedVariables false

namespace FsQuint

open Utf16 Collections Decimal Json Unordered ReplayInternal

/-! ## Equivalence -/

/-- Literals with one spelling, or that denote one integer. -/
def SameInteger (s t : NString) : Prop := s = t ∨ ∃ n, denotes s = some n ∧ denotes t = some n

mutual

/-- Equality up to the order of Set members, the order of Record fields and the spelling of
    integers, at any depth. -/
def ValueEquiv : QuintReplayValue → QuintReplayValue → Prop
  | .null, .null => True
  | .boolean a, .boolean b => a = b
  | .integer s, .integer t => SameInteger s t
  | .text s, .text t => s = t
  | .sequence xs, .sequence ys => ValueEquivItems xs ys
  | .set xs, .set ys => ∃ zs, zs.Perm ys ∧ ValueEquivItems xs zs
  | .record fs, .record gs => ∃ hs, hs.Perm gs ∧ ValueEquivFields fs hs
  | _, _ => False

/-- Equivalence of two lists, position by position. -/
def ValueEquivItems : List QuintReplayValue → List QuintReplayValue → Prop
  | [], [] => True
  | x :: xs, y :: ys => ValueEquiv x y ∧ ValueEquivItems xs ys
  | _, _ => False

/-- Equivalence of two lists of fields, position by position. -/
def ValueEquivFields : List (NString × QuintReplayValue) → List (NString × QuintReplayValue) → Prop
  | [], [] => True
  | (s, x) :: fs, (t, y) :: gs => s = t ∧ ValueEquiv x y ∧ ValueEquivFields fs gs
  | _, _ => False

end

/-- Equivalence of fields: one name, and equivalent values. -/
def FieldEquiv (f g : NString × QuintReplayValue) : Prop := f.1 = g.1 ∧ ValueEquiv f.2 g.2

/-- The same as a relation between lists. -/
theorem valueEquivItems_iff : ∀ {xs ys : List QuintReplayValue},
    ValueEquivItems xs ys ↔ List.Forall₂ ValueEquiv xs ys
  | [], [] => by simp [ValueEquivItems]
  | [], _ :: _ => by simp [ValueEquivItems]
  | _ :: _, [] => by simp [ValueEquivItems]
  | x :: xs, y :: ys => by simp [ValueEquivItems, @valueEquivItems_iff xs ys]

/-- The same for fields. -/
theorem valueEquivFields_iff : ∀ {fs gs : List (NString × QuintReplayValue)},
    ValueEquivFields fs gs ↔ List.Forall₂ FieldEquiv fs gs
  | [], [] => by simp [ValueEquivFields]
  | [], _ :: _ => by simp [ValueEquivFields]
  | _ :: _, [] => by simp [ValueEquivFields]
  | (s, x) :: fs, (t, y) :: gs => by
    simp [ValueEquivFields, @valueEquivFields_iff fs gs, FieldEquiv, and_assoc]

/-- Two spellings of one integer denote the same, or both denote nothing. -/
theorem denotes_congr {s t : NString} (h : SameInteger s t) : denotes s = denotes t := by
  rcases h with rfl | ⟨n, hs, ht⟩
  · rfl
  · rw [hs, ht]

/-! ## Equivalent values have one text -/

mutual

/-- Equivalent values have equivalent documents. -/
theorem equiv_doc : ∀ {v w : QuintReplayValue}, ValueEquiv v w → DocEquiv (doc v) (doc w)
  | .null, w, h => by cases w <;> simp [ValueEquiv] at h; trivial
  | .boolean b, w, h => by cases w <;> simp [ValueEquiv] at h; exact h
  | .integer s, w, h => by
    cases w <;> simp only [ValueEquiv] at h
    exact congrArg (·.getD 0) (denotes_congr h)
  | .text s, w, h => by cases w <;> simp [ValueEquiv] at h; exact congrArg printed h
  | .sequence xs, w, h => by
    cases w <;> simp only [ValueEquiv] at h
    rw [doc, doc, docItems_eq_map, docItems_eq_map, DocEquiv, docEquivItems_iff]
    exact equiv_docItems h
  | .set xs, w, h => by
    cases w <;> simp only [ValueEquiv] at h
    obtain ⟨zs, hp, hz⟩ := h
    rw [doc, doc, docItems_eq_map, docItems_eq_map, docEquiv_bag]
    exact ⟨rfl, zs.map doc, hp.map doc, equiv_docItems hz⟩
  | .record fs, w, h => by
    cases w <;> simp only [ValueEquiv] at h
    obtain ⟨hs, hp, hf⟩ := h
    rw [doc, doc, docFields_eq_map, docFields_eq_map, docEquiv_record]
    exact ⟨_, hp.map _, equiv_docFields hf⟩

/-- Item by item. -/
theorem equiv_docItems : ∀ {xs ys : List QuintReplayValue}, ValueEquivItems xs ys →
    List.Forall₂ DocEquiv (xs.map doc) (ys.map doc)
  | [], [], _ => .nil
  | x :: xs, y :: ys, h => .cons (equiv_doc h.1) (equiv_docItems h.2)

/-- And field by field. -/
theorem equiv_docFields : ∀ {fs gs : List (NString × QuintReplayValue)}, ValueEquivFields fs gs →
    List.Forall₂ DocEquivField (fs.map fun f => (printed f.1, doc f.2))
      (gs.map fun g => (printed g.1, doc g.2))
  | [], [], _ => .nil
  | (s, x) :: fs, (t, y) :: gs, h =>
    .cons ⟨congrArg printed h.1, equiv_doc h.2.1⟩ (equiv_docFields h.2.2)

end

/-- Distinct names that can be written print as distinct names. -/
theorem nodup_printed {names : List NString} (h : ValidNames names) :
    (names.map printed).Nodup := by
  refine List.Nodup.map_on (fun a ha b hb hab => ?_) h.1
  rw [← some_printed (h.2 a ha).ne_none, ← some_printed (h.2 b hb).ne_none, hab]

mutual

/-- No name is repeated in the document of a valid value. -/
theorem distinctNames_doc : ∀ {v : QuintReplayValue}, Valid v → DistinctNames (doc v)
  | .null, _ => trivial
  | .boolean _, _ => trivial
  | .integer _, _ => trivial
  | .text _, _ => trivial
  | .sequence xs, h => distinctNames_docItems h
  | .set xs, h => distinctNames_docItems h.1
  | .record fs, h => by
    refine ⟨?_, distinctNames_docFields h.2⟩
    have hn := nodup_printed h.1
    rw [docFields_eq_map, List.map_map]
    rwa [List.map_map] at hn

/-- Nor in those of the items of one. -/
theorem distinctNames_docItems : ∀ {xs : List QuintReplayValue}, ValidItems xs →
    DistinctNamesItems (docItems xs)
  | [], _ => trivial
  | _ :: _, h => ⟨distinctNames_doc h.1, distinctNames_docItems h.2⟩

/-- Nor in those of its fields. -/
theorem distinctNames_docFields : ∀ {fs : List (NString × QuintReplayValue)}, ValidFields fs →
    DistinctNamesFields (docFields fs)
  | [], _ => trivial
  | (_, _) :: _, h => ⟨distinctNames_doc h.1, distinctNames_docFields h.2⟩

end

/-- **Equivalent values have one text.** -/
theorem valueText_congr {v w : QuintReplayValue} (hv : Valid v) (h : ValueEquiv v w) :
    valueText v = valueText w :=
  text_congr jsonQuoting (distinctNames_doc hv) (equiv_doc h)

/-- Equivalent lists of valid values have one list of texts. -/
theorem map_valueText_congr {xs ys : List QuintReplayValue} (hv : ValidItems xs)
    (h : List.Forall₂ ValueEquiv xs ys) : xs.map valueText = ys.map valueText := by
  induction h with
  | nil => rfl
  | cons hxy _ ih =>
    rw [List.map_cons, List.map_cons, valueText_congr hv.1 hxy, ih hv.2]

mutual

/-- Equivalent values are valid together. -/
theorem valid_congr : ∀ {v w : QuintReplayValue}, ValueEquiv v w → (Valid v ↔ Valid w)
  | .null, w, h => by cases w <;> simp [ValueEquiv] at h; rfl
  | .boolean b, w, h => by cases w <;> simp [ValueEquiv] at h; simp [Valid]
  | .integer s, w, h => by
    cases w <;> simp only [ValueEquiv] at h
    simp only [Valid, denotes_congr h]
  | .text s, w, h => by cases w <;> simp [ValueEquiv] at h; rw [h]
  | .sequence xs, w, h => by
    cases w <;> simp only [ValueEquiv] at h
    exact validItems_congr h
  | .set xs, w, h => by
    cases w <;> try simp only [ValueEquiv] at h
    rename_i ys
    obtain ⟨zs, hp, hz⟩ := h
    -- the order of the items matters to neither condition
    have hperm : ValidItems zs ↔ ValidItems ys := by
      simp only [validItems_iff, hp.mem_iff]
    have hitems := (validItems_congr hz).trans hperm
    have htexts : ValidItems xs → ((xs.map valueText).Nodup ↔ (ys.map valueText).Nodup) := by
      intro hx
      rw [map_valueText_congr hx (valueEquivItems_iff.mp hz)]
      exact (hp.map valueText).nodup_iff
    constructor
    · intro hv
      exact ⟨hitems.mp hv.1, (htexts hv.1).mp hv.2⟩
    · intro hv
      exact ⟨hitems.mpr hv.1, (htexts (hitems.mpr hv.1)).mpr hv.2⟩
  | .record fs, w, h => by
    cases w <;> try simp only [ValueEquiv] at h
    rename_i gs
    obtain ⟨hs, hp, hf⟩ := h
    have hperm : ValidFields hs ↔ ValidFields gs := by
      simp only [validFields_iff, hp.mem_iff]
    have hnames : ValidNames (fs.map Prod.fst) ↔ ValidNames (gs.map Prod.fst) := by
      rw [names_congr hf, ValidNames, ValidNames, (hp.map Prod.fst).nodup_iff]
      simp only [(hp.map Prod.fst).mem_iff]
    exact and_congr hnames ((validFields_congr hf).trans hperm)

/-- Equivalent lists are valid together. -/
theorem validItems_congr : ∀ {xs ys : List QuintReplayValue}, ValueEquivItems xs ys →
    (ValidItems xs ↔ ValidItems ys)
  | [], [], _ => Iff.rfl
  | x :: xs, y :: ys, h => and_congr (valid_congr h.1) (validItems_congr h.2)

/-- Equivalent fields have values that are valid together. -/
theorem validFields_congr : ∀ {fs gs : List (NString × QuintReplayValue)}, ValueEquivFields fs gs →
    (ValidFields fs ↔ ValidFields gs)
  | [], [], _ => Iff.rfl
  | (_, _) :: _, (_, _) :: _, h => and_congr (valid_congr h.2.1) (validFields_congr h.2.2)

/-- Equivalent fields have the same names. -/
theorem names_congr : ∀ {fs gs : List (NString × QuintReplayValue)}, ValueEquivFields fs gs →
    fs.map Prod.fst = gs.map Prod.fst
  | [], [], _ => rfl
  | (_, _) :: _, (_, _) :: _, h => by
    rw [List.map_cons, List.map_cons, names_congr h.2.2]
    exact congrArg (· :: _) h.1

end

/-! ## One text, one value: without tags -/

mutual

/-- Valid values with equivalent documents are equivalent. -/
theorem valueEquiv_of_docEquiv : ∀ {v w : QuintReplayValue}, Valid v → Valid w →
    DocEquiv (doc v) (doc w) → ValueEquiv v w
  | .null, w, _, _, h => by cases w <;> simp [doc, DocEquiv] at h; trivial
  | .boolean b, w, _, _, h => by cases w <;> simp [doc, DocEquiv] at h; exact h
  | .integer s, w, hv, hw, h => by
    cases w <;> simp only [doc, DocEquiv] at h
    rename_i t
    obtain ⟨m, hm⟩ := Option.isSome_iff_exists.mp hv
    obtain ⟨n, hn⟩ := Option.isSome_iff_exists.mp hw
    rw [hm, hn] at h
    simp only [Option.getD_some] at h
    exact Or.inr ⟨m, hm, h ▸ hn⟩
  | .text s, w, hv, hw, h => by
    cases w <;> simp only [doc, DocEquiv] at h
    obtain ⟨a, rfl, -⟩ := hv
    obtain ⟨b, rfl, -⟩ := hw
    exact congrArg some h
  | .sequence xs, w, hv, hw, h => by
    cases w <;> simp only [doc, DocEquiv] at h
    rename_i ys
    rw [docItems_eq_map, docItems_eq_map, docEquivItems_iff, List.forall₂_map_left_iff,
      List.forall₂_map_right_iff] at h
    exact valueEquivItems_of_docEquiv hv hw h
  | .set xs, w, hv, hw, h => by
    cases w with
    | set ys =>
      rw [doc, doc, docEquiv_bag, docItems_eq_map, docItems_eq_map] at h
      -- the documents fix an order of the items in which they agree one by one
      obtain ⟨zs, hp, hf⟩ := upToOrder_of_map h.2
      have hz : ValidItems zs := validItems_iff.mpr fun z hz =>
        validItems_iff.mp hw.1 z (hp.mem_iff.mp hz)
      exact ⟨zs, hp, valueEquivItems_of_docEquiv hv.1 hz hf⟩
    | _ => simp [doc, DocEquiv] at h
  | .record fs, w, hv, hw, h => by
    cases w with
    | record gs =>
      rw [doc, doc, docEquiv_record, docFields_eq_map, docFields_eq_map] at h
      obtain ⟨hs, hp, hf⟩ := upToOrder_of_map h
      have hz : ∀ g ∈ hs, ValidName g.1 := fun g hg =>
        hw.1.2 g.1 (List.mem_map_of_mem (hp.mem_iff.mp hg))
      have hz' : ValidFields hs := validFields_iff.mpr fun g hg =>
        validFields_iff.mp hw.2 g (hp.mem_iff.mp hg)
      exact ⟨hs, hp, valueEquivFields_of_docEquiv
        (fun f hf => hv.1.2 f.1 (List.mem_map_of_mem hf)) hz hv.2 hz' hf⟩
    | _ => simp [doc, DocEquiv] at h

/-- Item by item. -/
theorem valueEquivItems_of_docEquiv :
    ∀ {xs ys : List QuintReplayValue}, ValidItems xs → ValidItems ys →
    List.Forall₂ (fun x y => DocEquiv (doc x) (doc y)) xs ys → ValueEquivItems xs ys
  | [], _, _, _, h => by
    cases h
    trivial
  | x :: xs, _, hx, hy, h => by
    cases h with
    | cons hxy hrest =>
      exact ⟨valueEquiv_of_docEquiv hx.1 hy.1 hxy, valueEquivItems_of_docEquiv hx.2 hy.2 hrest⟩

/-- Field by field; the names are proper, so that they can be told from what they print as. -/
theorem valueEquivFields_of_docEquiv : ∀ {fs gs : List (NString × QuintReplayValue)},
    (∀ f ∈ fs, ValidName f.1) → (∀ g ∈ gs, ValidName g.1) → ValidFields fs → ValidFields gs →
    List.Forall₂ (fun f g => DocEquivField (printed f.1, doc f.2) (printed g.1, doc g.2)) fs gs →
    ValueEquivFields fs gs
  | [], _, _, _, _, _, h => by
    cases h
    trivial
  | (s, x) :: fs, _, hs, ht, hx, hy, h => by
    cases h with
    | cons hxy hrest =>
      rename_i g gs
      have hname : s = g.1 := by
        have hsome := congrArg some hxy.1
        simp only [some_printed (hs (s, x) List.mem_cons_self).ne_none,
          some_printed (ht g List.mem_cons_self).ne_none] at hsome
        exact hsome
      exact ⟨hname, valueEquiv_of_docEquiv hx.1 hy.1 hxy.2, valueEquivFields_of_docEquiv
        (fun f hf => hs f (List.mem_cons_of_mem _ hf))
        (fun g hg => ht g (List.mem_cons_of_mem _ hg))
        hx.2 hy.2 hrest⟩

end

mutual

/-- No Record key of the value, at any depth, starts with `#`. -/
def HashFree : QuintReplayValue → Prop
  | .sequence xs => HashFreeItems xs
  | .set xs => HashFreeItems xs
  | .record fs => HashFreeFields fs
  | _ => True

/-- No key at any depth of some values starts with `#`. -/
def HashFreeItems : List QuintReplayValue → Prop
  | [] => True
  | x :: xs => HashFree x ∧ HashFreeItems xs

/-- No name of some fields starts with `#`, and no key at any depth of their values. -/
def HashFreeFields : List (NString × QuintReplayValue) → Prop
  | [] => True
  | (name, x) :: fs => startsWithHash (printed name) = false ∧ HashFree x ∧ HashFreeFields fs

end

/-- Among the names of encoded values, those that start with `#` are tags. -/
def hashIsTag (name : UString) : NameUse := if startsWithHash name then .bag else .field

mutual

/-- In the document of a value without such keys the names with `#` are tags, and only they. -/
theorem wellTagged_doc : ∀ {v : QuintReplayValue}, HashFree v → WellTagged hashIsTag (doc v)
  | .null, _ => trivial
  | .boolean _, _ => trivial
  | .integer _, _ => trivial
  | .text _, _ => trivial
  | .sequence xs, h => wellTagged_docItems h
  | .set xs, h => ⟨rfl, wellTagged_docItems h⟩
  | .record fs, h => wellTagged_docFields h

/-- Item by item. -/
theorem wellTagged_docItems : ∀ {xs : List QuintReplayValue}, HashFreeItems xs →
    WellTaggedItems hashIsTag (docItems xs)
  | [], _ => trivial
  | _ :: _, h => ⟨wellTagged_doc h.1, wellTagged_docItems h.2⟩

/-- Field by field. -/
theorem wellTagged_docFields : ∀ {fs : List (NString × QuintReplayValue)}, HashFreeFields fs →
    WellTaggedFields hashIsTag (docFields fs)
  | [], _ => trivial
  | (name, _) :: _, h => ⟨by simp [hashIsTag, h.1], wellTagged_doc h.2.1,
      wellTagged_docFields h.2.2⟩

end

mutual

/-- The literals of `escapeJson` can write every document. -/
theorem fits_jsonQuoting : ∀ d : Doc, Fits jsonQuoting d
  | .null => trivial
  | .boolean _ => trivial
  | .number _ => trivial
  | .string _ => trivial
  | .list items => fitsItems_jsonQuoting items
  | .bag _ items => ⟨trivial, fitsItems_jsonQuoting items⟩
  | .tagged _ item => ⟨trivial, fits_jsonQuoting item⟩
  | .record fields => fitsFields_jsonQuoting fields

/-- Item by item. -/
theorem fitsItems_jsonQuoting : ∀ items : List Doc, FitsItems jsonQuoting items
  | [] => trivial
  | item :: items => ⟨fits_jsonQuoting item, fitsItems_jsonQuoting items⟩

/-- Field by field. -/
theorem fitsFields_jsonQuoting : ∀ fields : List (UString × Doc), FitsFields jsonQuoting fields
  | [] => trivial
  | (_, item) :: fields => ⟨trivial, fits_jsonQuoting item, fitsFields_jsonQuoting fields⟩

end

/-- **Without keys that look like tags, values with one text are equivalent.** -/
theorem valueEquiv_of_text_eq {v w : QuintReplayValue} (hv : Valid v) (hw : Valid w)
    (hfv : HashFree v) (hfw : HashFree w) (h : valueText v = valueText w) : ValueEquiv v w :=
  valueEquiv_of_docEquiv hv hw (equiv_of_text_eq jsonQuoting hashIsTag (fits_jsonQuoting _)
    (fits_jsonQuoting _) (wellTagged_doc hfv) (wellTagged_doc hfw) h)

/-! ## One text, one value: up to the tag of sets -/

mutual

/-- The value with every Set, at any depth, replaced by the Record that reads like it: its only
    field is `#set`, bound to the Sequence of the members in the order of their texts. -/
def setsAsRecords : QuintReplayValue → QuintReplayValue
  | .sequence xs => .sequence (setsAsRecordsItems xs)
  | .set xs => .record [(some (lit "#set"), .sequence (sortOn ordinal valueText (setsAsRecordsItems xs)))]
  | .record fs => .record (setsAsRecordsFields fs)
  | v => v

/-- The items of a collection, rewritten. -/
def setsAsRecordsItems : List QuintReplayValue → List QuintReplayValue
  | [] => []
  | x :: xs => setsAsRecords x :: setsAsRecordsItems xs

/-- The values of some fields, rewritten under their names. -/
def setsAsRecordsFields :
    List (NString × QuintReplayValue) → List (NString × QuintReplayValue)
  | [] => []
  | (name, x) :: fs => (name, setsAsRecords x) :: setsAsRecordsFields fs

end

/-- Rewriting keeps the names. -/
theorem names_setsAsRecordsFields : ∀ fs : List (NString × QuintReplayValue),
    (setsAsRecordsFields fs).map Prod.fst = fs.map Prod.fst
  | [] => rfl
  | (name, x) :: fs => by
    rw [setsAsRecordsFields, List.map_cons, List.map_cons, names_setsAsRecordsFields fs]

mutual

/-- The rewritten value has the text of the original. -/
theorem valueText_setsAsRecords : ∀ v : QuintReplayValue, valueText (setsAsRecords v) = valueText v
  | .null => rfl
  | .boolean _ => rfl
  | .integer _ => rfl
  | .text _ => rfl
  | .sequence xs => by
    rw [setsAsRecords, valueText_sequence, valueText_sequence, map_valueText_setsAsRecords xs]
  | .set xs => by
    have hsort := map_sortOn ordinal valueText id valueText (fun _ => rfl) (setsAsRecordsItems xs)
    rw [map_valueText_setsAsRecords xs] at hsort
    rw [setsAsRecords, valueText_record, valueText_set]
    show 0x7B :: ((fieldText jsonQuoting (lit "#set", valueText (.sequence _))) ++ [0x7D]) = _
    rw [valueText_sequence, hsort, fieldText]
    show 0x7B :: ((literal (lit "#set") ++ 0x3A :: 0x5B :: (_ ++ [0x5D])) ++ [0x7D]) = _
    rw [show (literal (lit "#set")) = [0x22, 0x23, 0x73, 0x65, 0x74, 0x22] by decide]
    simp only [List.cons_append, List.append_assoc, List.nil_append]
    rfl
  | .record fs => by
    rw [setsAsRecords, valueText_record, valueText_record, map_fieldText_setsAsRecords fs]

/-- The texts of the items stay. -/
theorem map_valueText_setsAsRecords : ∀ xs : List QuintReplayValue,
    (setsAsRecordsItems xs).map valueText = xs.map valueText
  | [] => rfl
  | x :: xs => by
    rw [setsAsRecordsItems, List.map_cons, List.map_cons, valueText_setsAsRecords x,
      map_valueText_setsAsRecords xs]

/-- And those of the fields. -/
theorem map_fieldText_setsAsRecords : ∀ fs : List (NString × QuintReplayValue),
    (setsAsRecordsFields fs).map (fun f => (printed f.1, valueText f.2)) =
      fs.map fun f => (printed f.1, valueText f.2)
  | [] => rfl
  | (name, x) :: fs => by
    rw [setsAsRecordsFields, List.map_cons, List.map_cons, valueText_setsAsRecords x,
      map_fieldText_setsAsRecords fs]

end

mutual

/-- The rewritten value of a valid one is valid: `#set` is a proper name. -/
theorem valid_setsAsRecords : ∀ {v : QuintReplayValue}, Valid v → Valid (setsAsRecords v)
  | .null, _ => trivial
  | .boolean _, _ => trivial
  | .integer _, h => h
  | .text _, h => h
  | .sequence xs, h => validItems_setsAsRecords h
  | .set xs, h => by
    refine ⟨⟨List.nodup_singleton _, fun name hname => ?_⟩, ?_, trivial⟩
    · rw [List.map_singleton, List.mem_singleton] at hname
      rw [hname]
      show ValidName (some (lit "#set"))
      exact ⟨by decide, by decide⟩
    · refine validItems_iff.mpr fun x hx => ?_
      exact validItems_iff.mp (validItems_setsAsRecords h.1) x (mem_sortOn.mp hx)
  | .record fs, h => by
    refine ⟨?_, validFields_setsAsRecords h.2⟩
    rw [names_setsAsRecordsFields]
    exact h.1

/-- Item by item. -/
theorem validItems_setsAsRecords : ∀ {xs : List QuintReplayValue}, ValidItems xs →
    ValidItems (setsAsRecordsItems xs)
  | [], _ => trivial
  | _ :: _, h => ⟨valid_setsAsRecords h.1, validItems_setsAsRecords h.2⟩

/-- Field by field. -/
theorem validFields_setsAsRecords : ∀ {fs : List (NString × QuintReplayValue)}, ValidFields fs →
    ValidFields (setsAsRecordsFields fs)
  | [], _ => trivial
  | (_, _) :: _, h => ⟨valid_setsAsRecords h.1, validFields_setsAsRecords h.2⟩

end

mutual

/-- The document of a rewritten value has no bags left. -/
theorem wellTagged_setsAsRecords : ∀ v : QuintReplayValue,
    WellTagged (fun _ => .field) (doc (setsAsRecords v))
  | .null => trivial
  | .boolean _ => trivial
  | .integer _ => trivial
  | .text _ => trivial
  | .sequence xs => by
    rw [setsAsRecords, doc, WellTagged, wellTaggedItems_iff, docItems_eq_map, List.forall_mem_map]
    exact wellTagged_setsAsRecordsItems xs
  | .set xs => by
    refine ⟨rfl, ?_, trivial⟩
    rw [doc, WellTagged, wellTaggedItems_iff, docItems_eq_map, List.forall_mem_map]
    exact fun x hx => wellTagged_setsAsRecordsItems xs x (mem_sortOn.mp hx)
  | .record fs => by
    rw [setsAsRecords, doc, WellTagged, wellTaggedFields_iff, docFields_eq_map, List.forall_mem_map]
    exact fun f hf => ⟨rfl, wellTagged_setsAsRecordsFields fs f hf⟩

/-- Item by item. -/
theorem wellTagged_setsAsRecordsItems : ∀ xs : List QuintReplayValue,
    ∀ x ∈ setsAsRecordsItems xs, WellTagged (fun _ => .field) (doc x)
  | [], x, hx => by simp [setsAsRecordsItems] at hx
  | y :: ys, x, hx => by
    rcases List.mem_cons.mp hx with rfl | hx
    · exact wellTagged_setsAsRecords y
    · exact wellTagged_setsAsRecordsItems ys x hx

/-- Field by field. -/
theorem wellTagged_setsAsRecordsFields : ∀ fs : List (NString × QuintReplayValue),
    ∀ f ∈ setsAsRecordsFields fs, WellTagged (fun _ => .field) (doc f.2)
  | [], f, hf => by simp [setsAsRecordsFields] at hf
  | (name, y) :: ys, f, hf => by
    rcases List.mem_cons.mp hf with rfl | hf
    · exact wellTagged_setsAsRecords y
    · exact wellTagged_setsAsRecordsFields ys f hf

end

/-- `setsAsRecordsItems` is a map. -/
theorem setsAsRecordsItems_eq_map : ∀ xs : List QuintReplayValue,
    setsAsRecordsItems xs = xs.map setsAsRecords
  | [] => rfl
  | x :: xs => by rw [setsAsRecordsItems, List.map_cons, setsAsRecordsItems_eq_map xs]

/-- And so is `setsAsRecordsFields`. -/
theorem setsAsRecordsFields_eq_map : ∀ fs : List (NString × QuintReplayValue),
    setsAsRecordsFields fs = fs.map fun f => (f.1, setsAsRecords f.2)
  | [] => rfl
  | (name, x) :: fs => by rw [setsAsRecordsFields, List.map_cons, setsAsRecordsFields_eq_map fs]

/-- Equivalence up to the tag of sets. -/
def TagEquiv (v w : QuintReplayValue) : Prop := ValueEquiv (setsAsRecords v) (setsAsRecords w)

/-- **Valid values have one text exactly when they are equivalent up to the tag of sets.** -/
theorem valueText_eq_iff {v w : QuintReplayValue} (hv : Valid v) (hw : Valid w) :
    valueText v = valueText w ↔ TagEquiv v w := by
  have hv' := valid_setsAsRecords hv
  have hw' := valid_setsAsRecords hw
  rw [← valueText_setsAsRecords v, ← valueText_setsAsRecords w]
  constructor
  · intro h
    exact valueEquiv_of_docEquiv hv' hw' (equiv_of_text_eq jsonQuoting _ (fits_jsonQuoting _)
      (fits_jsonQuoting _) (wellTagged_setsAsRecords v) (wellTagged_setsAsRecords w) h)
  · exact valueText_congr hv'

/-! ## Where a Set meets a Record -/

/-- **Somewhere a Set of one value meets a Record of the other** whose only field is `#set`, bound to a
    Sequence.  Two Sequences are compared position by position, two Sets at members that are equivalent up to the
    tag, and
    two Records at fields of one name. -/
inductive SetMeetsRecord : QuintReplayValue → QuintReplayValue → Prop
  | setRecord (xs ys : List QuintReplayValue) :
      SetMeetsRecord (.set xs) (.record [(some (lit "#set"), .sequence ys)])
  | recordSet (xs ys : List QuintReplayValue) :
      SetMeetsRecord (.record [(some (lit "#set"), .sequence xs)]) (.set ys)
  | sequence {xs ys : List QuintReplayValue} {i : Nat} {x y : QuintReplayValue}
      (hx : xs[i]? = some x) (hy : ys[i]? = some y) (h : SetMeetsRecord x y) :
      SetMeetsRecord (.sequence xs) (.sequence ys)
  | set {xs ys : List QuintReplayValue} {x y : QuintReplayValue}
      (hx : x ∈ xs) (hy : y ∈ ys) (htag : TagEquiv x y) (h : SetMeetsRecord x y) :
      SetMeetsRecord (.set xs) (.set ys)
  | record {fs gs : List (NString × QuintReplayValue)} {name : NString} {x y : QuintReplayValue}
      (hx : (name, x) ∈ fs) (hy : (name, y) ∈ gs) (h : SetMeetsRecord x y) :
      SetMeetsRecord (.record fs) (.record gs)

/-- Sequences that are equivalent up to the tag have such items, position by position. -/
theorem TagEquiv.items {xs ys : List QuintReplayValue} (h : TagEquiv (.sequence xs) (.sequence ys)) :
    List.Forall₂ TagEquiv xs ys := by
  rw [TagEquiv, setsAsRecords, setsAsRecords, ValueEquiv, valueEquivItems_iff,
    setsAsRecordsItems_eq_map, setsAsRecordsItems_eq_map, List.forall₂_map_left_iff,
    List.forall₂_map_right_iff] at h
  exact h

/-- Sets that are equivalent up to the tag have such members, up to their order. -/
theorem TagEquiv.members {xs ys : List QuintReplayValue} (h : TagEquiv (.set xs) (.set ys)) :
    UpToOrder TagEquiv xs ys := by
  rw [TagEquiv, setsAsRecords, setsAsRecords, ValueEquiv] at h
  obtain ⟨hs, hperm, hfields⟩ := h
  obtain rfl := List.perm_singleton.mp hperm
  have hsorted := valueEquivItems_iff.mp hfields.2.1
  -- the sorted lists are rearrangements of the rewritten members
  obtain ⟨zs, hzs, hequiv⟩ := exists_perm_forall₂ (sortOn_perm ordinal valueText _).symm hsorted
  have hmembers : UpToOrder ValueEquiv (setsAsRecordsItems xs) (setsAsRecordsItems ys) :=
    ⟨zs, hzs.trans (sortOn_perm ordinal valueText _), hequiv⟩
  rw [setsAsRecordsItems_eq_map, setsAsRecordsItems_eq_map] at hmembers
  have hmapped : UpToOrder (fun x y => ValueEquiv (setsAsRecords x) (setsAsRecords y)) xs ys :=
    upToOrder_of_map hmembers
  exact hmapped

/-- Records that are equivalent up to the tag have such fields under one name, up to their order. -/
theorem TagEquiv.fields {fs gs : List (NString × QuintReplayValue)} (h : TagEquiv (.record fs) (.record gs)) :
    UpToOrder (fun f g => f.1 = g.1 ∧ TagEquiv f.2 g.2) fs gs := by
  rw [TagEquiv, setsAsRecords, setsAsRecords, ValueEquiv] at h
  obtain ⟨hs, hperm, hfields⟩ := h
  have hup : UpToOrder FieldEquiv (setsAsRecordsFields fs) (setsAsRecordsFields gs) :=
    ⟨hs, hperm, valueEquivFields_iff.mp hfields⟩
  rw [setsAsRecordsFields_eq_map, setsAsRecordsFields_eq_map] at hup
  exact upToOrder_of_map hup

/-- What is equivalent to a rewritten Sequence was a Sequence. -/
theorem sequence_of_setsAsRecords {xs : List QuintReplayValue} {v : QuintReplayValue}
    (h : ValueEquiv (.sequence xs) (setsAsRecords v) ∨ ValueEquiv (setsAsRecords v) (.sequence xs)) :
    ∃ ys, v = .sequence ys := by
  cases v <;> simp only [setsAsRecords, ValueEquiv, or_self] at h
  exact ⟨_, rfl⟩

/-- A Record that a Set is equivalent to up to the tag binds `#set` only, to a Sequence. -/
theorem TagEquiv.tagged {xs : List QuintReplayValue} {gs : List (NString × QuintReplayValue)}
    (h : TagEquiv (.set xs) (.record gs)) : ∃ ys, gs = [(some (lit "#set"), .sequence ys)] := by
  rw [TagEquiv, setsAsRecords, setsAsRecords, ValueEquiv, setsAsRecordsFields_eq_map] at h
  obtain ⟨hs, hperm, hfields⟩ := h
  match hs, hfields with
  | [(name, y)], ⟨hname, hy, _⟩ =>
    obtain ⟨⟨name', v⟩, rfl, hv⟩ := List.map_eq_singleton_iff.mp (List.singleton_perm.mp hperm).symm
    obtain ⟨rfl, rfl⟩ := Prod.mk.inj hv
    obtain ⟨ys, rfl⟩ := sequence_of_setsAsRecords (.inl hy)
    exact ⟨ys, by rw [hname]⟩

/-- The same with the Record on the left. -/
theorem TagEquiv.tagged_left {fs : List (NString × QuintReplayValue)} {ys : List QuintReplayValue}
    (h : TagEquiv (.record fs) (.set ys)) : ∃ xs, fs = [(some (lit "#set"), .sequence xs)] := by
  rw [TagEquiv, setsAsRecords, setsAsRecords, ValueEquiv, setsAsRecordsFields_eq_map] at h
  obtain ⟨hs, hperm, hfields⟩ := h
  obtain rfl := List.perm_singleton.mp hperm
  match fs, hfields with
  | [(name, v)], ⟨hname, hv, _⟩ =>
    obtain ⟨xs, rfl⟩ := sequence_of_setsAsRecords (.inr hv)
    exact ⟨xs, by rw [← hname]⟩

mutual

/-- **Values that are equivalent up to the tag are equivalent unless a Set meets a Record.** -/
theorem valueEquiv_of_tagEquiv : ∀ {v w : QuintReplayValue}, TagEquiv v w → ¬ SetMeetsRecord v w →
    ValueEquiv v w
  | .null, w, h, _ => by cases w <;> exact h
  | .boolean _, w, h, _ => by cases w <;> exact h
  | .integer _, w, h, _ => by cases w <;> exact h
  | .text _, w, h, _ => by cases w <;> exact h
  | .sequence xs, w, h, hno => by
    cases w with
    | sequence ys =>
      have hitems := List.forall₂_iff_get.mp h.items
      refine valueEquivItems_iff.mpr (List.forall₂_iff_get.mpr ⟨hitems.1, fun i hx hy => ?_⟩)
      exact valueEquivItems_of_tagEquiv xs _ (List.getElem_mem hx) _ (hitems.2 i hx hy) fun hmeets =>
        hno (.sequence (List.getElem?_eq_getElem hx) (List.getElem?_eq_getElem hy) hmeets)
    | _ => cases h
  | .set xs, w, h, hno => by
    cases w with
    | set ys =>
      have hup : UpToOrder ValueEquiv xs ys := h.members.imp fun x hx y hy htag =>
        valueEquivItems_of_tagEquiv xs x hx y htag fun hmeets => hno (.set hx hy htag hmeets)
      obtain ⟨zs, hperm, hequiv⟩ := hup
      exact ⟨zs, hperm, valueEquivItems_iff.mpr hequiv⟩
    | record gs =>
      obtain ⟨ys, rfl⟩ := h.tagged
      exact absurd (.setRecord xs ys) hno
    | _ => cases h
  | .record fs, w, h, hno => by
    cases w with
    | set ys =>
      obtain ⟨xs, rfl⟩ := h.tagged_left
      exact absurd (.recordSet xs ys) hno
    | record gs =>
      have hup : UpToOrder FieldEquiv fs gs := h.fields.imp fun f hf g hg hfg =>
        ⟨hfg.1, valueEquivFields_of_tagEquiv fs f hf g.2 hfg.2 fun hmeets =>
          hno (.record hf (show (f.1, g.2) ∈ gs from hfg.1 ▸ hg) hmeets)⟩
      obtain ⟨hs, hperm, hequiv⟩ := hup
      exact ⟨hs, hperm, valueEquivFields_iff.mpr hequiv⟩
    | _ => cases h

/-- For the items of a collection. -/
theorem valueEquivItems_of_tagEquiv : ∀ (xs : List QuintReplayValue), ∀ x ∈ xs, ∀ y, TagEquiv x y →
    ¬ SetMeetsRecord x y → ValueEquiv x y
  | [] => fun x hx => absurd hx List.not_mem_nil
  | x :: xs => List.forall_mem_cons.mpr
    ⟨fun y h hno => valueEquiv_of_tagEquiv h hno, valueEquivItems_of_tagEquiv xs⟩

/-- For the values of some fields. -/
theorem valueEquivFields_of_tagEquiv : ∀ (fs : List (NString × QuintReplayValue)), ∀ f ∈ fs, ∀ y,
    TagEquiv f.2 y → ¬ SetMeetsRecord f.2 y → ValueEquiv f.2 y
  | [] => fun f hf => absurd hf List.not_mem_nil
  | (_, x) :: fs => List.forall_mem_cons.mpr
    ⟨fun y h hno => valueEquiv_of_tagEquiv h hno, valueEquivFields_of_tagEquiv fs⟩

end

/-- **Where a Set meets a Record, valid values are not equivalent.**  The members of a valid Set have
    distinct texts and the fields of a valid Record distinct names, so that positions correspond in one
    way only. -/
theorem SetMeetsRecord.not_valueEquiv {v w : QuintReplayValue} (h : SetMeetsRecord v w) :
    Valid v → Valid w → ¬ ValueEquiv v w := by
  induction h with
  | setRecord xs ys => exact fun _ _ hequiv => hequiv
  | recordSet xs ys => exact fun _ _ hequiv => hequiv
  | @sequence xs ys i x y hx hy _ ih =>
    intro hv hw hequiv
    obtain ⟨hix, rfl⟩ := List.getElem?_eq_some_iff.mp hx
    obtain ⟨hiy, rfl⟩ := List.getElem?_eq_some_iff.mp hy
    exact ih (validItems_iff.mp hv _ (List.getElem_mem hix)) (validItems_iff.mp hw _ (List.getElem_mem hiy))
      ((List.forall₂_iff_get.mp (valueEquivItems_iff.mp hequiv)).2 i hix hiy)
  | @set xs ys x y hx hy htag _ ih =>
    rintro hv hw ⟨zs, hperm, hequiv⟩
    have hvx := validItems_iff.mp hv.1 x hx
    have hwy := validItems_iff.mp hw.1 y hy
    obtain ⟨z, hz, hxz⟩ := forall₂_mem_left (valueEquivItems_iff.mp hequiv) x hx
    -- the member that is equivalent to `x` has the text of `x`, and so has `y`
    have htext : valueText z = valueText y :=
      (valueText_congr hvx hxz).symm.trans ((valueText_eq_iff hvx hwy).mpr htag)
    obtain rfl := List.inj_on_of_nodup_map hw.2 (hperm.mem_iff.mp hz) hy htext
    exact ih hvx hwy hxz
  | @record fs gs name x y hx hy _ ih =>
    rintro hv hw ⟨hs, hperm, hequiv⟩
    obtain ⟨⟨name', z⟩, hz, hname, hxz⟩ := forall₂_mem_left (valueEquivFields_iff.mp hequiv) _ hx
    have hsame := List.inj_on_of_nodup_map hw.1.1 (hperm.mem_iff.mp hz) hy hname.symm
    obtain rfl := (Prod.mk.inj hsame).2
    exact ih (validFields_iff.mp hv.2 _ hx) (validFields_iff.mp hw.2 _ hy) hxz

/-- **Valid values that are equivalent up to the tag differ exactly where a Set meets a Record.** -/
theorem setMeetsRecord_iff {v w : QuintReplayValue} (hv : Valid v) (hw : Valid w) (h : TagEquiv v w) :
    SetMeetsRecord v w ↔ ¬ ValueEquiv v w :=
  ⟨fun hmeets => hmeets.not_valueEquiv hv hw, fun hnot => by_contra fun hno =>
    hnot (valueEquiv_of_tagEquiv h hno)⟩

/-! ## The encoding as an identity -/

/-- A value is encoded exactly when it is valid, and to its text. -/
theorem encodeValue_eq_ok_iff {v : QuintReplayValue} {s : UString} :
    QuintReplay.encodeValue v = .ok (.ok s) ↔ Valid v ∧ valueText v = s := by
  rcases encodeAt_spec "$" v with ⟨hv, he⟩ | ⟨hv, found, -, he⟩
  · rw [QuintReplay.encodeValue, he]
    simp [hv]
  · rw [QuintReplay.encodeValue, he]
    simp [hv]

/-- The encoding is a canonical identity on two values: if they are equivalent, they are encoded
    together and alike, and if they are encoded alike, they are equivalent. -/
def CanonicalOn (v w : QuintReplayValue) : Prop :=
  (ValueEquiv v w →
    ((∃ s, QuintReplay.encodeValue v = .ok (.ok s)) ↔ ∃ s, QuintReplay.encodeValue w = .ok (.ok s)) ∧
    ∀ s t, QuintReplay.encodeValue v = .ok (.ok s) → QuintReplay.encodeValue w = .ok (.ok t) → s = t) ∧
  ∀ s, QuintReplay.encodeValue v = .ok (.ok s) → QuintReplay.encodeValue w = .ok (.ok s) → ValueEquiv v w

/-- Two valid values that become equivalent when every Set is replaced by the Record that reads like
    it, and in which a Set of one meets such a Record of the other. -/
structure SetLookalikes (v w : QuintReplayValue) : Prop where
  left_valid : Valid v
  right_valid : Valid w
  tagEquiv : TagEquiv v w
  meets : SetMeetsRecord v w

/-- **The encoding is a canonical identity on exactly the pairs that are no lookalikes.** -/
theorem encodeValue_canonical_iff (v w : QuintReplayValue) : CanonicalOn v w ↔ ¬ SetLookalikes v w := by
  constructor
  · intro h hl
    have heq := (valueText_eq_iff hl.left_valid hl.right_valid).mpr hl.tagEquiv
    exact hl.meets.not_valueEquiv hl.left_valid hl.right_valid
      (h.2 (valueText w) (encodeValue_eq_ok_iff.mpr ⟨hl.left_valid, heq⟩)
        (encodeValue_eq_ok_iff.mpr ⟨hl.right_valid, rfl⟩))
  · intro hl
    refine ⟨fun hvw => ⟨?_, ?_⟩, ?_⟩
    · simp only [encodeValue_eq_ok_iff, exists_and_left, exists_eq', and_true]
      exact valid_congr hvw
    · intro s t hs ht
      rw [encodeValue_eq_ok_iff] at hs ht
      rw [← hs.2, ← ht.2, valueText_congr hs.1 hvw]
    · intro s hs ht
      rw [encodeValue_eq_ok_iff] at hs ht
      have htag := (valueText_eq_iff hs.1 ht.1).mp (hs.2.trans ht.2.symm)
      by_contra hne
      exact hl ⟨hs.1, ht.1, htag, (setMeetsRecord_iff hs.1 ht.1 htag).mpr hne⟩

/-- The empty Set and the Record that binds `#set` to the empty Sequence have one encoding. -/
theorem encodeValue_set_collision :
    QuintReplay.encodeValue (.set []) = .ok (.ok (lit "\x7b\"#set\":[]\x7d")) ∧
    QuintReplay.encodeValue (.record [(some (lit "#set"), .sequence [])]) =
      .ok (.ok (lit "\x7b\"#set\":[]\x7d")) ∧
    ¬ CanonicalOn (.set []) (.record [(some (lit "#set"), .sequence [])]) := by
  have h1 : QuintReplay.encodeValue (.set []) = .ok (.ok (lit "\x7b\"#set\":[]\x7d")) := by decide
  have h2 : QuintReplay.encodeValue (.record [(some (lit "#set"), .sequence [])]) =
      .ok (.ok (lit "\x7b\"#set\":[]\x7d")) := by decide
  refine ⟨h1, h2, fun h => ?_⟩
  have := h.2 _ h1 h2
  simp [ValueEquiv] at this

end FsQuint
