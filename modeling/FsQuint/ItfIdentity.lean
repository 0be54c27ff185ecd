/-
  The canonical text of a raw ITF value as its identity.

  `ItfEquiv` is equality up to the order of set members, of map entries and of record fields, at any
  depth.  A value is written like a document whose sets and maps are bags (`doc`), and documents are
  equivalent exactly when the values are (`docEquiv_doc_iff`): the four tags that share the syntax of
  objects are told apart by their names.  What is known of canonical documents then says that one
  text is one class (`canonical_eq_iff`), for values without record keys that start with `#` and
  without repeated keys, whose strings are well formed.
-/
import FsQuint.Itf
import FsQuint.Lib.Unordered

set_option linter.unusedVariables false

namespace FsQuint.Itf

open Utf16 Collections Decimal Json Unordered

/-! ## The literals of `JsonSerializer` -/

/-- An upper-case digit reads as the number that it was written for. -/
theorem hexDigit_hexDigitUpper : ∀ n < 16, hexDigit (hexDigitUpper n) = some n := by decide

/-- The reader takes the escape of a code unit for that unit. -/
theorem readsUnit_hexEscape (u : UInt16) : ReadsUnit (hexEscape u) u := by
  have hu : u.toNat < 65536 := u.toNat_lt
  have hdigits : u.toNat / 4096 * 4096 + u.toNat / 256 % 16 * 256 + u.toNat / 16 % 16 * 16 +
    u.toNat % 16 =
      u.toNat := by omega
  refine readsUnit_hex ?_
  rw [hexUnit, hexDigit_hexDigitUpper _ (by omega), hexDigit_hexDigitUpper _ (by omega),
    hexDigit_hexDigitUpper _ (by omega), hexDigit_hexDigitUpper _ (by omega)]
  simp only [Option.bind_eq_bind, Option.bind_some, Option.pure_def, hdigits, UInt16.ofNat_toNat]

/-- **Each code unit is read back from what `quote` writes for it.** -/
theorem readsUnit_encodeUnit (u : UInt16) : ReadsUnit (encodeUnit u) u := by
  rw [encodeUnit]
  by_cases hcopied : isCopied u = true
  · rw [if_pos hcopied]
    simp only [isCopied, Bool.and_eq_true, decide_eq_true_eq, UInt16.le_iff_toNat_le] at hcopied
    refine readsUnit_plain (fun h => ?_) (fun h => ?_) ?_
    · simp [h] at hcopied
    · simp [h] at hcopied
    · have hlow : 0x20 ≤ u.toNat := hcopied.1.1.1.1.1.1.1.1.1
      omega
  rw [if_neg hcopied]
  by_cases h1 : u = 0x5C
  · rw [if_pos h1, h1]
    exact readsUnit_short (by decide) (by decide)
  by_cases h2 : u = 0x08
  · rw [if_neg h1, if_pos h2, h2]
    exact readsUnit_short (by decide) (by decide)
  by_cases h3 : u = 0x0C
  · rw [if_neg h1, if_neg h2, if_pos h3, h3]
    exact readsUnit_short (by decide) (by decide)
  by_cases h4 : u = 0x0A
  · rw [if_neg h1, if_neg h2, if_neg h3, if_pos h4, h4]
    exact readsUnit_short (by decide) (by decide)
  by_cases h5 : u = 0x0D
  · rw [if_neg h1, if_neg h2, if_neg h3, if_neg h4, if_pos h5, h5]
    exact readsUnit_short (by decide) (by decide)
  by_cases h6 : u = 0x09
  · rw [if_neg h1, if_neg h2, if_neg h3, if_neg h4, if_neg h5, if_pos h6, h6]
    exact readsUnit_short (by decide) (by decide)
  rw [if_neg h1, if_neg h2, if_neg h3, if_neg h4, if_neg h5, if_neg h6]
  exact readsUnit_hexEscape u

/-- A well-formed string is written unit by unit. -/
theorem quote_eq {s : UString} (h : validUnicode s = true) :
    quote s = 0x22 :: (s.flatMap encodeUnit ++ [0x22]) := by
  have hunits : ((scalars s).flatMap fun c =>
    (utf16 (c.getD (Char.ofNat 0xFFFD))).flatMap encodeUnit) =
      s.flatMap encodeUnit := by
    rw [← List.flatMap_map (fun c : Option Char => c.getD (Char.ofNat 0xFFFD)) fun c =>
      (utf16 c).flatMap encodeUnit,
      map_getD_eq_reduceOption _ h, ← List.flatMap_assoc, flatMap_utf16_scalars s h]
  rw [quote, hunits]

/-- The literals of `quote` as a quoting, for well-formed strings. -/
def itfQuoting : Quoting where
  quote := quote
  Fits := fun s => validUnicode s = true
  reads {s} hs := by
    refine ⟨s.flatMap encodeUnit ++ [0x22], quote_eq hs, fun rest => ?_⟩
    rw [List.append_assoc]
    exact readString_flatMap readsUnit_encodeUnit s rest

/-! ## Equivalence -/

mutual

/-- Equality up to the order of set members, of map entries and of record fields, at any depth. -/
def ItfEquiv : ItfValue → ItfValue → Prop
  | .null, .null => True
  | .boolean a, .boolean b => a = b
  | .integer m, .integer n => m = n
  | .text s, .text t => s = t
  | .sequence xs, .sequence ys => ItfEquivItems xs ys
  | .tuple xs, .tuple ys => ItfEquivItems xs ys
  | .set xs, .set ys => ∃ zs, zs.Perm ys ∧ ItfEquivItems xs zs
  | .map xs, .map ys => ∃ zs, zs.Perm ys ∧ ItfEquivEntries xs zs
  | .record fs, .record gs => ∃ hs, hs.Perm gs ∧ ItfEquivFields fs hs
  | _, _ => False

/-- Equivalence of two lists, position by position. -/
def ItfEquivItems : List ItfValue → List ItfValue → Prop
  | [], [] => True
  | x :: xs, y :: ys => ItfEquiv x y ∧ ItfEquivItems xs ys
  | _, _ => False

/-- Equivalence of two lists of map entries, position by position. -/
def ItfEquivEntries : List (ItfValue × ItfValue) → List (ItfValue × ItfValue) → Prop
  | [], [] => True
  | (k, v) :: xs, (l, w) :: ys => ItfEquiv k l ∧ ItfEquiv v w ∧ ItfEquivEntries xs ys
  | _, _ => False

/-- Equivalence of two lists of fields, position by position. -/
def ItfEquivFields : List (UString × ItfValue) → List (UString × ItfValue) → Prop
  | [], [] => True
  | (s, x) :: fs, (t, y) :: gs => s = t ∧ ItfEquiv x y ∧ ItfEquivFields fs gs
  | _, _ => False

end

/-! ## Values as documents -/

mutual

/-- The document that a value is written as. -/
def doc : ItfValue → Doc
  | .null => .null
  | .boolean b => .boolean b
  | .integer n => .tagged (lit "#bigint") (.string (decimal n))
  | .text s => .string s
  | .sequence xs => .list (docItems xs)
  | .tuple xs => .tagged (lit "#tup") (.list (docItems xs))
  | .set xs => .bag (lit "#set") (docItems xs)
  | .map xs => .bag (lit "#map") (docEntries xs)
  | .record fs => .record (docFields fs)

/-- The documents of some values. -/
def docItems : List ItfValue → List Doc
  | [] => []
  | x :: xs => doc x :: docItems xs

/-- The documents of some map entries, each the list of its key and its value. -/
def docEntries : List (ItfValue × ItfValue) → List Doc
  | [] => []
  | (k, v) :: xs => .list [doc k, doc v] :: docEntries xs

/-- The documents of some fields, under their names. -/
def docFields : List (UString × ItfValue) → List (UString × Doc)
  | [] => []
  | (name, x) :: fs => (name, doc x) :: docFields fs

end

/-- `docItems` is a map, which the mutual definition hides. -/
theorem docItems_eq_map : ∀ xs : List ItfValue, docItems xs = xs.map doc
  | [] => rfl
  | x :: xs => by rw [docItems, docItems_eq_map xs, List.map_cons]

/-- And so is `docEntries`. -/
theorem docEntries_eq_map : ∀ xs : List (ItfValue × ItfValue),
    docEntries xs = xs.map fun e => .list [doc e.1, doc e.2]
  | [] => rfl
  | (k, v) :: xs => by rw [docEntries, docEntries_eq_map xs, List.map_cons]

/-- And so is `docFields`. -/
theorem docFields_eq_map :
    ∀ fs : List (UString × ItfValue), docFields fs = fs.map fun f => (f.1, doc f.2)
  | [] => rfl
  | (name, x) :: fs => by rw [docFields, docFields_eq_map fs, List.map_cons]

/-- The same as a relation between lists. -/
theorem itfEquivItems_iff :
    ∀ {xs ys : List ItfValue}, ItfEquivItems xs ys ↔ List.Forall₂ ItfEquiv xs ys
  | [], [] => by simp [ItfEquivItems]
  | [], _ :: _ => by simp [ItfEquivItems]
  | _ :: _, [] => by simp [ItfEquivItems]
  | x :: xs, y :: ys => by simp [ItfEquivItems, @itfEquivItems_iff xs ys]

/-- Equivalence of map entries: equivalent keys and equivalent values. -/
def EntryEquiv (e f : ItfValue × ItfValue) : Prop := ItfEquiv e.1 f.1 ∧ ItfEquiv e.2 f.2

/-- The same for map entries. -/
theorem itfEquivEntries_iff : ∀ {xs ys : List (ItfValue × ItfValue)},
    ItfEquivEntries xs ys ↔ List.Forall₂ EntryEquiv xs ys
  | [], [] => by simp [ItfEquivEntries]
  | [], _ :: _ => by simp [ItfEquivEntries]
  | _ :: _, [] => by simp [ItfEquivEntries]
  | (k, v) :: xs, (l, w) :: ys => by
    simp [ItfEquivEntries, @itfEquivEntries_iff xs ys, EntryEquiv, and_assoc]

/-- Equivalence of fields: one name, and equivalent values. -/
def FieldEquiv (f g : UString × ItfValue) : Prop := f.1 = g.1 ∧ ItfEquiv f.2 g.2

/-- The same for fields. -/
theorem itfEquivFields_iff : ∀ {fs gs : List (UString × ItfValue)},
    ItfEquivFields fs gs ↔ List.Forall₂ FieldEquiv fs gs
  | [], [] => by simp [ItfEquivFields]
  | [], _ :: _ => by simp [ItfEquivFields]
  | _ :: _, [] => by simp [ItfEquivFields]
  | (s, x) :: fs, (t, y) :: gs => by
    simp [ItfEquivFields, @itfEquivFields_iff fs gs, FieldEquiv, and_assoc]

/-- Sets are equivalent when their members are, up to order. -/
theorem itfEquiv_set {xs ys : List ItfValue} :
    ItfEquiv (.set xs) (.set ys) ↔ UpToOrder ItfEquiv xs ys := by
  simp only [ItfEquiv, itfEquivItems_iff, UpToOrder]

/-- And maps when their entries are. -/
theorem itfEquiv_map {xs ys : List (ItfValue × ItfValue)} :
    ItfEquiv (.map xs) (.map ys) ↔ UpToOrder EntryEquiv xs ys := by
  simp only [ItfEquiv, itfEquivEntries_iff, UpToOrder]

/-- And records when their fields are. -/
theorem itfEquiv_record {fs gs : List (UString × ItfValue)} :
    ItfEquiv (.record fs) (.record gs) ↔ UpToOrder FieldEquiv fs gs := by
  simp only [ItfEquiv, itfEquivFields_iff, UpToOrder]

mutual

/-- **Documents are equivalent exactly when the values are.** -/
theorem docEquiv_doc_iff : ∀ {v w : ItfValue}, DocEquiv (doc v) (doc w) ↔ ItfEquiv v w
  | .null, w => by cases w <;> simp [doc, DocEquiv, ItfEquiv]
  | .boolean b, w => by cases w <;> simp [doc, DocEquiv, ItfEquiv]
  | .integer m, w => by
    have htag : lit "#bigint" ≠ lit "#tup" := by decide
    cases w <;> simp [doc, DocEquiv, ItfEquiv, htag]
    exact ⟨decimal_inj, congrArg decimal⟩
  | .text s, w => by cases w <;> simp [doc, DocEquiv, ItfEquiv]
  | .sequence xs, w => by
    cases w <;> simp [doc, DocEquiv, ItfEquiv]
    exact docEquivItems_docItems_iff
  | .tuple xs, w => by
    have htag : lit "#tup" ≠ lit "#bigint" := by decide
    cases w <;> simp [doc, DocEquiv, ItfEquiv, htag]
    exact docEquivItems_docItems_iff
  | .set xs, w => by
    cases w with
    | set ys =>
      rw [doc, doc, docEquiv_bag, itfEquiv_set, docItems_eq_map, docItems_eq_map,
        upToOrder_map_iff docEquiv_of_mem]
      simp
    | map ys =>
      have htag : lit "#set" ≠ lit "#map" := by decide
      simp [doc, DocEquiv, ItfEquiv, htag]
    | _ => simp [doc, DocEquiv, ItfEquiv]
  | .map xs, w => by
    cases w with
    | map ys =>
      rw [doc, doc, docEquiv_bag, itfEquiv_map, docEntries_eq_map, docEntries_eq_map,
        upToOrder_map_iff docEquiv_of_mem_entries]
      simp
    | set ys =>
      have htag : lit "#map" ≠ lit "#set" := by decide
      simp [doc, DocEquiv, ItfEquiv, htag]
    | _ => simp [doc, DocEquiv, ItfEquiv]
  | .record fs, w => by
    cases w with
    | record gs =>
      rw [doc, doc, docEquiv_record, itfEquiv_record, docFields_eq_map, docFields_eq_map,
        upToOrder_map_iff docEquiv_of_mem_fields]
    | _ => simp [doc, DocEquiv, ItfEquiv]

/-- Lists have equivalent documents exactly when they are equivalent. -/
theorem docEquivItems_docItems_iff : ∀ {xs ys : List ItfValue},
    DocEquivItems (docItems xs) (docItems ys) ↔ ItfEquivItems xs ys
  | [], [] => by simp [docItems, DocEquivItems, ItfEquivItems]
  | [], _ :: _ => by simp [docItems, DocEquivItems, ItfEquivItems]
  | _ :: _, [] => by simp [docItems, DocEquivItems, ItfEquivItems]
  | x :: xs, y :: ys => by
    rw [docItems, docItems, DocEquivItems, ItfEquivItems, docEquiv_doc_iff,
      docEquivItems_docItems_iff]

/-- The same for each member of a list, which is what a rearrangement needs. -/
theorem docEquiv_of_mem :
    ∀ {xs : List ItfValue}, ∀ x ∈ xs, ∀ y, DocEquiv (doc x) (doc y) ↔ ItfEquiv x y
  | x :: xs, z, hz, y => by
    rcases List.mem_cons.mp hz with hx | hz
    · rw [hx]
      exact docEquiv_doc_iff
    · exact docEquiv_of_mem z hz y

/-- And for each entry of a map. -/
theorem docEquiv_of_mem_entries :
    ∀ {xs : List (ItfValue × ItfValue)}, ∀ x ∈ xs, ∀ y : ItfValue × ItfValue,
    DocEquiv (.list [doc x.1, doc x.2]) (.list [doc y.1, doc y.2]) ↔ EntryEquiv x y
  | (k, v) :: xs, z, hz, y => by
    rcases List.mem_cons.mp hz with hx | hz
    · simp only [hx, DocEquiv, DocEquivItems, and_true, EntryEquiv]
      rw [@docEquiv_doc_iff k, @docEquiv_doc_iff v]
    · exact docEquiv_of_mem_entries z hz y

/-- And for each field of a record. -/
theorem docEquiv_of_mem_fields :
    ∀ {fs : List (UString × ItfValue)}, ∀ f ∈ fs, ∀ g : UString × ItfValue,
    DocEquivField (f.1, doc f.2) (g.1, doc g.2) ↔ FieldEquiv f g
  | (name, x) :: fs, f, hf, g => by
    rcases List.mem_cons.mp hf with hx | hf
    · simp only [hx, DocEquivField, FieldEquiv]
      rw [@docEquiv_doc_iff x]
    · exact docEquiv_of_mem_fields f hf g

end

mutual

/-- The canonical text is that of the document. -/
theorem canonical_eq : ∀ v : ItfValue, canonical v = text itfQuoting (doc v)
  | .null => rfl
  | .boolean b => rfl
  | .integer n => by
    have htag : lit "\x7b\"#bigint\":" = 0x7B :: (quote "#bigint" ++ [0x3A]) := by decide
    rw [canonical, doc, text_tagged, htag]
    simp only [List.cons_append, List.append_assoc, List.nil_append]
    rfl
  | .text s => rfl
  | .sequence xs => by
    rw [canonical, doc, text_list, docItems_eq_map, List.map_map, canonicalItems_eq]
    rfl
  | .tuple xs => by
    rw [canonical, doc, text_tagged, text_list, docItems_eq_map, List.map_map, canonicalItems_eq]
    rfl
  | .set xs => by
    rw [canonical, doc, text_bag, docItems_eq_map, List.map_map, canonicalItems_eq]
    simp only [tagged, array, ordered, List.cons_append, List.append_assoc, List.nil_append]
    rfl
  | .map xs => by
    rw [canonical, doc, text_bag, docEntries_eq_map, List.map_map, canonicalEntries_eq]
    simp only [tagged, array, ordered, List.cons_append, List.append_assoc, List.nil_append]
    rfl
  | .record fs => by
    rw [canonical, doc, text_record, docFields_eq_map, List.map_map, canonicalFields_eq]
    rfl

/-- The canonical texts of some values are those of their documents. -/
theorem canonicalItems_eq : ∀ xs : List ItfValue, canonicalItems xs = xs.map (text itfQuoting ∘ doc)
  | [] => rfl
  | x :: xs => by rw [canonicalItems, canonical_eq x, canonicalItems_eq xs, List.map_cons, Function.comp]

/-- And so are those of map entries. -/
theorem canonicalEntries_eq : ∀ xs : List (ItfValue × ItfValue),
    canonicalEntries xs = xs.map (text itfQuoting ∘ fun e => .list [doc e.1, doc e.2])
  | [] => rfl
  | (k, v) :: xs => by
    rw [canonicalEntries, canonical_eq k, canonical_eq v, canonicalEntries_eq xs, List.map_cons,
      Function.comp, text_list]
    rfl

/-- And those of fields, under their names. -/
theorem canonicalFields_eq : ∀ fs : List (UString × ItfValue),
    canonicalFields fs = fs.map ((fun f => (f.1, text itfQuoting f.2)) ∘ fun f => (f.1, doc f.2))
  | [] => rfl
  | (name, x) :: fs => by
    rw [canonicalFields, canonical_eq x, canonicalFields_eq fs, List.map_cons, Function.comp]

end

/-! ## One text, one class -/

mutual

/-- The values that the decoder produces: strings are well formed, records repeat no key and have no
    key that starts with `#`, and no two members of a set, and no two keys of a map, are equivalent. -/
def Produced : ItfValue → Prop
  | .text s => validUnicode s = true
  | .sequence xs => ProducedItems xs
  | .tuple xs => ProducedItems xs
  | .set xs => ProducedItems xs ∧ xs.Pairwise fun x y => ¬ ItfEquiv x y
  | .map xs => ProducedEntries xs ∧ (xs.map Prod.fst).Pairwise fun x y => ¬ ItfEquiv x y
  | .record fs => (fs.map Prod.fst).Nodup ∧ ProducedFields fs
  | _ => True

/-- All of some values can be produced. -/
def ProducedItems : List ItfValue → Prop
  | [] => True
  | x :: xs => Produced x ∧ ProducedItems xs

/-- Keys and values of some entries can. -/
def ProducedEntries : List (ItfValue × ItfValue) → Prop
  | [] => True
  | (k, v) :: xs => Produced k ∧ Produced v ∧ ProducedEntries xs

/-- The values of some fields can, and their names are well-formed and start with no `#`. -/
def ProducedFields : List (UString × ItfValue) → Prop
  | [] => True
  | (name, x) :: fs => (startsWithHash name = false ∧ validUnicode name = true) ∧ Produced x ∧ ProducedFields fs

end

/-- `ProducedItems`, member by member. -/
theorem producedItems_iff : ∀ {xs : List ItfValue}, ProducedItems xs ↔ ∀ x ∈ xs, Produced x
  | [] => by simp [ProducedItems]
  | x :: xs => by simp [ProducedItems, @producedItems_iff xs]

/-- `ProducedEntries`, entry by entry. -/
theorem producedEntries_iff : ∀ {es : List (ItfValue × ItfValue)},
    ProducedEntries es ↔ ∀ e ∈ es, Produced e.1 ∧ Produced e.2
  | [] => by simp [ProducedEntries]
  | (k, v) :: es => by simp [ProducedEntries, @producedEntries_iff es, and_assoc]

/-- `ProducedFields`, field by field. -/
theorem producedFields_iff : ∀ {fs : List (UString × ItfValue)},
    ProducedFields fs ↔
      ∀ f ∈ fs, (startsWithHash f.1 = false ∧ validUnicode f.1 = true) ∧ Produced f.2
  | [] => by simp [ProducedFields]
  | (name, x) :: fs => by simp [ProducedFields, @producedFields_iff fs, and_assoc]

/-- What the names in a canonical text are used for. -/
def nameUse (name : UString) : NameUse :=
  if name = lit "#set" ∨ name = lit "#map" then .bag else if startsWithHash name then .tag else .field

/-- A name without `#` is that of a field. -/
theorem nameUse_field {name : UString} (h : startsWithHash name = false) :
    nameUse name = .field := by
  have hset : name ≠ lit "#set" := by
    rintro rfl
    exact absurd h (by decide)
  have hmap : name ≠ lit "#map" := by
    rintro rfl
    exact absurd h (by decide)
  rw [nameUse, if_neg (by simp [hset, hmap]), h]
  rfl

/-- A document that can be written, and whose text determines it. -/
structure Determinate (d : Doc) : Prop where
  distinct : DistinctNames d
  tagged : WellTagged nameUse d
  fits : Fits itfQuoting d

/-- A list of determinate documents is determinate. -/
theorem determinate_list {items : List Doc} (h : ∀ d ∈ items, Determinate d) :
    Determinate (.list items) where
  distinct := distinctNamesItems_iff.mpr fun d hd => (h d hd).distinct
  tagged := wellTaggedItems_iff.mpr fun d hd => (h d hd).tagged
  fits := (fitsItems_iff itfQuoting).mpr fun d hd => (h d hd).fits

/-- And so is a bag of them, under a tag for bags. -/
theorem determinate_bag {tag : UString} {items : List Doc} (htag : nameUse tag = .bag)
    (hfits : validUnicode tag = true) (h : ∀ d ∈ items, Determinate d) :
    Determinate (.bag tag items) where
  distinct := (determinate_list h).distinct
  tagged := ⟨htag, (determinate_list h).tagged⟩
  fits := ⟨hfits, (determinate_list h).fits⟩

/-- And one of them under a tag for single documents. -/
theorem determinate_tagged {tag : UString} {item : Doc} (htag : nameUse tag = .tag)
    (hfits : validUnicode tag = true) (h : Determinate item) : Determinate (.tagged tag item) where
  distinct := h.distinct
  tagged := ⟨htag, h.tagged⟩
  fits := ⟨hfits, h.fits⟩

mutual

/-- **The document of a produced value is determinate**, so that its text determines it. -/
theorem determinate_doc : ∀ {v : ItfValue}, Produced v → Determinate (doc v)
  | .null, _ => ⟨trivial, trivial, trivial⟩
  | .boolean _, _ => ⟨trivial, trivial, trivial⟩
  | .integer n, _ => determinate_tagged (by decide) (by decide)
      ⟨trivial, trivial, validUnicode_decimal n⟩
  | .text s, h => ⟨trivial, trivial, h⟩
  | .sequence xs, h => determinate_list (determinate_docItems h)
  | .tuple xs, h => determinate_tagged (by decide) (by decide)
      (determinate_list (determinate_docItems h))
  | .set xs, h => determinate_bag (by decide) (by decide) (determinate_docItems h.1)
  | .map xs, h => determinate_bag (by decide) (by decide) (determinate_docEntries h.1)
  | .record fs, h => by
    have hfields := determinate_docFields h.2
    refine ⟨⟨?_, distinctNamesFields_iff.mpr fun f hf => (hfields f hf).2.2.distinct⟩,
      wellTaggedFields_iff.mpr fun f hf =>
        ⟨nameUse_field (hfields f hf).1, (hfields f hf).2.2.tagged⟩,
      (fitsFields_iff itfQuoting).mpr fun f hf => ⟨(hfields f hf).2.1, (hfields f hf).2.2.fits⟩⟩
    rw [docFields_eq_map, List.map_map]
    exact h.1

/-- The documents of its items are. -/
theorem determinate_docItems :
    ∀ {xs : List ItfValue}, ProducedItems xs → ∀ d ∈ docItems xs, Determinate d
  | [], _, d, hd => absurd hd List.not_mem_nil
  | x :: xs, h, d, hd => by
    rcases List.mem_cons.mp hd with hx | hd
    · rw [hx]
      exact determinate_doc h.1
    · exact determinate_docItems h.2 d hd

/-- And those of its entries. -/
theorem determinate_docEntries : ∀ {xs : List (ItfValue × ItfValue)}, ProducedEntries xs →
    ∀ d ∈ docEntries xs, Determinate d
  | [], _, d, hd => absurd hd List.not_mem_nil
  | (k, v) :: xs, h, d, hd => by
    rcases List.mem_cons.mp hd with hx | hd
    · have hk := determinate_doc h.1
      have hv := determinate_doc h.2.1
      rw [hx]
      exact determinate_list (by simp [hk, hv])
    · exact determinate_docEntries h.2.2 d hd

/-- And those of its fields, whose names are no tags. -/
theorem determinate_docFields : ∀ {fs : List (UString × ItfValue)}, ProducedFields fs →
    ∀ f ∈ docFields fs, startsWithHash f.1 = false ∧ validUnicode f.1 = true ∧ Determinate f.2
  | [], _, f, hf => absurd hf List.not_mem_nil
  | (name, x) :: fs, h, f, hf => by
    rcases List.mem_cons.mp hf with hx | hf
    · rw [hx]
      exact ⟨h.1.1, h.1.2, determinate_doc h.2.1⟩
    · exact determinate_docFields h.2.2 f hf

end

/-- **Values have one canonical text exactly when they are equivalent.** -/
theorem canonical_eq_iff {v w : ItfValue} (hv : Produced v) (hw : Produced w) :
    canonical v = canonical w ↔ ItfEquiv v w := by
  have hdv := determinate_doc hv
  have hdw := determinate_doc hw
  rw [canonical_eq, canonical_eq, ← docEquiv_doc_iff]
  exact ⟨equiv_of_text_eq itfQuoting nameUse hdv.fits hdw.fits hdv.tagged hdw.tagged,
    text_congr itfQuoting hdv.distinct⟩

/-- Values with different texts are values that are not equivalent. -/
theorem nodup_canonical_iff {xs : List ItfValue} (h : ProducedItems xs) :
    (xs.map canonical).Nodup ↔ xs.Pairwise fun x y => ¬ ItfEquiv x y := by
  rw [List.Nodup, List.pairwise_map]
  exact List.Pairwise.iff_of_mem fun {x y} hx hy =>
    not_congr (canonical_eq_iff (producedItems_iff.mp h x hx) (producedItems_iff.mp h y hy))

end FsQuint.Itf
