/-
  Canonical JSON of data that is only partly ordered.

  A `Doc` is a tree of scalars, lists, *bags* (lists whose order does not matter, written as an
  array under a tag), values under a tag, and records (whose field order does not matter).
  `tree` is its canonical JSON: bag members in the ordinal order of their texts, record fields in
  the ordinal order of their names, at every depth.

  1. **One text per class** (`text_congr`): equivalent documents have one text, provided no record
     repeats a field name.  Sorting the members of a bag makes their order disappear because a
     list of texts sorted by itself depends only on its members.

  2. **One class per text** (`equiv_of_text_eq`): documents with one text are equivalent, provided
     the names in use tell bags, tags and fields apart (`WellTagged`).  A sorted list still has
     the members of the original, and the induction follows the first document.

  Without that proviso a record whose only field carries a bag's tag reads as the bag.
-/
import FsQuint.Lib.JsonWriter

namespace Unordered

open Utf16 Collections Decimal Json

/-- A document whose bags and records are not ordered. -/
inductive Doc where
  | null
  | boolean (b : Bool)
  | number (n : Int)
  | string (s : UString)
  | list (items : List Doc)
  | bag (tag : UString) (items : List Doc)
  | tagged (tag : UString) (item : Doc)
  | record (fields : List (UString × Doc))

/-! ## Equivalence -/

mutual

/-- Equality up to the order of bag members and of record fields, at any depth. -/
def DocEquiv : Doc → Doc → Prop
  | .null, .null => True
  | .boolean a, .boolean b => a = b
  | .number m, .number n => m = n
  | .string s, .string t => s = t
  | .list xs, .list ys => DocEquivItems xs ys
  | .bag s xs, .bag t ys => s = t ∧ ∃ zs, zs.Perm ys ∧ DocEquivItems xs zs
  | .tagged s x, .tagged t y => s = t ∧ DocEquiv x y
  | .record fs, .record gs => ∃ hs, hs.Perm gs ∧ DocEquivFields fs hs
  | _, _ => False

/-- Equivalence of two lists, position by position. -/
def DocEquivItems : List Doc → List Doc → Prop
  | [], [] => True
  | x :: xs, y :: ys => DocEquiv x y ∧ DocEquivItems xs ys
  | _, _ => False

/-- Equivalence of two lists of fields, position by position. -/
def DocEquivFields : List (UString × Doc) → List (UString × Doc) → Prop
  | [], [] => True
  | (s, x) :: fs, (t, y) :: gs => s = t ∧ DocEquiv x y ∧ DocEquivFields fs gs
  | _, _ => False

end

/-- Equivalence of fields: one name, and equivalent values. -/
def DocEquivField (f g : UString × Doc) : Prop := f.1 = g.1 ∧ DocEquiv f.2 g.2

/-- The same as a relation between lists. -/
theorem docEquivItems_iff : ∀ {xs ys : List Doc}, DocEquivItems xs ys ↔ List.Forall₂ DocEquiv xs ys
  | [], [] => by simp [DocEquivItems]
  | [], _ :: _ => by simp [DocEquivItems]
  | _ :: _, [] => by simp [DocEquivItems]
  | x :: xs, y :: ys => by simp [DocEquivItems, @docEquivItems_iff xs ys]

/-- The same for fields. -/
theorem docEquivFields_iff :
    ∀ {fs gs : List (UString × Doc)}, DocEquivFields fs gs ↔ List.Forall₂ DocEquivField fs gs
  | [], [] => by simp [DocEquivFields]
  | [], _ :: _ => by simp [DocEquivFields]
  | _ :: _, [] => by simp [DocEquivFields]
  | (s, x) :: fs, (t, y) :: gs => by
    simp [DocEquivFields, @docEquivFields_iff fs gs, DocEquivField, and_assoc]

/-- Bags are equivalent when their items are, up to order. -/
theorem docEquiv_bag {s t : UString} {xs ys : List Doc} :
    DocEquiv (.bag s xs) (.bag t ys) ↔ s = t ∧ UpToOrder DocEquiv xs ys := by
  simp only [DocEquiv, docEquivItems_iff, UpToOrder]

/-- And records when their fields are. -/
theorem docEquiv_record {fs gs : List (UString × Doc)} :
    DocEquiv (.record fs) (.record gs) ↔ UpToOrder DocEquivField fs gs := by
  simp only [DocEquiv, docEquivFields_iff, UpToOrder]

/-! ## Canonical trees and texts -/

mutual

/-- The canonical JSON tree of a document. -/
def tree (q : Quoting) : Doc → JsonElement
  | .null => .null
  | .boolean b => .boolean b
  | .number n => .number (decimal n)
  | .string s => .string s
  | .list items => .array (treeItems q items)
  | .bag tag items => .object [(tag, .array (sortOn ordinal (write q) (treeItems q items)))]
  | .tagged tag item => .object [(tag, tree q item)]
  | .record fields => .object (sortOn ordinal Prod.fst (treeFields q fields))

/-- The trees of some documents. -/
def treeItems (q : Quoting) : List Doc → List JsonElement
  | [] => []
  | item :: items => tree q item :: treeItems q items

/-- The trees of some fields, under their names. -/
def treeFields (q : Quoting) : List (UString × Doc) → List (UString × JsonElement)
  | [] => []
  | (name, item) :: fields => (name, tree q item) :: treeFields q fields

end

/-- `treeItems` is a map, which the mutual definition hides. -/
theorem treeItems_eq_map (q : Quoting) : ∀ items, treeItems q items = items.map (tree q)
  | [] => rfl
  | item :: items => by rw [treeItems, treeItems_eq_map q items, List.map_cons]

/-- And so is `treeFields`. -/
theorem treeFields_eq_map (q : Quoting) :
    ∀ fields, treeFields q fields = fields.map fun f => (f.1, tree q f.2)
  | [] => rfl
  | (name, item) :: fields => by rw [treeFields, treeFields_eq_map q fields, List.map_cons]

/-- The canonical text of a document. -/
def text (q : Quoting) (d : Doc) : UString := write q (tree q d)

section Text

variable (q : Quoting)

/-- The text of a list: its items in their order. -/
theorem text_list (items : List Doc) :
    text q (.list items) = 0x5B :: (concat [0x2C] (items.map (text q)) ++ [0x5D]) := by
  rw [text, tree, write, writeItems_eq_map, treeItems_eq_map, List.map_map]
  rfl

/-- The text of a bag: its items in ordinal order, under the tag. -/
theorem text_bag (tag : UString) (items : List Doc) :
    text q (.bag tag items) = 0x7B :: (q.quote tag ++ 0x3A :: 0x5B ::
      (concat [0x2C] (sortOn ordinal id (items.map (text q))) ++ [0x5D, 0x7D])) := by
  have hsort := map_sortOn ordinal (write q) id (write q) (fun _ => rfl) (items.map (tree q))
  rw [List.map_map] at hsort
  rw [text, tree, write, writeMembers_eq_map, treeItems_eq_map]
  simp only [List.map_cons, List.map_nil, concat, write, writeItems_eq_map, hsort]
  simp only [List.append_assoc, List.cons_append, List.nil_append]
  rfl

/-- The text of a tagged document. -/
theorem text_tagged (tag : UString) (item : Doc) :
    text q (.tagged tag item) = 0x7B :: (q.quote tag ++ 0x3A :: (text q item ++ [0x7D])) := by
  rw [text, tree, write, writeMembers_eq_map]
  simp only [List.map_cons, List.map_nil, concat, text, List.append_assoc, List.cons_append]

/-- The text of a field. -/
def fieldText (f : UString × UString) : UString := q.quote f.1 ++ 0x3A :: f.2

/-- The text of a record: its fields in the order of their names. -/
theorem text_record (fields : List (UString × Doc)) :
    text q (.record fields) = 0x7B :: (concat [0x2C]
      ((sortOn ordinal Prod.fst (fields.map fun f => (f.1, text q f.2))).map (fieldText q)) ++
        [0x7D]) := by
  have hsort := map_sortOn ordinal Prod.fst Prod.fst
    (fun m : UString × JsonElement => (m.1, write q m.2)) (fun _ => rfl)
    (fields.map fun f => (f.1, tree q f.2))
  rw [List.map_map] at hsort
  rw [text, tree, write, writeMembers_eq_map, treeFields_eq_map]
  refine congrArg (fun texts => 0x7B :: (concat [0x2C] texts ++ [0x7D])) ?_
  show _ = (sortOn ordinal Prod.fst (fields.map _)).map _
  rw [show (fields.map fun f => (f.1, text q f.2))
    = fields.map ((fun m : UString × JsonElement => (m.1, write q m.2)) ∘ fun f =>
      (f.1, tree q f.2)) from rfl,
    ← hsort, List.map_map]
  rfl

end Text

/-! ## One text per class -/

mutual

/-- No record of the document, at any depth, repeats a field name. -/
def DistinctNames : Doc → Prop
  | .list items => DistinctNamesItems items
  | .bag _ items => DistinctNamesItems items
  | .tagged _ item => DistinctNames item
  | .record fields => (fields.map Prod.fst).Nodup ∧ DistinctNamesFields fields
  | _ => True

/-- No name is repeated in any of some documents. -/
def DistinctNamesItems : List Doc → Prop
  | [] => True
  | item :: items => DistinctNames item ∧ DistinctNamesItems items

/-- Nor in the documents of some fields. -/
def DistinctNamesFields : List (UString × Doc) → Prop
  | [] => True
  | (_, item) :: fields => DistinctNames item ∧ DistinctNamesFields fields

end

/-- `DistinctNamesItems`, item by item. -/
theorem distinctNamesItems_iff : ∀ {items : List Doc},
    DistinctNamesItems items ↔ ∀ item ∈ items, DistinctNames item
  | [] => by simp [DistinctNamesItems]
  | item :: items => by simp [DistinctNamesItems, @distinctNamesItems_iff items]

/-- `DistinctNamesFields`, field by field. -/
theorem distinctNamesFields_iff : ∀ {fields : List (UString × Doc)},
    DistinctNamesFields fields ↔ ∀ f ∈ fields, DistinctNames f.2
  | [] => by simp [DistinctNamesFields]
  | (name, item) :: fields => by
    simp [DistinctNamesFields, @distinctNamesFields_iff fields]

section Congr

variable (q : Quoting)

mutual

/-- **Equivalent documents have one text.** -/
theorem text_congr : ∀ {d e : Doc}, DistinctNames d → DocEquiv d e → text q d = text q e
  | .null, e, _, h => by cases e <;> simp [DocEquiv] at h; rfl
  | .boolean b, e, _, h => by cases e <;> simp [DocEquiv] at h; rw [h]
  | .number n, e, _, h => by cases e <;> simp [DocEquiv] at h; rw [h]
  | .string s, e, _, h => by cases e <;> simp [DocEquiv] at h; rw [h]
  | .list xs, e, hd, h => by
    cases e <;> simp only [DocEquiv] at h
    rename_i ys
    have hmap : xs.map (text q) = ys.map (text q) := by
      simpa using map_text_congr hd (docEquivItems_iff.mp h)
    rw [text_list, text_list, hmap]
  | .bag s xs, e, hd, h => by
    cases e <;> try simp only [DocEquiv] at h
    rename_i t ys
    obtain ⟨rfl, zs, hp, hz⟩ := h
    have hmap := map_text_congr hd (docEquivItems_iff.mp hz)
    have hperm : (xs.map (text q)).Perm (ys.map (text q)) := hmap ▸ hp.map (text q)
    rw [text_bag, text_bag, sortOn_id_eq_of_perm ordinal hperm]
  | .tagged s x, e, hd, h => by
    cases e <;> simp only [DocEquiv] at h
    rename_i t y
    obtain ⟨rfl, hxy⟩ := h
    have hx : DistinctNames x := by simpa only [DistinctNames] using hd
    rw [text_tagged, text_tagged, text_congr hx hxy]
  | .record fs, e, hd, h => by
    cases e <;> simp only [DocEquiv] at h
    rename_i gs
    obtain ⟨hs, hp, hf⟩ := h
    have hmap := map_fieldText_congr hd.2 (docEquivFields_iff.mp hf)
    have hperm : (fs.map fun f => (f.1, text q f.2)).Perm (gs.map fun f => (f.1, text q f.2)) :=
      hmap ▸ hp.map _
    have hn : ((fs.map fun f => (f.1, text q f.2)).map Prod.fst).Nodup := by
      rw [List.map_map]
      exact hd.1
    rw [text_record, text_record, sortOn_eq_of_perm ordinal Prod.fst hperm hn]

/-- Equivalent lists have one list of texts. -/
theorem map_text_congr : ∀ {xs ys : List Doc}, DistinctNamesItems xs → List.Forall₂ DocEquiv xs ys →
    xs.map (text q) = ys.map (text q)
  | [], _, _, h => by
    cases h
    rfl
  | x :: xs, _, hd, h => by
    cases h with
    | cons hxy hrest =>
      rw [List.map_cons, List.map_cons, text_congr hd.1 hxy, map_text_congr hd.2 hrest]

/-- And so have equivalent fields. -/
theorem map_fieldText_congr : ∀ {fs gs : List (UString × Doc)}, DistinctNamesFields fs →
    List.Forall₂ DocEquivField fs gs →
    (fs.map fun f => (f.1, text q f.2)) = gs.map fun f => (f.1, text q f.2)
  | [], _, _, h => by
    cases h
    rfl
  | (s, x) :: fs, _, hd, h => by
    cases h with
    | cons hxy hrest =>
      obtain ⟨hs, hxy⟩ := hxy
      rw [List.map_cons, List.map_cons, map_fieldText_congr hd.2 hrest, ← hs, text_congr hd.1 hxy]

end

end Congr

/-! ## One class per text -/

/-- What a name is used for. -/
inductive NameUse where
  | bag
  | tag
  | field
  deriving DecidableEq

mutual

/-- Every name of the document is used as `use` says. -/
def WellTagged (use : UString → NameUse) : Doc → Prop
  | .list items => WellTaggedItems use items
  | .bag tag items => use tag = .bag ∧ WellTaggedItems use items
  | .tagged tag item => use tag = .tag ∧ WellTagged use item
  | .record fields => WellTaggedFields use fields
  | _ => True

/-- All of some documents are well-tagged. -/
def WellTaggedItems (use : UString → NameUse) : List Doc → Prop
  | [] => True
  | item :: items => WellTagged use item ∧ WellTaggedItems use items

/-- The documents of some fields are, and their names are used as those of fields. -/
def WellTaggedFields (use : UString → NameUse) : List (UString × Doc) → Prop
  | [] => True
  | (name, item) :: fields => use name = .field ∧ WellTagged use item ∧ WellTaggedFields use fields

end

/-- `WellTaggedItems`, item by item. -/
theorem wellTaggedItems_iff {use : UString → NameUse} : ∀ {items : List Doc},
    WellTaggedItems use items ↔ ∀ item ∈ items, WellTagged use item
  | [] => by simp [WellTaggedItems]
  | item :: items => by simp [WellTaggedItems, @wellTaggedItems_iff use items]

/-- `WellTaggedFields`, field by field. -/
theorem wellTaggedFields_iff {use : UString → NameUse} : ∀ {fields : List (UString × Doc)},
    WellTaggedFields use fields ↔ ∀ f ∈ fields, use f.1 = .field ∧ WellTagged use f.2
  | [] => by simp [WellTaggedFields]
  | (name, item) :: fields => by
    simp [WellTaggedFields, @wellTaggedFields_iff use fields, and_assoc]

section Injectivity

variable (q : Quoting) (use : UString → NameUse)

/-- A record whose names are field names is not written as one member under another name. -/
theorem tree_record_ne {fs : List (UString × Doc)} {t : UString} {j : JsonElement}
    (hf : WellTaggedFields use fs) (ht : use t ≠ .field) :
    tree q (.record fs) ≠ .object [(t, j)] := by
  intro h
  rw [tree, treeFields_eq_map] at h
  have hmem : (t, j) ∈ sortOn ordinal Prod.fst (fs.map fun f => (f.1, tree q f.2)) := by
    rw [JsonElement.object.inj h]
    exact List.mem_singleton.mpr rfl
  obtain ⟨f, hfm, hfe⟩ := List.mem_map.mp (mem_sortOn.mp hmem)
  obtain ⟨rfl, -⟩ := Prod.mk.inj hfe
  exact ht ((wellTaggedFields_iff.mp hf) f hfm).1

/-- Sorted images that agree come from lists that agree up to order. -/
theorem upToOrder_of_sorted {α β : Type} {κ : Type} {o : KeyOrder κ} {key : β → κ} {f : α → β}
    {xs ys : List α} (h : sortOn o key (xs.map f) = sortOn o key (ys.map f)) :
    UpToOrder (fun a b => f a = f b) xs ys :=
  upToOrder_of_map_perm ((sortOn_perm o key _).symm.trans (h ▸ sortOn_perm o key _))

mutual

/-- **Well-tagged documents with one canonical tree are equivalent.** -/
theorem equiv_of_tree_eq : ∀ {d e : Doc}, WellTagged use d → WellTagged use e →
    tree q d = tree q e → DocEquiv d e
  | .null, e, _, _, h => by cases e <;> simp [tree] at h; trivial
  | .boolean b, e, _, _, h => by cases e <;> simp [tree] at h; exact h
  | .number n, e, _, _, h => by
    cases e <;> simp only [tree, reduceCtorEq, JsonElement.number.injEq] at h
    exact decimal_inj h
  | .string s, e, _, _, h => by cases e <;> simp [tree] at h; exact h
  | .list xs, e, hd, he, h => by
    cases e <;> simp only [tree, reduceCtorEq, JsonElement.array.injEq, treeItems_eq_map] at h
    rename_i ys
    exact docEquivItems_iff.mpr (forall₂_equiv_of_tree_eq hd he (map_eq_map_iff.mp h))
  -- the items of both are sorted by their texts, so one list is a permutation of the other
  | .bag s xs, .bag t ys, hd, he, h => by
    simp only [tree, treeItems_eq_map, JsonElement.object.injEq, List.cons.injEq, Prod.mk.injEq,
      JsonElement.array.injEq, and_true] at h
    obtain ⟨zs, hp, hf⟩ := upToOrder_of_sorted h.2
    have hz : WellTaggedItems use zs := wellTaggedItems_iff.mpr fun z hz =>
      wellTaggedItems_iff.mp he.2 z (hp.mem_iff.mp hz)
    exact docEquiv_bag.mpr ⟨h.1, zs, hp, forall₂_equiv_of_tree_eq hd.2 hz hf⟩
  -- one name would be used for a bag and for a tag
  | .bag s xs, .tagged t y, hd, he, h => by
    simp only [tree, JsonElement.object.injEq, List.cons.injEq, Prod.mk.injEq] at h
    have hs := hd.1
    rw [h.1.1, he.1] at hs
    simp at hs
  -- a name that is used for a bag is not that of a field
  | .bag s xs, .record gs, hd, he, h => by
    have hne := tree_record_ne q use (t := s) (j :=
      .array (sortOn ordinal (write q) (treeItems q xs)))
      he (by rw [hd.1]; simp)
    exact absurd h.symm hne
  | .tagged s x, .tagged t y, hd, he, h => by
    simp only [tree, JsonElement.object.injEq, List.cons.injEq, Prod.mk.injEq, and_true] at h
    exact ⟨h.1, equiv_of_tree_eq hd.2 he.2 h.2⟩
  | .tagged s x, .bag t ys, hd, he, h => by
    simp only [tree, JsonElement.object.injEq, List.cons.injEq, Prod.mk.injEq] at h
    have hs := hd.1
    rw [h.1.1, he.1] at hs
    simp at hs
  | .tagged s x, .record gs, hd, he, h => by
    have hne := tree_record_ne q use (t := s) (j := tree q x) he (by rw [hd.1]; simp)
    exact absurd h.symm hne
  | .record fs, .record gs, hd, he, h => by
    simp only [tree, treeFields_eq_map, JsonElement.object.injEq] at h
    obtain ⟨hs, hp, hf⟩ := upToOrder_of_sorted h
    have hz : WellTaggedFields use hs := wellTaggedFields_iff.mpr fun f hf =>
      wellTaggedFields_iff.mp he f (hp.mem_iff.mp hf)
    exact docEquiv_record.mpr ⟨hs, hp, forall₂_equivField_of_tree_eq hd hz hf⟩
  | .record fs, .bag t ys, hd, he, h => by
    have hne := tree_record_ne q use (t := t) (j :=
      .array (sortOn ordinal (write q) (treeItems q ys)))
      hd (by rw [he.1]; simp)
    exact absurd h hne
  | .record fs, .tagged t y, hd, he, h => by
    have hne := tree_record_ne q use (t := t) (j := tree q y) hd (by rw [he.1]; simp)
    exact absurd h hne
  | .bag _ _, .null, _, _, h | .bag _ _, .boolean _, _, _, h | .bag _ _, .number _, _, _, h
  | .bag _ _, .string _, _, _, h | .bag _ _, .list _, _, _, h
  | .tagged _ _, .null, _, _, h | .tagged _ _, .boolean _, _, _, h | .tagged _ _, .number _, _, _, h
  | .tagged _ _, .string _, _, _, h | .tagged _ _, .list _, _, _, h
  | .record _, .null, _, _, h | .record _, .boolean _, _, _, h | .record _, .number _, _, _, h
  | .record _, .string _, _, _, h | .record _, .list _, _, _, h => by simp [tree] at h

/-- Lists with one list of trees are equivalent. -/
theorem forall₂_equiv_of_tree_eq : ∀ {xs ys : List Doc}, WellTaggedItems use xs →
    WellTaggedItems use ys → List.Forall₂ (fun a b => tree q a = tree q b) xs ys →
    List.Forall₂ DocEquiv xs ys
  | [], _, _, _, h => by
    cases h
    exact .nil
  | x :: xs, _, hx, hy, h => by
    cases h with
    | cons hxy hrest =>
      exact .cons (equiv_of_tree_eq hx.1 hy.1 hxy) (forall₂_equiv_of_tree_eq hx.2 hy.2 hrest)

/-- And so are fields. -/
theorem forall₂_equivField_of_tree_eq : ∀ {fs gs : List (UString × Doc)}, WellTaggedFields use fs →
    WellTaggedFields use gs →
    List.Forall₂ (fun f g => (f.1, tree q f.2) = (g.1, tree q g.2)) fs gs →
    List.Forall₂ DocEquivField fs gs
  | [], _, _, _, h => by
    cases h
    exact .nil
  | (s, x) :: fs, _, hx, hy, h => by
    cases h with
    | cons hxy hrest =>
      obtain ⟨hs, hxy⟩ := Prod.mk.inj hxy
      exact .cons ⟨hs, equiv_of_tree_eq hx.2.1 hy.2.1 hxy⟩
        (forall₂_equivField_of_tree_eq hx.2.2 hy.2.2 hrest)

end

mutual

/-- Every string and every name of the document is one the quoting can write. -/
def Fits : Doc → Prop
  | .string s => q.Fits s
  | .list items => FitsItems items
  | .bag tag items => q.Fits tag ∧ FitsItems items
  | .tagged tag item => q.Fits tag ∧ Fits item
  | .record fields => FitsFields fields
  | _ => True

/-- All of some documents can be written. -/
def FitsItems : List Doc → Prop
  | [] => True
  | item :: items => Fits item ∧ FitsItems items

/-- Names and documents of some fields can. -/
def FitsFields : List (UString × Doc) → Prop
  | [] => True
  | (name, item) :: fields => q.Fits name ∧ Fits item ∧ FitsFields fields

end

/-- `FitsItems`, item by item. -/
theorem fitsItems_iff : ∀ {items : List Doc}, FitsItems q items ↔ ∀ item ∈ items, Fits q item
  | [] => by simp [FitsItems]
  | item :: items => by simp [FitsItems, @fitsItems_iff items]

/-- `FitsFields`, field by field. -/
theorem fitsFields_iff : ∀ {fields : List (UString × Doc)},
    FitsFields q fields ↔ ∀ f ∈ fields, q.Fits f.1 ∧ Fits q f.2
  | [] => by simp [FitsFields]
  | (name, item) :: fields => by simp [FitsFields, @fitsFields_iff fields, and_assoc]

mutual

/-- The canonical tree of a document that fits can be written. -/
theorem writable_tree : ∀ {d : Doc}, Fits q d → Writable q (tree q d)
  | .null, _ => trivial
  | .boolean _, _ => trivial
  | .number n, _ => numberToken_decimal n
  | .string _, h => h
  | .list items, h => by
    rw [tree, Writable, writableItems_iff, treeItems_eq_map]
    exact writable_treeItems h
  | .bag tag items, h => by
    rw [tree, Writable, WritableMembers, Writable, writableItems_iff, treeItems_eq_map]
    exact ⟨h.1, fun j hj => writable_treeItems h.2 j (mem_sortOn.mp hj), trivial⟩
  | .tagged tag item, h => ⟨h.1, writable_tree h.2, trivial⟩
  | .record fields, h => by
    rw [tree, Writable, writableMembers_iff, treeFields_eq_map]
    exact fun m hm => writable_treeFields h m (mem_sortOn.mp hm)

/-- The trees of documents that fit can be written. -/
theorem writable_treeItems : ∀ {items : List Doc}, FitsItems q items →
    ∀ j ∈ items.map (tree q), Writable q j
  | [], _, j, hj => by simp at hj
  | item :: items, h, j, hj => by
    rcases List.mem_cons.mp hj with rfl | hj
    · exact writable_tree h.1
    · exact writable_treeItems h.2 j hj

/-- And so can those of fields, under their names. -/
theorem writable_treeFields : ∀ {fields : List (UString × Doc)}, FitsFields q fields →
    ∀ m ∈ fields.map fun f => (f.1, tree q f.2), q.Fits m.1 ∧ Writable q m.2
  | [], _, m, hm => by simp at hm
  | (name, item) :: fields, h, m, hm => by
    rcases List.mem_cons.mp hm with rfl | hm
    · exact ⟨h.1, writable_tree h.2.1⟩
    · exact writable_treeFields h.2.2 m hm

end

/-- Documents with one text have one canonical tree. -/
theorem tree_eq_of_text_eq {d e : Doc} (hd : Fits q d) (he : Fits q e) (h : text q d = text q e) :
    tree q d = tree q e :=
  write_inj (writable_tree q hd) (writable_tree q he) h

/-- **Well-tagged documents with one text are equivalent.** -/
theorem equiv_of_text_eq {d e : Doc} (hd : Fits q d) (he : Fits q e) (hwd : WellTagged use d)
    (hwe : WellTagged use e) (h : text q d = text q e) : DocEquiv d e :=
  equiv_of_tree_eq q use hwd hwe (tree_eq_of_text_eq q hd he h)

end Injectivity

end Unordered
