/-
  The replay decoder undoes the replay encoder.

  The encoding of a value is the text of a tree, and a reader of JSON gets the tree back from it.  What
  `decodeItfValue` makes of that tree is the value in its normal form (`normal`): the encoder writes
  integers in decimal, and the fields of a Record and the members of a Set in order, at every depth.
  Two kinds of value do not come back: a Record with a key that starts with `#` reads as a tagged value,
  and an integer beyond 64 bits is refused.

  The induction is on the value, with one lemma for its items and one for its fields
  (`decodeItfValue_tree`).
-/
import FsQuint.ReplayImage
import FsQuint.TraceIdentity

set_option linter.unusedVariables false

namespace FsQuint

open Utf16 Collections Decimal Json Unordered ReplayInternal QuintReplay

/-! ## Normal forms -/

mutual

/-- A value in its normal form: integers in decimal, the members of a Set in the order of their
    encodings, and the fields of a Record in the order of their names. -/
def normal : QuintReplayValue → QuintReplayValue
  | .integer s => .integer (canonicalInteger s)
  | .sequence xs => .sequence (normalItems xs)
  | .set xs => .set (sortOn ordinal valueText (normalItems xs))
  | .record fs => .record (sortOn ordinal.nullFirst Prod.fst (normalFields fs))
  | .null => .null
  | .boolean b => .boolean b
  | .text s => .text s

/-- The normal forms of some values. -/
def normalItems : List QuintReplayValue → List QuintReplayValue
  | [] => []
  | x :: xs => normal x :: normalItems xs

/-- The normal forms of the values of some fields. -/
def normalFields : List (NString × QuintReplayValue) → List (NString × QuintReplayValue)
  | [] => []
  | (name, x) :: fs => (name, normal x) :: normalFields fs

end

/-- `normalItems` is a map. -/
theorem normalItems_eq_map (xs : List QuintReplayValue) : normalItems xs = xs.map normal := by
  induction xs with
  | nil => rfl
  | cons x xs ih => rw [normalItems, ih, List.map_cons]

/-- And so is `normalFields`. -/
theorem normalFields_eq_map (fs : List (NString × QuintReplayValue)) :
    normalFields fs = fs.map fun f => (f.1, normal f.2) := by
  induction fs with
  | nil => rfl
  | cons f fs ih =>
    obtain ⟨name, x⟩ := f
    rw [normalFields, ih, List.map_cons]

mutual

/-- Every Integer of a value, at any depth, fits 64 bits. -/
def FitsInt64 : QuintReplayValue → Prop
  | .integer s => ∀ n, denotes s = some n → -2 ^ 63 ≤ n ∧ n ≤ 2 ^ 63 - 1
  | .sequence xs => FitsInt64Items xs
  | .set xs => FitsInt64Items xs
  | .record fs => FitsInt64Fields fs
  | _ => True

/-- All of some values fit. -/
def FitsInt64Items : List QuintReplayValue → Prop
  | [] => True
  | x :: xs => FitsInt64 x ∧ FitsInt64Items xs

/-- The values of some fields fit. -/
def FitsInt64Fields : List (NString × QuintReplayValue) → Prop
  | [] => True
  | (_, x) :: fs => FitsInt64 x ∧ FitsInt64Fields fs

end

/-! ## A value and its normal form -/

/-- The canonical spelling of what a literal denotes. -/
theorem denotes_canonicalInteger {s : NString} {n : Int} (h : denotes s = some n) :
    canonicalInteger s = some (decimal n) := by
  rw [canonicalInteger_eq, h]
  rfl

mutual

/-- A value is equivalent to its normal form. -/
theorem valueEquiv_normal : ∀ {v : QuintReplayValue}, Valid v → ValueEquiv v (normal v)
  | .null, _ => trivial
  | .boolean _, _ => rfl
  | .text _, _ => rfl
  | .integer s, h => by
    obtain ⟨n, hn⟩ := Option.isSome_iff_exists.mp h
    rw [normal, denotes_canonicalInteger hn]
    exact .inr ⟨n, hn, parseInteger_decimal n⟩
  | .sequence xs, h => valueEquiv_normalItems h
  | .set xs, h => ⟨normalItems xs, (sortOn_perm ordinal valueText _).symm,
      valueEquiv_normalItems h.1⟩
  | .record fs, h =>
    ⟨normalFields fs, (sortOn_perm ordinal.nullFirst Prod.fst _).symm, valueEquiv_normalFields h.2⟩

/-- Item by item. -/
theorem valueEquiv_normalItems :
    ∀ {xs : List QuintReplayValue}, ValidItems xs → ValueEquivItems xs (normalItems xs)
  | [], _ => trivial
  | _ :: _, h => ⟨valueEquiv_normal h.1, valueEquiv_normalItems h.2⟩

/-- Field by field. -/
theorem valueEquiv_normalFields : ∀ {fs : List (NString × QuintReplayValue)}, ValidFields fs →
    ValueEquivFields fs (normalFields fs)
  | [], _ => trivial
  | (_, _) :: _, h => ⟨rfl, valueEquiv_normal h.1, valueEquiv_normalFields h.2⟩

end

/-- **The normal form has the same encoding.** -/
theorem encodeValue_normal {v : QuintReplayValue} (h : Valid v) :
    encodeValue (normal v) = .ok (.ok (valueText v)) := by
  have hequiv := valueEquiv_normal h
  rw [encodeValue_eq_ok_iff]
  exact ⟨(valid_congr hequiv).mp h, (valueText_congr h hequiv).symm⟩

/-! ## Decoding the tree of a value -/

/-- Items that are all decoded. -/
theorem decodeItems_map {α : Type} {f : α → JsonElement} {g : α → QuintReplayValue} :
    ∀ {as : List α} (path : UString) (index : Nat),
      (∀ a ∈ as, ∀ path, decodeItfValue path (f a) = .ok (.ok (g a))) →
      decodeItems path index (as.map f) = .ok ((as.map g).map .ok)
  | [], _, _, _ => rfl
  | a :: as, path, index, h => by
    rw [List.map_cons, decodeItems, h a List.mem_cons_self, ok_bind,
      decodeItems_map path (index + 1) fun b hb => h b (List.mem_cons_of_mem a hb)]
    rfl

/-- Members that are all decoded, under names that can be read. -/
theorem decodeMembers_map {α : Type} {name : α → UString} {f : α → JsonElement}
    {g : α → QuintReplayValue} :
    ∀ {as : List α} (path : UString), (∀ a ∈ as, validUnicode (name a) = true) →
      (∀ a ∈ as, ∀ path, decodeItfValue path (f a) = .ok (.ok (g a))) →
      decodeMembers path (as.map fun a => (name a, f a)) = .ok
        ((as.map fun a => (some (name a), g a)).map .ok)
  | [], _, _, _ => rfl
  | a :: as, path, hn, h => by
    rw [List.map_cons, decodeMembers, propertyName_eq (hn a List.mem_cons_self), ok_bind,
      h a List.mem_cons_self, ok_bind,
      decodeMembers_map path (fun b hb => hn b (List.mem_cons_of_mem a hb))
        fun b hb => h b (List.mem_cons_of_mem a hb)]
    rfl

/-- No name among the fields starts with `#`. -/
theorem hashFree_name : ∀ {fs : List (NString × QuintReplayValue)}, HashFreeFields fs →
    ∀ f ∈ fs, startsWithHash (printed f.1) = false
  | [], _, _, hf => nomatch hf
  | (name, x) :: fs, h, f, hf => by
    rcases List.mem_cons.mp hf with rfl | hf
    · exact h.1
    · exact hashFree_name h.2.2 f hf

mutual

/-- **What is decoded from the tree of a value is its normal form.** -/
theorem decodeItfValue_tree : ∀ {v : QuintReplayValue}, Valid v → HashFree v → FitsInt64 v → ∀ path,
    decodeItfValue path (tree jsonQuoting (doc v)) = .ok (.ok (normal v))
  | .null, _, _, _, _ => by
    rw [doc, tree, decodeItfValue]
    rfl
  | .boolean b, _, _, _, _ => by
    rw [doc, tree, decodeItfValue]
    rfl
  | .text s, h, _, _, path => by
    obtain ⟨t, rfl, ht⟩ := h
    rw [doc, tree, decodeItfValue, printed, Option.getD_some, getString, stringText_eq ht]
    rfl
  | .integer s, h, _, hfits, path => by
    obtain ⟨n, hn⟩ := Option.isSome_iff_exists.mp h
    obtain ⟨hlow, hhigh⟩ := hfits n hn
    have hnumber : tryGetInt64 (.number (decimal n)) = .ok (some n) := by
      rw [tryGetInt64, integerWithin, parseInteger_decimal, Option.filter_some]
      simp only [hlow, hhigh, decide_true, Bool.and_true, if_true]
    rw [doc, hn, Option.getD_some, tree, decodeItfValue, hnumber, ok_bind, normal,
      denotes_canonicalInteger hn]
    rfl
  | .sequence xs, h, hfree, hfits, path => by
    have hitems := decodeItems_map path 0 (decodeItfValue_items h hfree hfits)
    rw [doc, tree, treeItems_eq_map, docItems_eq_map, List.map_map, decodeItfValue]
    show (decodeItems path 0 (xs.map fun x => tree jsonQuoting (doc x)) >>= _) = _
    rw [hitems, ok_bind, collectDecoded_ok, normal, normalItems_eq_map]
    rfl
  | .set xs, h, hfree, hfits, path => by
    have hdecoded := decodeItfValue_items h.1 hfree hfits
    -- the trees are sorted by the texts of the members
    have htrees : sortOn ordinal (write jsonQuoting) (treeItems jsonQuoting (docItems xs)) =
        (sortOn ordinal valueText xs).map fun x => tree jsonQuoting (doc x) := by
      rw [treeItems_eq_map, docItems_eq_map, List.map_map]
      exact (map_sortOn ordinal valueText (write jsonQuoting) (fun x => tree jsonQuoting (doc x))
        (fun _ => rfl) xs).symm
    have hvalues : (sortOn ordinal valueText xs).map normal = sortOn ordinal valueText
        (normalItems xs) := by
      rw [normalItems_eq_map]
      refine map_sortOn_of_mem ordinal valueText valueText normal fun x hx => ?_
      have hx := validItems_iff.mp h.1 x hx
      exact (valueText_congr hx (valueEquiv_normal hx)).symm
    have hsorted : ∀ x ∈ sortOn ordinal valueText xs, ∀ path,
        decodeItfValue path (tree jsonQuoting (doc x)) = .ok (.ok (normal x)) :=
      fun x hx => hdecoded x (mem_sortOn.mp hx)
    have hitems := decodeItems_map (path ++ lit "/#set") 0 hsorted
    rw [doc, tree, htrees, decodeItfValue_set, hitems, ok_bind, collectDecoded_ok, hvalues, normal]
    rfl
  | .record fs, h, hfree, hfits, path => by
    have hdecoded := decodeItfValue_fields h.2 hfree hfits
    have hnames : ∀ f ∈ fs, ValidName f.1 := fun f hf => h.1.2 f.1 (List.mem_map_of_mem hf)
    have hsorted : ∀ f ∈ sortOn ordinal.nullFirst Prod.fst fs, ValidName f.1 ∧ ∀ path,
        decodeItfValue path (tree jsonQuoting (doc f.2)) = .ok (.ok (normal f.2)) :=
      fun f hf => ⟨hnames f (mem_sortOn.mp hf), hdecoded f (mem_sortOn.mp hf)⟩
    have htrees : sortOn ordinal Prod.fst (treeFields jsonQuoting (docFields fs)) =
        (sortOn ordinal.nullFirst Prod.fst fs).map fun f =>
        (printed f.1, tree jsonQuoting (doc f.2)) := by
      rw [treeFields_eq_map, docFields_eq_map, List.map_map]
      exact (sortOn_names (fun f hf => (hnames f hf).ne_none) fun x =>
        tree jsonQuoting (doc x)).symm
    have hvalues : ((sortOn ordinal.nullFirst Prod.fst fs).map fun f =>
      (some (printed f.1), normal f.2)) =
        sortOn ordinal.nullFirst Prod.fst (normalFields fs) := by
      rw [normalFields_eq_map, ← map_sortOn ordinal.nullFirst Prod.fst Prod.fst
        (fun f : NString × QuintReplayValue => (f.1, normal f.2)) fun _ => rfl]
      refine List.map_congr_left fun f hf => ?_
      rw [some_printed (hsorted f hf).1.ne_none]
    have hmembers := decodeMembers_map path (fun f hf => (hsorted f hf).1.2) fun f hf =>
      (hsorted f hf).2
    rw [doc, tree, htrees, decodeItfValue_record, hmembers, ok_bind, collectDecoded_ok, hvalues,
      normal]
    · rfl
    · intro m hm
      obtain ⟨f, hf, rfl⟩ := List.mem_map.mp hm
      exact ⟨(hsorted f hf).1.2, hashFree_name hfree f (mem_sortOn.mp hf)⟩

/-- Item by item. -/
theorem decodeItfValue_items :
    ∀ {xs : List QuintReplayValue}, ValidItems xs → HashFreeItems xs → FitsInt64Items xs →
    ∀ x ∈ xs, ∀ path, decodeItfValue path (tree jsonQuoting (doc x)) = .ok (.ok (normal x))
  | [], _, _, _, _, hx => nomatch hx
  | x :: xs, h, hfree, hfits, y, hy => by
    rcases List.mem_cons.mp hy with heq | hy
    · rw [heq]
      exact decodeItfValue_tree h.1 hfree.1 hfits.1
    · exact decodeItfValue_items h.2 hfree.2 hfits.2 y hy

/-- Field by field. -/
theorem decodeItfValue_fields :
    ∀ {fs : List (NString × QuintReplayValue)}, ValidFields fs → HashFreeFields fs →
    FitsInt64Fields fs → ∀ f ∈ fs, ∀ path, decodeItfValue path (tree jsonQuoting (doc f.2)) =
      .ok (.ok (normal f.2))
  | [], _, _, _, _, hf => nomatch hf
  | (name, x) :: fs, h, hfree, hfits, f, hf => by
    rcases List.mem_cons.mp hf with heq | hf
    · rw [heq]
      exact decodeItfValue_tree h.1 hfree.2.1 hfits.1
    · exact decodeItfValue_fields h.2 hfree.2.2 hfits.2 f hf

end

/-! ## The round trip -/

/-- Every text that `escapeJson` writes reads as the string. -/
theorem parse_literal (s : UString) (maxDepth : Nat) :
    parse maxDepth (literal s) = some (.string s) :=
  parse_write jsonQuoting maxDepth (j := .string s) trivial (Nat.zero_le _)

/-- **The replay decoder undoes the replay encoder.**  The encoding of a value without keys that start
    with `#`, and with integers of 64 bits, is the text of a tree; a reader that allows the depth of
    the tree gets it back, the decoder makes the normal form of the value of it, and that has the same
    encoding.  Every text that `escapeJson` writes is read as the string it was written for. -/
theorem decode_encode :
    (∀ (path : UString) (v : QuintReplayValue) (s : UString), encodeValue v = .ok (.ok s) → HashFree v → FitsInt64 v →
      ∃ element, (∀ maxDepth, height element ≤ maxDepth → parse maxDepth s = some element) ∧
        decodeItfValue path element = .ok (.ok (normal v)) ∧ encodeValue (normal v) = .ok (.ok s)) ∧
    ∀ (s : UString) (maxDepth : Nat), ∃ text, escapeJson (some s) = .ok text ∧ parse maxDepth text = some (.string s) := by
  constructor
  · intro path v s hs hfree hfits
    obtain ⟨hv, rfl⟩ := encodeValue_eq_ok_iff.mp hs
    have hwritable : Writable jsonQuoting (tree jsonQuoting (doc v)) :=
      writable_tree jsonQuoting (fits_jsonQuoting (doc v))
    exact ⟨tree jsonQuoting (doc v), fun maxDepth hd => parse_write jsonQuoting
      maxDepth hwritable hd,
      decodeItfValue_tree hv hfree hfits path, encodeValue_normal hv⟩
  · intro s maxDepth
    exact ⟨literal s, rfl, parse_literal s maxDepth⟩

/-- A Set of two integers, out of order and with a sign, comes back in its normal form. -/
theorem decode_encode_sampleSet :
    ∃ element, (∀ maxDepth, height element ≤ maxDepth → parse maxDepth (valueText sampleSetRespelled) = some element) ∧
      decodeItfValue "$" element = .ok (.ok (normal sampleSetRespelled)) ∧
      encodeValue (normal sampleSetRespelled) = .ok (.ok (valueText sampleSetRespelled)) :=
  decode_encode.1 "$" sampleSetRespelled _
    (encodeValue_eq_ok_iff.mpr ⟨valid_sampleSetRespelled, rfl⟩)
    ⟨trivial, trivial, trivial⟩
    ⟨fun n hn => by obtain rfl : (2 : Int) = n := Option.some.inj hn; decide,
      fun n hn => by obtain rfl : (1 : Int) = n := Option.some.inj hn; decide, trivial⟩

end FsQuint
