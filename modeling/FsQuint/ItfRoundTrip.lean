/-
  The decoder inverts the canonical text.

  The canonical tree of a value is in the grammar of bound values, and what it denotes is the value
  again, up to the order of set members, map entries and record fields (`exists_readsBack`).  The
  induction is on the value; at a set, a map or a record the tree lists the members in the order of
  their texts, and a permutation takes the values that they denote along.  With the canonical text
  bound to a variable of a document, `read` then gives the value back (`read_canonical`).
-/
import FsQuint.ItfGrammar

set_option linter.unusedVariables false

namespace FsQuint.Itf

open Utf16 Collections Decimal Json Unordered

/-! ## What the canonical tree denotes -/

/-- The canonical tree of `v` denotes `w`, which is `v` up to order. -/
structure ReadsBack (v w : ItfValue) : Prop where
  denotes : Denotes (tree itfQuoting (doc v)) w
  produced : Produced w
  equiv : ItfEquiv v w

/-- What a value is read back as has its canonical text. -/
theorem ReadsBack.canonical_eq {v w : ItfValue} (hv : Produced v) (h : ReadsBack v w) :
    canonical v = canonical w :=
  (canonical_eq_iff hv h.produced).mpr h.equiv

/-- The trees of some values denote what these are read back as. -/
theorem denotes_items {xs ws : List ItfValue} (h : List.Forall₂ ReadsBack xs ws) :
    List.Forall₂ Denotes (treeItems itfQuoting (docItems xs)) ws := by
  rw [treeItems_eq_map, docItems_eq_map, List.map_map, List.forall₂_map_left_iff]
  exact h.imp fun _ _ hb => hb.denotes

/-- Which can be produced. -/
theorem produced_items {xs ws : List ItfValue} (h : List.Forall₂ ReadsBack xs ws) :
    ∀ w ∈ ws, Produced w := by
  intro w hw
  obtain ⟨x, hx, hb⟩ := forall₂_mem_right h w hw
  exact hb.produced

/-- Members read back are as different as they were. -/
theorem pairwise_readsBack {xs ws ws' : List ItfValue} (hp : ProducedItems xs)
    (h : List.Forall₂ ReadsBack xs ws) (hperm : ws'.Perm ws)
    (hxs : xs.Pairwise fun x y => ¬ ItfEquiv x y) : ws'.Pairwise fun x y => ¬ ItfEquiv x y := by
  have htexts : xs.map canonical = ws.map canonical :=
    map_eq_map_iff.mpr (forall₂_imp_of_mem h fun x hx w hw hb =>
      hb.canonical_eq (producedItems_iff.mp hp x hx))
  have hproduced : ProducedItems ws' :=
    producedItems_iff.mpr fun w hw => produced_items h w (hperm.mem_iff.mp hw)
  rw [← nodup_canonical_iff hproduced, (hperm.map canonical).nodup_iff, ← htexts,
    nodup_canonical_iff hp]
  exact hxs

/-- What reading back means for a map entry. -/
def EntryReadsBack (e f : ItfValue × ItfValue) : Prop := ReadsBack e.1 f.1 ∧ ReadsBack e.2 f.2

/-- What reading back means for a record field. -/
def FieldReadsBack (f g : UString × ItfValue) : Prop := f.1 = g.1 ∧ ReadsBack f.2 g.2

/-- A sequence is read back item by item. -/
theorem readsBack_sequence {xs ws : List ItfValue} (h : List.Forall₂ ReadsBack xs ws) :
    ReadsBack (.sequence xs) (.sequence ws) where
  denotes := .sequence (denotes_items h)
  produced := producedItems_iff.mpr (produced_items h)
  equiv := by
    rw [ItfEquiv, itfEquivItems_iff]
    exact h.imp fun _ _ hb => hb.equiv

/-- And so is a tuple. -/
theorem readsBack_tuple {xs ws : List ItfValue} (h : List.Forall₂ ReadsBack xs ws) :
    ReadsBack (.tuple xs) (.tuple ws) where
  denotes := .tuple (denotes_items h)
  produced := producedItems_iff.mpr (produced_items h)
  equiv := by
    rw [ItfEquiv, itfEquivItems_iff]
    exact h.imp fun _ _ hb => hb.equiv

/-- The members of a set are read in the order of their texts. -/
theorem exists_readsBack_set {xs ws : List ItfValue} (hp : Produced (.set xs))
    (h : List.Forall₂ ReadsBack xs ws) :
    ∃ ws', ReadsBack (.set xs) (.set ws') := by
  obtain ⟨ws', hperm, hdenotes⟩ := exists_perm_forall₂
    (sortOn_perm ordinal (write itfQuoting) (treeItems itfQuoting (docItems xs))) (denotes_items h)
  have hpw := pairwise_readsBack hp.1 h hperm hp.2
  refine ⟨ws', ?_, ⟨producedItems_iff.mpr fun w hw => produced_items h w (hperm.mem_iff.mp hw),
    hpw⟩, ?_⟩
  · exact .set hdenotes hpw
  · exact itfEquiv_set.mpr ⟨ws, hperm.symm, h.imp fun _ _ hb => hb.equiv⟩

/-- A map is read back, its entries in the order of their texts. -/
theorem exists_readsBack_map {es fs : List (ItfValue × ItfValue)} (hp : Produced (.map es))
    (h : List.Forall₂ EntryReadsBack es fs) : ∃ fs', ReadsBack (.map es) (.map fs') := by
  have hentries : List.Forall₂ (fun t e => Denotes t (pair e))
      (treeItems itfQuoting (docEntries es)) fs := by
    rw [treeItems_eq_map, docEntries_eq_map, List.map_map, List.forall₂_map_left_iff]
    exact h.imp fun _ _ hb => .sequence (.cons hb.1.denotes (.cons hb.2.denotes .nil))
  obtain ⟨fs', hperm, hdenotes⟩ := exists_perm_forall₂
    (sortOn_perm ordinal (write itfQuoting) (treeItems itfQuoting (docEntries es))) hentries
  have hkeys : List.Forall₂ ReadsBack (es.map Prod.fst) (fs.map Prod.fst) := by
    rw [List.forall₂_map_left_iff, List.forall₂_map_right_iff]
    exact h.imp fun _ _ hb => hb.1
  have hproduced : ProducedItems (es.map Prod.fst) := by
    refine producedItems_iff.mpr fun k hk => ?_
    obtain ⟨e, he, rfl⟩ := List.mem_map.mp hk
    exact (producedEntries_iff.mp hp.1 e he).1
  have hpw := pairwise_readsBack hproduced hkeys (hperm.map Prod.fst) hp.2
  refine ⟨fs', ?_, ⟨producedEntries_iff.mpr fun e he => ?_, hpw⟩, ?_⟩
  · exact .map (List.forall₂_map_right_iff.mpr hdenotes) hpw
  · obtain ⟨_, _, hb⟩ := forall₂_mem_right h e (hperm.mem_iff.mp he)
    exact ⟨hb.1.produced, hb.2.produced⟩
  · exact itfEquiv_map.mpr ⟨fs, hperm.symm, h.imp fun _ _ hb => ⟨hb.1.equiv, hb.2.equiv⟩⟩

/-- And a record, its fields in the order of their names. -/
theorem exists_readsBack_record {fs gs : List (UString × ItfValue)} (hp : Produced (.record fs))
    (h : List.Forall₂ FieldReadsBack fs gs) : ∃ gs', ReadsBack (.record fs) (.record gs') := by
  have hfields : List.Forall₂ (fun (t : UString × JsonElement) g => t.1 = g.1 ∧ Denotes t.2 g.2)
      (treeFields itfQuoting (docFields fs)) gs := by
    rw [treeFields_eq_map, docFields_eq_map, List.map_map, List.forall₂_map_left_iff]
    exact h.imp fun _ _ hb => ⟨hb.1, hb.2.denotes⟩
  obtain ⟨gs', hperm, hdenotes⟩ := exists_perm_forall₂
    (sortOn_perm ordinal Prod.fst (treeFields itfQuoting (docFields fs))) hfields
  have hnames : fs.map Prod.fst = gs.map Prod.fst := map_eq_map_iff.mpr (h.imp fun _ _ hb => hb.1)
  have hgs : ∀ g ∈ gs', (startsWithHash g.1 = false ∧ validUnicode g.1 = true) ∧ Produced g.2 := by
    intro g hg
    obtain ⟨f, hf, hb⟩ := forall₂_mem_right h g (hperm.mem_iff.mp hg)
    exact ⟨hb.1 ▸ (producedFields_iff.mp hp.2 f hf).1, hb.2.produced⟩
  refine ⟨gs', .record (fun t ht => ?_) ?_ ?_, ⟨?_, producedFields_iff.mpr hgs⟩, ?_⟩
  · obtain ⟨g, hg, hb⟩ := forall₂_mem_right hdenotes.flip t ht
    exact hb.1 ▸ (hgs g hg).1.1
  · exact map_eq_map_iff.mpr (hdenotes.imp fun _ _ hb => hb.1)
  · exact List.forall₂_map_left_iff.mpr
      (List.forall₂_map_right_iff.mpr (hdenotes.imp fun _ _ hb => hb.2))
  · rw [(hperm.map Prod.fst).nodup_iff, ← hnames]
    exact hp.1
  · exact itfEquiv_record.mpr ⟨gs, hperm.symm, h.imp fun _ _ hb => ⟨hb.1, hb.2.equiv⟩⟩

mutual

/-- **The canonical tree of a value denotes the value**, up to order. -/
theorem exists_readsBack : ∀ {v : ItfValue}, Produced v → ∃ w, ReadsBack v w
  | .null, _ => ⟨.null, .null, trivial, by rw [ItfEquiv]; trivial⟩
  | .boolean b, _ => ⟨.boolean b, .boolean b, trivial, by rw [ItfEquiv]⟩
  | .integer n, _ => ⟨.integer n, .bigint (parseInteger_decimal n), trivial, by rw [ItfEquiv]⟩
  | .text s, h => ⟨.text s, .text s, h, by rw [ItfEquiv]⟩
  | .sequence xs, h => by
    obtain ⟨ws, hws⟩ := exists_readsBackItems h
    exact ⟨.sequence ws, readsBack_sequence hws⟩
  | .tuple xs, h => by
    obtain ⟨ws, hws⟩ := exists_readsBackItems h
    exact ⟨.tuple ws, readsBack_tuple hws⟩
  | .set xs, h => by
    obtain ⟨ws, hws⟩ := exists_readsBackItems h.1
    obtain ⟨ws', hset⟩ := exists_readsBack_set h hws
    exact ⟨.set ws', hset⟩
  | .map es, h => by
    obtain ⟨fs, hfs⟩ := exists_readsBackEntries h.1
    obtain ⟨fs', hmap⟩ := exists_readsBack_map h hfs
    exact ⟨.map fs', hmap⟩
  | .record fs, h => by
    obtain ⟨gs, hgs⟩ := exists_readsBackFields h.2
    obtain ⟨gs', hrecord⟩ := exists_readsBack_record h hgs
    exact ⟨.record gs', hrecord⟩

/-- Each item of a collection is read back as something. -/
theorem exists_readsBackItems :
    ∀ {xs : List ItfValue}, ProducedItems xs → ∃ ws, List.Forall₂ ReadsBack xs ws
  | [], _ => ⟨[], .nil⟩
  | x :: xs, h => by
    obtain ⟨w, hw⟩ := exists_readsBack h.1
    obtain ⟨ws, hws⟩ := exists_readsBackItems h.2
    exact ⟨w :: ws, .cons hw hws⟩

/-- And so are key and value of each entry. -/
theorem exists_readsBackEntries : ∀ {es : List (ItfValue × ItfValue)}, ProducedEntries es →
    ∃ fs, List.Forall₂ EntryReadsBack es fs
  | [], _ => ⟨[], .nil⟩
  | (k, v) :: es, h => by
    obtain ⟨l, hl⟩ := exists_readsBack h.1
    obtain ⟨w, hw⟩ := exists_readsBack h.2.1
    obtain ⟨fs, hfs⟩ := exists_readsBackEntries h.2.2
    exact ⟨(l, w) :: fs, .cons ⟨hl, hw⟩ hfs⟩

/-- And the value of each field. -/
theorem exists_readsBackFields : ∀ {fs : List (UString × ItfValue)}, ProducedFields fs →
    ∃ gs, List.Forall₂ FieldReadsBack fs gs
  | [], _ => ⟨[], .nil⟩
  | (name, x) :: fs, h => by
    obtain ⟨w, hw⟩ := exists_readsBack h.2.1
    obtain ⟨gs, hgs⟩ := exists_readsBackFields h.2.2
    exact ⟨(name, w) :: gs, .cons ⟨rfl, hw⟩ hgs⟩

end

/-! ## The canonical text in a document -/

section Bounded

variable {q : Quoting} {n : Nat}

mutual

/-- A canonical tree is within any limit that no object or array of it exceeds. -/
theorem bounded_tree : ∀ {d : Doc}, DistinctNames d → width (tree q d) ≤ n → Bounded n (tree q d)
  | .null, _, _ => trivial
  | .boolean _, _, _ => trivial
  | .number _, _, _ => trivial
  | .string _, _, _ => trivial
  | .list items, hd, hw => by
    obtain ⟨hlength, hitems⟩ := width_array_le_iff.mp hw
    exact ⟨Int.ofNat_le.mpr hlength, boundedItems_iff.mpr (bounded_treeItems hd hitems)⟩
  | .bag tag items, hd, hw => by
    obtain ⟨hone, hmember⟩ := width_object_le_iff.mp hw
    obtain ⟨hlength, hitems⟩ := width_array_le_iff.mp (hmember _ List.mem_cons_self)
    have hbounded := bounded_treeItems hd fun t ht => hitems t (mem_sortOn.mpr ht)
    exact ⟨Int.ofNat_le.mpr hone, List.nodup_singleton tag,
      ⟨Int.ofNat_le.mpr hlength, boundedItems_iff.mpr fun t ht => hbounded t (mem_sortOn.mp ht)⟩,
      trivial⟩
  | .tagged tag item, hd, hw => by
    obtain ⟨hone, hmember⟩ := width_object_le_iff.mp hw
    exact ⟨Int.ofNat_le.mpr hone, List.nodup_singleton tag,
      bounded_tree hd (hmember _ List.mem_cons_self), trivial⟩
  | .record fields, hd, hw => by
    obtain ⟨hlength, hfields⟩ := width_object_le_iff.mp hw
    have hbounded := bounded_treeFields hd.2 fun m hm => hfields m (mem_sortOn.mpr hm)
    refine ⟨Int.ofNat_le.mpr hlength, ?_, boundedFields_iff.mpr fun m hm =>
      hbounded m (mem_sortOn.mp hm)⟩
    rw [((sortOn_perm ordinal Prod.fst _).map Prod.fst).nodup_iff, treeFields_eq_map, List.map_map]
    exact hd.1

/-- The trees of some documents are bounded when they are narrow. -/
theorem bounded_treeItems : ∀ {items : List Doc}, DistinctNamesItems items →
    (∀ t ∈ treeItems q items, width t ≤ n) → ∀ t ∈ treeItems q items, Bounded n t
  | [], _, _, t, ht => absurd ht List.not_mem_nil
  | item :: items, hd, hw, t, ht => by
    rcases List.mem_cons.mp ht with hitem | ht
    · rw [hitem]
      exact bounded_tree hd.1 (hw _ List.mem_cons_self)
    · exact bounded_treeItems hd.2 (fun t ht => hw t (List.mem_cons_of_mem _ ht)) t ht

/-- And so are those of some fields. -/
theorem bounded_treeFields : ∀ {fields : List (UString × Doc)}, DistinctNamesFields fields →
    (∀ m ∈ treeFields q fields, width m.2 ≤ n) → ∀ m ∈ treeFields q fields, Bounded n m.2
  | [], _, _, m, hm => absurd hm List.not_mem_nil
  | (name, item) :: fields, hd, hw, m, hm => by
    rcases List.mem_cons.mp hm with hfield | hm
    · rw [hfield]
      exact bounded_tree hd.1 (hw _ List.mem_cons_self)
    · exact bounded_treeFields hd.2 (fun m hm => hw m (List.mem_cons_of_mem _ hm)) m hm

end

end Bounded

mutual

/-- The strings that `quote` is for are the well-formed ones. -/
theorem wellFormed_of_writable : ∀ {j : JsonElement}, Writable itfQuoting j → WellFormed j
  | .null, _ => trivial
  | .boolean _, _ => trivial
  | .number _, _ => trivial
  | .string _, h => h
  | .array items, h => wellFormed_of_writableItems h
  | .object members, h => wellFormed_of_writableMembers h

/-- What can be written holds no lone surrogate, in a list of trees. -/
theorem wellFormed_of_writableItems :
    ∀ {items : List JsonElement}, WritableItems itfQuoting items → WellFormedItems items
  | [], _ => trivial
  | item :: items, h => ⟨wellFormed_of_writable h.1, wellFormed_of_writableItems h.2⟩

/-- And in the members of an object. -/
theorem wellFormed_of_writableMembers : ∀ {members : List (UString × JsonElement)},
    WritableMembers itfQuoting members → WellFormedMembers members
  | [], _ => trivial
  | (name, value) :: members, h => ⟨h.1, wellFormed_of_writable h.2.1,
      wellFormed_of_writableMembers h.2.2⟩

end

/-- The default encoder writes ASCII. -/
theorem ascii_encodeUnit (c : UInt16) : ∀ u ∈ encodeUnit c, u.toNat < 0x80 := by
  have hdigit : ∀ n < 16, (hexDigitUpper n).toNat < 0x80 := by decide
  have hc : c.toNat < 65536 := c.toNat_lt
  rw [encodeUnit]
  by_cases hcopied : isCopied c = true
  · rw [if_pos hcopied]
    simp only [isCopied, Bool.and_eq_true, decide_eq_true_eq, UInt16.lt_iff_toNat_lt] at hcopied
    have hlow : c.toNat < 0x7F := hcopied.1.1.1.1.1.1.1.1.2
    intro u hu
    rw [List.mem_singleton.mp hu]
    omega
  rw [if_neg hcopied]
  have hhex : ∀ u ∈ hexEscape c, u.toNat < 0x80 := by
    simp only [hexEscape, List.forall_mem_cons]
    refine ⟨by decide, by decide, hdigit _ (by omega), hdigit _ (by omega), hdigit _ (by omega), hdigit _ (by omega), ?_⟩
    exact fun u hu => absurd hu List.not_mem_nil
  have hshort : ∀ v : UInt16, v.toNat < 0x80 → ∀ u ∈ [0x5C, v], u.toNat < 0x80 := by
    intro v hv u hu
    rcases List.mem_cons.mp hu with rfl | hu
    · decide
    · rw [List.mem_singleton.mp hu]
      exact hv
  split_ifs
  all_goals first | exact hshort _ (by decide) | exact hhex

/-- What is written for a well-formed string is well-formed. -/
theorem validUnicode_quote {s : UString} (h : validUnicode s = true) :
    validUnicode (quote s) = true := by
  rw [quote_eq h]
  refine validUnicode_cons (by decide)
    (validUnicode_append (validUnicode_of_forall fun u hu => ?_) (by decide))
  obtain ⟨c, _, hu⟩ := List.mem_flatMap.mp hu
  have := ascii_encodeUnit c u hu
  omega

/-- A document whose only state binds a variable to the canonical tree of a value. -/
def host (name : UString) (v : ItfValue) : JsonElement :=
  .object [(lit "vars", .array [.string name]),
    (lit "states", .array [.object [(name, tree itfQuoting (doc v))]])]

/-- The text of that document: the canonical text of the value, bound to the variable. -/
def hostText (name : UString) (v : ItfValue) : UString :=
  lit "\x7b\"vars\":[" ++ quote name ++ lit "],\"states\":[\x7b" ++ quote name ++ lit ":" ++ canonical v ++ lit "\x7d]\x7d"

/-- The text around a value is that of a tree. -/
theorem hostText_eq (name : UString) (v : ItfValue) :
    hostText name v = write itfQuoting (host name v) := by
  have hvars : lit "\x7b\"vars\":[" = 0x7B :: (quote "vars" ++ [0x3A, 0x5B]) := by decide
  have hstates : lit "],\"states\":[\x7b" = 0x5D :: 0x2C ::
    (quote "states" ++ [0x3A, 0x5B, 0x7B]) := by decide
  have hcolon : lit ":" = [0x3A] := by decide
  have hclose : lit "\x7d]\x7d" = [0x7D, 0x5D, 0x7D] := by decide
  rw [hostText, hvars, hstates, hcolon, hclose, canonical_eq, host, text]
  simp only [write, writeItems, writeMembers, concat, List.append_assoc, List.cons_append,
    List.nil_append]
  rfl

/-- The document of that text, for a value read back from it. -/
theorem documentOf_host {limits : ItfLimits} {name : UString} {v w : ItfValue}
    (hl : Positive limits) (hblank : isNullOrWhiteSpace (some name) = false)
    (hhash : startsWithHash name = false) (h : ReadsBack v w) :
    DocumentOf limits [(lit "vars", .array [.string name]),
      (lit "states", .array [.object [(name, tree itfQuoting (doc v))]])]
        [.object [(name, tree itfQuoting (doc v))]]
      { variableNames := [name], states := [[(name, w)]] } where
  keys := by
    simp only [List.map_cons, List.map_nil]
    decide
  metadata metadata hmem := by
    have hvars : lit "#meta" ≠ lit "vars" := by decide
    have hstates : lit "#meta" ≠ lit "states" := by decide
    simp [hvars, hstates] at hmem
  vars := List.mem_cons_self
  someVariable := List.cons_ne_nil _ _
  distinctVariables := List.nodup_singleton name
  variableName n hn := by
    rw [List.mem_singleton.mp hn]
    exact ⟨hblank, hhash⟩
  states := List.mem_cons_of_mem _ List.mem_cons_self
  someState := Nat.le_refl 1
  statesBounded := hl.maxStates
  stateCount := rfl
  state i state bindings hs hb := by
    have hmeta : lit "#meta" ≠ name := by
      rintro rfl
      exact absurd hhash (by decide)
    cases i with
    | zero =>
      obtain rfl := Option.some.inj hs
      obtain rfl := Option.some.inj hb
      refine ⟨_, rfl, fun n => ?_, fun metadata hmem => ?_,
        .cons ⟨rfl, _, List.mem_cons_self, h.denotes⟩ .nil⟩
      · simp only [List.map_cons, List.map_nil, List.mem_singleton]
        exact ⟨fun hn => hn.1, fun hn => ⟨hn, hn ▸ hmeta.symm⟩⟩
      · simp [hmeta] at hmem
    | succ i => simp at hs

/-- **What is read from the canonical text of a value is the value.** -/
theorem read_hostText {limits : ItfLimits} {name : UString} {v : ItfValue} (hl : Positive limits)
    (hblank : isNullOrWhiteSpace (some name) = false) (hhash : startsWithHash name = false)
    (hvalid : validUnicode name = true) (hv : Produced v)
    (hheight : (height (host name v) : Int) ≤ limits.maxDepth)
    (hwidth : (width (host name v) : Int) ≤ limits.maxCollection) :
    ∃ bytes, getBytes (hostText name v) = some bytes ∧ ((bytes.size : Int) ≤ limits.maxBytes →
      ∃ w, read limits (some bytes) =
        .ok (.ok { variableNames := [name], states := [[(name, w)]] }) ∧
        ItfEquiv v w ∧ canonical w = canonical v) := by
  have hdeterminate := determinate_doc hv
  have hwritable : Writable itfQuoting (host name v) := by
    have hname : itfQuoting.Fits name := hvalid
    have htree : Writable itfQuoting (tree itfQuoting (doc v)) :=
      writable_tree itfQuoting hdeterminate.fits
    have hvars : itfQuoting.Fits (lit "vars") := (by decide : validUnicode (lit "vars") = true)
    have hstates : itfQuoting.Fits (lit "states") :=
      (by decide : validUnicode (lit "states") = true)
    exact ⟨hvars, ⟨hname, trivial⟩, hstates, ⟨⟨hname, htree, trivial⟩, trivial⟩, trivial⟩
  have hwell := wellFormed_of_writable hwritable
  -- the text has bytes, and they decode to the tree
  have htext : validUnicode (hostText name v) = true := by
    rw [hostText_eq]
    exact validUnicode_write (q := itfQuoting) (fun s => validUnicode_quote) hwritable hwell
  have hparse : parse limits.maxDepth.toNat (hostText name v) = some (host name v) := by
    rw [hostText_eq]
    exact parse_write itfQuoting _ hwritable (by omega)
  have hbounded : Bounded limits.maxCollection (host name v) := by
    obtain ⟨n, hn⟩ := Int.eq_ofNat_of_zero_le (Int.le_of_lt hl.maxCollection)
    rw [hn] at hwidth ⊢
    obtain ⟨hroot, hmember⟩ := width_object_le_iff.mp (Int.ofNat_le.mp hwidth)
    obtain ⟨hvars, _⟩ := width_array_le_iff.mp (hmember _ List.mem_cons_self)
    obtain ⟨hstates, hstate⟩ := width_array_le_iff.mp
      (hmember _ (List.mem_cons_of_mem _ List.mem_cons_self))
    obtain ⟨hbindings, hbound⟩ := width_object_le_iff.mp (hstate _ List.mem_cons_self)
    have htree : Bounded n (tree itfQuoting (doc v)) :=
      bounded_tree hdeterminate.distinct (hbound _ List.mem_cons_self)
    have hnames : ([lit "vars", lit "states"] : List UString).Nodup := by decide
    exact ⟨Int.ofNat_le.mpr hroot, hnames, ⟨Int.ofNat_le.mpr hvars, trivial, trivial⟩,
      ⟨Int.ofNat_le.mpr hstates, ⟨Int.ofNat_le.mpr hbindings, List.nodup_singleton name, htree,
      trivial⟩, trivial⟩,
      trivial⟩
  obtain ⟨w, hw⟩ := exists_readsBack hv
  refine ⟨_, getBytes_eq_lossy htext, fun hsize => ⟨w, ?_, hw.equiv, (hw.canonical_eq hv).symm⟩⟩
  have hstring := getString_getBytes (getBytes_eq_lossy htext)
  rw [read_eq_ok_iff, readUnguarded_eq hl hsize hstring hparse, readDocument_eq_ok_iff hl.int32]
  have hdocument := documentOf_host hl hblank hhash hw
  exact ⟨hwell.wellNamed, hbounded, _, _, rfl, hdocument, hdocument.legible hwell⟩

/-- **The canonical text is a normal form that the decoder inverts.** -/
theorem canonical_normalForm {v w : ItfValue} (hv : Produced v) (hw : Produced w) :
    (canonical v = canonical w ↔ ItfEquiv v w) ∧
    ∀ {limits : ItfLimits} {name : UString}, Positive limits → isNullOrWhiteSpace (some name) = false →
      startsWithHash name = false → validUnicode name = true →
      (height (host name v) : Int) ≤ limits.maxDepth → (width (host name v) : Int) ≤ limits.maxCollection →
      ∃ bytes, getBytes (hostText name v) = some bytes ∧ ((bytes.size : Int) ≤ limits.maxBytes →
        ∃ x, read limits (some bytes) = .ok (.ok { variableNames := [name], states := [[(name, x)]] }) ∧
          ItfEquiv v x ∧ canonical x = canonical v) :=
  ⟨canonical_eq_iff hv hw, fun hl hblank hhash hvalid hheight hwidth =>
    read_hostText hl hblank hhash hvalid hv hheight hwidth⟩

/-- A map whose only entry maps the set of two numbers to a record. -/
def sampleValue : ItfValue :=
  .map [(.set [.integer 2, .integer 1], .record [(lit "b", .text "x"), (lit "a", .tuple [.null])])]

/-- The same value, listed in another order. -/
def sampleReordered : ItfValue :=
  .map [(.set [.integer 1, .integer 2], .record [(lit "a", .tuple [.null]), (lit "b", .text "x")])]

/-- The map can be produced. -/
theorem produced_sampleValue : Produced sampleValue := by
  have hmembers : ¬ ItfEquiv (.integer 2) (.integer 1) := by simp [ItfEquiv]
  have htext : Produced (.text "x") := (by decide : validUnicode (lit "x") = true)
  refine ⟨⟨⟨⟨trivial, trivial, trivial⟩, List.pairwise_pair.mpr hmembers⟩,
    ⟨by decide, ?_⟩, trivial⟩,
    List.pairwise_singleton _ _⟩
  exact ⟨⟨by decide, by decide⟩, htext, ⟨by decide, by decide⟩, ⟨trivial, trivial⟩, trivial⟩

/-- And so can its rearrangement. -/
theorem produced_sampleReordered : Produced sampleReordered := by
  have hmembers : ¬ ItfEquiv (.integer 1) (.integer 2) := by simp [ItfEquiv]
  have htext : Produced (.text "x") := (by decide : validUnicode (lit "x") = true)
  refine ⟨⟨⟨⟨trivial, trivial, trivial⟩, List.pairwise_pair.mpr hmembers⟩,
    ⟨by decide, ?_⟩, trivial⟩,
    List.pairwise_singleton _ _⟩
  exact ⟨⟨by decide, by decide⟩, ⟨trivial, trivial⟩, ⟨by decide, by decide⟩, htext, trivial⟩

/-- Two maps that differ in the order of their entries and members. -/
theorem canonical_normalForm_sample : ItfEquiv sampleValue sampleReordered ∧
    ∃ bytes x, getBytes (hostText "m" sampleValue) = some bytes ∧
      read defaultLimits (some bytes) = .ok (.ok { variableNames := [lit "m"], states := [[(lit "m", x)]] }) ∧
      ItfEquiv sampleValue x ∧ canonical x = canonical sampleValue := by
  obtain ⟨hequiv, hread⟩ := canonical_normalForm produced_sampleValue produced_sampleReordered
  have hpositive : Positive defaultLimits := by constructor <;> decide
  obtain ⟨bytes, hbytes, hx⟩ := @hread defaultLimits "m" hpositive (by decide)
    (by decide) (by decide)
    (by decide +kernel) (by decide +kernel)
  have hsize : (bytes.size : Int) ≤ defaultLimits.maxBytes := by
    have hall : ∀ b ∈ getBytes (hostText "m" sampleValue),
      (b.size : Int) ≤ defaultLimits.maxBytes := by decide +kernel
    exact hall bytes hbytes
  obtain ⟨x, hx⟩ := hx hsize
  exact ⟨hequiv.mp (by decide +kernel), bytes, x, hbytes, hx⟩

end FsQuint.Itf
