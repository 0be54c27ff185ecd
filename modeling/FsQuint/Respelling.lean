/-
  One document, spelled in many ways.

  A reader of JSON hands out a tree, whatever the spaces of the text and the escapes in its strings
  (`parse`).  Two trees are spellings of one document (`SameDocument`) when they differ in the order of
  members, of the elements of a `#set` array and of the names in `vars`, and in how integers of 64 bits
  are written.  `decodeItf` gives the spellings of a document one identity (`decodeItf_respelled`).

  1. **The relation** (`Respelled`), and the properties of trees that it keeps (`Hereditary`).
  2. **Values** (`Denotes.respelled`): a respelled tree denotes an equivalent value.  The induction is on
     the tree; what the decoder keeps in source order is put in order by the equivalence.
  3. **Documents** (`Accepted.respelled`): the guard accepts the other text, and the decoder has nothing
     to report about it.  The index of a state is the one integer that must stay a number.
  4. **Traces** (`TraceOf.agree`): equivalent states have one text, and so have the traces.
-/
import FsQuint.DecodeItf

set_option linter.unusedVariables false

namespace FsQuint

open Utf16 Collections Decimal Json ReplayInternal QuintReplay Itf

/-! ## Spellings -/

/-- The spellings of an integer: a number, where it fits 64 bits, or a `#bigint` text with an optional
    sign and any leading zeros. -/
inductive Spells (n : Int) : JsonElement → Prop
  | bare {raw : UString} : parseInteger raw = some n → -2 ^ 63 ≤ n ∧ n ≤ 2 ^ 63 - 1 → Spells n (.number raw)
  | bigint {s : UString} : parseInteger s = some n → Spells n (.object [(lit "#bigint", .string s)])

/-- The members whose arrays have no order. -/
def isSet (name : UString) : Bool := name = lit "#set"

/-- A name without `#` is no tag of a set. -/
theorem isSet_of_not_hash {name : UString} (h : startsWithHash name = false) :
    isSet name = false := by
  refine decide_eq_false ?_
  rintro rfl
  exact absurd h (by decide)

mutual

/-- Trees that are equal up to the order of members and of the elements of `#set` arrays, and up to the
    spelling of integers.  `loose` says that an array in this place has no order. -/
inductive Respelled : Bool → JsonElement → JsonElement → Prop
  | null {loose : Bool} : Respelled loose .null .null
  | boolean {loose : Bool} (b : Bool) : Respelled loose (.boolean b) (.boolean b)
  | number {loose : Bool} (raw : UString) : Respelled loose (.number raw) (.number raw)
  | string {loose : Bool} (s : UString) : Respelled loose (.string s) (.string s)
  | integer {loose : Bool} {n : Int} {j k : JsonElement} : Spells n j → Spells n k → Respelled loose j k
  | array {loose : Bool} {xs ys : List JsonElement} : RespelledItems xs ys → Respelled loose (.array xs) (.array ys)
  | unordered {xs ys zs : List JsonElement} : zs.Perm ys → RespelledItems xs zs →
      Respelled true (.array xs) (.array ys)
  | object {loose : Bool} {fs gs hs : List (UString × JsonElement)} : hs.Perm gs → RespelledMembers fs hs →
      Respelled loose (.object fs) (.object gs)

/-- Lists of trees that are respelled position by position. -/
inductive RespelledItems : List JsonElement → List JsonElement → Prop
  | nil : RespelledItems [] []
  | cons {x y : JsonElement} {xs ys : List JsonElement} : Respelled false x y → RespelledItems xs ys →
      RespelledItems (x :: xs) (y :: ys)

/-- Members that are respelled position by position; the items of a set may change their order. -/
inductive RespelledMembers : List (UString × JsonElement) → List (UString × JsonElement) → Prop
  | nil : RespelledMembers [] []
  | cons {name : UString} {j k : JsonElement} {fs gs : List (UString × JsonElement)} :
      Respelled (isSet name) j k → RespelledMembers fs gs → RespelledMembers ((name, j) :: fs) ((name, k) :: gs)

end

/-- Members of one name that are respelled; `loose` are the names whose arrays have no order. -/
def MemberRespelled (loose : UString → Bool) (f g : UString × JsonElement) : Prop :=
  f.1 = g.1 ∧ Respelled (loose f.1) f.2 g.2

/-- The members of a root whose arrays have no order. -/
def isSetOrVars (name : UString) : Bool := isSet name || name = lit "vars"

/-- Two roots are spellings of one document. -/
def SameDocument (root root' : JsonElement) : Prop :=
  ∃ members members', root = .object members ∧ root' = .object members' ∧
    UpToOrder (MemberRespelled isSetOrVars) members members'

/-- The same as a relation between lists. -/
theorem respelledItems_iff {xs ys : List JsonElement} :
    RespelledItems xs ys ↔ List.Forall₂ (Respelled false) xs ys := by
  constructor
  · intro h
    induction xs generalizing ys with
    | nil =>
      cases h
      exact .nil
    | cons x xs ih =>
      cases h with
      | cons hx hxs => exact .cons hx (ih hxs)
  · intro h
    induction h with
    | nil => exact .nil
    | cons hx _ ih => exact .cons hx ih

/-- The same for members. -/
theorem respelledMembers_iff {fs gs : List (UString × JsonElement)} :
    RespelledMembers fs gs ↔ List.Forall₂ (MemberRespelled isSet) fs gs := by
  constructor
  · intro h
    induction fs generalizing gs with
    | nil =>
      cases h
      exact .nil
    | cons f fs ih =>
      cases h with
      | cons hf hfs => exact .cons ⟨rfl, hf⟩ (ih hfs)
  · intro h
    induction h with
    | nil => exact .nil
    | @cons f g _ _ hf _ ih =>
      obtain ⟨name, j⟩ := f
      obtain ⟨name', k⟩ := g
      obtain ⟨rfl, hj⟩ := hf
      exact .cons hj ih

/-- What an object is respelled to. -/
theorem respelled_object_iff {loose : Bool} {fs : List (UString × JsonElement)} {k : JsonElement} :
    Respelled loose (.object fs) k ↔ (∃ n, Spells n (.object fs) ∧ Spells n k) ∨
      ∃ gs, k = .object gs ∧ UpToOrder (MemberRespelled isSet) fs gs := by
  constructor
  · intro h
    cases h with
    | integer hj hk => exact .inl ⟨_, hj, hk⟩
    | object hp hfs => exact .inr ⟨_, rfl, _, hp, respelledMembers_iff.mp hfs⟩
  · rintro (⟨n, hj, hk⟩ | ⟨gs, rfl, hs, hp, hfs⟩)
    · exact .integer hj hk
    · exact .object hp (respelledMembers_iff.mpr hfs)

/-- What an array is respelled to. -/
theorem respelled_array_iff {loose : Bool} {xs : List JsonElement} {k : JsonElement} :
    Respelled loose (.array xs) k ↔ ∃ ys zs, k = .array ys ∧ zs.Perm ys ∧
      List.Forall₂ (Respelled false) xs zs ∧
      (loose = false → zs = ys) := by
  constructor
  · intro h
    cases h with
    | integer hj hk => cases hj
    | array hxs => exact ⟨_, _, rfl, .refl _, respelledItems_iff.mp hxs, fun _ => rfl⟩
    | unordered hp hxs => exact ⟨_, _, rfl, hp, respelledItems_iff.mp hxs, nofun⟩
  · rintro ⟨ys, zs, rfl, hp, hxs, hloose⟩
    cases loose with
    | false => exact .array (respelledItems_iff.mpr (hloose rfl ▸ hxs))
    | true => exact .unordered hp (respelledItems_iff.mpr hxs)

/-- A string is respelled as itself. -/
theorem respelled_string_iff {loose : Bool} {s : UString} {k : JsonElement} :
    Respelled loose (.string s) k ↔ k = .string s := by
  constructor
  · intro h
    cases h with
    | string => rfl
    | integer hj _ => cases hj
  · rintro rfl
    exact .string s

/-- What has no members and no elements is respelled to itself, unless it is an integer. -/
theorem Respelled.of_leaf {loose : Bool} {j k : JsonElement} (h : Respelled loose j k)
    (harray : ∀ xs, j ≠ .array xs) (hobject : ∀ fs, j ≠ .object fs) :
    k = j ∨ ∃ n, Spells n j ∧ Spells n k := by
  cases h with
  | null | boolean | number | string => exact .inl rfl
  | integer hj hk => exact .inr ⟨_, hj, hk⟩
  | array | unordered => exact absurd rfl (harray _)
  | object => exact absurd rfl (hobject _)

/-- An object with a member of another name than `#bigint` is no integer, and is respelled to an object. -/
theorem Respelled.object_of_mem {loose : Bool} {fs : List (UString × JsonElement)}
    {k : JsonElement} {name : UString} {j : JsonElement} (h : Respelled loose (.object fs) k)
    (hm : (name, j) ∈ fs) (hname : name ≠ lit "#bigint") :
    ∃ gs, k = .object gs ∧ UpToOrder (MemberRespelled isSet) fs gs := by
  rcases respelled_object_iff.mp h with ⟨n, hj, _⟩ | hobject
  · cases hj with
    | bigint _ => exact absurd (Prod.mk.inj (List.mem_singleton.mp hm)).1 hname
  · exact hobject

section Members

variable {loose : UString → Bool} {fs gs : List (UString × JsonElement)} (h : UpToOrder (MemberRespelled loose) fs gs)
include h

/-- Members that are respelled up to order have one set of names. -/
theorem names_respelled :
    (fs.map Prod.fst).Perm (gs.map Prod.fst) := h.map_perm fun _ _ _ hf => hf.1

/-- So that a name is among both or among neither. -/
theorem mem_names_respelled {name : UString} : name ∈ fs.map Prod.fst ↔ name ∈ gs.map Prod.fst :=
  (names_respelled h).mem_iff

/-- Each member has its respelling. -/
theorem member_respelled {name : UString} {j : JsonElement} (hj : (name, j) ∈ fs) :
    ∃ k, (name, k) ∈ gs ∧ Respelled (loose name) j k := by
  obtain ⟨⟨name', k⟩, hk, rfl, hjk⟩ := h.mem_left _ hj
  exact ⟨k, hk, hjk⟩

/-- And each is the respelling of one. -/
theorem member_of_respelled {name : UString} {k : JsonElement} (hk : (name, k) ∈ gs) :
    ∃ j, (name, j) ∈ fs ∧ Respelled (loose name) j k := by
  obtain ⟨⟨name', j⟩, hj, rfl, hjk⟩ := h.mem_right _ hk
  exact ⟨j, hj, hjk⟩

/-- A member that is a string stays the same. -/
theorem string_respelled {name s : UString} (hs : (name, .string s) ∈ fs) :
    (name, .string s) ∈ gs := by
  obtain ⟨k, hk, hsk⟩ := member_respelled h hs
  rwa [respelled_string_iff.mp hsk] at hk

/-- The keys of an object stay. -/
theorem hasFields_respelled {names : List UString} (hf : HasFields names fs) : HasFields names gs :=
  fun name => (mem_names_respelled h).symm.trans (hf name)

end Members

/-- An object with one member is respelled to an object with one member. -/
theorem singleton_respelled {loose : UString → Bool} {name : UString} {j : JsonElement}
    {gs : List (UString × JsonElement)} (h : UpToOrder (MemberRespelled loose) [(name, j)] gs) :
    ∃ k, gs = [(name, k)] ∧ Respelled (loose name) j k := by
  obtain ⟨hs, hp, hf⟩ := h
  cases hf with
  | @cons _ g _ _ hg hnil =>
    cases hnil
    obtain ⟨name', k⟩ := g
    obtain ⟨rfl, hk⟩ := hg
    exact ⟨k, List.singleton_perm.mp hp |>.symm, hk⟩

/-! ## What every spelling has -/

/-- A property of trees that looks at no order, and that every spelling of an integer has. -/
structure Hereditary (P : JsonElement → Prop) : Prop where
  spelled : ∀ n k, Spells n k → P k
  items : ∀ xs, P (.array xs) → ∀ x ∈ xs, P x
  array : ∀ xs ys, xs.length = ys.length → P (.array xs) → (∀ y ∈ ys, P y) → P (.array ys)
  members : ∀ fs, P (.object fs) → ∀ f ∈ fs, P f.2
  object : ∀ fs gs, (fs.map Prod.fst).Perm (gs.map Prod.fst) → P (.object fs) → (∀ g ∈ gs, P g.2) → P (.object gs)

/-- **What is hereditary passes to every respelling.** -/
theorem Hereditary.respelled {P : JsonElement → Prop} (hP : Hereditary P) {j : JsonElement} :
    ∀ {loose : Bool} {k : JsonElement}, Respelled loose j k → P j → P k := by
  induction j using JsonElement.induction with
  | null | boolean _ | number _ | string _ =>
    intro loose k h hj
    rcases h.of_leaf (by simp) (by simp) with rfl | ⟨n, -, hk⟩
    · exact hj
    · exact hP.spelled n k hk
  | array xs ih =>
    intro loose k h hj
    obtain ⟨ys, zs, rfl, hp, hxs, -⟩ := respelled_array_iff.mp h
    refine hP.array xs ys (hxs.length_eq.trans hp.length_eq) hj fun y hy => ?_
    obtain ⟨x, hx, hxy⟩ := forall₂_mem_right hxs y (hp.mem_iff.mpr hy)
    exact ih x hx hxy (hP.items xs hj x hx)
  | object fs ih =>
    intro loose k h hj
    rcases respelled_object_iff.mp h with ⟨n, _, hk⟩ | ⟨gs, rfl, hfs⟩
    · exact hP.spelled n k hk
    · refine hP.object fs gs (names_respelled hfs) hj fun g hg => ?_
      obtain ⟨f, hf, _, hfg⟩ := hfs.mem_right g hg
      exact ih f hf hfg (hP.members fs hj f hf)

/-- The same for the members of a root. -/
theorem Hereditary.root {P : JsonElement → Prop} (hP : Hereditary P) {loose : UString → Bool}
    {fs gs : List (UString × JsonElement)} (h : UpToOrder (MemberRespelled loose) fs gs)
    (hf : P (.object fs)) :
    P (.object gs) := by
  refine hP.object fs gs (names_respelled h) hf fun g hg => ?_
  obtain ⟨f, hmem, _, hfg⟩ := h.mem_right g hg
  exact hP.respelled hfg (hP.members fs hf f hmem)

/-- Respelling brings in no lone surrogate. -/
theorem hereditary_wellFormed : Hereditary WellFormed where
  spelled n k h := by
    cases h with
    | bare _ _ => trivial
    | bigint hs => exact ⟨by decide, validUnicode_of_parseInteger hs, trivial⟩
  items xs h := wellFormedItems_iff.mp h
  array xs ys _ _ hys := wellFormedItems_iff.mpr hys
  members fs h f hf := (wellFormedMembers_iff.mp h f hf).2
  object fs gs hp h hgs := wellFormedMembers_iff.mpr fun g hg => by
    obtain ⟨f, hf, hfg⟩ := List.mem_map.mp (hp.mem_iff.mpr (List.mem_map_of_mem hg))
    exact ⟨hfg ▸ (wellFormedMembers_iff.mp h f hf).1, hgs g hg⟩

/-- Nor one in a name. -/
theorem hereditary_wellNamed : Hereditary WellNamed where
  spelled n k h := by
    cases h with
    | bare _ _ => trivial
    | bigint _ => exact ⟨by decide, trivial, trivial⟩
  items xs h := wellNamedItems_iff.mp h
  array xs ys _ _ hys := wellNamedItems_iff.mpr hys
  members fs h f hf := (wellNamedMembers_iff.mp h f hf).2
  object fs gs hp h hgs := wellNamedMembers_iff.mpr fun g hg => by
    obtain ⟨f, hf, hfg⟩ := List.mem_map.mp (hp.mem_iff.mpr (List.mem_map_of_mem hg))
    exact ⟨hfg ▸ (wellNamedMembers_iff.mp h f hf).1, hgs g hg⟩

/-- Nor does it enlarge a collection, beyond one member for a tagged integer. -/
theorem hereditary_bounded {limit : Int} (hl : 1 ≤ limit) : Hereditary (Bounded limit) where
  spelled n k h := by
    cases h with
    | bare _ _ => trivial
    | bigint _ => exact ⟨hl, List.nodup_singleton _, trivial, trivial⟩
  items xs h := boundedItems_iff.mp h.2
  array xs ys hlen h hys := ⟨hlen ▸ h.1, boundedItems_iff.mpr hys⟩
  members fs h := boundedFields_iff.mp h.2.2
  object fs gs hp h hgs := by
    have hlen : fs.length = gs.length := by simpa using hp.length_eq
    exact ⟨hlen ▸ h.1, hp.nodup_iff.mp h.2.1, boundedFields_iff.mpr hgs⟩

/-- Nor a number beyond 64 bits. -/
theorem hereditary_withinInt64 : Hereditary WithinInt64 where
  spelled n k h := by
    cases h with
    | bare hraw hn =>
      intro m hm
      rw [hraw] at hm
      rwa [← Option.some.inj hm]
    | bigint _ => exact ⟨trivial, trivial⟩
  items xs h := withinInt64Items_iff.mp h
  array xs ys _ _ hys := withinInt64Items_iff.mpr hys
  members fs h := withinInt64Members_iff.mp h
  object fs gs _ _ hgs := withinInt64Members_iff.mpr hgs

/-! ## Values -/

/-- `BlankFreeItems`, item by item. -/
theorem blankFreeItems_iff {xs : List ItfValue} : BlankFreeItems xs ↔ ∀ x ∈ xs, BlankFree x := by
  induction xs with
  | nil => simp [BlankFreeItems]
  | cons x xs ih => rw [BlankFreeItems, ih, List.forall_mem_cons]

/-- `BlankFreeFields`, field by field. -/
theorem blankFreeFields_iff {fs : List (UString × ItfValue)} :
    BlankFreeFields fs ↔ ∀ f ∈ fs, isNullOrWhiteSpace (some f.1) = false ∧ BlankFree f.2 := by
  induction fs with
  | nil => simp [BlankFreeFields]
  | cons f fs ih =>
    obtain ⟨name, x⟩ := f
    rw [BlankFreeFields, ih, List.forall_mem_cons, and_assoc]

/-- `PlainItems`, item by item. -/
theorem forall_plain {xs : List ItfValue} (h : PlainItems xs) : ∀ x ∈ xs, Plain x := by
  induction xs with
  | nil => simp
  | cons x xs ih => exact List.forall_mem_cons.mpr ⟨h.1, ih h.2⟩

/-- `PlainFields`, field by field. -/
theorem forall_plain_snd {fs : List (UString × ItfValue)} (h : PlainFields fs) :
    ∀ f ∈ fs, Plain f.2 := by
  induction fs with
  | nil => simp
  | cons f fs ih => exact List.forall_mem_cons.mpr ⟨h.1, ih h.2⟩

/-- A field of an object and the field that it denotes. -/
def DenotesField (f : UString × JsonElement) (b : UString × ItfValue) : Prop := f.1 = b.1 ∧ Denotes f.2 b.2

/-- Fields denote fields when their names agree and their trees denote the values. -/
theorem forall₂_denotesField_iff {fields : List (UString × JsonElement)}
    {fs : List (UString × ItfValue)} :
    List.Forall₂ DenotesField fields fs ↔
      fields.map Prod.fst = fs.map Prod.fst ∧
      List.Forall₂ Denotes (fields.map Prod.snd) (fs.map Prod.snd) := by
  rw [map_eq_map_iff, List.forall₂_map_left_iff, List.forall₂_map_right_iff]
  constructor
  · intro h
    exact ⟨h.imp fun _ _ hf => hf.1, h.imp fun _ _ hf => hf.2⟩
  · rintro ⟨hnames, hvalues⟩
    induction hnames with
    | nil => exact .nil
    | cons hname _ ih =>
      cases hvalues with
      | cons hvalue hvalues => exact .cons ⟨hname, hvalue⟩ (ih hvalues)

/-- Equivalent values; where one has no blank record key, the other has none. -/
structure Alike (v v' : ItfValue) : Prop where
  equiv : ItfEquiv v v'
  blankFree : BlankFree v → BlankFree v'

/-- A spelling of an integer denotes it. -/
theorem Spells.denotes {n : Int} {k : JsonElement} (h : Spells n k) : Denotes k (.integer n) := by
  cases h with
  | bare hraw _ => exact .number hraw
  | bigint hs => exact .bigint hs

/-- A spelling of an integer denotes nothing else. -/
theorem Spells.eq_of_denotes {n : Int} {j : JsonElement} {v : ItfValue} (h : Spells n j)
    (hd : Denotes j v) :
    v = .integer n := by
  cases h with
  | bare hraw _ =>
    cases hd with
    | number hm => rw [Option.some.inj (hm.symm.trans hraw)]
  | bigint hs =>
    obtain ⟨m, hm, rfl⟩ := denotes_bigint_iff.mp hd
    rw [Option.some.inj (hm.symm.trans hs)]

/-- Two spellings of one integer denote the same. -/
theorem alike_of_spells {n : Int} {j k : JsonElement} {v : ItfValue} (hj : Spells n j)
    (hk : Spells n k) (hd : Denotes j v) : ∃ v', Denotes k v' ∧ Alike v v' := by
  obtain rfl := hj.eq_of_denotes hd
  exact ⟨.integer n, hk.denotes, by rw [ItfEquiv], id⟩

/-- Fields of one name with alike values. -/
def AlikeField (b b' : UString × ItfValue) : Prop := b.1 = b'.1 ∧ Alike b.2 b'.2

section Alike

variable {xs ys zs : List ItfValue} {fs gs : List (UString × ItfValue)}

/-- Sequences with alike items are alike. -/
theorem alike_sequence (h : List.Forall₂ Alike xs ys) : Alike (.sequence xs) (.sequence ys) where
  equiv := by
    rw [ItfEquiv, itfEquivItems_iff]
    exact h.imp fun _ _ hx => hx.equiv
  blankFree hb := blankFreeItems_iff.mpr fun y hy => by
    obtain ⟨x, hx, hxy⟩ := forall₂_mem_right h y hy
    exact hxy.blankFree (blankFreeItems_iff.mp hb x hx)

/-- A sequence taken as a set, in another order. -/
theorem alike_set (h : Alike (.sequence xs) (.sequence ys)) (hp : zs.Perm ys) :
    Alike (.set xs) (.set zs) where
  equiv := by
    have hequiv := h.equiv
    rw [ItfEquiv] at hequiv
    exact itfEquiv_set.mpr ⟨ys, hp.symm, itfEquivItems_iff.mp hequiv⟩
  blankFree hb := blankFreeItems_iff.mpr fun z hz => blankFreeItems_iff.mp (h.blankFree hb)
    z (hp.mem_iff.mp hz)

/-- And so are records with alike fields, up to order. -/
theorem alike_record (h : UpToOrder AlikeField fs gs) : Alike (.record fs) (.record gs) where
  equiv := itfEquiv_record.mpr (h.imp fun _ _ _ _ hf => ⟨hf.1, hf.2.equiv⟩)
  blankFree hb := blankFreeFields_iff.mpr fun g hg => by
    obtain ⟨f, hf, hname, hfg⟩ := h.mem_right g hg
    obtain ⟨hblank, hfree⟩ := blankFreeFields_iff.mp hb f hf
    exact ⟨hname ▸ hblank, hfg.blankFree hfree⟩

end Alike

section Values

variable {limit : Int}

/-- Values of which no two are equivalent stay so when each is replaced by an equivalent one, in any order. -/
theorem pairwise_respelled {items items' : List JsonElement} {xs ys zs : List ItfValue}
    (hxs : List.Forall₂ Denotes items xs) (hys : List.Forall₂ Denotes items' ys)
    (hw : WellFormedItems items) (hb : BoundedItems limit items) (hw' : WellFormedItems items')
    (hb' : BoundedItems limit items') (h : ItfEquivItems xs ys) (hp : zs.Perm ys)
    (hpw : xs.Pairwise fun x y => ¬ ItfEquiv x y) :
    zs.Pairwise fun x y => ¬ ItfEquiv x y := by
  have hx := producedItems_iff.mp (producedItems_of_denotes hxs hw hb)
  have hy := producedItems_iff.mp (producedItems_of_denotes hys hw' hb')
  have hcanonical : xs.map canonical = ys.map canonical :=
    map_eq_map_iff.mpr <| forall₂_imp_of_mem (itfEquivItems_iff.mp h) fun x hmem y hmem' hxy =>
      (canonical_eq_iff (hx x hmem) (hy y hmem')).mpr hxy
  rw [← nodup_canonical_iff (producedItems_iff.mpr hx), hcanonical, ← (hp.map canonical).nodup_iff]
    at hpw
  exact (nodup_canonical_iff (producedItems_iff.mpr fun z hz => hy z (hp.mem_iff.mp hz))).mp hpw

/-- **A respelled tree denotes an equivalent value.** -/
theorem alike_of_respelled (hl : 1 ≤ limit) {j : JsonElement} : ∀ {k : JsonElement} {v : ItfValue},
    Respelled false j k → Denotes j v → Plain v → WellFormed j → Bounded limit j →
    ∃ v', Denotes k v' ∧ Alike v v' := by
  induction j using JsonElement.induction with
  | null | boolean _ | number _ | string _ =>
    intro k v h hd _ _ _
    rcases h.of_leaf (by simp) (by simp) with rfl | ⟨n, hj, hk⟩
    · refine ⟨v, hd, ?_, id⟩
      cases hd
      simp only [ItfEquiv]
    · exact alike_of_spells hj hk hd
  | array items ih =>
    intro k v h hd hplain hw hb
    obtain ⟨_, items', rfl, -, hitems, hloose⟩ := respelled_array_iff.mp h
    obtain rfl := hloose rfl
    cases hd with
    | sequence hxs =>
      obtain ⟨ys, hys, halike⟩ := exists_forall₂_of_forall₂ hitems
        (forall₂_imp_of_mem hxs fun item _ x hx hd => And.intro hd (forall_plain hplain x hx))
        fun item hitem item' x hrespelled hx =>
          ih item hitem hrespelled hx.1 hx.2 (wellFormedItems_iff.mp hw item hitem)
            (boundedItems_iff.mp hb.2 item hitem)
      exact ⟨.sequence ys, .sequence hys, alike_sequence halike⟩
  | object fields ih =>
    intro k v h hd hplain hw hb
    rcases respelled_object_iff.mp h with ⟨n, hj, hk⟩ | ⟨fields', rfl, hfields⟩
    · exact alike_of_spells hj hk hd
    cases hd with
    | @bigint s n hn =>
      obtain ⟨k, rfl, hk⟩ := singleton_respelled hfields
      obtain rfl := respelled_string_iff.mp hk
      exact ⟨.integer n, .bigint hn, by rw [ItfEquiv], id⟩
    | tuple _ => exact hplain.elim
    | map _ _ => exact hplain.elim
    | @set items xs hxs hpw =>
      obtain ⟨k, rfl, hk⟩ := singleton_respelled hfields
      obtain ⟨items', inOrder, rfl, hp, hitems, -⟩ := respelled_array_iff.mp hk
      -- the array is decoded as a sequence would be, and then put into its order
      have horder : Respelled false (.array items) (.array inOrder) :=
        .array (respelledItems_iff.mpr hitems)
      have hwell : WellFormed (.array items) := (wellFormedMembers_iff.mp hw _ List.mem_cons_self).2
      have hbound : Bounded limit (.array items) := boundedFields_iff.mp hb.2.2 _ List.mem_cons_self
      obtain ⟨_, hd, halike⟩ := ih _ List.mem_cons_self horder (.sequence hxs) hplain hwell hbound
      have hwell' := hereditary_wellFormed.respelled horder hwell
      have hbound' := (hereditary_bounded hl).respelled horder hbound
      cases hd with
      | @sequence _ ys hys =>
        obtain ⟨zs, hzs, hd⟩ := exists_perm_forall₂ hp.symm hys
        have hequiv := halike.equiv
        rw [ItfEquiv] at hequiv
        exact ⟨.set zs, .set hd (pairwise_respelled hxs hys hwell hbound.2 hwell' hbound'.2
          hequiv hzs hpw),
          alike_set halike hzs⟩
    | @record _ fs hhash hnames hvalues =>
      obtain ⟨inOrder, hp, hmembers⟩ := hfields
      have hfield : ∀ f ∈ fields, ∀ g b, MemberRespelled isSet f g → DenotesField f b ∧ Plain b.2 →
          ∃ b', DenotesField g b' ∧ AlikeField b b' := by
        rintro f hf g b ⟨hname, hrespelled⟩ ⟨⟨hbound, hd⟩, hplain⟩
        rw [isSet_of_not_hash (hhash f hf)] at hrespelled
        obtain ⟨x, hx, halike⟩ := ih f hf hrespelled hd hplain (wellFormedMembers_iff.mp hw f hf).2
          (boundedFields_iff.mp hb.2.2 f hf)
        exact ⟨(g.1, x), ⟨rfl, hx⟩, hbound.symm.trans hname, halike⟩
      have hdenotes : List.Forall₂ (fun f b => DenotesField f b ∧ Plain b.2) fields fs :=
        forall₂_imp_of_mem (forall₂_denotesField_iff.mpr ⟨hnames, hvalues⟩) fun f _ b hb hd =>
          ⟨hd, forall_plain_snd hplain b hb⟩
      obtain ⟨gs, hgs, halike⟩ := exists_forall₂_of_forall₂ hmembers hdenotes hfield
      obtain ⟨hs, hperm, hd⟩ := exists_perm_forall₂ hp.symm hgs
      obtain ⟨hnames', hvalues'⟩ := forall₂_denotesField_iff.mp hd
      refine ⟨.record hs, .record (fun g hg => ?_) hnames' hvalues',
        alike_record ⟨gs, hperm.symm, halike⟩⟩
      obtain ⟨f, hf, hname, _⟩ := forall₂_mem_right hmembers g (hp.mem_iff.mpr hg)
      rw [← hname]
      exact hhash f hf

end Values

/-! ## States -/

/-- Alike values are plain together. -/
theorem Alike.plain {v v' : ItfValue} (h : Alike v v') (hv : Plain v) : Plain v' := by
  obtain ⟨w, hw⟩ := plain_iff.mp hv
  obtain ⟨w', hw', _⟩ := image_equiv h.equiv hw
  exact plain_iff.mpr ⟨w', hw'⟩

/-- The index of a state is a number in its members. -/
def BareIndex (fields : List (UString × JsonElement)) : Prop :=
  ∀ metadata index, (lit "#meta", .object metadata) ∈ fields → (lit "index", index) ∈ metadata →
    ∃ raw, index = .number raw

/-- What a state is respelled to: the state at the same position, with alike bindings. -/
structure StateRespelled (names : List UString) (i : Nat) (bindings : List (UString × ItfValue)) (state : JsonElement)
    (bindings' : List (UString × ItfValue)) : Prop where
  shape : ∃ fields, state = .object fields ∧ StateOf names i fields bindings'
  alike : UpToOrder AlikeField bindings bindings'
  replayable : ReplayableState state bindings'
  safe : SafeState state bindings'

section State

variable {limit : Int} {names names' : List UString} {i : Nat} {fields fields' : List (UString × JsonElement)}
  {bindings : List (UString × ItfValue)} (hs : StateOf names i fields bindings)
  (hf : UpToOrder (MemberRespelled isSet) fields fields')
include hs hf

/-- The index of a state stays, when the respelling writes it as a number. -/
theorem index_respelled (hbare : BareIndex fields') :
    ∀ metadata, (lit "#meta", metadata) ∈ fields' →
    ∃ fields raw, metadata = .object fields ∧ (lit "index", .number raw) ∈ fields ∧
      parseInteger raw = some (i : Int) := by
  intro metadata' hmetadata'
  obtain ⟨metadata, hmetadata, hrespelled⟩ := member_of_respelled hf hmetadata'
  obtain ⟨members, raw, rfl, hindex, hraw⟩ := hs.index metadata hmetadata
  obtain ⟨members', rfl, hmembers⟩ := hrespelled.object_of_mem hindex (by decide)
  obtain ⟨index', hindex', hnumber⟩ := member_respelled hmembers hindex
  obtain ⟨raw', rfl⟩ := hbare members' index' hmetadata' hindex'
  refine ⟨members', raw', rfl, hindex', ?_⟩
  cases hnumber with
  | number => exact hraw
  | integer hj hk =>
    cases hj with
    | bare hn _ =>
      cases hk with
      | bare hn' _ => rw [hn', ← hn, hraw]

/-- The bindings of a state, read from the other spelling in the other order of the variables. -/
theorem bound_respelled (hl : 1 ≤ limit) (hp : names'.Perm names)
    (hhash : ∀ name ∈ names, startsWithHash name = false)
    (hsubset : ∀ b ∈ bindings, InSubset fields b) (hb : Bounded limit (.object fields))
    (hw : ∀ name ∈ names, ∀ field, (name, field) ∈ fields → WellFormed field) :
    ∃ bindings', UpToOrder AlikeField bindings bindings' ∧ List.Forall₂ (fun name b => b.1 = name ∧
      ∃ field, (name, field) ∈ fields' ∧ Denotes field b.2) names' bindings' := by
  have hread : ∀ name ∈ names, ∀ name' b, name = name' →
      (b.1 = name ∧ ∃ field, (name, field) ∈ fields ∧ Denotes field b.2) ∧ b ∈ bindings →
      ∃ b', (b'.1 = name' ∧ ∃ field, (name', field) ∈ fields' ∧ Denotes field b'.2) ∧
        AlikeField b b' := by
    rintro name hname _ b rfl ⟨⟨hbname, field, hfield, hd⟩, hmem⟩
    obtain ⟨field', hfield', hrespelled⟩ := member_respelled hf hfield
    rw [isSet_of_not_hash (hhash name hname)] at hrespelled
    obtain ⟨x, hx, halike⟩ := alike_of_respelled hl hrespelled hd (hsubset b hmem).plain
      (hw name hname field hfield)
      (boundedFields_iff.mp hb.2.2 _ hfield)
    exact ⟨(name, x), ⟨rfl, field', hfield', hx⟩, hbname, halike⟩
  have hsame : List.Forall₂ Eq names names := List.forall₂_same.mpr fun name _ => rfl
  obtain ⟨inOrder, hbound, halike⟩ := exists_forall₂_of_forall₂ hsame
    (forall₂_imp_of_mem hs.bound fun _ _ b hmem hb => And.intro hb hmem) hread
  obtain ⟨bindings', hperm, hbound'⟩ := exists_perm_forall₂ hp hbound
  exact ⟨bindings', ⟨inOrder, hperm.symm, halike⟩, hbound'⟩

/-- **A respelled state is read as a state that is alike.** -/
theorem state_respelled (hl : 1 ≤ limit) (hp : names'.Perm names)
    (hhash : ∀ name ∈ names, startsWithHash name = false)
    (hready : ReplayableState (.object fields) bindings)
    (hsafe : SafeState (.object fields) bindings) (hb : Bounded limit (.object fields))
    (hw : ∀ name ∈ names, ∀ field, (name, field) ∈ fields → WellFormed field)
    (hbare : BareIndex fields') :
    ∃ bindings', StateRespelled names' i bindings (.object fields') bindings' := by
  obtain ⟨_, he, ⟨metadata, hmetadata, hindex⟩, hsubset⟩ := hready
  obtain rfl := JsonElement.object.inj he
  obtain ⟨bindings', halike, hbound⟩ := bound_respelled hs hf hl hp hhash hsubset hb hw
  have hsubset' : ∀ b' ∈ bindings', InSubset fields' b' := by
    intro b' hb'
    obtain ⟨b, hmem, hname, hvalue⟩ := halike.mem_right b' hb'
    refine ⟨fun field' hfield' => ?_, hvalue.plain (hsubset b hmem).plain⟩
    obtain ⟨field, hfield, hrespelled⟩ := member_of_respelled hf hfield'
    exact hereditary_withinInt64.respelled hrespelled
      ((hsubset b hmem).within field (hname ▸ hfield))
  have hmetadata' : IndexMetadata fields' := by
    obtain ⟨⟨name, j⟩, hj, hname⟩ := List.mem_map.mp ((hindex (lit "index")).mpr List.mem_cons_self)
    obtain ⟨k, hk, hrespelled⟩ := member_respelled hf hmetadata
    obtain ⟨metadata', rfl, hmembers⟩ :=
      hrespelled.object_of_mem hj (show name ≠ _ by rw [show name = _ from hname]; decide)
    exact ⟨metadata', hk, hasFields_respelled hmembers hindex⟩
  refine ⟨bindings', ⟨fields', rfl, fun name => ?_, index_respelled hs hf hbare, hbound⟩, halike,
    ⟨fields', rfl, hmetadata', hsubset'⟩, ?_⟩
  · rw [← mem_names_respelled hf, hs.keys, hp.mem_iff]
  · intro _ _ b' hb' _
    obtain ⟨b, hmem, -, hvalue⟩ := halike.mem_right b' hb'
    exact hvalue.blankFree (hsafe fields rfl b hmem (hsubset b hmem))

end State

/-! ## Documents -/

/-- The index of every state of a document is a number. -/
def BareIndexes (root : JsonElement) : Prop :=
  ∀ members items fields, root = .object members → (lit "states", .array items) ∈ members → .object fields ∈ items →
    BareIndex fields

section Document

variable {members members' : List (UString × JsonElement)} {items : List JsonElement} {document : ItfDocument}
  (h : UpToOrder (MemberRespelled isSetOrVars) members members')
include h

/-- The variables are listed in some order. -/
theorem vars_respelled {names : List UString}
    (hn : (lit "vars", .array (names.map .string)) ∈ members) :
    ∃ names' : List UString, names'.Perm names ∧
      (lit "vars", .array (names'.map .string)) ∈ members' := by
  obtain ⟨k, hk, hrespelled⟩ := member_respelled h hn
  obtain ⟨items', inOrder, rfl, hp, hitems, -⟩ := respelled_array_iff.mp hrespelled
  have hstrings : List.Forall₂ (fun item name => item = .string name) inOrder names := by
    rw [List.forall₂_map_left_iff] at hitems
    exact (hitems.imp fun _ _ hitem => respelled_string_iff.mp hitem).flip
  obtain ⟨names', hperm, hnames'⟩ := exists_perm_forall₂ hp.symm hstrings
  refine ⟨names', hperm, ?_⟩
  rwa [← show items' = names'.map .string
    by rw [← List.map_id items', map_eq_map_iff]; exact hnames']

/-- The states stay in their order, each respelled. -/
theorem states_respelled (hi : (lit "states", .array items) ∈ members) :
    ∃ items', (lit "states", .array items') ∈ members' ∧
      List.Forall₂ (Respelled false) items items' := by
  obtain ⟨k, hk, hrespelled⟩ := member_respelled h hi
  obtain ⟨items', inOrder, rfl, -, hitems, hordered⟩ := respelled_array_iff.mp hrespelled
  rw [hordered rfl] at hitems
  exact ⟨items', hk, hitems⟩

/-- The metadata that are wanted are still there. -/
theorem replayMetadata_respelled (hm : ReplayMetadata members) : ReplayMetadata members' := by
  obtain ⟨metadata, hmetadata, hfields, hformat, hstatus⟩ := hm
  obtain ⟨k, hk, hrespelled⟩ := member_respelled h hmetadata
  obtain ⟨metadata', rfl, hmembers⟩ := hrespelled.object_of_mem hformat (by decide)
  exact ⟨metadata', hk, hasFields_respelled hmembers hfields, string_respelled hmembers hformat,
    string_respelled hmembers hstatus⟩

/-- The format is stated in every spelling of the metadata. -/
theorem format_respelled (hd : DocumentOf defaultLimits members items document) :
    ∀ metadata, (lit "#meta", metadata) ∈ members' →
      ∃ fields, metadata = .object fields ∧ (lit "format", .string "ITF") ∈ fields := by
  intro metadata' hmetadata'
  obtain ⟨metadata, hmetadata, hrespelled⟩ := member_of_respelled h hmetadata'
  obtain ⟨fields, rfl, hformat⟩ := hd.metadata metadata hmetadata
  obtain ⟨fields', rfl, hfields⟩ := hrespelled.object_of_mem hformat (by decide)
  exact ⟨fields', rfl, string_respelled hfields hformat⟩

end Document

/-- The strings that are decoded stay well-formed. -/
theorem bound_wellFormed {members : List (UString × JsonElement)}
    {items items' : List JsonElement} {document : ItfDocument} {names' : List UString}
    (hd : DocumentOf defaultLimits members items document) (hl : Legible items document)
    (hitems : List.Forall₂ (Respelled false) items items')
    (hp : names'.Perm document.variableNames) :
    ∀ fields, .object fields ∈ items' → ∀ name ∈ names', ∀ field,
      (name, field) ∈ fields → WellFormed field := by
  intro fields' hfields' name hname field' hfield'
  obtain ⟨item, hitem, hrespelled⟩ := forall₂_mem_right hitems _ hfields'
  obtain ⟨_, _, _, _, i, fields, rfl, _⟩ := forall₂_mem_left (forall₂_states hd) item hitem
  rcases respelled_object_iff.mp hrespelled with ⟨n, _, hk⟩ | ⟨_, he, hfields⟩
  · exact hereditary_wellFormed.members fields' (hereditary_wellFormed.spelled n _ hk) _ hfield'
  · obtain rfl := JsonElement.object.inj he
    obtain ⟨field, hfield, hrespelled⟩ := member_of_respelled hfields hfield'
    exact hereditary_wellFormed.respelled hrespelled
      (hl.bound fields hitem name (hp.mem_iff.mp hname) field hfield)

section Accepted

variable {context : QuintItfDecodeContext} {bytes bytes' : ByteArray} {text text' : UString}
  {members members' : List (UString × JsonElement)} {items items' : List JsonElement} {document : ItfDocument}
  (ha : Accepted bytes text members items document) (hsafe : Safe context members items document)
  (hready : Replayable context members items document)
include ha hsafe hready

/-- The state at a position of the other spelling. -/
theorem Accepted.state_respelled {names' : List UString} (hp : names'.Perm document.variableNames)
    (hitems : List.Forall₂ (Respelled false) items items')
    (hbare : ∀ fields, .object fields ∈ items' → BareIndex fields) {i : Nat}
    (hi : i < document.states.length) (hi' : i < items'.length) :
    ∃ bindings', StateRespelled names' i document.states[i] items'[i] bindings' := by
  have hd := ha.grammar
  have hlimit : (1 : Int) ≤ defaultLimits.maxCollection := by decide
  have hbounded := boundedItems_iff.mp (boundedFields_iff.mp ha.bounded.2.2 _ hd.states).2
  have hi₀ : i < items.length := hd.stateCount ▸ hi
  obtain ⟨fields, hfields, hs⟩ := hd.state i items[i] document.states[i]
    (List.getElem?_eq_getElem hi₀)
    (List.getElem?_eq_getElem hi)
  have hmem : JsonElement.object fields ∈ items := hfields ▸ List.getElem_mem hi₀
  have hreadyAt : ReplayableState items[i] document.states[i] :=
    (List.forall₂_iff_get.mp hready.states).2 i hi₀ hi
  have hsafeAt : SafeState items[i] document.states[i] :=
    (List.forall₂_iff_get.mp hsafe.states).2 i hi₀ hi
  have hrespelled : Respelled false items[i] items'[i] :=
    (List.forall₂_iff_get.mp hitems).2 i hi₀ hi'
  rw [hfields] at hreadyAt hsafeAt hrespelled
  -- a state has metadata, so it is no spelling of an integer
  have hmetadata : ∃ metadata, (lit "#meta", metadata) ∈ fields := by
    obtain ⟨_, he, ⟨metadata, hmetadata, _⟩, _⟩ := hreadyAt
    exact ⟨_, JsonElement.object.inj he ▸ hmetadata⟩
  obtain ⟨metadata, hmetadata⟩ := hmetadata
  obtain ⟨fields', hfields', hf⟩ := hrespelled.object_of_mem hmetadata (by decide)
  rw [hfields']
  exact FsQuint.state_respelled hs hf hlimit hp (fun name hname => (hd.variableName name hname).2)
    hreadyAt hsafeAt
    (hbounded _ hmem) (ha.legible.bound fields hmem)
    (hbare fields' (hfields' ▸ List.getElem_mem hi'))

/-- **The guard accepts the other spelling, and the decoder has nothing to report about it.** -/
theorem Accepted.respelled (h : UpToOrder (MemberRespelled isSetOrVars) members members')
    (hbytes : getBytes text' = some bytes') (hsize : (bytes'.size : Int) ≤ defaultLimits.maxBytes)
    (hparse : parse defaultMaxDepth text' = some (.object members'))
    (hbare : BareIndexes (.object members')) :
    ∃ items' document', Accepted bytes' text' members' items' document' ∧
      Safe context members' items' document' ∧
      Replayable context members' items' document' ∧
      List.Forall₂ (UpToOrder AlikeField) document.states document'.states := by
  have hd := ha.grammar
  have hlimit : (1 : Int) ≤ defaultLimits.maxCollection := by decide
  obtain ⟨names', hp, hvars'⟩ := vars_respelled h hd.vars
  obtain ⟨items', hstates', hitems⟩ := states_respelled h hd.states
  have hnamed' := hereditary_wellNamed.root h ha.named
  have hbounded' := (hereditary_bounded hlimit).root h ha.bounded
  have hcount : items'.length = document.states.length := hitems.length_eq.symm.trans hd.stateCount
  -- each state is decoded for itself; the list of them is chosen at once
  obtain ⟨states', hlength, hstates⟩ :=
    exists_list_of_forall fun i (hi : i < document.states.length) =>
      ha.state_respelled hsafe hready hp hitems (hbare members' items' · rfl hstates') hi
        (hcount ▸ hi)
  have hat : ∀ i (hi : i < states'.length) (hi₀ : i < document.states.length)
    (hi' : i < items'.length),
      StateRespelled names' i document.states[i] items'[i] states'[i] :=
    fun i hi hi₀ hi' => hstates i hi₀ _ (List.getElem?_eq_getElem hi)
  -- what the grammar asks of names, counts and members does not look at their order
  have hgrammar : DocumentOf defaultLimits members' items' ⟨names', states'⟩ :=
    { keys := fun name hname => hd.keys name ((mem_names_respelled h).mpr hname)
      metadata := format_respelled h hd
      vars := hvars'
      someVariable := fun hnil => by
        obtain rfl : names' = [] := hnil
        exact hd.someVariable (List.nil_perm.mp hp)
      distinctVariables := hp.nodup_iff.mpr hd.distinctVariables
      variableName := fun name hname => hd.variableName name (hp.mem_iff.mp hname)
      states := hstates'
      someState := hcount ▸ hd.stateCount ▸ hd.someState
      statesBounded := by
        rw [hcount, ← hd.stateCount]
        exact hd.statesBounded
      stateCount := hcount.trans hlength.symm
      state := fun i state bindings hstate hbindings => by
        obtain ⟨hi', rfl⟩ := List.getElem?_eq_some_iff.mp hstate
        obtain ⟨hi, rfl⟩ := List.getElem?_eq_some_iff.mp hbindings
        exact (hat i hi (hlength ▸ hi) hi').shape }
  have hmetadata' := replayMetadata_respelled h hready.metadata
  refine ⟨items', ⟨names', states'⟩, ⟨hbytes, hsize, hparse, hnamed', hbounded', hgrammar, ?_⟩, ?_,
    ?_, ?_⟩
  · exact ⟨fun name hname => ha.legible.variableName name (hp.mem_iff.mp hname),
      bound_wellFormed hd ha.legible hitems hp⟩
  · refine ⟨hmetadata'.legible hbounded',
      List.forall₂_iff_get.mpr ⟨hgrammar.stateCount, fun i hi' hi => ?_⟩,
      hsafe.environment, fun hsteps => hsafe.steps ?_⟩
    · exact (hat i hi (hlength ▸ hi) hi').safe
    · rw [hsteps]
      exact hlength
  · refine ⟨hmetadata', List.forall₂_iff_get.mpr ⟨hgrammar.stateCount, fun i hi' hi => ?_⟩, ?_,
      hready.environment,
      hready.steps⟩
    · exact (hat i hi (hlength ▸ hi) hi').replayable
    · rw [hready.count]
      exact hlength.symm
  · refine List.forall₂_iff_get.mpr ⟨hlength.symm, fun i hi₀ hi => ?_⟩
    exact (hat i hi hi₀ (hcount ▸ hi₀)).alike

end Accepted

/-! ## Traces -/

/-- States that show alike bindings are equivalent. -/
theorem stateEquiv_of_alike {bindings bindings' : List (UString × ItfValue)}
    {s s' : QuintReplayState} (h : UpToOrder AlikeField bindings bindings')
    (hs : imageFields bindings = some s.bindings) (hs' : imageFields bindings' = some s'.bindings) :
    StateEquiv s s' := by
  obtain ⟨w, hw, hequiv⟩ := image_equiv (alike_record h).equiv
    (image_eq_record_iff.mpr ⟨bindings, rfl, hs⟩)
  obtain rfl := Option.some.inj (hw.symm.trans (image_eq_record_iff.mpr ⟨bindings', rfl, hs'⟩))
  rw [ValueEquiv] at hequiv
  obtain ⟨inOrder, hp, hfields⟩ := hequiv
  exact ⟨inOrder, hp, valueEquivFields_iff.mp hfields⟩

section Traces

variable {platform : Platform} {context : QuintItfDecodeContext} {document document' : ItfDocument}
  {trace trace' : QuintReplayTrace} (ht : TraceOf platform context document trace)
  (ht' : TraceOf platform context document' trace')
  (hstates : List.Forall₂ (UpToOrder AlikeField) document.states document'.states)
include ht ht' hstates

/-- The traces of alike documents have equivalent states. -/
theorem TraceOf.stateEquiv : List.Forall₂ StateEquiv (traceStates trace) (traceStates trace') := by
  have hlength : (traceStates trace).length = (traceStates trace').length := by
    rw [← ht.states.length_eq, ← ht'.states.length_eq, hstates.length_eq]
  refine List.forall₂_iff_get.mpr ⟨hlength, fun i hi hi' => ?_⟩
  have hd : i < document.states.length := ht.states.length_eq ▸ hi
  have hd' : i < document'.states.length := ht'.states.length_eq ▸ hi'
  exact stateEquiv_of_alike ((List.forall₂_iff_get.mp hstates).2 i hd hd')
    ((List.forall₂_iff_get.mp ht.states).2 i hd hi)
    ((List.forall₂_iff_get.mp ht'.states).2 i hd' hi')

/-- **Spellings of a document are decoded to traces with one content.** -/
theorem TraceOf.agree : TraceAgree trace trace' := by
  obtain ⟨hinitial, hexpected⟩ := List.forall₂_cons.mp (ht.stateEquiv ht' hstates)
  rw [List.forall₂_map_left_iff, List.forall₂_map_right_iff] at hexpected
  have henvironment : trace.environment = trace'.environment :=
    ht.environment.trans ht'.environment.symm
  refine
    { schemaVersion := ht.valid.schemaVersion.trans ht'.valid.schemaVersion.symm
      seed := by rw [henvironment]
      toolFingerprint := by rw [henvironment]
      profileFingerprint := by rw [henvironment]
      contractFingerprint := by rw [henvironment]
      adapterFingerprint := by rw [henvironment]
      implementationFingerprint := by rw [henvironment]
      bounds := fun b => by rw [henvironment]
      initial := hinitial
      steps := List.forall₂_iff_get.mpr ⟨hexpected.length_eq, fun i hi hi' => ?_⟩ }
  have hb : i < context.steps.length := ht.steps.length_eq ▸ hi
  have hcarries := (List.forall₂_iff_get.mp ht.steps).2 i hb hi
  have hcarries' := (List.forall₂_iff_get.mp ht'.steps).2 i hb hi'
  exact ⟨hcarries.index.trans hcarries'.index.symm, hcarries.action.trans hcarries'.action.symm,
    hcarries.source.trans hcarries'.source.symm, (List.forall₂_iff_get.mp hexpected).2 i hi hi'⟩

end Traces

/-- Equivalent valid states have one fingerprint. -/
theorem identity_congr {platform : Platform} {s s' : QuintReplayState} (hs : ValidState platform s)
    (hs' : ValidState platform s') (h : StateEquiv s s') : s.identity = s'.identity := by
  rw [hs.identity, hs'.identity, stateText_congr hs.content h]

/-- A text with the tree `root`, within the limits of the guard on bytes and nesting. -/
structure WithinLimits (text : UString) (root : JsonElement) : Prop where
  encoded : ∃ bytes, getBytes text = some bytes ∧ (bytes.size : Int) ≤ defaultLimits.maxBytes
  parsed : parse defaultMaxDepth text = some root

/-- **The identity of a document does not depend on how it is spelled.**  A spelling of a text that is
    decoded is decoded too, where the indexes of its states are written as numbers, and the identities
    of the two traces and of their states are the same. -/
theorem decodeItf_respelled (platform : Platform) (context : QuintItfDecodeContext) {text text' : UString}
    {root root' : JsonElement} {trace : QuintReplayTrace} (hw : WithinLimits text root) (hw' : WithinLimits text' root')
    (hsame : SameDocument root root') (hbare : BareIndexes root')
    (h : decodeItf platform context (some text) = .ok (.ok trace)) :
    ∃ trace', decodeItf platform context (some text') = .ok (.ok trace') ∧
      trace.traceIdentity = trace'.traceIdentity ∧ trace.initial.identity = trace'.initial.identity ∧
      List.Forall₂ (fun step step' => step.expected.identity = step'.expected.identity) trace.steps trace'.steps := by
  obtain ⟨members, members', rfl, rfl, hmembers⟩ := hsame
  obtain ⟨_, bytes, found, items, document, htext, ha, hsafe, hready, ht⟩ := decodeItf_trace h
  obtain rfl := Option.some.inj htext
  obtain rfl : found = members := JsonElement.object.inj
    (Option.some.inj (ha.parsed.symm.trans hw.parsed))
  obtain ⟨bytes', hbytes', hsize'⟩ := hw'.encoded
  obtain ⟨items', document', ha', hsafe', hready', hstates⟩ :=
    ha.respelled hsafe hready hmembers hbytes' hsize' hw'.parsed hbare
  obtain ⟨trace', hdecoded, ht'⟩ := ha'.decodes hsafe' hready'
  have hagree := ht.agree ht' hstates
  refine ⟨trace', hdecoded, ?_, identity_congr ht.valid.initial ht'.valid.initial
    hagree.initial, ?_⟩
  · rw [ht.valid.identity, ht'.valid.identity,
      traceText_congr ht.valid.toValidStructure ht'.valid.toValidStructure hagree]
  · refine List.forall₂_iff_get.mpr ⟨hagree.steps.length_eq, fun i hi hi' => ?_⟩
    exact identity_congr (ht.valid.steps i hi).expected (ht'.valid.steps i hi').expected
      ((List.forall₂_iff_get.mp hagree.steps).2 i hi hi').expected

/-! ## A document with one state -/

/-- The document with one set is within the limits. -/
theorem withinLimits_pairTree :
    WithinLimits (oneText (.number "0") pairTree) (.object (oneMembers (.number "0") pairTree)) :=
  ⟨⟨_, accepted_pairTree.encoded, accepted_pairTree.size⟩, accepted_pairTree.parsed⟩

/-- And is decoded. -/
theorem decodes_pairTree :
    ∃ trace, decodeItf samplePlatform oneContext (some (oneText (.number "0") pairTree)) =
      .ok (.ok trace) := by
  obtain ⟨hsafe, hready⟩ := accepted_pairTree.ready replaySubset_pairTree (contextFor_oneContext _)
  obtain ⟨trace, htrace, _⟩ := accepted_pairTree.decodes hsafe hready
  exact ⟨trace, htrace⟩

/-- A set is a respelling of itself. -/
theorem respelled_pairTree (loose : Bool) : Respelled loose pairTree pairTree :=
  .object (.refl _) (.cons (.array (.cons (.number _) (.cons (.number _) .nil))) .nil)

/-- The set of the integers 1 and 2, in another order and with another spelling of 2. -/
def pairTreeRespelled : JsonElement :=
  .object [(lit "#set", .array [.object [(lit "#bigint", .string "+02")], .number "1"])]

/-- The members of the root in another order, and those of its state. -/
def membersRespelled : List (UString × JsonElement) :=
  [(lit "states", .array [.object [(lit "x", pairTreeRespelled), (lit "#meta", .object [(lit "index", .number "0")])]]),
   (lit "vars", .array [.string "x"]),
   (lit "#meta", .object [(lit "format", .string "ITF"), (lit "format-description", .string []),
      (lit "source", .string []), (lit "status", .string "ok")])]

/-- Their text. -/
def textRespelled : UString := write jsonQuoting (.object membersRespelled)

/-- The respelled document is within the limits. -/
theorem withinLimits_textRespelled : WithinLimits textRespelled (.object membersRespelled) := by
  refine ⟨⟨_, getBytes_eq_lossy (by decide +kernel), by decide +kernel⟩,
    parse_write jsonQuoting defaultMaxDepth ?_ (by decide)⟩
  simp only [membersRespelled, pairTreeRespelled, Writable, WritableMembers, WritableItems,
    jsonQuoting, and_true, true_and]
  exact ⟨numberToken_decimal 1, numberToken_decimal 0⟩

/-- It is the same document. -/
theorem sameDocument_respelled :
    SameDocument (.object (oneMembers (.number "0") pairTree)) (.object membersRespelled) := by
  have htwo : Respelled false (.number "2") (.object [(lit "#bigint", .string "+02")]) :=
    .integer (.bare (n := 2) rfl (by decide)) (.bigint rfl)
  have hset : Respelled true (.array [.number "1", .number "2"])
      (.array [.object [(lit "#bigint", .string "+02")], .number "1"]) :=
    .unordered (.swap _ _ _) (.cons (.number _) (.cons htwo .nil))
  have hpair : Respelled false pairTree pairTreeRespelled := .object (.refl _) (.cons hset .nil)
  refine ⟨_, _, rfl, rfl, membersRespelled.reverse, List.reverse_perm _,
    .cons ⟨rfl, ?_⟩ (.cons ⟨rfl, ?_⟩ (.cons ⟨rfl, ?_⟩ .nil))⟩
  · exact .object (.refl _) (.cons (.string _)
      (.cons (.string _) (.cons (.string _) (.cons (.string _) .nil))))
  · exact .array (.cons (.string _) .nil)
  · refine .array (.cons (.object (.swap _ _ _) (.cons ?_ (.cons hpair .nil))) .nil)
    exact .object (.refl _) (.cons (.number _) .nil)

/-- And writes its index as a number. -/
theorem bareIndexes_membersRespelled : BareIndexes (.object membersRespelled) := by
  intro members items fields he hitems hfields metadata index hmetadata hindex
  obtain rfl := JsonElement.object.inj he
  have hnames : (membersRespelled.map Prod.fst).Nodup := by decide
  -- one list of states, one state in it, and one index in its metadata
  have hstates := List.inj_on_of_nodup_map hnames hitems List.mem_cons_self rfl
  obtain rfl := JsonElement.array.inj (Prod.mk.inj hstates).2
  obtain rfl := JsonElement.object.inj (List.mem_singleton.mp hfields)
  have hkeys : ([(lit "x", pairTreeRespelled),
      (lit "#meta", .object [(lit "index", .number "0")])].map Prod.fst).Nodup := by
    decide
  have hmeta := List.inj_on_of_nodup_map hkeys hmetadata
    (List.mem_cons_of_mem _ List.mem_cons_self) rfl
  obtain rfl := JsonElement.object.inj (Prod.mk.inj hmeta).2
  exact ⟨_, (Prod.mk.inj (List.mem_singleton.mp hindex)).2⟩

/-- A document with its members, the fields of its state and the items of its set in another order, and
    one integer as a text. -/
theorem decodeItf_respelled_sample : ∃ trace trace',
    decodeItf samplePlatform oneContext (some (oneText (.number "0") pairTree)) = .ok (.ok trace) ∧
      decodeItf samplePlatform oneContext (some textRespelled) = .ok (.ok trace') ∧
      trace.traceIdentity = trace'.traceIdentity ∧ trace.initial.identity = trace'.initial.identity := by
  obtain ⟨trace, h⟩ := decodes_pairTree
  obtain ⟨trace', h', htrace, hinitial, -⟩ :=
    decodeItf_respelled samplePlatform oneContext withinLimits_pairTree
    withinLimits_textRespelled sameDocument_respelled bareIndexes_membersRespelled h
  exact ⟨trace, trace', h, h', htrace, hinitial⟩

/-- The index of a state as a `#bigint` text. -/
def taggedIndex : JsonElement := .object [(lit "#bigint", .string "0")]

/-- The decoder reads the index with `TryGetInt32`, and so takes a number only. -/
theorem decodeItf_index_respelled : ¬ ∀ (platform : Platform) (context : QuintItfDecodeContext) (text text' : UString)
    (root root' : JsonElement) (trace : QuintReplayTrace), WithinLimits text root → WithinLimits text' root' →
    SameDocument root root' → decodeItf platform context (some text) = .ok (.ok trace) →
    ∃ trace', decodeItf platform context (some text') = .ok (.ok trace') ∧
      trace.traceIdentity = trace'.traceIdentity ∧ trace.initial.identity = trace'.initial.identity ∧
      List.Forall₂ (fun step step' => step.expected.identity = step'.expected.identity) trace.steps trace'.steps := by
  intro h
  have hparse : parse defaultMaxDepth (oneText taggedIndex pairTree) =
      some (.object (oneMembers taggedIndex pairTree)) :=
    parse_oneText ⟨trivial, trivial, trivial⟩ replayed_pairTree.writable (by decide) (by decide)
  have hwithin : WithinLimits (oneText taggedIndex pairTree)
      (.object (oneMembers taggedIndex pairTree)) :=
    ⟨⟨_, getBytes_eq_lossy (by decide +kernel), by decide +kernel⟩, hparse⟩
  have hindex : Respelled false (.number "0") taggedIndex :=
    .integer (.bare (n := 0) rfl (by decide)) (.bigint rfl)
  have hsame : SameDocument (.object (oneMembers (.number "0") pairTree))
      (.object (oneMembers taggedIndex pairTree)) := by
    refine ⟨_, _, rfl, rfl, _, .refl _, .cons ⟨rfl, ?_⟩ (.cons ⟨rfl, ?_⟩ (.cons ⟨rfl, ?_⟩ .nil))⟩
    · exact .object (.refl _) (.cons (.string _)
        (.cons (.string _) (.cons (.string _) (.cons (.string _) .nil))))
    · exact .array (.cons (.string _) .nil)
    · refine .array (.cons (.object (.refl _) (.cons ?_ (.cons (respelled_pairTree _) .nil))) .nil)
      exact .object (.refl _) (.cons hindex .nil)
  obtain ⟨trace, htrace⟩ := decodes_pairTree
  obtain ⟨trace', htrace', -⟩ := h _ _ _ _ _ _ _ withinLimits_pairTree hwithin hsame htrace
  obtain ⟨_, bytes, members, items, document, htext, ha, -⟩ := decodeItf_trace htrace'
  obtain rfl := Option.some.inj htext
  obtain rfl := JsonElement.object.inj (Option.some.inj (ha.parsed.symm.trans hparse))
  -- the one state of the document has no index that is a number
  have hitems := List.inj_on_of_nodup_map ha.bounded.2.1 ha.grammar.states
    (List.mem_cons_of_mem _ (List.mem_cons_of_mem _ List.mem_cons_self)) rfl
  obtain rfl := JsonElement.array.inj (Prod.mk.inj hitems).2
  obtain ⟨_, _, _, _, i, fields, hfields, hs⟩ :=
    forall₂_mem_left (forall₂_states ha.grammar) _ List.mem_cons_self
  obtain rfl := JsonElement.object.inj hfields
  obtain ⟨metadata, raw, hmetadata, hraw, -⟩ := hs.index _ List.mem_cons_self
  obtain rfl := JsonElement.object.inj hmetadata
  cases (Prod.mk.inj (List.mem_singleton.mp hraw)).2

end FsQuint
