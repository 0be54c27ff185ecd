/-
  The grammar of raw ITF documents, and that `read` accepts exactly this grammar.

  `Denotes` says which trees may be bound to a variable and which value each denotes; where the code
  compares canonical texts to find repeated members, the grammar asks that no two members are
  equivalent.  `DocumentOf` says the same of a whole document.  The decoder is compared with the
  grammar bottom up: `check` with `Bounded`, `value` with `Denotes`, and `read` with `DocumentOf`.

  The grammar is stated without reference to the order in which the decoder looks at things, so that
  a document is accepted or not as a whole.  For acceptance both directions go through one lemma for
  each function: it answers with a value exactly when the tree denotes that value, by induction on
  the tree, with the items of an array and the members of an object as further cases.

  Depth is the business of the parser, size that of `check`; from there on neither is mentioned
  again.
-/
import FsQuint.ItfIdentity

set_option linter.unusedVariables false

namespace FsQuint.Itf

open Utf16 Collections Decimal Json

/-! ## The grammar -/

mutual

/-- No object of a tree repeats a key, and no object or array has more than `limit` entries. -/
def Bounded (limit : Int) : JsonElement → Prop
  | .object fields => (fields.length : Int) ≤ limit ∧ (fields.map Prod.fst).Nodup ∧ BoundedFields limit fields
  | .array items => (items.length : Int) ≤ limit ∧ BoundedItems limit items
  | _ => True

/-- All of some trees are bounded. -/
def BoundedItems (limit : Int) : List JsonElement → Prop
  | [] => True
  | item :: items => Bounded limit item ∧ BoundedItems limit items

/-- The trees of some fields are. -/
def BoundedFields (limit : Int) : List (UString × JsonElement) → Prop
  | [] => True
  | (_, field) :: fields => Bounded limit field ∧ BoundedFields limit fields

end

/-- A map entry as the sequence of its key and its value. -/
def pair (e : ItfValue × ItfValue) : ItfValue := .sequence [e.1, e.2]

/-- What may be bound to a variable, and the value that it denotes. -/
inductive Denotes : JsonElement → ItfValue → Prop
  | null : Denotes .null .null
  | boolean (b : Bool) : Denotes (.boolean b) (.boolean b)
  | text (s : UString) : Denotes (.string s) (.text s)
  | number {raw : UString} {n : Int} : parseInteger raw = some n → Denotes (.number raw) (.integer n)
  | bigint {s : UString} {n : Int} : parseInteger s = some n →
      Denotes (.object [(lit "#bigint", .string s)]) (.integer n)
  | sequence {items : List JsonElement} {xs : List ItfValue} : List.Forall₂ Denotes items xs →
      Denotes (.array items) (.sequence xs)
  | tuple {items : List JsonElement} {xs : List ItfValue} : List.Forall₂ Denotes items xs →
      Denotes (.object [(lit "#tup", .array items)]) (.tuple xs)
  | set {items : List JsonElement} {xs : List ItfValue} : List.Forall₂ Denotes items xs →
      (xs.Pairwise fun x y => ¬ ItfEquiv x y) → Denotes (.object [(lit "#set", .array items)]) (.set xs)
  | map {items : List JsonElement} {es : List (ItfValue × ItfValue)} :
      List.Forall₂ Denotes items (es.map pair) →
      ((es.map Prod.fst).Pairwise fun k l => ¬ ItfEquiv k l) → Denotes (.object [(lit "#map", .array items)]) (.map es)
  | record {fields : List (UString × JsonElement)} {fs : List (UString × ItfValue)} :
      (∀ f ∈ fields, startsWithHash f.1 = false) → fields.map Prod.fst = fs.map Prod.fst →
      List.Forall₂ Denotes (fields.map Prod.snd) (fs.map Prod.snd) → Denotes (.object fields) (.record fs)

/-- What the members of the state at position `i` say about the variables `names`. -/
structure StateOf (names : List UString) (i : Nat) (members : List (UString × JsonElement))
    (bindings : List (UString × ItfValue)) : Prop where
  /-- the keys other than `#meta` are the variables -/
  keys : ∀ name, name ∈ members.map Prod.fst ∧ name ≠ lit "#meta" ↔ name ∈ names
  index : ∀ metadata, (lit "#meta", metadata) ∈ members →
    ∃ fields raw, metadata = .object fields ∧ (lit "index", .number raw) ∈ fields ∧ parseInteger raw = some (i : Int)
  bound : List.Forall₂ (fun name b => b.1 = name ∧ ∃ field, (name, field) ∈ members ∧ Denotes field b.2) names bindings

/-- What the members of the root say: the states are `items`, and the document is `document`. -/
structure DocumentOf (limits : ItfLimits) (members : List (UString × JsonElement)) (items : List JsonElement)
    (document : ItfDocument) : Prop where
  keys : ∀ name ∈ members.map Prod.fst, name = lit "#meta" ∨ name = lit "vars" ∨ name = lit "states"
  metadata : ∀ metadata, (lit "#meta", metadata) ∈ members →
    ∃ fields, metadata = .object fields ∧ (lit "format", .string "ITF") ∈ fields
  vars : (lit "vars", .array (document.variableNames.map .string)) ∈ members
  someVariable : document.variableNames ≠ []
  distinctVariables : document.variableNames.Nodup
  variableName : ∀ name ∈ document.variableNames, isNullOrWhiteSpace (some name) = false ∧ startsWithHash name = false
  states : (lit "states", .array items) ∈ members
  someState : 1 ≤ items.length
  statesBounded : (items.length : Int) ≤ limits.maxStates
  stateCount : items.length = document.states.length
  state : ∀ i state bindings, items[i]? = some state → document.states[i]? = some bindings →
    ∃ fields, state = .object fields ∧ StateOf document.variableNames i fields bindings

/-- The strings that are decoded, among those of a document whose states are `items`, are well-formed
    Unicode; no other string is looked at. -/
structure Legible (items : List JsonElement) (document : ItfDocument) : Prop where
  variableName : ∀ name ∈ document.variableNames, validUnicode name = true
  bound : ∀ fields, .object fields ∈ items → ∀ name ∈ document.variableNames, ∀ field, (name, field) ∈ fields →
    WellFormed field

/-- Limits are positive; their fields are 32-bit integers. -/
structure Positive (limits : ItfLimits) : Prop where
  maxBytes : 0 < limits.maxBytes
  maxDepth : 0 < limits.maxDepth
  maxStates : 0 < limits.maxStates
  maxCollection : 0 < limits.maxCollection
  int32 : limits.maxStates < 2 ^ 31

/-! ## Keys and sizes -/

/-- `BoundedItems`, item by item. -/
theorem boundedItems_iff {limit : Int} : ∀ {items : List JsonElement},
    BoundedItems limit items ↔ ∀ item ∈ items, Bounded limit item
  | [] => by simp [BoundedItems]
  | item :: items => by simp [BoundedItems, @boundedItems_iff limit items]

/-- `BoundedFields`, field by field. -/
theorem boundedFields_iff {limit : Int} : ∀ {fields : List (UString × JsonElement)},
    BoundedFields limit fields ↔ ∀ f ∈ fields, Bounded limit f.2
  | [] => by simp [BoundedFields]
  | (name, field) :: fields => by simp [BoundedFields, @boundedFields_iff limit fields]

section Check

variable {limits : ItfLimits}

mutual

/-- The walk over the tree comes back exactly when the tree is bounded and its names can be read. -/
theorem check_eq_ok_iff : ∀ {j : JsonElement} {path : UString},
    check limits path j = .ok () ↔ WellNamed j ∧ Bounded limits.maxCollection j
  | .null, _ => by simp [check, WellNamed, Bounded, pure, Except.pure]
  | .boolean _, _ => by simp [check, WellNamed, Bounded, pure, Except.pure]
  | .string _, _ => by simp [check, WellNamed, Bounded, pure, Except.pure]
  | .number _, _ => by simp [check, WellNamed, Bounded, pure, Except.pure]
  | .array items, path => by
    rw [check, guard_eq_ok_iff, checkItems_eq_ok_iff, WellNamed, Bounded, not_lt]
    exact and_left_comm
  | .object fields, path => by
    rw [check, guard_eq_ok_iff, checkFields_eq_ok_iff, WellNamed, Bounded, not_lt]
    constructor
    · rintro ⟨hlength, hnamed, _, hnodup, hbounded⟩
      exact ⟨hnamed, hlength, hnodup, hbounded⟩
    · rintro ⟨hnamed, hlength, hnodup, hbounded⟩
      exact ⟨hlength, hnamed, fun _ _ => List.not_mem_nil, hnodup, hbounded⟩

/-- The items of an array pass `check` when each of them does. -/
theorem checkItems_eq_ok_iff : ∀ {items : List JsonElement} {path : UString} {index : Nat},
    checkItems limits path index items = .ok () ↔ WellNamedItems items ∧
    BoundedItems limits.maxCollection items
  | [], _, _ => by simp [checkItems, WellNamedItems, BoundedItems, pure, Except.pure]
  | item :: items, path, index => by
    rw [checkItems, bind_eq_ok, BoundedItems, WellNamedItems]
    constructor
    · rintro ⟨_, hitem, hitems⟩
      have hitem := check_eq_ok_iff.mp hitem
      have hitems := checkItems_eq_ok_iff.mp hitems
      exact ⟨⟨hitem.1, hitems.1⟩, hitem.2, hitems.2⟩
    · rintro ⟨⟨hitem, hitems⟩, hitem', hitems'⟩
      exact ⟨(), check_eq_ok_iff.mpr ⟨hitem, hitem'⟩, checkItems_eq_ok_iff.mpr ⟨hitems, hitems'⟩⟩

/-- The names seen before are `names`. -/
theorem checkFields_eq_ok_iff :
    ∀ {fields : List (UString × JsonElement)} {path : UString} {names : List UString},
    checkFields limits path names fields = .ok () ↔ WellNamedMembers fields ∧
      (∀ name ∈ fields.map Prod.fst, name ∉ names) ∧ (fields.map Prod.fst).Nodup ∧
        BoundedFields limits.maxCollection fields
  | [], _, _ => by simp [checkFields, WellNamedMembers, BoundedFields, pure, Except.pure]
  | (name, field) :: fields, path, names => by
    rw [checkFields, propertyName_bind_eq_ok, guard_eq_ok_iff, bind_eq_ok, BoundedFields,
      WellNamedMembers, List.map_cons, List.nodup_cons]
    simp only [List.mem_cons, forall_eq_or_imp]
    constructor
    · rintro ⟨hvalid, hname, _, hfield, hfields⟩
      have hfield := check_eq_ok_iff.mp hfield
      obtain ⟨hnamed, hnames, hnodup, hbounded⟩ := checkFields_eq_ok_iff.mp hfields
      refine ⟨⟨hvalid, hfield.1, hnamed⟩, ⟨hname, fun n hn => ?_⟩, ⟨fun hm => ?_, hnodup⟩,
        hfield.2, hbounded⟩
      · exact fun hmem => hnames n hn (List.mem_cons_of_mem _ hmem)
      · exact hnames name hm List.mem_cons_self
    · rintro ⟨⟨hvalid, hnamed, hnameds⟩, ⟨hname, hnames⟩, ⟨hfresh, hnodup⟩, hfield, hbounded⟩
      refine ⟨hvalid, hname, (), check_eq_ok_iff.mpr ⟨hnamed, hfield⟩,
        checkFields_eq_ok_iff.mpr ⟨hnameds, fun n hn hmem => ?_, hnodup, hbounded⟩⟩
      rcases List.mem_cons.mp hmem with rfl | hmem
      · exact hfresh hn
      · exact hnames n hn hmem

end

end Check

/-! ## Bound values -/

/-- **What an object with one field denotes**: one of the tagged forms, or a record. -/
theorem denotes_single_iff {name : UString} {field : JsonElement} {v : ItfValue} :
    Denotes (.object [(name, field)]) v ↔
      (name = lit "#bigint" ∧ ∃ s n, field = .string s ∧ parseInteger s = some n ∧ v = .integer n) ∨
      (name = lit "#tup" ∧ ∃ items xs, field = .array items ∧ List.Forall₂ Denotes items xs ∧
        v = .tuple xs) ∨
      (name = lit "#set" ∧ ∃ items xs, field = .array items ∧ List.Forall₂ Denotes items xs ∧
        (xs.Pairwise fun x y => ¬ ItfEquiv x y) ∧ v = .set xs) ∨
      (name = lit "#map" ∧ ∃ items es, field = .array items ∧
        List.Forall₂ Denotes items (es.map pair) ∧
        ((es.map Prod.fst).Pairwise fun k l => ¬ ItfEquiv k l) ∧ v = .map es) ∨
      (startsWithHash name = false ∧ ∃ x, Denotes field x ∧ v = .record [(name, x)]) := by
  constructor
  · intro h
    cases h with
    | bigint hn => exact .inl ⟨rfl, _, _, rfl, hn, rfl⟩
    | tuple hxs => exact .inr (.inl ⟨rfl, _, _, rfl, hxs, rfl⟩)
    | set hxs hpw => exact .inr (.inr (.inl ⟨rfl, _, _, rfl, hxs, hpw, rfl⟩))
    | map hes hpw => exact .inr (.inr (.inr (.inl ⟨rfl, _, _, rfl, hes, hpw, rfl⟩)))
    | @record _ fs hhash hnames hvalues =>
      refine .inr (.inr (.inr (.inr ⟨hhash _ List.mem_cons_self, ?_⟩)))
      match fs, hnames, hvalues with
      | [(n, x)], hnames, .cons hx .nil =>
        have hname : name = n := (List.cons.inj hnames).1
        exact ⟨x, hx, by rw [hname]⟩
  · rintro (⟨rfl, s, n, rfl, hn, rfl⟩ | ⟨rfl, items, xs, rfl, hxs, rfl⟩ |
      ⟨rfl, items, xs, rfl, hxs, hpw, rfl⟩ |
      ⟨rfl, items, es, rfl, hes, hpw, rfl⟩ | ⟨hhash, x, hx, rfl⟩)
    · exact .bigint hn
    · exact .tuple hxs
    · exact .set hxs hpw
    · exact .map hes hpw
    · refine .record (fun f hf => ?_) rfl (.cons hx .nil)
      rw [List.mem_singleton.mp hf]
      exact hhash

/-- An object that has not exactly one member can only be a record. -/
theorem denotes_object_iff {fields : List (UString × JsonElement)} {v : ItfValue}
    (h : fields.length ≠ 1) :
    Denotes (.object fields) v ↔ (∀ f ∈ fields, startsWithHash f.1 = false) ∧
      ∃ fs, fields.map Prod.fst = fs.map Prod.fst ∧
        List.Forall₂ Denotes (fields.map Prod.snd) (fs.map Prod.snd) ∧ v = .record fs := by
  constructor
  · intro hd
    cases hd with
    | record hhash hnames hvalues => exact ⟨hhash, _, hnames, hvalues, rfl⟩
    | bigint | tuple | set | map => exact absurd rfl h
  · rintro ⟨hhash, fs, hnames, hvalues, rfl⟩
    exact .record hhash hnames hvalues

/-- Entries whose pairs can be produced. -/
theorem producedEntries_of_items :
    ∀ {es : List (ItfValue × ItfValue)}, ProducedItems (es.map pair) → ProducedEntries es
  | [], _ => trivial
  | (k, v) :: es, h => by
    have hpair : ProducedItems [k, v] := h.1
    exact ⟨hpair.1, hpair.2.1, producedEntries_of_items h.2⟩

section Produced

variable {limit : Int}

mutual

/-- What a tree denotes is a value of the kind that has a canonical text. -/
theorem produced_of_denotes :
    ∀ {j : JsonElement} {v : ItfValue}, Denotes j v → WellFormed j → Bounded limit j →
    Produced v
  | .null, _, .null, _, _ => trivial
  | .boolean _, _, .boolean _, _, _ => trivial
  | .string _, _, .text _, hs, _ => hs
  | .number _, _, .number _, _, _ => trivial
  | .array items, _, .sequence hxs, hs, hb => producedItems_of_denotes hxs hs hb.2
  | .object [], v, h, _, _ => by
    obtain ⟨_, fs, hnames, _, rfl⟩ := (denotes_object_iff (by simp)).mp h
    rw [List.map_eq_nil_iff.mp hnames.symm]
    exact ⟨List.nodup_nil, trivial⟩
  | .object [(name, field)], v, h, hs, hb => by
    rcases denotes_single_iff.mp h with ⟨_, s, n, _, _, rfl⟩ | ⟨_, items, xs, hf, hxs, rfl⟩ |
      ⟨_, items, xs, hf, hxs, hpw, rfl⟩ | ⟨_, items, es, hf, hes, hpw, rfl⟩ | ⟨hhash, x, hx, rfl⟩
    · trivial
    · exact producedItems_of_array hf hxs hs.2.1 hb.2.2.1
    · exact ⟨producedItems_of_array hf hxs hs.2.1 hb.2.2.1, hpw⟩
    · exact ⟨producedEntries_of_items (producedItems_of_array hf hes hs.2.1 hb.2.2.1), hpw⟩
    · exact ⟨List.nodup_singleton _, ⟨hhash, hs.1⟩, produced_of_denotes hx hs.2.1 hb.2.2.1, trivial⟩
  | .object (f :: g :: fields), v, h, hs, hb => by
    obtain ⟨hhash, fs, hnames, hvalues, rfl⟩ := (denotes_object_iff (by simp)).mp h
    refine ⟨hnames ▸ hb.2.1, producedFields_of_denotes hhash hnames hvalues hs hb.2.2⟩

/-- What the items of an array denote can be produced. -/
theorem producedItems_of_array :
    ∀ {j : JsonElement} {items : List JsonElement} {xs : List ItfValue},
    j = .array items → List.Forall₂ Denotes items xs → WellFormed j → Bounded limit j →
    ProducedItems xs
  | .array items, _, _, rfl, hxs, hs, hb => producedItems_of_denotes hxs hs hb.2

/-- The same for a list of trees. -/
theorem producedItems_of_denotes : ∀ {items : List JsonElement} {xs : List ItfValue},
    List.Forall₂ Denotes items xs → WellFormedItems items → BoundedItems limit items →
    ProducedItems xs
  | [], _, .nil, _, _ => trivial
  | item :: items, _, .cons hx hxs, hs, hb =>
    ⟨produced_of_denotes hx hs.1 hb.1, producedItems_of_denotes hxs hs.2 hb.2⟩

/-- And for the fields of an object without tags. -/
theorem producedFields_of_denotes :
    ∀ {fields : List (UString × JsonElement)} {fs : List (UString × ItfValue)},
    (∀ f ∈ fields, startsWithHash f.1 = false) → fields.map Prod.fst = fs.map Prod.fst →
    List.Forall₂ Denotes (fields.map Prod.snd) (fs.map Prod.snd) → WellFormedMembers fields →
    BoundedFields limit fields → ProducedFields fs
  | [], [], _, _, _, _, _ => trivial
  | (name, field) :: fields, (name', x) :: fs, hhash, hnames, .cons hx hxs, hs, hb => by
    obtain ⟨hname, hnames⟩ := List.cons.inj hnames
    have hvalid : startsWithHash name' = false ∧ validUnicode name' = true := by
      rw [← show name = name' from hname]
      exact ⟨hhash _ List.mem_cons_self, hs.1⟩
    exact ⟨hvalid, produced_of_denotes hx hs.2.1 hb.1,
      producedFields_of_denotes (fun f hf => hhash f (List.mem_cons_of_mem _ hf))
        hnames hxs hs.2.2 hb.2⟩

end

end Produced

/-- Members of a collection are unique when no two of them are equivalent. -/
theorem unique_eq_ok_iff {path : UString} {xs ys : List ItfValue} (h : ProducedItems xs) :
    unique path xs = .ok ys ↔ (xs.Pairwise fun x y => ¬ ItfEquiv x y) ∧ ys = xs := by
  rw [← nodup_canonical_iff h, ← length_distinct_eq_iff, List.length_map, unique]
  by_cases hlen : (distinct (xs.map canonical)).length = xs.length
  · rw [if_neg (not_not.mpr hlen)]
    exact ⟨fun hxs => ⟨hlen, (Except.ok.inj hxs).symm⟩, fun hxs => congrArg Except.ok hxs.2.symm⟩
  · rw [if_pos hlen]
    exact ⟨(nomatch ·), fun hxs => absurd hxs.1 hlen⟩

/-- A literal is read as the integer that it denotes. -/
theorem integer_eq_ok_iff {path s : UString} {v : ItfValue} :
    integer path s = .ok v ↔ ∃ n, parseInteger s = some n ∧ v = .integer n := by
  rw [integer]
  cases hn : parseInteger s with
  | none => exact ⟨(nomatch ·), fun ⟨n, h, _⟩ => nomatch h⟩
  | some n =>
    exact ⟨fun h => ⟨n, rfl, (Except.ok.inj h).symm⟩,
      fun ⟨m, hm, hv⟩ => by rw [hv, ← Option.some.inj hm]; rfl⟩

/-- A map entry is read from a sequence of two. -/
theorem entry_eq_ok_iff {path : UString} {x : ItfValue} {e : ItfValue × ItfValue} :
    entry path x = .ok e ↔ x = pair e := by
  constructor
  · intro h
    match x, h with
    | .sequence [k, v], h => rw [← Except.ok.inj h]; rfl
  · rintro rfl
    rfl

/-- A map is read from pairs with distinct keys. -/
theorem entries_eq_ok_iff {path : UString} {xs : List ItfValue} {v : ItfValue}
    (h : ProducedItems xs) :
    entries path xs = .ok v ↔
      ∃ es, xs = es.map pair ∧ ((es.map Prod.fst).Pairwise fun k l => ¬ ItfEquiv k l) ∧
        v = .map es := by
  have hentries : ∀ es, xs.mapM (entry path) = .ok es ↔ xs = es.map pair := by
    intro es
    rw [mapM_eq_ok_iff]
    simp only [entry_eq_ok_iff]
    rw [← List.forall₂_map_right_iff, List.forall₂_eq_eq_eq]
  have hkeys : ∀ es : List (ItfValue × ItfValue), xs = es.map pair →
      ProducedItems (es.map Prod.fst) := by
    rintro es rfl
    refine producedItems_iff.mpr fun k hk => ?_
    obtain ⟨e, he, rfl⟩ := List.mem_map.mp hk
    exact (producedItems_iff.mp h _ (List.mem_map_of_mem he)).1
  rw [entries, bind_eq_ok]
  constructor
  · rintro ⟨es, hes, hrest⟩
    have hes := (hentries es).mp hes
    obtain ⟨_, hunique, hv⟩ := bind_eq_ok.mp hrest
    exact ⟨es, hes, ((unique_eq_ok_iff (hkeys es hes)).mp hunique).1, (Except.ok.inj hv).symm⟩
  · rintro ⟨es, hes, hpw, rfl⟩
    exact ⟨es, (hentries es).mpr hes,
      bind_eq_ok.mpr ⟨_, (unique_eq_ok_iff (hkeys es hes)).mpr ⟨hpw, rfl⟩, rfl⟩⟩

/-- The form `#bigint` wants a string. -/
theorem bigint_eq_some_iff {name s : UString} {field : JsonElement} :
    bigint name field = some s ↔ name = lit "#bigint" ∧ field = .string s := by
  cases field with
  | string t =>
    rw [bigint]
    by_cases h : name = lit "#bigint"
    · simp [h]
    · simp [h]
  | _ => simp [bigint]

section Object

variable {limit : Int} {name : UString} {field : JsonElement} {path : UString} {v : ItfValue}

/-- What `#bigint` denotes. -/
theorem denotes_bigint_iff {s : UString} :
    Denotes (.object [(lit "#bigint", .string s)]) v ↔ ∃ n, parseInteger s = some n ∧ v = .integer n := by
  rw [denotes_single_iff]
  constructor
  · rintro (⟨_, _, n, hf, hn, hv⟩ | ⟨htag, _⟩ | ⟨htag, _⟩ | ⟨htag, _⟩ | ⟨htag, _⟩)
    · exact ⟨n, JsonElement.string.inj hf ▸ hn, hv⟩
    all_goals exact absurd htag (by decide)
  · rintro ⟨n, hn, hv⟩
    exact .inl ⟨rfl, s, n, rfl, hn, hv⟩

/-- What `#set` denotes: the members are distinct up to equivalence. -/
theorem denotes_set_iff :
    Denotes (.object [(lit "#set", field)]) v ↔
      ∃ items xs, field = .array items ∧ List.Forall₂ Denotes items xs ∧
        (xs.Pairwise fun x y => ¬ ItfEquiv x y) ∧ v = .set xs := by
  rw [denotes_single_iff]
  constructor
  · rintro (⟨htag, _⟩ | ⟨htag, _⟩ | ⟨_, h⟩ | ⟨htag, _⟩ | ⟨htag, _⟩)
    · exact absurd htag (by decide)
    · exact absurd htag (by decide)
    · exact h
    all_goals exact absurd htag (by decide)
  · intro h
    exact .inr (.inr (.inl ⟨rfl, h⟩))

/-- What `#tup` denotes. -/
theorem denotes_tuple_iff :
    Denotes (.object [(lit "#tup", field)]) v ↔
      ∃ items xs, field = .array items ∧ List.Forall₂ Denotes items xs ∧ v = .tuple xs := by
  rw [denotes_single_iff]
  constructor
  · rintro (⟨htag, _⟩ | ⟨_, h⟩ | ⟨htag, _⟩ | ⟨htag, _⟩ | ⟨htag, _⟩)
    · exact absurd htag (by decide)
    · exact h
    all_goals exact absurd htag (by decide)
  · intro h
    exact .inr (.inl ⟨rfl, h⟩)

/-- What `#map` denotes: the keys are distinct up to equivalence. -/
theorem denotes_map_iff :
    Denotes (.object [(lit "#map", field)]) v ↔
      ∃ items es, field = .array items ∧ List.Forall₂ Denotes items (es.map pair) ∧
        ((es.map Prod.fst).Pairwise fun k l => ¬ ItfEquiv k l) ∧ v = .map es := by
  rw [denotes_single_iff]
  constructor
  · rintro (⟨htag, _⟩ | ⟨htag, _⟩ | ⟨htag, _⟩ | ⟨_, h⟩ | ⟨htag, _⟩)
    · exact absurd htag (by decide)
    · exact absurd htag (by decide)
    · exact absurd htag (by decide)
    · exact h
    · exact absurd htag (by decide)
  · intro h
    exact .inr (.inr (.inr (.inl ⟨rfl, h⟩)))

/-- Under any other name, or for a `#bigint` that is no string, only a record is left. -/
theorem denotes_field_iff (hbigint : bigint name field = none) (hset : name ≠ lit "#set")
    (htup : name ≠ lit "#tup") (hmap : name ≠ lit "#map") :
    Denotes (.object [(name, field)]) v ↔
      startsWithHash name = false ∧ ∃ x, Denotes field x ∧ v = .record [(name, x)] := by
  rw [denotes_single_iff]
  constructor
  · rintro (⟨hname, s, n, hf, _⟩ | ⟨htag, _⟩ | ⟨htag, _⟩ | ⟨htag, _⟩ | h)
    · rw [bigint_eq_some_iff.mpr ⟨hname, hf⟩] at hbigint
      cases hbigint
    · exact absurd htag htup
    · exact absurd htag hset
    · exact absurd htag hmap
    · exact h
  · intro h
    exact .inr (.inr (.inr (.inr h)))

section Single

-- the items of the field are decoded as the grammar says
variable (hb : Bounded limit field)
  (hitems : ∀ path xs, values path field = .ok xs ↔
    WellFormed field ∧ ∃ items, field = .array items ∧ List.Forall₂ Denotes items xs)
include hb hitems

/-- What the items of a tagged form are read as can be produced. -/
theorem produced_values {xs : List ItfValue} (h : values path field = .ok xs) :
    ProducedItems xs := by
  obtain ⟨hwell, items, hf, hxs⟩ := (hitems path xs).mp h
  exact producedItems_of_array hf hxs hwell hb

/-- A `#set` is read exactly as what it denotes. -/
theorem set_eq_ok_iff :
    (do return ItfValue.set (← unique path (← values path field)) : Outcome ItfValue) = .ok v ↔
      WellFormed field ∧ Denotes (.object [(lit "#set", field)]) v := by
  rw [denotes_set_iff, bind_eq_ok]
  constructor
  · rintro ⟨xs, hxs, h⟩
    obtain ⟨ys, hys, hv⟩ := bind_eq_ok.mp h
    obtain ⟨hpw, rfl⟩ := (unique_eq_ok_iff (produced_values hb hitems hxs)).mp hys
    obtain ⟨hwell, items, hf, hdenotes⟩ := (hitems _ _).mp hxs
    exact ⟨hwell, items, ys, hf, hdenotes, hpw, (Except.ok.inj hv).symm⟩
  · rintro ⟨hwell, items, xs, hf, hdenotes, hpw, rfl⟩
    have hxs := (hitems path xs).mpr ⟨hwell, items, hf, hdenotes⟩
    have hunique : unique path xs = .ok xs :=
      (unique_eq_ok_iff (produced_values hb hitems hxs)).mpr ⟨hpw, rfl⟩
    exact ⟨xs, hxs, bind_eq_ok.mpr ⟨xs, hunique, rfl⟩⟩

omit hb in
/-- And so is a `#tup`. -/
theorem tuple_eq_ok_iff :
    (do return ItfValue.tuple (← values path field) : Outcome ItfValue) = .ok v ↔
      WellFormed field ∧ Denotes (.object [(lit "#tup", field)]) v := by
  rw [denotes_tuple_iff, bind_eq_ok]
  constructor
  · rintro ⟨xs, hxs, h⟩
    obtain ⟨hwell, items, hf, hdenotes⟩ := (hitems _ _).mp hxs
    exact ⟨hwell, items, xs, hf, hdenotes, (Except.ok.inj h).symm⟩
  · rintro ⟨hwell, items, xs, hf, hdenotes, rfl⟩
    exact ⟨xs, (hitems path xs).mpr ⟨hwell, items, hf, hdenotes⟩, rfl⟩

/-- And a `#map`. -/
theorem map_eq_ok_iff :
    (do entries path (← values path field) : Outcome ItfValue) = .ok v ↔
      WellFormed field ∧ Denotes (.object [(lit "#map", field)]) v := by
  rw [denotes_map_iff, bind_eq_ok]
  constructor
  · rintro ⟨xs, hxs, h⟩
    obtain ⟨es, rfl, hpw, hv⟩ := (entries_eq_ok_iff (produced_values hb hitems hxs)).mp h
    obtain ⟨hwell, items, hf, hdenotes⟩ := (hitems _ _).mp hxs
    exact ⟨hwell, items, es, hf, hdenotes, hpw, hv⟩
  · rintro ⟨hwell, items, es, hf, hdenotes, hpw, rfl⟩
    have hxs := (hitems path (es.map pair)).mpr ⟨hwell, items, hf, hdenotes⟩
    exact ⟨_, hxs, (entries_eq_ok_iff (produced_values hb hitems hxs)).mpr ⟨es, rfl, hpw, rfl⟩⟩

/-- An object with one member: the tags are told apart by its name. -/
theorem single_eq_ok_iff
    (hfield : ∀ path v, value path field = .ok v ↔ WellFormed field ∧ Denotes field v) :
    value path (.object [(name, field)]) = .ok v ↔
      WellFormed (.object [(name, field)]) ∧ Denotes (.object [(name, field)]) v := by
  have hwellFormed : WellFormed (.object [(name, field)]) ↔
      validUnicode name = true ∧ WellFormed field := by
    simp only [WellFormed, WellFormedMembers, and_true]
  rw [value, propertyName_bind_eq_ok, hwellFormed, and_assoc]
  refine and_congr_right fun _ => ?_
  cases hbigint : bigint name field with
  | some s =>
    obtain ⟨rfl, rfl⟩ := bigint_eq_some_iff.mp hbigint
    rw [denotes_bigint_iff]
    simp only [stringText_bind_eq_ok, integer_eq_ok_iff, WellFormed]
  | none =>
    by_cases hset : name = lit "#set"
    · subst hset
      rw [if_pos rfl]
      exact set_eq_ok_iff hb hitems
    rw [if_neg hset]
    by_cases htup : name = lit "#tup"
    · subst htup
      rw [if_pos rfl]
      exact tuple_eq_ok_iff hitems
    rw [if_neg htup]
    by_cases hmap : name = lit "#map"
    · subst hmap
      rw [if_pos rfl]
      exact map_eq_ok_iff hb hitems
    rw [if_neg hmap, denotes_field_iff hbigint hset htup hmap]
    by_cases hhash : startsWithHash name = true
    · rw [if_pos hhash]
      constructor
      · intro h
        cases h
      · rintro ⟨_, hfree, _⟩
        rw [hhash] at hfree
        cases hfree
    · rw [if_neg hhash, bind_eq_ok]
      constructor
      · rintro ⟨x, hx, h⟩
        obtain ⟨hwell, hdenotes⟩ := (hfield _ _).mp hx
        exact ⟨hwell, Bool.eq_false_iff.mpr hhash, x, hdenotes, (Except.ok.inj h).symm⟩
      · rintro ⟨hwell, _, x, hx, rfl⟩
        exact ⟨x, (hfield _ _).mpr ⟨hwell, hx⟩, rfl⟩

end Single

/-- An object with several members is a record. -/
theorem members_eq_ok_iff {f g : UString × JsonElement} {fields : List (UString × JsonElement)}
    (hfields : ∀ fs, valueFields path (f :: g :: fields) = .ok fs ↔
      WellFormedMembers (f :: g :: fields) ∧
      (f :: g :: fields).map Prod.fst = fs.map Prod.fst ∧
      List.Forall₂ Denotes ((f :: g :: fields).map Prod.snd) (fs.map Prod.snd)) :
    value path (.object (f :: g :: fields)) = .ok v ↔
      WellFormed (.object (f :: g :: fields)) ∧ Denotes (.object (f :: g :: fields)) v := by
  rw [denotes_object_iff (by simp), value, bind_eq_ok]
  · constructor
    · rintro ⟨found, hnames, h⟩
      obtain ⟨hfound, h⟩ := guard_eq_ok_iff.mp h
      obtain ⟨fs, hfs, hv⟩ := bind_eq_ok.mp h
      obtain ⟨hwell, hmap, hvalues⟩ := (hfields fs).mp hfs
      rw [Bool.not_eq_true] at hfound
      have hnames := existsHashName_eq_false_iff.mp (hfound ▸ hnames)
      exact ⟨hwell, fun m hm => (hnames m hm).2, fs, hmap, hvalues, (Except.ok.inj hv).symm⟩
    · rintro ⟨hwell, hhash, fs, hmap, hvalues, rfl⟩
      have hnames : existsHashName (f :: g :: fields) = .ok false :=
        existsHashName_eq_false_iff.mpr fun m hm =>
          ⟨(wellFormedMembers_iff.mp hwell m hm).1, hhash m hm⟩
      refine ⟨false, hnames, guard_eq_ok_iff.mpr ⟨Bool.false_ne_true, ?_⟩⟩
      exact bind_eq_ok.mpr ⟨fs, (hfields fs).mpr ⟨hwell, hmap, hvalues⟩, rfl⟩
  · intro name field h
    cases h

end Object

section Value

variable {limit : Int}

mutual

/-- **A bound value is decoded exactly when the grammar allows it and its strings can be read**, and to
    what it denotes. -/
theorem value_eq_ok_iff : ∀ {j : JsonElement} {path : UString} {v : ItfValue}, Bounded limit j →
    (value path j = .ok v ↔ WellFormed j ∧ Denotes j v)
  | .null, path, v, _ => by
    rw [value]
    constructor
    · intro h
      exact ⟨trivial, Except.ok.inj h ▸ .null⟩
    · rintro ⟨_, h⟩
      cases h
      rfl
  | .boolean b, path, v, _ => by
    rw [value]
    constructor
    · intro h
      exact ⟨trivial, Except.ok.inj h ▸ .boolean b⟩
    · rintro ⟨_, h⟩
      cases h
      rfl
  | .string s, path, v, _ => by
    rw [value, stringText_bind_eq_ok, WellFormed]
    refine and_congr_right fun _ => ?_
    constructor
    · intro h
      exact Except.ok.inj h ▸ .text s
    · intro h
      cases h
      rfl
  | .number raw, path, v, _ => by
    rw [value, integer_eq_ok_iff]
    constructor
    · rintro ⟨n, hn, rfl⟩
      exact ⟨trivial, .number hn⟩
    · rintro ⟨_, h⟩
      cases h with
      | number hn => exact ⟨_, hn, rfl⟩
  | .array items, path, v, hb => by
    rw [value, bind_eq_ok]
    constructor
    · rintro ⟨xs, hxs, h⟩
      obtain ⟨hwell, hdenotes⟩ := (valuesFrom_eq_ok_iff hb.2).mp hxs
      rw [← Except.ok.inj h]
      exact ⟨hwell, .sequence hdenotes⟩
    · rintro ⟨hwell, h⟩
      cases h with
      | sequence hxs => exact ⟨_, (valuesFrom_eq_ok_iff hb.2).mpr ⟨hwell, hxs⟩, rfl⟩
  | .object [], path, v, _ => by
    rw [denotes_object_iff (by simp)]
    constructor
    · intro h
      exact ⟨trivial, fun f hf => absurd hf List.not_mem_nil, [], rfl, .nil, (Except.ok.inj h).symm⟩
    · rintro ⟨_, _, fs, hnames, _, rfl⟩
      rw [List.map_eq_nil_iff.mp hnames.symm]
      rfl
  | .object [(name, field)], path, v, hb =>
    single_eq_ok_iff hb.2.2.1 (fun path xs => @values_eq_ok_iff field path xs hb.2.2.1)
      fun path v => @value_eq_ok_iff field path v hb.2.2.1
  | .object (f :: g :: fields), path, v, hb =>
    members_eq_ok_iff fun fs => @valueFields_eq_ok_iff (f :: g :: fields) path fs hb.2.2

/-- The items of a tagged form, which has to be an array. -/
theorem values_eq_ok_iff :
    ∀ {j : JsonElement} {path : UString} {xs : List ItfValue}, Bounded limit j →
    (values path j = .ok xs ↔ WellFormed j ∧ ∃ items, j = .array items ∧
      List.Forall₂ Denotes items xs)
  | .array items, path, xs, hb => by
    rw [values, valuesFrom_eq_ok_iff hb.2]
    refine and_congr_right fun _ => ?_
    exact ⟨fun h => ⟨items, rfl, h⟩, fun ⟨_, hi, h⟩ => JsonElement.array.inj hi ▸ h⟩
  | .null, _, _, _ | .boolean _, _, _, _ | .string _, _, _, _ | .number _, _, _,
      _ | .object _, _, _, _ =>
    ⟨(nomatch ·), fun ⟨_, _, hi, _⟩ => nomatch hi⟩

/-- Items are read exactly as what they denote. -/
theorem valuesFrom_eq_ok_iff :
    ∀ {items : List JsonElement} {path : UString} {index : Nat} {xs : List ItfValue},
    BoundedItems limit items →
    (valuesFrom path index items = .ok xs ↔ WellFormedItems items ∧ List.Forall₂ Denotes items xs)
  | [], path, index, xs, _ => by
    rw [valuesFrom, List.forall₂_nil_left_iff]
    exact ⟨fun h => ⟨trivial, (Except.ok.inj h).symm⟩, fun h => congrArg Except.ok h.2.symm⟩
  | item :: items, path, index, xs, hb => by
    rw [valuesFrom, bind_eq_ok]
    constructor
    · rintro ⟨x, hx, h⟩
      obtain ⟨rest, hrest, h⟩ := bind_eq_ok.mp h
      have hx := (value_eq_ok_iff hb.1).mp hx
      have hrest := (valuesFrom_eq_ok_iff hb.2).mp hrest
      rw [← Except.ok.inj h]
      exact ⟨⟨hx.1, hrest.1⟩, .cons hx.2 hrest.2⟩
    · rintro ⟨hwell, h⟩
      cases h with
      | cons hx hrest =>
        exact ⟨_, (value_eq_ok_iff hb.1).mpr ⟨hwell.1, hx⟩,
          bind_eq_ok.mpr ⟨_, (valuesFrom_eq_ok_iff hb.2).mpr ⟨hwell.2, hrest⟩, rfl⟩⟩

/-- And fields, under their names. -/
theorem valueFields_eq_ok_iff : ∀ {fields : List (UString × JsonElement)} {path : UString}
    {fs : List (UString × ItfValue)}, BoundedFields limit fields →
    (valueFields path fields = .ok fs ↔ WellFormedMembers fields ∧
      fields.map Prod.fst = fs.map Prod.fst ∧
      List.Forall₂ Denotes (fields.map Prod.snd) (fs.map Prod.snd))
  | [], path, fs, _ => by
    rw [valueFields]
    constructor
    · intro h
      rw [← Except.ok.inj h]
      exact ⟨trivial, rfl, .nil⟩
    · rintro ⟨_, hnames, _⟩
      rw [List.map_eq_nil_iff.mp hnames.symm]
      rfl
  | (name, field) :: fields, path, fs, hb => by
    rw [valueFields, propertyName_bind_eq_ok, bind_eq_ok]
    constructor
    · rintro ⟨hvalid, x, hx, h⟩
      obtain ⟨rest, hrest, h⟩ := bind_eq_ok.mp h
      have hx := (value_eq_ok_iff hb.1).mp hx
      obtain ⟨hwell, hnames, hvalues⟩ := (valueFields_eq_ok_iff hb.2).mp hrest
      rw [← Except.ok.inj h]
      exact ⟨⟨hvalid, hx.1, hwell⟩, congrArg (name :: ·) hnames, .cons hx.2 hvalues⟩
    · rintro ⟨⟨hvalid, hwell, hwells⟩, hnames, hvalues⟩
      match fs, hnames, hvalues with
      | (name', x) :: fs, hnames, .cons hx hvalues =>
        obtain ⟨hname, hnames⟩ := List.cons.inj hnames
        refine ⟨hvalid, x, (value_eq_ok_iff hb.1).mpr ⟨hwell, hx⟩,
          bind_eq_ok.mpr ⟨fs, (valueFields_eq_ok_iff hb.2).mpr ⟨hwells, hnames, hvalues⟩, ?_⟩⟩
        rw [show name = name' from hname]
        rfl

end

end Value

/-! ## Documents -/

/-- Where no key is repeated, `property` finds the member of the name. -/
theorem property_eq_ok_iff {name : UString} {members : List (UString × JsonElement)}
    {el : JsonElement} (hn : (members.map Prod.fst).Nodup) :
    property name (.object members) = .ok el ↔ (name, el) ∈ members := by
  rw [property, tryGetProperty, ok_bind]
  constructor
  · intro h
    cases hl : lastMember name members with
    | none =>
      rw [hl] at h
      cases h
    | some found =>
      rw [hl] at h
      rw [← Except.ok.inj h]
      exact lastMember_eq_some hl
  · intro h
    rw [lastMember_of_mem hn h]
    rfl

/-- The root has no keys but `#meta`, `vars` and `states`. -/
theorem checkRootFields_eq_ok_iff :
    ∀ {fields : List (UString × JsonElement)}, WellNamedMembers fields →
    (checkRootFields fields = .ok () ↔
      ∀ name ∈ fields.map Prod.fst, name = lit "#meta" ∨ name = lit "vars" ∨ name = lit "states")
  | [], _ => by simp [checkRootFields, pure, Except.pure]
  | (name, field) :: fields, hs => by
    rw [checkRootFields, propertyName_eq hs.1, ok_bind, guard_eq_ok_iff,
      checkRootFields_eq_ok_iff hs.2.2, not_not]
    simp

/-- The metadata, where there are any, name the format. -/
theorem checkMetadata_eq_ok_iff {limit : Int} {members : List (UString × JsonElement)}
    (hb : Bounded limit (.object members)) :
    checkMetadata (.object members) = .ok () ↔ ∀ metadata, (lit "#meta", metadata) ∈ members →
      ∃ fields, metadata = .object fields ∧ (lit "format", .string "ITF") ∈ fields := by
  rw [checkMetadata, tryGetProperty, ok_bind]
  refine check_member_iff hb.2.1 (fun hnone => by rw [hnone]; rfl) fun metadata hl => ?_
  rw [hl]
  have hbm := boundedFields_iff.mp hb.2.2 _ (lastMember_eq_some hl)
  cases metadata with
  | object fields =>
    have hformat := fun el => @property_eq_ok_iff "format" fields el hbm.2.1
    constructor
    · intro h
      obtain ⟨format, hf, h⟩ := bind_eq_ok.mp h
      cases format with
      | string s =>
        obtain ⟨_, h⟩ := stringText_bind_eq_ok.mp h
        have hitf : s = lit "ITF" := by
          by_contra hne
          rw [if_pos hne] at h
          cases h
        exact ⟨fields, rfl, hitf ▸ (hformat _).mp hf⟩
      | _ => cases h
    · rintro ⟨_, hfields, hmem⟩
      obtain rfl := JsonElement.object.inj hfields
      exact bind_eq_ok.mpr ⟨_, (hformat _).mpr hmem, stringText_bind_eq_ok.mpr ⟨by decide, rfl⟩⟩
  | _ => exact ⟨(nomatch ·), fun ⟨_, h, _⟩ => nomatch h⟩

/-- A variable name is a string that is not blank. -/
theorem variableName_eq_ok_iff {item : JsonElement} {name : UString} :
    variableName item = .ok name ↔
      (isNullOrWhiteSpace (some name) = false ∧ validUnicode name = true) ∧
      item = .string name := by
  cases item with
  | string s =>
    rw [variableName, stringText_bind_eq_ok, guard_eq_ok_iff, Bool.not_eq_true]
    constructor
    · rintro ⟨hvalid, hblank, h⟩
      rw [← Except.ok.inj h]
      exact ⟨⟨hblank, hvalid⟩, rfl⟩
    · rintro ⟨⟨hblank, hvalid⟩, h⟩
      rw [JsonElement.string.inj h]
      exact ⟨hvalid, hblank, rfl⟩
  | _ => exact ⟨(nomatch ·), fun h => nomatch h.2⟩

/-- And so for a list of them. -/
theorem variableNames_eq_ok_iff : ∀ {items : List JsonElement} {names : List UString},
    items.mapM variableName = .ok names ↔
      (∀ name ∈ names, isNullOrWhiteSpace (some name) = false ∧ validUnicode name = true) ∧
        items = names.map .string
  | [], names => by
    rw [mapM_eq_ok_iff, List.forall₂_nil_left_iff]
    constructor
    · rintro rfl
      simp
    · rintro ⟨_, h⟩
      exact List.map_eq_nil_iff.mp h.symm
  | item :: items, [] => by
    rw [mapM_eq_ok_iff]
    simp
  | item :: items, name :: names => by
    rw [mapM_eq_ok_iff, List.forall₂_cons, ← mapM_eq_ok_iff, variableName_eq_ok_iff,
      variableNames_eq_ok_iff, List.map_cons, List.cons.injEq, List.forall_mem_cons]
    exact and_and_and_comm

/-- **The variables are accepted exactly when they are in the grammar.** -/
theorem readVariables_eq_ok_iff {vars : JsonElement} {names : List UString} :
    readVariables vars = .ok names ↔ (∀ name ∈ names, validUnicode name = true) ∧
      vars = .array (names.map .string) ∧ names ≠ [] ∧ names.Nodup ∧
      ∀ name ∈ names, isNullOrWhiteSpace (some name) = false ∧ startsWithHash name = false := by
  cases vars with
  | array items =>
    rw [readVariables, bind_eq_ok]
    simp only [variableNames_eq_ok_iff, guard_eq_ok_iff, not_or, not_not]
    have hhash : ∀ names : List UString, ¬ names.any startsWithHash = true ↔
        ∀ name ∈ names, startsWithHash name = false := by
      intro names
      rw [Bool.not_eq_true, List.any_eq_false]
      simp only [Bool.not_eq_true]
    constructor
    · rintro ⟨names', ⟨hnames, rfl⟩, ⟨hne, hhashes, hlength⟩, h⟩
      obtain rfl := Except.ok.inj h
      exact ⟨fun name hname => (hnames name hname).2, rfl, hne,
        length_distinct_eq_iff.mp hlength.symm,
        fun name hname => ⟨(hnames name hname).1, (hhash _).mp hhashes name hname⟩⟩
    · rintro ⟨hvalid, hitems, hne, hnodup, hnames⟩
      exact ⟨names, ⟨fun name hname => ⟨(hnames name hname).1, hvalid name hname⟩,
        JsonElement.array.inj hitems⟩,
        ⟨hne, (hhash _).mpr fun name hname => (hnames name hname).2,
        (length_distinct_eq_iff.mpr hnodup).symm⟩, rfl⟩
  | _ => exact ⟨(nomatch ·), fun h => nomatch h.2.1⟩

/-- `TryGetInt32` reads an index from a number without fraction or exponent. -/
theorem tryGetInt32_eq {el : JsonElement} {i : Nat} (hi : (i : Int) < 2 ^ 31) :
    tryGetInt32 el = .ok (some (i : Int)) ↔ ∃ raw, el = .number raw ∧
      parseInteger raw = some (i : Int) := by
  cases el with
  | number raw =>
    have hrange : (decide ((-2 : Int) ^ 31 ≤ i) && decide ((i : Int) ≤ 2 ^ 31 - 1)) = true := by
      rw [Bool.and_eq_true, decide_eq_true_eq, decide_eq_true_eq]
      omega
    rw [tryGetInt32, integerWithin, Except.ok.injEq, Option.filter_eq_some_iff]
    constructor
    · rintro ⟨hraw, _⟩
      exact ⟨raw, rfl, hraw⟩
    · rintro ⟨_, h, hraw⟩
      rw [JsonElement.number.inj h]
      exact ⟨hraw, hrange⟩
  | _ => exact ⟨(nomatch ·), fun ⟨_, h, _⟩ => nomatch h⟩

/-- The index of a state, where there is one, is its position. -/
theorem checkIndex_eq_ok_iff {limit : Int} {path : UString} {i : Nat}
    {members : List (UString × JsonElement)} (hi : (i : Int) < 2 ^ 31)
    (hb : Bounded limit (.object members)) :
    checkIndex path i (.object members) = .ok () ↔ ∀ metadata, (lit "#meta", metadata) ∈ members →
      ∃ fields raw, metadata = .object fields ∧ (lit "index", .number raw) ∈ fields ∧
        parseInteger raw = some (i : Int) := by
  rw [checkIndex, tryGetProperty, ok_bind]
  refine check_member_iff hb.2.1 (fun hnone => by rw [hnone]; rfl) fun metadata hl => ?_
  rw [hl]
  have hbm := boundedFields_iff.mp hb.2.2 _ (lastMember_eq_some hl)
  cases metadata with
  | object fields =>
    have hindex := fun el => @property_eq_ok_iff "index" fields el hbm.2.1
    constructor
    · intro h
      obtain ⟨el, hel, h⟩ := bind_eq_ok.mp h
      obtain ⟨found, hfound, h⟩ := bind_eq_ok.mp h
      have heq : found = some (i : Int) := by
        by_contra hne
        rw [if_pos hne] at h
        cases h
      obtain ⟨raw, rfl, hraw⟩ := (tryGetInt32_eq hi).mp (heq ▸ hfound)
      exact ⟨fields, raw, rfl, (hindex _).mp hel, hraw⟩
    · rintro ⟨_, raw, hfields, hmem, hraw⟩
      obtain rfl := JsonElement.object.inj hfields
      refine bind_eq_ok.mpr ⟨_, (hindex _).mpr hmem, ?_⟩
      rw [(tryGetInt32_eq hi).mpr ⟨raw, rfl, hraw⟩, ok_bind, if_neg (not_not.mpr rfl)]
      rfl
  | _ => exact ⟨(nomatch ·), fun ⟨_, _, h, _⟩ => nomatch h⟩

/-- The strings of the variables of one state can be read. -/
def LegibleState (names : List UString) (s : JsonElement) : Prop :=
  ∀ fields, s = .object fields → ∀ name ∈ names, ∀ field, (name, field) ∈ fields → WellFormed field

/-- **A state is accepted exactly when it is in the grammar**, and read as what it binds. -/
theorem readState_eq_ok_iff {limit : Int} {names : List UString} {i : Nat} {s : JsonElement}
    {bindings : List (UString × ItfValue)} (hi : (i : Int) < 2 ^ 31) (hs : WellNamed s)
    (hb : Bounded limit s) :
    readState names i s = .ok bindings ↔
      LegibleState names s ∧ ∃ members, s = .object members ∧ StateOf names i members bindings := by
  cases s with
  | object members =>
    have hvalid := wellNamedMembers_iff.mp hs
    have hbounded := boundedFields_iff.mp hb.2.2
    have hkeys :
        ¬ setOf ((members.map Prod.fst).filter fun name => name ≠ lit "#meta") ≠ setOf names ↔
        ∀ name, name ∈ members.map Prod.fst ∧ name ≠ lit "#meta" ↔ name ∈ names := by
      rw [not_not, setOf_eq_iff]
      simp only [List.mem_filter, decide_eq_true_eq]
    -- what is read for one variable
    have hbinding : ∀ (path : UString) (name : UString) (b : UString × ItfValue),
        (property name (.object members) >>= fun el => value (below path name) el >>= fun x =>
          (pure (name, x) : Outcome (UString × ItfValue))) = .ok b ↔
        (∀ field, (name, field) ∈ members → WellFormed field) ∧
          b.1 = name ∧ ∃ field, (name, field) ∈ members ∧ Denotes field b.2 := by
      intro path name b
      simp only [bind_eq_ok, property_eq_ok_iff hb.2.1]
      constructor
      · rintro ⟨el, hel, x, hx, h⟩
        obtain ⟨hwell, hdenotes⟩ := (value_eq_ok_iff (hbounded _ hel)).mp hx
        rw [← Except.ok.inj h]
        refine ⟨fun field hfield => ?_, rfl, el, hel, hdenotes⟩
        have honly := List.inj_on_of_nodup_map hb.2.1 hfield hel rfl
        rw [(Prod.mk.inj honly).2]
        exact hwell
      · rintro ⟨hwell, hname, el, hel, hx⟩
        exact ⟨el, hel, b.2, (value_eq_ok_iff (hbounded _ hel)).mpr
          ⟨hwell el hel, hx⟩, by rw [← hname]; rfl⟩
    rw [readState, propertyNames_eq fun m hm => (hvalid m hm).1, ok_bind, guard_eq_ok_iff, hkeys,
      bind_eq_ok, mapM_eq_ok_iff]
    simp only [hbinding, checkIndex_eq_ok_iff hi hb, List.forall₂_and_left]
    constructor
    · rintro ⟨hkeys, _, hindex, hlegible, hbound⟩
      refine ⟨fun fields h => ?_, members, rfl, hkeys, hindex, hbound⟩
      obtain rfl := JsonElement.object.inj h
      exact hlegible
    · rintro ⟨hlegible, _, h, hkeys, hindex, hbound⟩
      obtain rfl := JsonElement.object.inj h
      exact ⟨hkeys, (), hindex, hlegible members rfl, hbound⟩
  | _ => exact ⟨(nomatch ·), fun ⟨_, _, h, _⟩ => nomatch h⟩

/-- The states are read one by one, the first at position `k`. -/
theorem readStatesFrom_eq_ok_iff {limit : Int} {names : List UString} {items : List JsonElement}
    {k : Nat} {states : List (List (UString × ItfValue))} (hk : (k : Int) + items.length ≤ 2 ^ 31)
    (hs : WellNamedItems items) (hb : BoundedItems limit items) :
    readStatesFrom names k items = .ok states ↔ (∀ item ∈ items, LegibleState names item) ∧
      items.length = states.length ∧
      ∀ i state bindings, items[i]? = some state → states[i]? = some bindings →
        ∃ fields, state = .object fields ∧ StateOf names (k + i) fields bindings := by
  induction items generalizing k states with
  | nil =>
    rw [readStatesFrom]
    constructor
    · intro h
      rw [← Except.ok.inj h]
      exact ⟨fun _ hi => absurd hi List.not_mem_nil, rfl, fun i state bindings h => by simp at h⟩
    · rintro ⟨_, hlength, _⟩
      rw [List.eq_nil_of_length_eq_zero hlength.symm]
      rfl
  | cons item items ih =>
    rw [List.length_cons] at hk
    -- the tail begins one position later
    have hrec := fun states => @ih (k + 1) states (by omega) hs.2 hb.2
    have hhead := fun bindings => @readState_eq_ok_iff limit names k item bindings
      (by omega) hs.1 hb.1
    rw [readStatesFrom, bind_eq_ok, List.forall_mem_cons]
    constructor
    · rintro ⟨bindings, hstate, h⟩
      obtain ⟨rest, hrest, h⟩ := bind_eq_ok.mp h
      obtain ⟨hlegible, hlength, hstates⟩ := (hrec rest).mp hrest
      obtain ⟨hlegible', hstate⟩ := (hhead _).mp hstate
      rw [← Except.ok.inj h]
      refine ⟨⟨hlegible', hlegible⟩, congrArg (· + 1) hlength, fun i s b hi' hb' => ?_⟩
      cases i with
      | zero =>
        obtain rfl := Option.some.inj hi'
        obtain rfl := Option.some.inj hb'
        exact hstate
      | succ i =>
        rw [show k + (i + 1) = k + 1 + i by omega]
        exact hstates i s b hi' hb'
    · rintro ⟨⟨hlegible', hlegible⟩, hlength, hstates⟩
      match states, hlength, hstates with
      | bindings :: rest, hlength, hstates =>
        have hrest : readStatesFrom names (k + 1) items = .ok rest := by
          refine (hrec rest).mpr ⟨hlegible, Nat.succ.inj hlength, fun i s b hi' hb' => ?_⟩
          rw [show k + 1 + i = k + (i + 1) by omega]
          exact hstates (i + 1) s b hi' hb'
        exact ⟨bindings, (hhead _).mpr ⟨hlegible', hstates 0 item bindings rfl rfl⟩,
          bind_eq_ok.mpr ⟨rest, hrest, rfl⟩⟩

/-- **The states are accepted exactly when each is, and when there are neither none nor too many.** -/
theorem readStates_eq_ok_iff {limits : ItfLimits} {limit : Int} {names : List UString}
    {el : JsonElement} {states : List (List (UString × ItfValue))}
    (hl : limits.maxStates < 2 ^ 31) (hs : WellNamed el) (hb : Bounded limit el) :
    readStates limits names el = .ok states ↔ ∃ items, (∀ item ∈ items, LegibleState names item) ∧
      el = .array items ∧ 1 ≤ items.length ∧ (items.length : Int) ≤ limits.maxStates ∧
      items.length = states.length ∧
      ∀ i state bindings, items[i]? = some state → states[i]? = some bindings →
        ∃ fields, state = .object fields ∧ StateOf names i fields bindings := by
  cases el with
  | array items =>
    rw [readStates]
    by_cases hcount : items.length = 0 ∨ (items.length : Int) > limits.maxStates
    · rw [if_pos hcount]
      refine ⟨(nomatch ·), ?_⟩
      rintro ⟨_, _, h, hsome, hmax, _⟩
      obtain rfl := JsonElement.array.inj h
      omega
    · have hk : ((0 : Nat) : Int) + items.length ≤ 2 ^ 31 := by omega
      rw [if_neg hcount, readStatesFrom_eq_ok_iff hk hs hb.2]
      simp only [Nat.zero_add]
      constructor
      · rintro ⟨hlegible, h⟩
        exact ⟨items, hlegible, rfl, by omega, by omega, h⟩
      · rintro ⟨_, hlegible, h, _, _, hstates⟩
        rw [JsonElement.array.inj h]
        exact ⟨hlegible, hstates⟩
  | _ => exact ⟨(nomatch ·), fun ⟨_, _, h, _⟩ => nomatch h⟩

/-- **What is read from a root**: its names and the strings that are decoded are well formed, and it is
    in the grammar. -/
theorem readDocument_eq_ok_iff {limits : ItfLimits} {root : JsonElement} {document : ItfDocument}
    (hl : limits.maxStates < 2 ^ 31) :
    readDocument limits root = .ok document ↔ WellNamed root ∧ Bounded limits.maxCollection root ∧
      ∃ members items, root = .object members ∧ DocumentOf limits members items document ∧
        Legible items document := by
  cases root with
  | object members =>
    rw [readDocument, bind_eq_ok]
    constructor
    · rintro ⟨_, hcheck, h⟩
      -- the checks in the order in which the source makes them; the first gives what the others need
      obtain ⟨hn, hb⟩ := check_eq_ok_iff.mp hcheck
      have hnamed := wellNamedMembers_iff.mp hn
      have hbounded := boundedFields_iff.mp hb.2.2
      obtain ⟨_, hkeys, h⟩ := bind_eq_ok.mp h
      obtain ⟨_, hmetadata, h⟩ := bind_eq_ok.mp h
      obtain ⟨vars, hvars, h⟩ := bind_eq_ok.mp h
      obtain ⟨names, hnames, h⟩ := bind_eq_ok.mp h
      obtain ⟨el, hel, h⟩ := bind_eq_ok.mp h
      obtain ⟨states, hstates, hdocument⟩ := bind_eq_ok.mp h
      have hvars := (property_eq_ok_iff hb.2.1).mp hvars
      have hel := (property_eq_ok_iff hb.2.1).mp hel
      obtain ⟨hlegible, rfl, hsome, hnodup, hname⟩ := readVariables_eq_ok_iff.mp hnames
      obtain ⟨items, hlegibles, rfl, hone, hmax, hcount, hstate⟩ :=
        (readStates_eq_ok_iff hl (hnamed _ hel).2 (hbounded _ hel)).mp hstates
      rw [← Except.ok.inj hdocument]
      refine ⟨hn, hb, members, items, rfl, ?_, hlegible, fun fields hf => hlegibles _ hf fields rfl⟩
      exact
        { keys := (checkRootFields_eq_ok_iff hn).mp hkeys
          metadata := (checkMetadata_eq_ok_iff hb).mp hmetadata
          vars := hvars
          someVariable := hsome
          distinctVariables := hnodup
          variableName := hname
          states := hel
          someState := hone
          statesBounded := hmax
          stateCount := hcount
          state := hstate }
    · rintro ⟨hn, hb, _, items, h, hd, hlegible⟩
      obtain rfl := JsonElement.object.inj h
      have hnamed := wellNamedMembers_iff.mp hn
      have hbounded := boundedFields_iff.mp hb.2.2
      have hlegibles : ∀ item ∈ items, LegibleState document.variableNames item :=
        fun item hi fields hf => hlegible.bound fields (hf ▸ hi)
      refine ⟨(), check_eq_ok_iff.mpr ⟨hn, hb⟩, ?_⟩
      refine bind_eq_ok.mpr ⟨(), (checkRootFields_eq_ok_iff hn).mpr hd.keys, ?_⟩
      refine bind_eq_ok.mpr ⟨(), (checkMetadata_eq_ok_iff hb).mpr hd.metadata, ?_⟩
      refine bind_eq_ok.mpr ⟨_, (property_eq_ok_iff hb.2.1).mpr hd.vars, ?_⟩
      refine bind_eq_ok.mpr ⟨document.variableNames, readVariables_eq_ok_iff.mpr
        ⟨hlegible.variableName, rfl, hd.someVariable, hd.distinctVariables, hd.variableName⟩, ?_⟩
      refine bind_eq_ok.mpr ⟨_, (property_eq_ok_iff hb.2.1).mpr hd.states, ?_⟩
      refine bind_eq_ok.mpr ⟨document.states,
        (readStates_eq_ok_iff hl (hnamed _ hd.states).2 (hbounded _ hd.states)).mpr ?_, rfl⟩
      exact ⟨items, hlegibles, rfl, hd.someState, hd.statesBounded, hd.stateCount, hd.state⟩
  | _ =>
    refine ⟨fun h => ?_, fun ⟨_, _, _, _, h, _⟩ => nomatch h⟩
    obtain ⟨_, _, h⟩ := bind_eq_ok.mp (show (_ >>= _) = _ from h)
    cases h

/-- In a tree whose strings are all well formed, those that are decoded are. -/
theorem DocumentOf.legible {limits : ItfLimits} {members : List (UString × JsonElement)}
    {items : List JsonElement} {document : ItfDocument}
    (hd : DocumentOf limits members items document) (hs : WellFormed (.object members)) :
    Legible items document where
  variableName name hname := by
    have hvars := (wellFormedMembers_iff.mp hs _ hd.vars).2
    exact wellFormedItems_iff.mp hvars _ (List.mem_map_of_mem hname)
  bound fields hf name _ field hfield := by
    have hstates := (wellFormedMembers_iff.mp hs _ hd.states).2
    have hstate : WellFormed (.object fields) := wellFormedItems_iff.mp hstates _ hf
    exact (wellFormedMembers_iff.mp hstate _ hfield).2

/-- The handlers change nothing about a document that is accepted. -/
theorem read_eq_ok_iff {limits : ItfLimits} {bytes : Option ByteArray} {document : ItfDocument} :
    read limits bytes = .ok (.ok document) ↔ readUnguarded limits bytes = .ok document := by
  rw [read]
  cases readUnguarded limits bytes with
  | ok found => simp
  | error e =>
    refine ⟨fun h => ?_, (nomatch ·)⟩
    cases hc : caught e with
    | none => simp [hc] at h
    | some finding => simp [hc] at h

/-- Input that fits the limits and parses to a tree is read as that tree. -/
theorem readUnguarded_eq {limits : ItfLimits} {bytes : ByteArray} {json : UString}
    {root : JsonElement} (hl : Positive limits) (hsize : (bytes.size : Int) ≤ limits.maxBytes)
    (htext : Utf16.getString bytes = some json)
    (hparse : parse limits.maxDepth.toNat json = some root) :
    readUnguarded limits (some bytes) = readDocument limits root := by
  have hpositive : ¬ (limits.maxBytes ≤ 0 ∨ limits.maxDepth ≤ 0 ∨ limits.maxStates ≤ 0 ∨
      limits.maxCollection ≤ 0) := by
    have := hl.maxBytes
    have := hl.maxDepth
    have := hl.maxStates
    have := hl.maxCollection
    omega
  rw [readUnguarded, if_neg hpositive]
  simp only [if_neg (not_lt.mpr hsize), htext, hparse]

/-- **`read` accepts exactly the grammar, and answers with what the input denotes.** -/
theorem read_accepts {limits : ItfLimits} {bytes : ByteArray} {json : UString} {root : JsonElement}
    (hl : Positive limits) (hsize : (bytes.size : Int) ≤ limits.maxBytes) (htext : Utf16.getString bytes = some json)
    (hparse : parse limits.maxDepth.toNat json = some root) (hs : WellFormed root) (document : ItfDocument) :
    read limits (some bytes) = .ok (.ok document) ↔ Bounded limits.maxCollection root ∧
      ∃ members items, root = .object members ∧ DocumentOf limits members items document := by
  rw [read_eq_ok_iff, readUnguarded_eq hl hsize htext hparse, readDocument_eq_ok_iff hl.int32]
  constructor
  · rintro ⟨_, hb, members, items, hroot, hd, _⟩
    exact ⟨hb, members, items, hroot, hd⟩
  · rintro ⟨hb, members, items, rfl, hd⟩
    exact ⟨hs.wellNamed, hb, members, items, rfl, hd, hd.legible hs⟩

/-- A document with one variable and one state. -/
def sampleText : UString := "\x7b\"vars\":[\"x\"],\"states\":[\x7b\"x\":\x7b\"#set\":[1,2]\x7d\x7d]\x7d"

/-- Its bytes. -/
def sampleBytes : ByteArray := getBytesLossy sampleText

/-- The members of its root. -/
def sampleMembers : List (UString × JsonElement) :=
  [(lit "vars", .array [.string "x"]),
   (lit "states", .array [.object [(lit "x", .object [(lit "#set", .array [.number "1", .number "2"])])]])]

/-- What it says. -/
def sampleDocument : ItfDocument :=
  { variableNames := ["x"], states := [[(lit "x", .set [.integer 1, .integer 2])]] }

/-- The document is in the grammar. -/
theorem documentOf_sample : DocumentOf defaultLimits sampleMembers
    [.object [(lit "x", .object [(lit "#set", .array [.number "1", .number "2"])])]]
      sampleDocument where
  keys := by decide
  metadata metadata h := by simp [sampleMembers, show lit "#meta" ≠ lit "vars" by decide, show lit "#meta" ≠ lit "states" by decide] at h
  vars := List.mem_cons_self
  someVariable := by simp [sampleDocument]
  distinctVariables := by decide
  variableName := by decide
  states := by simp [sampleMembers]
  someState := by decide
  statesBounded := by decide
  stateCount := rfl
  state i state bindings hs hb := by
    cases i with
    | zero =>
      obtain rfl := Option.some.inj hs
      obtain rfl := Option.some.inj hb
      refine ⟨_, rfl, ?_, ?_, .cons ⟨rfl, _, List.mem_cons_self, ?_⟩ .nil⟩
      · intro name
        simp [sampleDocument]
        rintro rfl
        decide
      · intro metadata h
        simp [show lit "#meta" ≠ lit "x" by decide] at h
      · refine .set (.cons (.number rfl) (.cons (.number rfl) .nil)) ?_
        simp [ItfEquiv]
    | succ i => simp at hs

/-- The text is parsed into the root. -/
theorem parse_sample : parse 64 sampleText = some (.object sampleMembers) := by
  have hwrite : sampleText = write itfQuoting (.object sampleMembers) := by decide +kernel
  have hone : NumberToken "1" := numberToken_decimal 1
  have htwo : NumberToken "2" := numberToken_decimal 2
  rw [hwrite]
  refine parse_write itfQuoting 64 ?_ (by decide)
  simp only [sampleMembers, Writable, WritableItems, WritableMembers, and_true, hone, htwo,
    itfQuoting]
  decide

/-- A document with one state, whose variable is bound to a set. -/
theorem read_accepts_sample : read defaultLimits (some sampleBytes) = .ok (.ok sampleDocument) := by
  have hpositive : Positive defaultLimits := by constructor <;> decide
  have hsize : (sampleBytes.size : Int) ≤ defaultLimits.maxBytes := by decide +kernel
  have htext : Utf16.getString sampleBytes = some sampleText :=
    getString_getBytes (getBytes_eq_lossy (by decide))
  have hstrings : WellFormed (.object sampleMembers) := by
    simp only [sampleMembers, WellFormed, WellFormedItems, WellFormedMembers]
    decide
  have hbounded : Bounded defaultLimits.maxCollection (.object sampleMembers) := by
    simp only [sampleMembers, Bounded, BoundedItems, BoundedFields]
    decide
  exact (read_accepts hpositive hsize htext parse_sample hstrings sampleDocument).mpr
    ⟨hbounded, sampleMembers, _, rfl, documentOf_sample⟩

end FsQuint.Itf
