/-
  What the replay decoder makes of a bound value.

  Replay values are the raw ITF values without tuples and maps: `image` is the map that keeps the
  structure and prints integers in decimal.  On every tree that the raw decoder accepts, the replay
  decoder comes back; it answers with the image of what the tree denotes when there is one and all
  bare numbers fit 64 bits, and with findings otherwise (`decodeItfValue_spec`).  Images are
  equivalent exactly when the values are (`image_equiv`, `equiv_of_image`), and can be encoded
  exactly when no record key is blank (`valid_image_iff`).

  The induction is on the tree with its denotation.  What makes it go through at a `#set` is that
  distinct members stay distinct under the image: the raw decoder compares canonical texts, the
  replay decoder compares encodings, and both tell values apart up to equivalence.
-/
import FsQuint.ItfGrammar
import FsQuint.ValueIdentity

set_option linter.unusedVariables false

namespace FsQuint

open Utf16 Collections Decimal Json ReplayInternal Itf

/-! ## The image of a value -/

mutual

/-- The replay value with the structure of a raw value; there is none when a tuple or a map occurs. -/
def image : ItfValue → Option QuintReplayValue
  | .null => some .null
  | .boolean b => some (.boolean b)
  | .integer n => some (.integer (some (decimal n)))
  | .text s => some (.text (some s))
  | .sequence xs => (imageItems xs).map .sequence
  | .set xs => (imageItems xs).map .set
  | .record fs => (imageFields fs).map .record
  | .tuple _ => none
  | .map _ => none

/-- The images of some values, when all have one. -/
def imageItems : List ItfValue → Option (List QuintReplayValue)
  | [] => some []
  | x :: xs => do return (← image x) :: (← imageItems xs)

/-- The images of the values of some fields, under their names. -/
def imageFields : List (UString × ItfValue) → Option (List (NString × QuintReplayValue))
  | [] => some []
  | (name, x) :: fs => do return (some name, ← image x) :: (← imageFields fs)

end

mutual

/-- No tuple and no map occurs in a value, at any depth. -/
def Plain : ItfValue → Prop
  | .sequence xs => PlainItems xs
  | .set xs => PlainItems xs
  | .record fs => PlainFields fs
  | .tuple _ => False
  | .map _ => False
  | _ => True

/-- All of some values are plain. -/
def PlainItems : List ItfValue → Prop
  | [] => True
  | x :: xs => Plain x ∧ PlainItems xs

/-- The values of some fields are. -/
def PlainFields : List (UString × ItfValue) → Prop
  | [] => True
  | (_, x) :: fs => Plain x ∧ PlainFields fs

end

mutual

/-- Every bare number of a tree fits 64 bits. -/
def WithinInt64 : JsonElement → Prop
  | .number raw => ∀ n, parseInteger raw = some n → -2 ^ 63 ≤ n ∧ n ≤ 2 ^ 63 - 1
  | .array items => WithinInt64Items items
  | .object members => WithinInt64Members members
  | _ => True

/-- The numbers of some trees fit. -/
def WithinInt64Items : List JsonElement → Prop
  | [] => True
  | item :: items => WithinInt64 item ∧ WithinInt64Items items

/-- And those of the members of an object. -/
def WithinInt64Members : List (UString × JsonElement) → Prop
  | [] => True
  | (_, field) :: members => WithinInt64 field ∧ WithinInt64Members members

end

/-- `WithinInt64Items`, item by item. -/
theorem withinInt64Items_iff : ∀ {items : List JsonElement},
    WithinInt64Items items ↔ ∀ item ∈ items, WithinInt64 item
  | [] => by simp [WithinInt64Items]
  | item :: items => by simp [WithinInt64Items, @withinInt64Items_iff items]

/-- `WithinInt64Members`, member by member. -/
theorem withinInt64Members_iff : ∀ {members : List (UString × JsonElement)},
    WithinInt64Members members ↔ ∀ m ∈ members, WithinInt64 m.2
  | [] => by simp [WithinInt64Members]
  | (name, field) :: members => by simp [WithinInt64Members, @withinInt64Members_iff members]

/-- Images of a list are taken position by position. -/
theorem imageItems_eq_some_iff : ∀ {xs : List ItfValue} {ws : List QuintReplayValue},
    imageItems xs = some ws ↔ List.Forall₂ (fun x w => image x = some w) xs ws
  | [], ws => by simp [imageItems, eq_comm]
  | x :: xs, ws => by
    simp only [imageItems, Option.bind_eq_bind, Option.bind_eq_some_iff, Option.pure_def,
      Option.some.injEq, List.forall₂_cons_left_iff, imageItems_eq_some_iff]
    constructor
    · rintro ⟨w, hw, rest, hrest, rfl⟩
      exact ⟨w, rest, hw, hrest, rfl⟩
    · rintro ⟨w, rest, hw, hrest, rfl⟩
      exact ⟨w, hw, rest, hrest, rfl⟩

/-- A field of a record and a field of its image. -/
def FieldImage (f : UString × ItfValue) (g : NString × QuintReplayValue) : Prop := g.1 = some f.1 ∧ image f.2 = some g.2

/-- And those of fields, name by name. -/
theorem imageFields_eq_some_iff :
    ∀ {fs : List (UString × ItfValue)} {gs : List (NString × QuintReplayValue)},
    imageFields fs = some gs ↔ List.Forall₂ FieldImage fs gs
  | [], gs => by simp [imageFields, eq_comm]
  | (name, x) :: fs, gs => by
    simp only [imageFields, Option.bind_eq_bind, Option.bind_eq_some_iff, Option.pure_def,
      Option.some.injEq, List.forall₂_cons_left_iff, imageFields_eq_some_iff, FieldImage]
    constructor
    · rintro ⟨w, hw, rest, hrest, rfl⟩
      exact ⟨_, rest, ⟨rfl, hw⟩, hrest, rfl⟩
    · rintro ⟨⟨n, w⟩, rest, ⟨rfl, hw⟩, hrest, rfl⟩
      exact ⟨w, hw, rest, hrest, rfl⟩

mutual

/-- The values with an image. -/
theorem plain_iff : ∀ {v : ItfValue}, Plain v ↔ ∃ w, image v = some w
  | .null => iff_of_true trivial ⟨_, rfl⟩
  | .boolean _ => iff_of_true trivial ⟨_, rfl⟩
  | .integer _ => iff_of_true trivial ⟨_, rfl⟩
  | .text _ => iff_of_true trivial ⟨_, rfl⟩
  | .sequence xs | .set xs => by simp [Plain, image, @plainItems_iff xs]
  | .record fs => by simp [Plain, image, @plainFields_iff fs]
  | .tuple _ => iff_of_false id fun ⟨_, h⟩ => nomatch h
  | .map _ => iff_of_false id fun ⟨_, h⟩ => nomatch h

/-- Plain items are those that have images. -/
theorem plainItems_iff : ∀ {xs : List ItfValue}, PlainItems xs ↔ ∃ ws, imageItems xs = some ws
  | [] => iff_of_true trivial ⟨_, rfl⟩
  | x :: xs => by
    simp only [PlainItems, plain_iff, plainItems_iff, imageItems_eq_some_iff,
      List.forall₂_cons_left_iff]
    constructor
    · rintro ⟨⟨w, hw⟩, ws, hws⟩
      exact ⟨w :: ws, w, ws, hw, hws, rfl⟩
    · rintro ⟨_, w, ws, hw, hws, _⟩
      exact ⟨⟨w, hw⟩, ws, hws⟩

/-- And plain fields. -/
theorem plainFields_iff :
    ∀ {fs : List (UString × ItfValue)}, PlainFields fs ↔ ∃ gs, imageFields fs = some gs
  | [] => iff_of_true trivial ⟨_, rfl⟩
  | (name, x) :: fs => by
    simp only [PlainFields, plain_iff, plainFields_iff, imageFields_eq_some_iff,
      List.forall₂_cons_left_iff, FieldImage]
    constructor
    · rintro ⟨⟨w, hw⟩, gs, hgs⟩
      exact ⟨_ :: gs, (some name, w), gs, ⟨rfl, hw⟩, hgs, rfl⟩
    · rintro ⟨_, g, gs, ⟨_, hw⟩, hgs, _⟩
      exact ⟨⟨g.2, hw⟩, gs, hgs⟩

end

/-! ## Results -/

/-- A result is a value with the property `P`, or consists of findings when there is no such value. -/
def Yields {α : Type} (P : α → Prop) (result : Result α) : Prop :=
  (∃ a, P a ∧ result = .ok a) ∨ (¬ (∃ a, P a) ∧ ∃ found, found ≠ [] ∧ result = .error found)

/-- The same of a list of results: all are values, or one of them consists of findings. -/
def YieldAll {α : Type} (P : List α → Prop) (results : List (Result α)) : Prop :=
  (∃ as, P as ∧ results = as.map .ok) ∨ (¬ (∃ as, P as) ∧ ∃ found, found ≠ [] ∧ .error found ∈ results)

section Yields

variable {α β : Type} {P : α → Prop} {Q : β → Prop} {Ps Qs : List α → Prop}

/-- A result is mapped, and so is what it yields. -/
theorem Yields.map {f : α → β} {result : Result α} (h : Yields P result)
    (hq : ∀ b, Q b ↔ ∃ a, P a ∧ b = f a) :
    Yields Q (result.map f) := by
  rcases h with ⟨a, ha, rfl⟩ | ⟨hnone, found, hne, rfl⟩
  · exact .inl ⟨f a, (hq _).mpr ⟨a, ha, rfl⟩, rfl⟩
  · refine .inr ⟨fun ⟨b, hb⟩ => ?_, found, hne, rfl⟩
    obtain ⟨a, ha, _⟩ := (hq b).mp hb
    exact hnone ⟨a, ha⟩

/-- No results yield the empty list. -/
theorem yieldAll_nil (h : Ps []) : YieldAll Ps ([] : List (Result α)) := .inl ⟨[], h, rfl⟩

/-- A result before others. -/
theorem YieldAll.cons {result : Result α} {results : List (Result α)} (h : Yields P result)
    (hs : YieldAll Ps results) (hq : ∀ as, Qs as ↔ ∃ a rest, as = a :: rest ∧ P a ∧ Ps rest) :
    YieldAll Qs (result :: results) := by
  rcases h with ⟨a, ha, rfl⟩ | ⟨hnone, found, hne, rfl⟩
  · rcases hs with ⟨as, has, rfl⟩ | ⟨hnone, found, hne, hmem⟩
    · exact .inl ⟨a :: as, (hq _).mpr ⟨a, as, rfl, ha, has⟩, rfl⟩
    · refine .inr ⟨fun ⟨as, has⟩ => ?_, found, hne, List.mem_cons_of_mem _ hmem⟩
      obtain ⟨_, rest, _, _, hrest⟩ := (hq as).mp has
      exact hnone ⟨rest, hrest⟩
  · refine .inr ⟨fun ⟨as, has⟩ => ?_, found, hne, List.mem_cons_self⟩
    obtain ⟨a, _, _, ha, _⟩ := (hq as).mp has
    exact hnone ⟨a, ha⟩

/-- Collecting results keeps what they yield. -/
theorem YieldAll.collectDecoded {results : List (Result α)} (h : YieldAll Ps results) :
    Yields Ps (ReplayInternal.collectDecoded results) := by
  rcases h with ⟨as, has, rfl⟩ | ⟨hnone, found, hne, hmem⟩
  · exact .inl ⟨as, has, collectDecoded_ok as⟩
  · exact .inr ⟨hnone, collectDecoded_error hne hmem⟩

end Yields

/-- What the replay decoder answers on a tree that denotes `v`: the image of `v`, where numbers fit. -/
def DecodesTo (path : UString) (j : JsonElement) (v : ItfValue) : Prop :=
  ∃ result, decodeItfValue path j = .ok result ∧ Yields (fun w => WithinInt64 j ∧ image v = some w) result

/-! ## The shapes of objects -/

/-- The search in an object with one member. -/
theorem lastMember_singleton {name tag : UString} {field : JsonElement} :
    lastMember name [(tag, field)] = if tag = name then some field else none := by
  by_cases h : tag = name
  · simp [lastMember, h]
  · simp [lastMember, h]

/-- A member whose name starts with `#` is not found where no name does. -/
theorem lastMember_hash {name : UString} {members : List (UString × JsonElement)}
    (hn : startsWithHash name = true) (h : ∀ m ∈ members, startsWithHash m.1 = false) :
    lastMember name members = none := by
  rw [lastMember_eq_none]
  intro hm
  obtain ⟨m, hmem, rfl⟩ := List.mem_map.mp hm
  rw [h m hmem] at hn
  cases hn

/-- How `#bigint` is decoded: the canonical spelling of the integer, without a bound on its size. -/
theorem decodeItfValue_bigint {path s : UString} (hs : validUnicode s = true) :
    decodeItfValue path (.object [(lit "#bigint", .string s)]) =
      match canonicalInteger (some s) with
      | some n => .ok (.ok (.integer (some n)))
      | none => .ok (.error [diagnostic "QRP-ITF-INTEGER" (path ++ lit "/#bigint")
          "Invalid ITF bigint."]) := by
  have hbig : lastMember "#bigint" [(lit "#bigint", .string s)] = some (.string s) := by
    rw [lastMember_singleton, if_pos rfl]
  have hset : lastMember "#set" [(lit "#bigint", .string s)] = none := by
    rw [lastMember_singleton, if_neg (by decide)]
  rw [decodeItfValue.eq_def]
  cases hn : canonicalInteger (some s) with
  | none => simp only [hbig, hset, getString, stringText_eq hs, ok_bind, pure_eq_ok,
      Option.bind_some, hn]
  | some n => simp only [hbig, hset, getString, stringText_eq hs, ok_bind, pure_eq_ok,
      Option.bind_some, hn]

/-- How `#set` is decoded: its items one by one. -/
theorem decodeItfValue_set {path : UString} {items : List JsonElement} :
    decodeItfValue path (.object [(lit "#set", .array items)]) =
      (decodeItems (path ++ lit "/#set") 0 items >>= fun results =>
        .ok ((collectDecoded results).map .set)) := by
  have hbig : lastMember "#bigint" [(lit "#set", .array items)] = none := by
    rw [lastMember_singleton, if_neg (by decide)]
  have hset : lastMember "#set" [(lit "#set", .array items)] = some (.array items) := by
    rw [lastMember_singleton, if_pos rfl]
  rw [decodeItfValue.eq_def]
  simp only [hbig, hset]
  rfl

/-- How an object without tags is decoded: its members one by one. -/
theorem decodeItfValue_record {path : UString} {members : List (UString × JsonElement)}
    (h : ∀ m ∈ members, validUnicode m.1 = true ∧ startsWithHash m.1 = false) :
    decodeItfValue path (.object members) =
      (decodeMembers path members >>= fun results =>
        .ok ((collectDecoded results).map .record)) := by
  have hhash := fun m hm => (h m hm).2
  have hbig : lastMember "#bigint" members = none := lastMember_hash (by decide) hhash
  have hset : lastMember "#set" members = none := lastMember_hash (by decide) hhash
  rw [decodeItfValue.eq_def]
  simp only [hbig, hset, existsHashName_eq_false_iff.mpr h, ok_bind]
  rfl

/-- Every other tag is refused with one finding. -/
theorem decodeItfValue_tagged {path tag : UString} {field : JsonElement}
    (hv : validUnicode tag = true) (hh : startsWithHash tag = true) (hb : tag ≠ lit "#bigint")
    (hs : tag ≠ lit "#set") :
    ∃ finding, decodeItfValue path (.object [(tag, field)]) = .ok (.error [finding]) := by
  have hname : existsHashName [(tag, field)] = .ok true := by
    rw [existsHashName_cons, propertyName_eq hv, ok_bind, if_pos hh]
    rfl
  rw [decodeItfValue.eq_def]
  simp only [lastMember_singleton, if_neg hb, if_neg hs, hname, ok_bind]
  exact ⟨_, rfl⟩

/-- A tree that decodes to the image of what it denotes. -/
theorem decodesTo_ok {path : UString} {j : JsonElement} {v : ItfValue} {w : QuintReplayValue}
    (hj : WithinInt64 j) (hv : image v = some w) (h : decodeItfValue path j = .ok (.ok w)) :
    DecodesTo path j v :=
  ⟨.ok w, h, .inl ⟨w, ⟨hj, hv⟩, rfl⟩⟩

/-- A tree whose value has no image is refused. -/
theorem decodesTo_none {path : UString} {j : JsonElement} {v : ItfValue} (hv : image v = none)
    (h : ∃ finding, decodeItfValue path j = .ok (.error [finding])) : DecodesTo path j v := by
  obtain ⟨finding, hr⟩ := h
  refine ⟨_, hr, .inr ⟨?_, _, List.cons_ne_nil _ _, rfl⟩⟩
  rintro ⟨w, _, hw⟩
  rw [hv] at hw
  cases hw

/-- A decoded value under its name. -/
theorem Yields.field {name : UString} {field : JsonElement} {x : ItfValue}
    {result : Result QuintReplayValue}
    (h : Yields (fun w => WithinInt64 field ∧ image x = some w) result) :
    Yields (fun g => WithinInt64 field ∧ FieldImage (name, x) g)
      (result.map fun w => (some name, w)) := by
  refine h.map fun g => ?_
  constructor
  · rintro ⟨hj, hn, hw⟩
    exact ⟨g.2, ⟨hj, hw⟩, Prod.ext hn rfl⟩
  · rintro ⟨w, ⟨hj, hw⟩, rfl⟩
    exact ⟨hj, rfl, hw⟩

/-- A field before others. -/
theorem YieldAll.consField {name : UString} {field : JsonElement} {x : ItfValue}
    {fields : List (UString × JsonElement)} {fs : List (UString × ItfValue)}
    {result : Result QuintReplayValue} {results : List (Result (NString × QuintReplayValue))}
    (h : Yields (fun w => WithinInt64 field ∧ image x = some w) result)
    (hs : YieldAll (fun gs => WithinInt64Members fields ∧ imageFields fs = some gs) results) :
    YieldAll (fun gs => WithinInt64Members ((name, field) :: fields) ∧
      imageFields ((name, x) :: fs) = some gs)
      ((result.map fun w => (some name, w)) :: results) := by
  refine YieldAll.cons h.field hs fun gs => ?_
  simp only [WithinInt64Members, imageFields_eq_some_iff, List.forall₂_cons_left_iff]
  constructor
  · rintro ⟨⟨hj, hjs⟩, g, rest, hg, hrest, rfl⟩
    exact ⟨g, rest, rfl, ⟨hj, hg⟩, hjs, hrest⟩
  · rintro ⟨g, rest, rfl, ⟨hj, hg⟩, hjs, hrest⟩
    exact ⟨⟨hj, hjs⟩, g, rest, hg, hrest, rfl⟩

/-- A record is decoded as its members are. -/
theorem decodesTo_record {path : UString} {fields : List (UString × JsonElement)}
    {fs : List (UString × ItfValue)} {results : List (Result (NString × QuintReplayValue))}
    (hn : ∀ m ∈ fields, validUnicode m.1 = true ∧ startsWithHash m.1 = false)
    (hr : decodeMembers path fields = .ok results)
    (h : YieldAll (fun gs => WithinInt64Members fields ∧ imageFields fs = some gs) results) :
    DecodesTo path (.object fields) (.record fs) := by
  rw [DecodesTo, decodeItfValue_record hn, hr, ok_bind]
  refine ⟨_, rfl, h.collectDecoded.map fun w => ?_⟩
  simp only [WithinInt64, image, Option.map_eq_some_iff]
  constructor
  · rintro ⟨hj, ws, hws, rfl⟩
    exact ⟨ws, ⟨hj, hws⟩, rfl⟩
  · rintro ⟨ws, ⟨hj, hws⟩, rfl⟩
    exact ⟨hj, ws, hws, rfl⟩

/-- A bare number is decoded when it fits into 64 bits. -/
theorem decodesTo_number {path raw : UString} {n : Int} (hn : parseInteger raw = some n) :
    DecodesTo path (.number raw) (.integer n) := by
  rw [DecodesTo, decodeItfValue, tryGetInt64, integerWithin, hn, ok_bind]
  by_cases hrange : -2 ^ 63 ≤ n ∧ n ≤ 2 ^ 63 - 1
  · have hfilter : (some n).filter (fun n => decide (-2 ^ 63 ≤ n) && decide (n ≤ 2 ^ 63 - 1)) =
        some n := by
      rw [Option.filter_eq_some_iff, Bool.and_eq_true, decide_eq_true_eq, decide_eq_true_eq]
      exact ⟨rfl, hrange⟩
    simp only [hfilter]
    refine ⟨_, rfl, .inl ⟨_, ⟨fun m hm => ?_, rfl⟩, rfl⟩⟩
    rw [hn] at hm
    rw [← Option.some.inj hm]
    exact hrange
  · have hfilter : (some n).filter (fun n => decide (-2 ^ 63 ≤ n) && decide (n ≤ 2 ^ 63 - 1)) =
        none := by
      rw [Option.filter_eq_none_iff]
      intro m hm
      rw [← Option.some.inj hm, Bool.and_eq_true, decide_eq_true_eq, decide_eq_true_eq]
      exact hrange
    simp only [hfilter]
    refine ⟨_, rfl, .inr ⟨?_, _, List.cons_ne_nil _ _, rfl⟩⟩
    rintro ⟨_, h, _⟩
    exact hrange (h n hn)

mutual

/-- **The replay decoder comes back on every tree that the raw decoder accepts**, with the image of what
    the tree denotes or with findings. -/
theorem decodeItfValue_spec :
    ∀ {j : JsonElement} {v : ItfValue} {path : UString}, Denotes j v → WellFormed j →
    DecodesTo path j v
  | .null, _, _, .null, _ => decodesTo_ok trivial rfl rfl
  | .boolean b, _, _, .boolean _, _ => decodesTo_ok trivial rfl rfl
  | .string s, _, _, .text _, hs => by
    refine decodesTo_ok trivial rfl ?_
    rw [decodeItfValue]
    simp only [getString, stringText_eq hs, ok_bind]
    rfl
  | .number raw, _, _, .number hn, _ => decodesTo_number hn
  | .array items, .sequence xs, path, .sequence hxs, hs => by
    obtain ⟨results, hr, hyield⟩ := @decodeItems_spec items xs path 0 hxs hs
    rw [DecodesTo, decodeItfValue, hr, ok_bind]
    refine ⟨_, rfl, hyield.collectDecoded.map fun w => ?_⟩
    simp only [WithinInt64, image, Option.map_eq_some_iff, and_assoc]
    constructor
    · rintro ⟨hj, ws, hws, rfl⟩
      exact ⟨ws, hj, hws, rfl⟩
    · rintro ⟨ws, hj, hws, rfl⟩
      exact ⟨hj, ws, hws, rfl⟩
  | .object [], v, path, h, _ => by
    obtain ⟨_, fs, hnames, _, rfl⟩ := (denotes_object_iff (by simp)).mp h
    rw [List.map_eq_nil_iff.mp hnames.symm]
    exact decodesTo_record (fun m hm => absurd hm List.not_mem_nil) rfl
      (yieldAll_nil ⟨trivial, rfl⟩)
  | .object [(name, field)], v, path, h, hs => by
    -- one member: a tagged value, or a record with one field
    rcases denotes_single_iff.mp h with ⟨rfl, s, n, rfl, hn, rfl⟩ | ⟨rfl, items, xs, _, _, rfl⟩ |
      ⟨rfl, items, xs, hf, hxs, _, rfl⟩ | ⟨rfl, items, es, _, _, _, rfl⟩ | ⟨hhash, x, hx, rfl⟩
    -- `#bigint`; the two tags without an image come back with findings
    · refine decodesTo_ok ⟨trivial, trivial⟩ rfl ?_
      rw [decodeItfValue_bigint hs.2.1, canonicalInteger_eq, denotes, Option.bind_some, hn]
      rfl
    · exact decodesTo_none rfl (decodeItfValue_tagged hs.1 (by decide) (by decide) (by decide))
    · obtain ⟨results, hr, hyield⟩ :=
        @decodeItems_of_array field items xs (path ++ lit "/#set") 0 hf hxs hs.2.1
      subst hf
      rw [DecodesTo, decodeItfValue_set, hr, ok_bind]
      refine ⟨_, rfl, hyield.collectDecoded.map fun w => ?_⟩
      simp only [WithinInt64, WithinInt64Members, image, Option.map_eq_some_iff, and_true]
      constructor
      · rintro ⟨hj, ws, hws, rfl⟩
        exact ⟨ws, ⟨hj, hws⟩, rfl⟩
      · rintro ⟨ws, ⟨hj, hws⟩, rfl⟩
        exact ⟨hj, ws, hws, rfl⟩
    · exact decodesTo_none rfl (decodeItfValue_tagged hs.1 (by decide) (by decide) (by decide))
    · obtain ⟨result, hr, hyield⟩ := @decodeItfValue_spec field x
        (path ++ lit "/" ++ name) hx hs.2.1
      refine decodesTo_record (List.forall_mem_singleton.mpr ⟨hs.1, hhash⟩) ?_
        (YieldAll.consField hyield (yieldAll_nil ⟨trivial, rfl⟩))
      rw [decodeMembers, propertyName_eq hs.1, ok_bind, hr]
      rfl
  | .object (f :: g :: fields), v, path, h, hs => by
    obtain ⟨hhash, fs, hnames, hvalues, rfl⟩ := (denotes_object_iff (by simp)).mp h
    obtain ⟨results, hr, hyield⟩ := @decodeMembers_spec (f :: g :: fields) fs path hnames hvalues hs
    have hnamed : ∀ m ∈ f :: g :: fields, validUnicode m.1 = true ∧ startsWithHash m.1 = false :=
      fun m hm => ⟨(wellFormedMembers_iff.mp hs m hm).1, hhash m hm⟩
    exact decodesTo_record hnamed hr hyield

/-- The items of an array are decoded as the images of what they denote. -/
theorem decodeItems_of_array :
    ∀ {j : JsonElement} {items : List JsonElement} {xs : List ItfValue} {path : UString}
    {index : Nat}, j = .array items → List.Forall₂ Denotes items xs → WellFormed j →
    ∃ results, decodeItems path index items = .ok results ∧
      YieldAll (fun ws => WithinInt64Items items ∧ imageItems xs = some ws) results
  | .array items, _, _, _, _, rfl, hxs, hs => decodeItems_spec hxs hs

/-- The same for a list of trees. -/
theorem decodeItems_spec :
    ∀ {items : List JsonElement} {xs : List ItfValue} {path : UString} {index : Nat},
    List.Forall₂ Denotes items xs → WellFormedItems items →
    ∃ results, decodeItems path index items = .ok results ∧
      YieldAll (fun ws => WithinInt64Items items ∧ imageItems xs = some ws) results
  | [], [], _, _, _, _ => ⟨[], rfl, yieldAll_nil ⟨trivial, rfl⟩⟩
  | item :: items, x :: xs, path, index, .cons hx hxs, hs => by
    obtain ⟨result, hr, hyield⟩ := @decodeItfValue_spec item x
      (path ++ lit "/" ++ natText index) hx hs.1
    obtain ⟨results, hrs, hyields⟩ := @decodeItems_spec items xs path (index + 1) hxs hs.2
    refine ⟨result :: results, by rw [decodeItems, hr, ok_bind, hrs]; rfl, YieldAll.cons hyield hyields fun ws => ?_⟩
    simp only [WithinInt64Items, imageItems_eq_some_iff, List.forall₂_cons_left_iff]
    constructor
    · rintro ⟨⟨hj, hjs⟩, w, rest, hw, hrest, rfl⟩
      exact ⟨w, rest, rfl, ⟨hj, hw⟩, hjs, hrest⟩
    · rintro ⟨w, rest, rfl, ⟨hj, hw⟩, hjs, hrest⟩
      exact ⟨⟨hj, hjs⟩, w, rest, hw, hrest, rfl⟩

/-- And for the members of an object, under their names. -/
theorem decodeMembers_spec :
    ∀ {fields : List (UString × JsonElement)} {fs : List (UString × ItfValue)} {path : UString},
    fields.map Prod.fst = fs.map Prod.fst →
    List.Forall₂ Denotes (fields.map Prod.snd) (fs.map Prod.snd) →
    WellFormedMembers fields → ∃ results, decodeMembers path fields = .ok results ∧
      YieldAll (fun gs => WithinInt64Members fields ∧ imageFields fs = some gs) results
  | [], [], _, _, _, _ => ⟨[], rfl, yieldAll_nil ⟨trivial, rfl⟩⟩
  | (name, field) :: fields, (name', x) :: fs, path, hnames, .cons hx hvalues, hs => by
    obtain ⟨hname, hnames⟩ := List.cons.inj hnames
    have hname : name = name' := hname
    obtain ⟨result, hr, hyield⟩ := @decodeItfValue_spec field x (path ++ lit "/" ++ name) hx hs.2.1
    obtain ⟨results, hrs, hyields⟩ := @decodeMembers_spec fields fs path hnames hvalues hs.2.2
    subst hname
    exact ⟨_, by rw [decodeMembers, propertyName_eq hs.1, ok_bind, hr, ok_bind, hrs]; rfl,
      YieldAll.consField hyield hyields⟩

end

/-! ## Equivalence -/

mutual

/-- Equivalent values have equivalent images. -/
theorem image_equiv : ∀ {v v' : ItfValue} {w : QuintReplayValue}, ItfEquiv v v' → image v = some w →
    ∃ w', image v' = some w' ∧ ValueEquiv w w'
  | .null, v', w, h, hw => by
    cases v' <;> simp only [ItfEquiv] at h
    obtain rfl := Option.some.inj hw
    exact ⟨.null, rfl, trivial⟩
  | .boolean b, v', w, h, hw => by
    cases v' <;> simp only [ItfEquiv] at h
    obtain rfl := Option.some.inj hw
    exact ⟨.boolean _, rfl, h⟩
  | .integer n, v', w, h, hw => by
    cases v' <;> simp only [ItfEquiv] at h
    obtain rfl := Option.some.inj hw
    exact ⟨.integer _, rfl, .inl (by rw [h])⟩
  | .text s, v', w, h, hw => by
    cases v' <;> simp only [ItfEquiv] at h
    obtain rfl := Option.some.inj hw
    exact ⟨.text _, rfl, congrArg some h⟩
  | .sequence xs, v', w, h, hw => by
    cases v' with
    | sequence ys =>
      obtain ⟨ws, hws, rfl⟩ := Option.map_eq_some_iff.mp hw
      rw [ItfEquiv] at h
      obtain ⟨ws', hws', hequiv⟩ := imageItems_equiv h hws
      exact ⟨.sequence ws', Option.map_eq_some_iff.mpr ⟨ws', hws', rfl⟩, hequiv⟩
    | _ => simp only [ItfEquiv] at h
  | .tuple xs, v', w, h, hw => nomatch hw
  | .map es, v', w, h, hw => nomatch hw
  | .set xs, v', w, h, hw => by
    cases v' with
    | set ys =>
      obtain ⟨ws, hws, rfl⟩ := Option.map_eq_some_iff.mp hw
      rw [ItfEquiv] at h
      obtain ⟨zs, hperm, hzs⟩ := h
      -- the items are put in the order of the other set, and so are their images
      obtain ⟨ws', hws', hequiv⟩ := imageItems_equiv hzs hws
      obtain ⟨ws'', hperm', hws''⟩ :=
        exists_perm_forall₂ hperm.symm (imageItems_eq_some_iff.mp hws')
      exact ⟨.set ws'', Option.map_eq_some_iff.mpr ⟨ws'', imageItems_eq_some_iff.mpr hws'', rfl⟩,
        ws', hperm'.symm, hequiv⟩
    | _ => simp only [ItfEquiv] at h
  | .record fs, v', w, h, hw => by
    cases v' with
    | record gs =>
      obtain ⟨ws, hws, rfl⟩ := Option.map_eq_some_iff.mp hw
      rw [ItfEquiv] at h
      obtain ⟨hs, hperm, hfs⟩ := h
      obtain ⟨ws', hws', hequiv⟩ := imageFields_equiv hfs hws
      obtain ⟨ws'', hperm', hws''⟩ :=
        exists_perm_forall₂ hperm.symm (imageFields_eq_some_iff.mp hws')
      exact ⟨.record ws'', Option.map_eq_some_iff.mpr
        ⟨ws'', imageFields_eq_some_iff.mpr hws'', rfl⟩,
        ws', hperm'.symm, hequiv⟩
    | _ => simp only [ItfEquiv] at h

/-- Equivalent lists have equivalent images. -/
theorem imageItems_equiv :
    ∀ {xs ys : List ItfValue} {ws : List QuintReplayValue}, ItfEquivItems xs ys →
    imageItems xs = some ws → ∃ ws', imageItems ys = some ws' ∧ ValueEquivItems ws ws'
  | [], [], ws, _, hw => by
    obtain rfl := Option.some.inj hw
    exact ⟨[], rfl, trivial⟩
  | [], _ :: _, _, h, _ => by simp only [ItfEquivItems] at h
  | _ :: _, [], _, h, _ => by simp only [ItfEquivItems] at h
  | x :: xs, y :: ys, ws, h, hw => by
    rw [ItfEquivItems] at h
    simp only [imageItems_eq_some_iff, List.forall₂_cons_left_iff] at hw ⊢
    obtain ⟨w, rest, hw, hrest, rfl⟩ := hw
    obtain ⟨w', hw', hequiv⟩ := image_equiv h.1 hw
    obtain ⟨rest', hrest', hequivs⟩ := imageItems_equiv h.2 (imageItems_eq_some_iff.mpr hrest)
    exact ⟨w' :: rest', ⟨w', rest', hw', imageItems_eq_some_iff.mp hrest', rfl⟩, hequiv, hequivs⟩

/-- And so have equivalent fields. -/
theorem imageFields_equiv :
    ∀ {fs gs : List (UString × ItfValue)} {ws : List (NString × QuintReplayValue)},
    ItfEquivFields fs gs → imageFields fs = some ws → ∃ ws', imageFields gs = some ws' ∧
      ValueEquivFields ws ws'
  | [], [], ws, _, hw => by
    obtain rfl := Option.some.inj hw
    exact ⟨[], rfl, trivial⟩
  | [], _ :: _, _, h, _ => by simp only [ItfEquivFields] at h
  | _ :: _, [], _, h, _ => by simp only [ItfEquivFields] at h
  | (s, x) :: fs, (t, y) :: gs, ws, h, hw => by
    rw [ItfEquivFields] at h
    simp only [imageFields_eq_some_iff, List.forall₂_cons_left_iff] at hw ⊢
    obtain ⟨⟨n, w⟩, rest, ⟨hn, hw⟩, hrest, rfl⟩ := hw
    obtain ⟨w', hw', hequiv⟩ := image_equiv h.2.1 hw
    obtain ⟨rest', hrest', hequivs⟩ := imageFields_equiv h.2.2 (imageFields_eq_some_iff.mpr hrest)
    exact ⟨(some t, w') :: rest', ⟨_, rest', ⟨rfl, hw'⟩, imageFields_eq_some_iff.mp hrest', rfl⟩,
      hn.trans (congrArg some h.1), hequiv, hequivs⟩

end

/-- Only null has the image null. -/
theorem image_eq_null_iff {v : ItfValue} : image v = some .null ↔ v = .null := by
  cases v <;> simp [image]

/-- Only a boolean has a boolean as its image. -/
theorem image_eq_boolean_iff {v : ItfValue} {b : Bool} :
    image v = some (.boolean b) ↔ v = .boolean b := by
  cases v <;> simp [image]

/-- The image of an integer is its decimal spelling. -/
theorem image_eq_integer_iff {v : ItfValue} {s : NString} :
    image v = some (.integer s) ↔ ∃ n, v = .integer n ∧ s = some (decimal n) := by
  cases v <;> simp [image, eq_comm]

/-- The image of a text is a text. -/
theorem image_eq_text_iff {v : ItfValue} {s : NString} :
    image v = some (.text s) ↔ ∃ t, v = .text t ∧ s = some t := by
  cases v <;> simp [image, eq_comm]

/-- Only a sequence has a Sequence as its image; a tuple has none. -/
theorem image_eq_sequence_iff {v : ItfValue} {ws : List QuintReplayValue} :
    image v = some (.sequence ws) ↔ ∃ xs, v = .sequence xs ∧ imageItems xs = some ws := by
  cases v <;> simp [image]

/-- Only a set has a Set as its image. -/
theorem image_eq_set_iff {v : ItfValue} {ws : List QuintReplayValue} :
    image v = some (.set ws) ↔ ∃ xs, v = .set xs ∧ imageItems xs = some ws := by
  cases v <;> simp [image]

/-- Only a record has a Record as its image. -/
theorem image_eq_record_iff {v : ItfValue} {gs : List (NString × QuintReplayValue)} :
    image v = some (.record gs) ↔ ∃ fs, v = .record fs ∧ imageFields fs = some gs := by
  cases v <;> simp [image]

mutual

/-- Values with equivalent images are equivalent. -/
theorem equiv_of_image :
    ∀ {v v' : ItfValue} {w w' : QuintReplayValue}, image v = some w → image v' = some w' →
    ValueEquiv w w' → ItfEquiv v v'
  | .null, v', w, w', hw, hw', h => by
    obtain rfl := Option.some.inj hw
    cases w' <;> simp only [ValueEquiv] at h
    rw [image_eq_null_iff.mp hw', ItfEquiv]
    trivial
  | .boolean b, v', w, w', hw, hw', h => by
    obtain rfl := Option.some.inj hw
    cases w' <;> simp only [ValueEquiv] at h
    rw [image_eq_boolean_iff.mp hw', ItfEquiv]
    exact h
  | .integer n, v', w, w', hw, hw', h => by
    obtain rfl := Option.some.inj hw
    cases w' <;> simp only [ValueEquiv] at h
    obtain ⟨m, rfl, rfl⟩ := image_eq_integer_iff.mp hw'
    have hsame := denotes_congr h
    rw [denotes, denotes, Option.bind_some, Option.bind_some, parseInteger_decimal,
      parseInteger_decimal] at hsame
    rw [ItfEquiv]
    exact Option.some.inj hsame
  | .text s, v', w, w', hw, hw', h => by
    obtain rfl := Option.some.inj hw
    cases w' <;> simp only [ValueEquiv] at h
    obtain ⟨t, rfl, rfl⟩ := image_eq_text_iff.mp hw'
    rw [ItfEquiv]
    exact Option.some.inj h
  | .sequence xs, v', w, w', hw, hw', h => by
    obtain ⟨ws, hws, rfl⟩ := Option.map_eq_some_iff.mp hw
    cases w' <;> simp only [ValueEquiv] at h
    obtain ⟨ys, rfl, hys⟩ := image_eq_sequence_iff.mp hw'
    rw [ItfEquiv]
    exact equivItems_of_image hws hys h
  | .tuple xs, v', w, w', hw, hw', h => nomatch hw
  | .map es, v', w, w', hw, hw', h => nomatch hw
  | .set xs, v', w, w', hw, hw', h => by
    obtain ⟨ws, hws, rfl⟩ := Option.map_eq_some_iff.mp hw
    cases w' with
    | set ws' =>
      obtain ⟨ys, rfl, hys⟩ := image_eq_set_iff.mp hw'
      obtain ⟨zs, hperm, hequiv⟩ := h
      -- the members of the second set, in the order in which they match those of the first
      obtain ⟨ys', hperm', hys'⟩ := exists_perm_forall₂ hperm (imageItems_eq_some_iff.mp hys).flip
      rw [ItfEquiv]
      exact ⟨ys', hperm', equivItems_of_image hws (imageItems_eq_some_iff.mpr hys'.flip) hequiv⟩
    | _ => simp only [ValueEquiv] at h
  | .record fs, v', w, w', hw, hw', h => by
    obtain ⟨ws, hws, rfl⟩ := Option.map_eq_some_iff.mp hw
    cases w' with
    | record ws' =>
      obtain ⟨gs, rfl, hgs⟩ := image_eq_record_iff.mp hw'
      obtain ⟨zs, hperm, hequiv⟩ := h
      obtain ⟨gs', hperm', hgs'⟩ := exists_perm_forall₂ hperm (imageFields_eq_some_iff.mp hgs).flip
      rw [ItfEquiv]
      exact ⟨gs', hperm', equivFields_of_image hws (imageFields_eq_some_iff.mpr hgs'.flip) hequiv⟩
    | _ => simp only [ValueEquiv] at h

/-- Lists with equivalent images are equivalent. -/
theorem equivItems_of_image :
    ∀ {xs ys : List ItfValue} {ws ws' : List QuintReplayValue}, imageItems xs = some ws →
    imageItems ys = some ws' → ValueEquivItems ws ws' → ItfEquivItems xs ys
  | [], ys, ws, ws', hws, hws', h => by
    obtain rfl := Option.some.inj hws
    cases ws' with
    | nil =>
      rw [List.forall₂_nil_right_iff.mp (imageItems_eq_some_iff.mp hws'), ItfEquivItems]
      trivial
    | cons _ _ => simp only [ValueEquivItems] at h
  | x :: xs, ys, ws, ws', hws, hws', h => by
    obtain ⟨w, rest, hw, hrest, rfl⟩ :=
      List.forall₂_cons_left_iff.mp (imageItems_eq_some_iff.mp hws)
    cases ws' with
    | nil => simp only [ValueEquivItems] at h
    | cons w' rest' =>
      obtain ⟨y, ys', hw', hrest', rfl⟩ :=
        List.forall₂_cons_right_iff.mp (imageItems_eq_some_iff.mp hws')
      rw [ItfEquivItems]
      exact ⟨equiv_of_image hw hw' h.1, equivItems_of_image (imageItems_eq_some_iff.mpr hrest)
        (imageItems_eq_some_iff.mpr hrest') h.2⟩

/-- And so are fields. -/
theorem equivFields_of_image :
    ∀ {fs gs : List (UString × ItfValue)} {ws ws' : List (NString × QuintReplayValue)},
    imageFields fs = some ws → imageFields gs = some ws' → ValueEquivFields ws ws' →
    ItfEquivFields fs gs
  | [], gs, ws, ws', hws, hws', h => by
    obtain rfl := Option.some.inj hws
    cases ws' with
    | nil =>
      rw [List.forall₂_nil_right_iff.mp (imageFields_eq_some_iff.mp hws'), ItfEquivFields]
      trivial
    | cons _ _ => simp only [ValueEquivFields] at h
  | (s, x) :: fs, gs, ws, ws', hws, hws', h => by
    obtain ⟨⟨n, w⟩, rest, ⟨hn, hw⟩, hrest, rfl⟩ :=
      List.forall₂_cons_left_iff.mp (imageFields_eq_some_iff.mp hws)
    cases ws' with
    | nil => simp only [ValueEquivFields] at h
    | cons g rest' =>
      obtain ⟨n', w'⟩ := g
      obtain ⟨⟨t, y⟩, gs', ⟨hn', hw'⟩, hrest', rfl⟩ :=
        List.forall₂_cons_right_iff.mp (imageFields_eq_some_iff.mp hws')
      have hname : s = t := Option.some.inj (hn.symm.trans (h.1.trans hn'))
      rw [ItfEquivFields]
      exact ⟨hname, equiv_of_image hw hw' h.2.1,
        equivFields_of_image (imageFields_eq_some_iff.mpr hrest)
        (imageFields_eq_some_iff.mpr hrest') h.2.2⟩

end

/-! ## Images that can be encoded -/

mutual

/-- No record of a value, at any depth, has a blank key. -/
def BlankFree : ItfValue → Prop
  | .sequence xs => BlankFreeItems xs
  | .tuple xs => BlankFreeItems xs
  | .set xs => BlankFreeItems xs
  | .map es => BlankFreeEntries es
  | .record fs => BlankFreeFields fs
  | _ => True

/-- No key of some values is blank. -/
def BlankFreeItems : List ItfValue → Prop
  | [] => True
  | x :: xs => BlankFree x ∧ BlankFreeItems xs

/-- Nor one of some entries. -/
def BlankFreeEntries : List (ItfValue × ItfValue) → Prop
  | [] => True
  | (k, v) :: es => BlankFree k ∧ BlankFree v ∧ BlankFreeEntries es

/-- No name of some fields is blank, and no key of their values. -/
def BlankFreeFields : List (UString × ItfValue) → Prop
  | [] => True
  | (name, x) :: fs => isNullOrWhiteSpace (some name) = false ∧ BlankFree x ∧ BlankFreeFields fs

end

mutual

/-- The image of a produced value has no key that starts with `#`. -/
theorem hashFree_image :
    ∀ {v : ItfValue} {w : QuintReplayValue}, Produced v → image v = some w → HashFree w
  | .null, _, _, h | .boolean _, _, _, h | .integer _, _, _, h | .text _, _, _, h => by
    obtain rfl := Option.some.inj h
    trivial
  | .sequence xs, w, hp, h => by
    obtain ⟨ws, hws, rfl⟩ := Option.map_eq_some_iff.mp h
    exact hashFree_imageItems hp hws
  | .tuple _, _, _, h | .map _, _, _, h => nomatch h
  | .set xs, w, hp, h => by
    obtain ⟨ws, hws, rfl⟩ := Option.map_eq_some_iff.mp h
    exact hashFree_imageItems hp.1 hws
  | .record fs, w, hp, h => by
    obtain ⟨ws, hws, rfl⟩ := Option.map_eq_some_iff.mp h
    exact hashFree_imageFields hp.2 hws

/-- The images of its items have none. -/
theorem hashFree_imageItems :
    ∀ {xs : List ItfValue} {ws : List QuintReplayValue}, ProducedItems xs →
    imageItems xs = some ws → HashFreeItems ws
  | [], ws, _, h => by
    obtain rfl := Option.some.inj h
    trivial
  | x :: xs, ws, hp, h => by
    obtain ⟨w, rest, hw, hrest, rfl⟩ := List.forall₂_cons_left_iff.mp (imageItems_eq_some_iff.mp h)
    exact ⟨hashFree_image hp.1 hw, hashFree_imageItems hp.2 (imageItems_eq_some_iff.mpr hrest)⟩

/-- Nor those of its fields, nor do their names. -/
theorem hashFree_imageFields :
    ∀ {fs : List (UString × ItfValue)} {ws : List (NString × QuintReplayValue)},
    ProducedFields fs → imageFields fs = some ws → HashFreeFields ws
  | [], ws, _, h => by
    obtain rfl := Option.some.inj h
    trivial
  | (name, x) :: fs, ws, hp, h => by
    obtain ⟨⟨n, w⟩, rest, ⟨hn, hw⟩, hrest, rfl⟩ :=
      List.forall₂_cons_left_iff.mp (imageFields_eq_some_iff.mp h)
    obtain rfl : n = some name := hn
    exact ⟨hp.1.1, hashFree_image hp.2.1 hw,
      hashFree_imageFields hp.2.2 (imageFields_eq_some_iff.mpr hrest)⟩

end

/-- The images of members that are not equivalent have different texts. -/
theorem nodup_valueText_image {xs : List ItfValue} {ws : List QuintReplayValue}
    (hp : ProducedItems xs) (hxs : xs.Pairwise fun x y => ¬ ItfEquiv x y)
    (h : imageItems xs = some ws) (hv : ValidItems ws) :
    (ws.map valueText).Nodup := by
  have himage := imageItems_eq_some_iff.mp h
  have hvalid : List.Forall₂ (fun x w => image x = some w ∧ Valid w) xs ws :=
    forall₂_imp_of_mem himage fun x _ w hw hxw => ⟨hxw, validItems_iff.mp hv w hw⟩
  rw [List.Nodup, List.pairwise_map]
  refine pairwise_of_forall₂ hvalid hxs fun x hx y hy w hw w' hw' hne htext => hne ?_
  have hx := producedItems_iff.mp hp x hx
  have hy := producedItems_iff.mp hp y hy
  exact equiv_of_image hw.1 hw'.1
    (valueEquiv_of_text_eq hw.2 hw'.2 (hashFree_image hx hw.1) (hashFree_image hy hw'.1) htext)

/-- The names of a record and of its image. -/
theorem names_imageFields {fs : List (UString × ItfValue)} {gs : List (NString × QuintReplayValue)}
    (h : imageFields fs = some gs) : gs.map Prod.fst = fs.map fun f => some f.1 :=
  map_eq_map_iff.mpr ((imageFields_eq_some_iff.mp h).flip.imp fun _ _ hfg => hfg.1)

mutual

/-- **An image can be encoded exactly when no record key is blank.** -/
theorem valid_image_iff : ∀ {v : ItfValue} {w : QuintReplayValue}, Produced v → image v = some w →
    (Valid w ↔ BlankFree v)
  | .null, _, _, h | .boolean _, _, _, h => by
    obtain rfl := Option.some.inj h
    exact iff_of_true trivial trivial
  | .integer n, _, _, h => by
    obtain rfl := Option.some.inj h
    refine iff_of_true ?_ trivial
    rw [Valid, denotes, Option.bind_some, parseInteger_decimal]
    rfl
  | .text s, _, hp, h => by
    obtain rfl := Option.some.inj h
    exact iff_of_true ⟨s, rfl, hp⟩ trivial
  | .sequence xs, w, hp, h => by
    obtain ⟨ws, hws, rfl⟩ := Option.map_eq_some_iff.mp h
    exact validItems_image_iff hp hws
  | .tuple _, _, _, h | .map _, _, _, h => nomatch h
  | .set xs, w, hp, h => by
    obtain ⟨ws, hws, rfl⟩ := Option.map_eq_some_iff.mp h
    have hitems := validItems_image_iff hp.1 hws
    constructor
    · intro hv
      exact hitems.mp hv.1
    · intro hb
      -- the items of a set that was read are pairwise distinct already
      exact ⟨hitems.mpr hb, nodup_valueText_image hp.1 hp.2 hws (hitems.mpr hb)⟩
  | .record fs, w, hp, h => by
    obtain ⟨gs, hgs, rfl⟩ := Option.map_eq_some_iff.mp h
    have hfields := validFields_image_iff hp.2 hgs
    have hnames := names_imageFields hgs
    have hnodup : (gs.map Prod.fst).Nodup := by
      have hsome : (fs.map fun f => some f.1) = (fs.map Prod.fst).map
        some := by rw [List.map_map]; rfl
      rw [hnames, hsome]
      exact hp.1.map (Option.some_injective _)
    constructor
    · rintro ⟨⟨_, hvalid⟩, hv⟩
      exact hfields.mp ⟨fun name hname => (hvalid name hname).1, hv⟩
    · intro hb
      obtain ⟨hblank, hv⟩ := hfields.mpr hb
      refine ⟨⟨hnodup, fun name hname => ⟨hblank name hname, ?_⟩⟩, hv⟩
      rw [hnames] at hname
      obtain ⟨f, hf, rfl⟩ := List.mem_map.mp hname
      exact (producedFields_iff.mp hp.2 f hf).1.2

/-- The images of some values are valid exactly when no key of these is blank. -/
theorem validItems_image_iff :
    ∀ {xs : List ItfValue} {ws : List QuintReplayValue}, ProducedItems xs →
    imageItems xs = some ws → (ValidItems ws ↔ BlankFreeItems xs)
  | [], ws, _, h => by
    obtain rfl := Option.some.inj h
    exact iff_of_true trivial trivial
  | x :: xs, ws, hp, h => by
    obtain ⟨w, rest, hw, hrest, rfl⟩ := List.forall₂_cons_left_iff.mp (imageItems_eq_some_iff.mp h)
    exact and_congr (valid_image_iff hp.1 hw)
      (validItems_image_iff hp.2 (imageItems_eq_some_iff.mpr hrest))

/-- And those of some fields, together with their names. -/
theorem validFields_image_iff :
    ∀ {fs : List (UString × ItfValue)} {gs : List (NString × QuintReplayValue)},
    ProducedFields fs → imageFields fs = some gs →
    ((∀ name ∈ gs.map Prod.fst, isNullOrWhiteSpace name = false) ∧ ValidFields gs ↔
      BlankFreeFields fs)
  | [], gs, _, h => by
    obtain rfl := Option.some.inj h
    exact iff_of_true ⟨fun _ hn => absurd hn List.not_mem_nil, trivial⟩ trivial
  | (name, x) :: fs, gs, hp, h => by
    obtain ⟨⟨n, w⟩, rest, ⟨hn, hw⟩, hrest, rfl⟩ :=
      List.forall₂_cons_left_iff.mp (imageFields_eq_some_iff.mp h)
    obtain rfl : n = some name := hn
    rw [List.map_cons, List.forall_mem_cons, ValidFields, BlankFreeFields,
      ← validFields_image_iff hp.2.2 (imageFields_eq_some_iff.mpr hrest),
      ← valid_image_iff hp.2.1 hw]
    constructor
    · rintro ⟨⟨hblank, hblanks⟩, hv, hvs⟩
      exact ⟨hblank, hv, hblanks, hvs⟩
    · rintro ⟨hblank, hv, hblanks, hvs⟩
      exact ⟨⟨hblank, hblanks⟩, hv, hvs⟩

end

end FsQuint
