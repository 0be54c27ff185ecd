/-
  Writing JSON trees, and reading them back.

  `write q j` is the compact text of the tree `j` whose strings are written by the *quoting* `q`:
  a function on strings that comes with the proof that the reader reads its literals back.  The
  round trip `parse_write` then holds for every tree whose numbers are number tokens, whose
  strings the quoting can write and whose nesting the reader allows; since the reader is a
  function, trees with one text are one tree (`write_inj`).

  The induction is on the tree.  What follows a value matters only behind a number, where it must
  not continue the token (`NumberEnds`).
-/
import FsQuint.Lib.Json

set_option linter.unusedVariables false
set_option linter.unusedSectionVars false

namespace Json

open Utf16 Decimal

/-! ## Quotings -/

/-- A way of writing string literals, for the strings that `Fits` admits. -/
structure Quoting where
  quote : UString → UString
  Fits : UString → Prop
  reads : ∀ {s : UString}, Fits s →
    ∃ body, quote s = 0x22 :: body ∧ ∀ rest, readString (body ++ rest) = some (s, rest)

/-- The reader, started behind the opening quote of a literal, reads a unit of the string and
    goes on. -/
def ReadsUnit (text : UString) (u : UInt16) : Prop :=
  ∀ rest, readString (text ++ rest) = (readString rest).map (consUnit u)

/-- A character that needs no escape reads as itself. -/
theorem readsUnit_plain {u : UInt16} (hq : u ≠ 0x22) (hb : u ≠ 0x5C) (hc : ¬ u.toNat < 0x20) :
    ReadsUnit [u] u := by
  intro rest
  rw [List.singleton_append]
  conv_lhs => unfold readString
  simp only [if_neg hq, if_neg hb, if_neg hc]

/-- A short escape reads as its character. -/
theorem readsUnit_short {e u : UInt16} (he : e ≠ 0x75) (h : shortEscape e = some u) :
    ReadsUnit [0x5C, e] u := by
  intro rest
  show readString (0x5C :: e :: rest) = _
  conv_lhs => unfold readString
  simp only [if_neg (show ¬ (0x5C : UInt16) = 0x22 by decide), if_true, if_neg he, h,
    Option.bind_some]

/-- And so does an escape with four digits. -/
theorem readsUnit_hex {a b c d u : UInt16} (h : hexUnit a b c d = some u) :
    ReadsUnit [0x5C, 0x75, a, b, c, d] u := by
  intro rest
  show readString (0x5C :: 0x75 :: a :: b :: c :: d :: rest) = _
  conv_lhs => unfold readString
  simp only [if_neg (show ¬ (0x5C : UInt16) = 0x22 by decide), if_true, h, Option.bind_some]

/-- A quote closes the literal. -/
theorem readString_close (rest : UString) : readString (0x22 :: rest) = some ([], rest) := by
  unfold readString
  rfl

/-- A literal written unit by unit is read back. -/
theorem readString_flatMap {escape : UInt16 → UString} (h : ∀ u, ReadsUnit (escape u) u) :
    ∀ (s rest : UString), readString (s.flatMap escape ++ 0x22 :: rest) = some (s, rest)
  | [], rest => readString_close rest
  | u :: s, rest => by
    rw [List.flatMap_cons, List.append_assoc, h u, readString_flatMap h s rest]
    rfl

/-! ## Writing -/

mutual

/-- The compact text of a tree. -/
def write (q : Quoting) : JsonElement → UString
  | .null => lit "null"
  | .boolean b => if b then lit "true" else lit "false"
  | .number raw => raw
  | .string s => q.quote s
  | .array items => 0x5B :: (concat [0x2C] (writeItems q items) ++ [0x5D])
  | .object members => 0x7B :: (concat [0x2C] (writeMembers q members) ++ [0x7D])

/-- The texts of some trees. -/
def writeItems (q : Quoting) : List JsonElement → List UString
  | [] => []
  | item :: items => write q item :: writeItems q items

/-- The texts of some members. -/
def writeMembers (q : Quoting) : List (UString × JsonElement) → List UString
  | [] => []
  | (name, value) :: members => (q.quote name ++ 0x3A :: write q value) :: writeMembers q members

end

/-- `writeItems` is a map, which the mutual definition hides. -/
theorem writeItems_eq_map (q : Quoting) : ∀ items, writeItems q items = items.map (write q)
  | [] => rfl
  | item :: items => by rw [writeItems, writeItems_eq_map q items, List.map_cons]

/-- And so is `writeMembers`. -/
theorem writeMembers_eq_map (q : Quoting) :
    ∀ members, writeMembers q members = members.map fun m => q.quote m.1 ++ 0x3A :: write q m.2
  | [] => rfl
  | (name, value) :: members => by
    rw [writeMembers, writeMembers_eq_map q members, List.map_cons]

/-! ## What can be written -/

/-- What stands behind a number: nothing that would continue its token. -/
def NumberEnds : UString → Prop
  | [] => True
  | u :: _ => isDigit u = false ∧ u ≠ 0x2E ∧ u ≠ 0x65 ∧ u ≠ 0x45

/-- A text that the reader takes, whole, as a number. -/
def NumberToken (raw : UString) : Prop :=
  ∀ rest, NumberEnds rest → readNumber (raw ++ rest) = some (raw, rest)

mutual

/-- Every number of the tree is a number token and every string is one the quoting can write. -/
def Writable (q : Quoting) : JsonElement → Prop
  | .null => True
  | .boolean _ => True
  | .number raw => NumberToken raw
  | .string s => q.Fits s
  | .array items => WritableItems q items
  | .object members => WritableMembers q members

/-- All of some trees can be written. -/
def WritableItems (q : Quoting) : List JsonElement → Prop
  | [] => True
  | item :: items => Writable q item ∧ WritableItems q items

/-- Names and trees of some members can. -/
def WritableMembers (q : Quoting) : List (UString × JsonElement) → Prop
  | [] => True
  | (name, value) :: members => q.Fits name ∧ Writable q value ∧ WritableMembers q members

end

/-- `WritableItems`, item by item. -/
theorem writableItems_iff {q : Quoting} :
    ∀ {items}, WritableItems q items ↔ ∀ item ∈ items, Writable q item
  | [] => by simp [WritableItems]
  | item :: items => by simp [WritableItems, @writableItems_iff q items]

/-- `WritableMembers`, member by member. -/
theorem writableMembers_iff {q : Quoting} :
    ∀ {members}, WritableMembers q members ↔ ∀ m ∈ members, q.Fits m.1 ∧ Writable q m.2
  | [] => by simp [WritableMembers]
  | (name, value) :: members => by
    simp [WritableMembers, @writableMembers_iff q members, and_assoc]

mutual

/-- The nesting depth of a tree. -/
def height : JsonElement → Nat
  | .null => 0
  | .boolean _ => 0
  | .number _ => 0
  | .string _ => 0
  | .array items => itemsHeight items + 1
  | .object members => membersHeight members + 1

/-- The greatest height of some trees. -/
def itemsHeight : List JsonElement → Nat
  | [] => 0
  | item :: items => max (height item) (itemsHeight items)

/-- The greatest height of the trees of some members. -/
def membersHeight : List (UString × JsonElement) → Nat
  | [] => 0
  | (_, value) :: members => max (height value) (membersHeight members)

end

/-- No item is higher than the highest. -/
theorem height_le_itemsHeight {item : JsonElement} :
    ∀ {items : List JsonElement}, item ∈ items → height item ≤ itemsHeight items
  | head :: items, h => by
    rw [itemsHeight]
    rcases List.mem_cons.mp h with rfl | h
    · exact Nat.le_max_left ..
    · exact Nat.le_trans (height_le_itemsHeight h) (Nat.le_max_right ..)

/-- And the highest is no higher than a bound on all. -/
theorem itemsHeight_le {n : Nat} :
    ∀ {items : List JsonElement}, (∀ item ∈ items, height item ≤ n) → itemsHeight items ≤ n
  | [], _ => Nat.zero_le n
  | item :: items, h => by
    rw [itemsHeight]
    exact Nat.max_le.mpr ⟨h item List.mem_cons_self,
      itemsHeight_le fun x hx => h x (List.mem_cons_of_mem item hx)⟩

/-- The same for members. -/
theorem membersHeight_le {n : Nat} :
    ∀ {members : List (UString × JsonElement)}, (∀ m ∈ members, height m.2 ≤ n) →
      membersHeight members ≤ n
  | [], _ => Nat.zero_le n
  | (name, value) :: members, h => by
    rw [membersHeight]
    exact Nat.max_le.mpr ⟨h (name, value) List.mem_cons_self,
      membersHeight_le fun x hx => h x (List.mem_cons_of_mem _ hx)⟩

mutual

/-- The largest number of entries of an object or array of a tree. -/
def width : JsonElement → Nat
  | .array items => max items.length (itemsWidth items)
  | .object members => max members.length (membersWidth members)
  | _ => 0

/-- The greatest width of some trees. -/
def itemsWidth : List JsonElement → Nat
  | [] => 0
  | item :: items => max (width item) (itemsWidth items)

/-- The greatest width of the trees of some members. -/
def membersWidth : List (UString × JsonElement) → Nat
  | [] => 0
  | (_, value) :: members => max (width value) (membersWidth members)

end

/-- A bound on the widths of the items is a bound on each. -/
theorem itemsWidth_le_iff {n : Nat} : ∀ {items : List JsonElement},
    itemsWidth items ≤ n ↔ ∀ item ∈ items, width item ≤ n
  | [] => by simp [itemsWidth]
  | item :: items => by
    rw [itemsWidth, Nat.max_le, itemsWidth_le_iff, List.forall_mem_cons]

/-- The same for members. -/
theorem membersWidth_le_iff {n : Nat} : ∀ {members : List (UString × JsonElement)},
    membersWidth members ≤ n ↔ ∀ m ∈ members, width m.2 ≤ n
  | [] => by simp [membersWidth]
  | (name, value) :: members => by
    rw [membersWidth, Nat.max_le, membersWidth_le_iff, List.forall_mem_cons]

/-- An array is narrow when it is short and its items are narrow. -/
theorem width_array_le_iff {n : Nat} {items : List JsonElement} :
    width (.array items) ≤ n ↔ items.length ≤ n ∧ ∀ item ∈ items, width item ≤ n := by
  rw [width, Nat.max_le, itemsWidth_le_iff]

/-- And an object when it is short and its members are. -/
theorem width_object_le_iff {n : Nat} {members : List (UString × JsonElement)} :
    width (.object members) ≤ n ↔ members.length ≤ n ∧ ∀ m ∈ members, width m.2 ≤ n := by
  rw [width, Nat.max_le, membersWidth_le_iff]

/-! ## Numbers -/

/-- Digits in front of the end of a number are all of its digits. -/
theorem spanDigits_append : ∀ {ds rest : UString}, (∀ u ∈ ds, isDigit u = true) → NumberEnds rest →
    spanDigits (ds ++ rest) = (ds, rest)
  | [], [], _, _ => rfl
  | [], u :: rest, _, h => by simp [spanDigits, h.1]
  | u :: ds, rest, hd, h => by
    rw [List.cons_append, spanDigits, if_pos (hd u List.mem_cons_self),
      spanDigits_append (fun v hv => hd v (List.mem_cons_of_mem u hv)) h]

/-- Where the number ends there is no fraction. -/
theorem readFraction_ends {rest : UString} (h : NumberEnds rest) :
    readFraction rest = some ([], rest) := by
  cases rest with
  | nil => rfl
  | cons u rest => rw [readFraction, if_neg h.2.1]

/-- Nor an exponent. -/
theorem readExponent_ends {rest : UString} (h : NumberEnds rest) :
    readExponent rest = some ([], rest) := by
  cases rest with
  | nil => rfl
  | cons u rest =>
    unfold readExponent
    simp only [if_neg (not_or.mpr ⟨h.2.2.1, h.2.2.2⟩)]

/-- What is written for a number is read as its integer part. -/
theorem readInt_natText (n : Nat) {rest : UString} (h : NumberEnds rest) :
    readInt (natText n ++ rest) = some (natText n, rest) := by
  rcases Nat.eq_zero_or_pos n with rfl | hn
  · rfl
  · obtain ⟨u, ds, hu, hz⟩ := natText_head hn
    have hspan := spanDigits_append (isDigit_of_mem_natText n) h
    rw [hu, List.cons_append] at hspan ⊢
    rw [readInt, if_neg hz, readDigitRun, hspan]

/-- And as the number, without its sign. -/
theorem readUnsigned_natText (n : Nat) {rest : UString} (h : NumberEnds rest) :
    readUnsigned (natText n ++ rest) = some (natText n, rest) := by
  simp [readUnsigned, readInt_natText n h, readFraction_ends h, readExponent_ends h]

/-- **The decimal text of an integer is a number token.** -/
theorem numberToken_decimal (n : Int) : NumberToken (decimal n) := by
  intro rest h
  cases n with
  | ofNat n =>
    have hr := readUnsigned_natText n h
    rw [decimal]
    cases ht : natText n with
    | nil => exact absurd ht (natText_ne_nil n)
    | cons u ds =>
      have hu := isDigit_ne_sign (isDigit_of_mem_natText n u (by rw [ht]; exact List.mem_cons_self))
      rw [ht, List.cons_append] at hr
      rw [List.cons_append, readNumber, if_neg hu.1, hr]
  | negSucc n =>
    rw [decimal, List.cons_append, readNumber, if_pos rfl, readUnsigned_natText (n + 1) h]
    rfl

/-- The digits in front are digits. -/
theorem isDigit_of_mem_spanDigits : ∀ {text : UString}, ∀ u ∈ (spanDigits text).1, isDigit u = true
  | [], u, h => by simp [spanDigits] at h
  | v :: rest, u, h => by
    rw [spanDigits] at h
    split at h
    · rename_i hv
      rcases List.mem_cons.mp h with rfl | h
      · exact hv
      · exact isDigit_of_mem_spanDigits u h
    · simp at h

/-- A number without its sign starts with a digit. -/
theorem readUnsigned_head {u : UInt16} {rest : UString} {p : UString × UString}
    (h : readUnsigned (u :: rest) = some p) : isDigit u = true := by
  obtain ⟨int, hint, -⟩ := Option.bind_eq_some_iff.mp h
  rw [readInt] at hint
  split at hint
  · rename_i hu
    rw [hu]
    decide
  · have he := (readDigitRun_eq hint)
    unfold readDigitRun at hint
    split at hint
    · simp at hint
    · obtain rfl := Option.some.inj hint
      cases hs : (spanDigits (u :: rest)).1 with
      | nil => exact absurd hs he.2
      | cons v ds =>
        rw [hs, List.cons_append, List.cons.injEq] at he
        exact he.1.1 ▸ isDigit_of_mem_spanDigits v (by rw [hs]; exact List.mem_cons_self)

/-- A number token starts with a minus sign or a digit. -/
theorem numberToken_head {raw : UString} (h : NumberToken raw) :
    ∃ u rest, raw = u :: rest ∧ (u = 0x2D ∨ isDigit u = true) := by
  have hr := h [] trivial
  rw [List.append_nil] at hr
  cases raw with
  | nil => simp [readNumber] at hr
  | cons u rest =>
    refine ⟨u, rest, rfl, ?_⟩
    rw [readNumber] at hr
    split at hr
    · rename_i hu
      exact Or.inl hu
    · exact Or.inr (readUnsigned_head hr)

/-! ## Well-formed texts -/

/-- Digits are ASCII. -/
theorem ascii_of_isDigit {u : UInt16} (h : isDigit u = true) : u.toNat < 0x80 := by
  simp only [isDigit, Bool.and_eq_true, decide_eq_true_eq] at h
  omega

/-- And so are runs of them. -/
theorem ascii_readDigitRun {text : UString} {p : UString × UString}
    (h : readDigitRun text = some p) :
    ∀ u ∈ p.1, u.toNat < 0x80 := by
  unfold readDigitRun at h
  split at h
  · cases h
  · obtain rfl := Option.some.inj h
    exact fun u hu => ascii_of_isDigit (isDigit_of_mem_spanDigits u hu)

/-- And integer parts. -/
theorem ascii_readInt {text : UString} {p : UString × UString} (h : readInt text = some p) :
    ∀ u ∈ p.1, u.toNat < 0x80 := by
  cases text with
  | nil => cases h
  | cons v rest =>
    rw [readInt] at h
    split at h
    · rename_i hv
      obtain rfl := Option.some.inj h
      intro u hu
      rw [List.mem_singleton.mp hu, hv]
      decide
    · exact ascii_readDigitRun h

/-- And fractions. -/
theorem ascii_readFraction {text : UString} {p : UString × UString}
    (h : readFraction text = some p) :
    ∀ u ∈ p.1, u.toNat < 0x80 := by
  cases text with
  | nil =>
    obtain rfl := Option.some.inj h
    exact fun u hu => absurd hu List.not_mem_nil
  | cons v rest =>
    rw [readFraction] at h
    split at h
    · rename_i hv
      obtain ⟨q, hq, hp⟩ := Option.bind_eq_some_iff.mp h
      obtain rfl := Option.some.inj hp
      refine List.forall_mem_cons.mpr ⟨?_, ascii_readDigitRun hq⟩
      rw [hv]
      decide
    · obtain rfl := Option.some.inj h
      exact fun u hu => absurd hu List.not_mem_nil

/-- And exponents. -/
theorem ascii_readExponent {text : UString} {p : UString × UString}
    (h : readExponent text = some p) :
    ∀ u ∈ p.1, u.toNat < 0x80 := by
  cases text with
  | nil =>
    obtain rfl := Option.some.inj h
    exact fun u hu => absurd hu List.not_mem_nil
  | cons v rest =>
    unfold readExponent at h
    simp only at h
    split at h
    · rename_i hv
      have hv : v.toNat < 0x80 := by
        rcases hv with rfl | rfl
        · decide
        · decide
      split at h
      · cases h
      · split at h
        · rename_i hs
          obtain ⟨q, hq, hp⟩ := Option.bind_eq_some_iff.mp h
          obtain rfl := Option.some.inj hp
          refine List.forall_mem_cons.mpr ⟨hv, List.forall_mem_cons.mpr ⟨?_, ascii_readDigitRun hq⟩⟩
          rcases hs with rfl | rfl
          · decide
          · decide
        · obtain ⟨q, hq, hp⟩ := Option.bind_eq_some_iff.mp h
          obtain rfl := Option.some.inj hp
          exact List.forall_mem_cons.mpr ⟨hv, ascii_readDigitRun hq⟩
    · obtain rfl := Option.some.inj h
      exact fun u hu => absurd hu List.not_mem_nil

/-- And numbers without their signs. -/
theorem ascii_readUnsigned {text : UString} {p : UString × UString}
    (h : readUnsigned text = some p) :
    ∀ u ∈ p.1, u.toNat < 0x80 := by
  obtain ⟨int, hint, h⟩ := Option.bind_eq_some_iff.mp h
  obtain ⟨fraction, hfraction, h⟩ := Option.bind_eq_some_iff.mp h
  obtain ⟨exponent, hexponent, h⟩ := Option.bind_eq_some_iff.mp h
  obtain rfl := Option.some.inj h
  exact List.forall_mem_append.mpr ⟨List.forall_mem_append.mpr
    ⟨ascii_readInt hint, ascii_readFraction hfraction⟩,
    ascii_readExponent hexponent⟩

/-- Number tokens are ASCII. -/
theorem validUnicode_numberToken {raw : UString} (h : NumberToken raw) :
    validUnicode raw = true := by
  have hr := h [] trivial
  rw [List.append_nil] at hr
  have hascii : ∀ u ∈ raw, u.toNat < 0x80 := by
    cases raw with
    | nil => exact fun u hu => absurd hu List.not_mem_nil
    | cons v rest =>
      rw [readNumber] at hr
      split at hr
      · rename_i hv
        obtain ⟨q, hq, hp⟩ := Option.bind_eq_some_iff.mp hr
        obtain ⟨hp, -⟩ := Prod.mk.inj (Option.some.inj hp)
        rw [← hp]
        refine List.forall_mem_cons.mpr ⟨?_, ascii_readUnsigned hq⟩
        rw [hv]
        decide
      · exact ascii_readUnsigned hr
  refine validUnicode_of_forall fun u hu => ?_
  have := hascii u hu
  omega

mutual

/-- All strings and names of a tree are well-formed Unicode. -/
def WellFormed : JsonElement → Prop
  | .string s => validUnicode s = true
  | .array items => WellFormedItems items
  | .object members => WellFormedMembers members
  | _ => True

/-- No lone surrogate in any of some trees. -/
def WellFormedItems : List JsonElement → Prop
  | [] => True
  | item :: items => WellFormed item ∧ WellFormedItems items

/-- Nor in the names and trees of some members. -/
def WellFormedMembers : List (UString × JsonElement) → Prop
  | [] => True
  | (name, value) :: members => validUnicode name = true ∧ WellFormed value ∧ WellFormedMembers members

end

/-- `WellFormedItems`, item by item. -/
theorem wellFormedItems_iff : ∀ {items : List JsonElement},
    WellFormedItems items ↔ ∀ item ∈ items, WellFormed item
  | [] => by simp [WellFormedItems]
  | item :: items => by simp [WellFormedItems, @wellFormedItems_iff items]

/-- `WellFormedMembers`, member by member. -/
theorem wellFormedMembers_iff : ∀ {members : List (UString × JsonElement)},
    WellFormedMembers members ↔ ∀ m ∈ members, validUnicode m.1 = true ∧ WellFormed m.2
  | [] => by simp [WellFormedMembers]
  | (name, value) :: members => by
    simp [WellFormedMembers, @wellFormedMembers_iff members, and_assoc]

mutual

/-- All names of a tree are well-formed Unicode, its strings perhaps not. -/
def WellNamed : JsonElement → Prop
  | .array items => WellNamedItems items
  | .object members => WellNamedMembers members
  | _ => True

/-- No lone surrogate in a name of some trees. -/
def WellNamedItems : List JsonElement → Prop
  | [] => True
  | item :: items => WellNamed item ∧ WellNamedItems items

/-- Nor in a name of some members and of their trees. -/
def WellNamedMembers : List (UString × JsonElement) → Prop
  | [] => True
  | (name, value) :: members => validUnicode name = true ∧ WellNamed value ∧ WellNamedMembers members

end

/-- `WellNamedItems`, item by item. -/
theorem wellNamedItems_iff : ∀ {items : List JsonElement},
    WellNamedItems items ↔ ∀ item ∈ items, WellNamed item
  | [] => by simp [WellNamedItems]
  | item :: items => by simp [WellNamedItems, @wellNamedItems_iff items]

/-- `WellNamedMembers`, member by member. -/
theorem wellNamedMembers_iff : ∀ {members : List (UString × JsonElement)},
    WellNamedMembers members ↔ ∀ m ∈ members, validUnicode m.1 = true ∧ WellNamed m.2
  | [] => by simp [WellNamedMembers]
  | (name, value) :: members => by
    simp [WellNamedMembers, @wellNamedMembers_iff members, and_assoc]

mutual

/-- Where there is no lone surrogate there is none in a name. -/
theorem WellFormed.wellNamed : ∀ {j : JsonElement}, WellFormed j → WellNamed j
  | .null, _ => trivial
  | .boolean _, _ => trivial
  | .number _, _ => trivial
  | .string _, _ => trivial
  | .array items, h => WellFormedItems.wellNamed h
  | .object members, h => WellFormedMembers.wellNamed h

/-- The same for the items of an array. -/
theorem WellFormedItems.wellNamed :
    ∀ {items : List JsonElement}, WellFormedItems items → WellNamedItems items
  | [], _ => trivial
  | item :: items, h => ⟨WellFormed.wellNamed h.1, WellFormedItems.wellNamed h.2⟩

/-- And for the members of an object. -/
theorem WellFormedMembers.wellNamed : ∀ {members : List (UString × JsonElement)},
    WellFormedMembers members → WellNamedMembers members
  | [], _ => trivial
  | (name, value) :: members, h => ⟨h.1, WellFormed.wellNamed h.2.1,
      WellFormedMembers.wellNamed h.2.2⟩

end

section WellFormed

variable {q : Quoting} (hq : ∀ s, validUnicode s = true → validUnicode (q.quote s) = true)
include hq

mutual

/-- The text of a well-formed tree is well-formed, where the quoting keeps strings so. -/
theorem validUnicode_write :
    ∀ {j : JsonElement}, Writable q j → WellFormed j → validUnicode (write q j) = true
  | .null, _, _ => by
    rw [write]
    decide
  | .boolean true, _, _ => by
    rw [write]
    decide
  | .boolean false, _, _ => by
    rw [write]
    decide
  | .number raw, hj, _ => validUnicode_numberToken hj
  | .string s, _, h => hq s h
  | .array items, hj, h => by
    rw [write]
    exact validUnicode_cons (by decide)
      (validUnicode_append (validUnicode_concat (validUnicode_writeItems hj h)) (by decide))
  | .object members, hj, h => by
    rw [write]
    exact validUnicode_cons (by decide)
      (validUnicode_append (validUnicode_concat (validUnicode_writeMembers hj h)) (by decide))

/-- The texts of well-formed items are well-formed. -/
theorem validUnicode_writeItems :
    ∀ {items : List JsonElement}, WritableItems q items → WellFormedItems items →
    ∀ t ∈ writeItems q items, validUnicode t = true
  | [], _, _, t, ht => by simp [writeItems] at ht
  | item :: items, hj, h, t, ht => by
    rcases List.mem_cons.mp ht with rfl | ht
    · exact validUnicode_write hj.1 h.1
    · exact validUnicode_writeItems hj.2 h.2 t ht

/-- And so are those of members. -/
theorem validUnicode_writeMembers :
    ∀ {members : List (UString × JsonElement)}, WritableMembers q members →
    WellFormedMembers members → ∀ t ∈ writeMembers q members, validUnicode t = true
  | [], _, _, t, ht => by simp [writeMembers] at ht
  | (name, value) :: members, hj, h, t, ht => by
    rcases List.mem_cons.mp ht with rfl | ht
    · exact validUnicode_append (hq name h.1)
        (validUnicode_cons (by decide) (validUnicode_write hj.2.1 h.2.1))
    · exact validUnicode_writeMembers hj.2.2 h.2.2 t ht

end

end WellFormed

/-! ## The round trip -/

/-- The units that can start a value. -/
def startsValue (u : UInt16) : Bool :=
  u = 0x7B || u = 0x5B || u = 0x22 || u = 0x6E || u = 0x74 || u = 0x66 || u = 0x2D || isDigit u

/-- What is written starts as a value does, so that it is told from the end of a collection. -/
theorem write_head (q : Quoting) : ∀ j, Writable q j →
    ∃ u rest, write q j = u :: rest ∧ startsValue u = true
  | .null, _ => ⟨_, _, rfl, by decide⟩
  | .boolean true, _ => ⟨_, _, rfl, by decide⟩
  | .boolean false, _ => ⟨_, _, rfl, by decide⟩
  | .number raw, h => by
    obtain ⟨u, rest, he, hu⟩ := numberToken_head h
    refine ⟨u, rest, he, ?_⟩
    rcases hu with rfl | hu
    · decide
    · simp [startsValue, hu]
  | .string s, h => by
    obtain ⟨body, hb, -⟩ := q.reads h
    exact ⟨0x22, body, hb, by decide⟩
  | .array items, _ => ⟨_, _, rfl, by decide⟩
  | .object members, _ => ⟨_, _, rfl, by decide⟩

/-- A unit that can start a value is neither a space nor a closing bracket or brace. -/
theorem of_startsValue {u : UInt16} (h : startsValue u = true) :
    isSpace u = false ∧ u ≠ 0x5D ∧ u ≠ 0x7D := by
  refine ⟨?_, ?_, ?_⟩
  · by_contra hs
    simp only [isSpace, Bool.not_eq_false, Bool.or_eq_true, decide_eq_true_eq] at hs
    rcases hs with ((rfl | rfl) | rfl) | rfl <;> exact absurd h (by decide)
  · rintro rfl
    exact absurd h (by decide)
  · rintro rfl
    exact absurd h (by decide)

/-- A character that is not ignored is not skipped. -/
theorem skipSpace_cons {u : UInt16} (h : isSpace u = false) (rest : UString) :
    skipSpace (u :: rest) = u :: rest := by
  rw [skipSpace, h]
  rfl

/-- A character that is expected is found. -/
theorem expect_self {u : UInt16} (h : isSpace u = false) (rest : UString) :
    expect u (u :: rest) = some rest := by
  simp [expect, skipSpace_cons h rest]

/-- Another is not. -/
theorem expect_ne {u v : UInt16} (h : isSpace v = false) (hne : v ≠ u) (rest : UString) :
    expect u (v :: rest) = none := by
  simp [expect, skipSpace_cons h rest, hne]

/-- No value starts with a closing bracket or brace. -/
theorem expect_write {q : Quoting} {j : JsonElement} {u : UInt16} (h : Writable q j)
    (hu : u = 0x5D ∨ u = 0x7D) (rest : UString) : expect u (write q j ++ rest) = none := by
  obtain ⟨v, rest', he, hv⟩ := write_head q j h
  obtain ⟨hs, h1, h2⟩ := of_startsValue hv
  rw [he, List.cons_append]
  refine expect_ne hs ?_ _
  rcases hu with rfl | rfl
  · exact h1
  · exact h2

/-- A number is dispatched to the number reader. -/
theorem readScalar_number {raw rest : UString} {u : UInt16} {raw' : UString}
    (he : raw = u :: raw') (hu : u = 0x2D ∨ isDigit u = true)
    (hr : readNumber (raw ++ rest) = some (raw, rest)) :
    readScalar u (raw' ++ rest) = some (.number raw, rest) := by
  have hne : ∀ v : UInt16, isDigit v = false → v ≠ 0x2D → u ≠ v := by
    rintro v hd hm rfl
    rcases hu with hu | hu
    · exact hm hu
    · rw [hu] at hd
      simp at hd
  rw [readScalar, if_neg (hne 0x22 (by decide) (by decide)),
    if_neg (hne 0x6E (by decide) (by decide)), if_neg (hne 0x74 (by decide) (by decide)),
    if_neg (hne 0x66 (by decide) (by decide)), ← List.cons_append, ← he, hr]
  rfl

/-- A number ends before a comma. -/
theorem numberEnds_comma (rest : UString) : NumberEnds (0x2C :: rest) := by
  exact ⟨by decide, by decide, by decide, by decide⟩

/-- And before a bracket. -/
theorem numberEnds_bracket (rest : UString) : NumberEnds (0x5D :: rest) := by
  exact ⟨by decide, by decide, by decide, by decide⟩

/-- And before a brace. -/
theorem numberEnds_brace (rest : UString) : NumberEnds (0x7D :: rest) := by
  exact ⟨by decide, by decide, by decide, by decide⟩

section RoundTrip

variable (q : Quoting) (maxDepth : Nat)

mutual

/-- The reader reads a written value back, whatever stands behind it. -/
theorem value_write : ∀ (j : JsonElement) (depth : Nat) (rest : UString), Writable q j →
    depth + height j ≤ maxDepth → NumberEnds rest →
    value maxDepth depth (write q j ++ rest) = some (j, rest)
  | .null, depth, rest, _, _, _ => by
    show value maxDepth depth (0x6E :: (lit "ull" ++ rest)) = _
    rw [value_cons maxDepth depth (skipSpace_cons (by decide) _)]
    rfl
  | .boolean true, depth, rest, _, _, _ => by
    show value maxDepth depth (0x74 :: (lit "rue" ++ rest)) = _
    rw [value_cons maxDepth depth (skipSpace_cons (by decide) _)]
    rfl
  | .boolean false, depth, rest, _, _, _ => by
    show value maxDepth depth (0x66 :: (lit "alse" ++ rest)) = _
    rw [value_cons maxDepth depth (skipSpace_cons (by decide) _)]
    rfl
  | .number raw, depth, rest, h, _, hr => by
    -- a number is a scalar, told from the other scalars by its first character
    obtain ⟨u, raw', he, hu⟩ := numberToken_head h
    have hstart : startsValue u = true := by
      rcases hu with rfl | hu
      · decide
      · simp [startsValue, hu]
    have hne : u ≠ 0x7B ∧ u ≠ 0x5B := by
      constructor <;> (rintro rfl; exact absurd hu (by decide))
    show value maxDepth depth (raw ++ rest) = _
    rw [he, List.cons_append,
      value_cons maxDepth depth (skipSpace_cons (of_startsValue hstart).1 _), if_neg hne.1,
      if_neg hne.2, ← he]
    exact readScalar_number he hu (h rest hr)
  | .string s, depth, rest, h, _, _ => by
    obtain ⟨body, hb, hread⟩ := q.reads h
    show value maxDepth depth (q.quote s ++ rest) = _
    rw [hb, List.cons_append, value_cons maxDepth depth (skipSpace_cons (by decide) _),
      if_neg (by decide), if_neg (by decide), readScalar, if_pos rfl, hread rest]
    rfl
  | .array [], depth, rest, _, hd, _ => by
    show value maxDepth depth (0x5B :: 0x5D :: rest) = _
    rw [height] at hd
    rw [value_cons maxDepth depth (skipSpace_cons (by decide) _), if_neg (by decide), if_pos rfl,
      if_pos (by omega), expect_self (by decide)]
  | .array (item :: items), depth, rest, h, hd, _ => by
    have hw : Writable q item := (writableItems_iff.mp h) item List.mem_cons_self
    have hread := items_write (item :: items) (depth + 1) rest (by simp) h
      (by rw [height] at hd; omega)
    -- the reader first looks for the bracket that would close an empty array
    have hnone : expect 0x5D (concat [0x2C] (writeItems q (item :: items)) ++ 0x5D :: rest) =
        none := by
      cases items with
      | nil => exact expect_write hw (Or.inl rfl) _
      | cons next items =>
        simp only [writeItems, concat, List.append_assoc]
        exact expect_write hw (Or.inl rfl) _
    rw [write, List.cons_append, List.append_assoc, List.singleton_append,
      value_cons maxDepth depth (skipSpace_cons (by decide) _), if_neg (by decide), if_pos rfl,
      if_pos (by rw [height] at hd; omega), hnone, hread]
    rfl
  | .object [], depth, rest, _, hd, _ => by
    show value maxDepth depth (0x7B :: 0x7D :: rest) = _
    rw [height] at hd
    rw [value_cons maxDepth depth (skipSpace_cons (by decide) _), if_pos rfl, if_pos (by omega),
      expect_self (by decide)]
  | .object ((name, v) :: members), depth, rest, h, hd, _ => by
    have hw := (writableMembers_iff.mp h) (name, v) List.mem_cons_self
    have hread := members_write ((name, v) :: members) (depth + 1) rest (by simp) h
      (by rw [height] at hd; omega)
    -- a member begins with a quote, so the object does not close at once
    have hnone : expect 0x7D (concat [0x2C] (writeMembers q ((name, v) :: members)) ++ 0x7D :: rest)
        = none := by
      obtain ⟨body, hb, -⟩ := q.reads hw.1
      cases members with
      | nil =>
        simp only [writeMembers, concat, hb, List.cons_append]
        exact expect_ne (by decide) (by decide) _
      | cons next members =>
        simp only [writeMembers, concat, hb, List.cons_append, List.append_assoc]
        exact expect_ne (by decide) (by decide) _
    rw [write, List.cons_append, List.append_assoc, List.singleton_append,
      value_cons maxDepth depth (skipSpace_cons (by decide) _), if_pos rfl,
      if_pos (by rw [height] at hd; omega), hnone, hread]
    rfl

/-- **The items of an array read back.** -/
theorem items_write : ∀ (xs : List JsonElement) (depth : Nat) (rest : UString), xs ≠ [] →
    WritableItems q xs → depth + itemsHeight xs ≤ maxDepth →
    items maxDepth depth (concat [0x2C] (writeItems q xs) ++ 0x5D :: rest) = some (xs, rest)
  | [], _, _, hne, _, _ => absurd rfl hne
  | [item], depth, rest, _, h, hd => by
    rw [itemsHeight] at hd
    have hv := value_write item depth (0x5D :: rest) h.1 (by omega) (numberEnds_bracket rest)
    show items maxDepth depth (write q item ++ 0x5D :: rest) = _
    rw [items_eq, hv, Option.bind_some]
    simp only [expect_self (show isSpace 0x5D = false by decide)]
  | item :: next :: xs, depth, rest, _, h, hd => by
    rw [itemsHeight] at hd
    have hv := value_write item depth
      (0x2C :: (concat [0x2C] (writeItems q (next :: xs)) ++ 0x5D :: rest)) h.1 (by omega)
      (numberEnds_comma _)
    have hi := items_write (next :: xs) depth rest (by simp) h.2 (by omega)
    have he : concat [0x2C] (writeItems q (item :: next :: xs)) ++ 0x5D :: rest
        = write q item ++ 0x2C :: (concat [0x2C] (writeItems q (next :: xs)) ++ 0x5D :: rest) := by
      simp only [writeItems, concat, List.append_assoc, List.cons_append, List.nil_append]
    rw [he, items_eq, hv, Option.bind_some]
    simp only [expect_ne (show isSpace 0x2C = false by decide)
      (show (0x2C : UInt16) ≠ 0x5D by decide),
      expect_self (show isSpace 0x2C = false by decide), Option.bind_some, hi, Option.map_some]

/-- **And the members of an object.** -/
theorem members_write :
    ∀ (ms : List (UString × JsonElement)) (depth : Nat) (rest : UString), ms ≠ [] →
    WritableMembers q ms → depth + membersHeight ms ≤ maxDepth →
    members maxDepth depth (concat [0x2C] (writeMembers q ms) ++ 0x7D :: rest) = some (ms, rest)
  | [], _, _, hne, _, _ => absurd rfl hne
  | [(name, v)], depth, rest, _, h, hd => by
    rw [membersHeight] at hd
    have hv := value_write v depth (0x7D :: rest) h.2.1 (by omega) (numberEnds_brace rest)
    obtain ⟨body, hb, hread⟩ := q.reads h.1
    have he : concat [0x2C] (writeMembers q [(name, v)]) ++ 0x7D :: rest
        = 0x22 :: (body ++ 0x3A :: (write q v ++ 0x7D :: rest)) := by
      simp only [writeMembers, concat, hb, List.cons_append, List.append_assoc]
    rw [he, members_eq, expect_self (by decide), Option.bind_some, hread, Option.bind_some]
    simp only [expect_self (show isSpace 0x3A = false by decide), Option.bind_some, hv,
      expect_self (show isSpace 0x7D = false by decide)]
  | (name, v) :: next :: ms, depth, rest, _, h, hd => by
    rw [membersHeight] at hd
    have hv := value_write v depth
      (0x2C :: (concat [0x2C] (writeMembers q (next :: ms)) ++ 0x7D :: rest)) h.2.1
      (by omega) (numberEnds_comma _)
    have hm := members_write (next :: ms) depth rest (by simp) h.2.2 (by omega)
    obtain ⟨body, hb, hread⟩ := q.reads h.1
    have he : concat [0x2C] (writeMembers q ((name, v) :: next :: ms)) ++ 0x7D :: rest
        = 0x22 :: (body ++ 0x3A :: (write q v ++ 0x2C ::
            (concat [0x2C] (writeMembers q (next :: ms)) ++ 0x7D :: rest))) := by
      simp only [writeMembers, concat, hb, List.cons_append, List.append_assoc, List.nil_append]
    rw [he, members_eq, expect_self (by decide), Option.bind_some, hread, Option.bind_some]
    simp only [expect_self (show isSpace 0x3A = false by decide), Option.bind_some, hv,
      expect_ne (show isSpace 0x2C = false by decide) (show (0x2C : UInt16) ≠ 0x7D by decide),
      expect_self (show isSpace 0x2C = false by decide), hm, Option.map_some]

end

/-- **The round trip**: the reader inverts the writer. -/
theorem parse_write {j : JsonElement} (h : Writable q j) (hd : height j ≤ maxDepth) :
    parse maxDepth (write q j) = some j := by
  have hv := value_write q maxDepth j 0 [] h (by omega) trivial
  rw [List.append_nil, value] at hv
  rw [parse, hv]
  rfl

end RoundTrip

/-- **Trees with one text are one tree.** -/
theorem write_inj {q : Quoting} {j k : JsonElement} (hj : Writable q j) (hk : Writable q k)
    (h : write q j = write q k) : j = k := by
  have h1 := parse_write q (max (height j) (height k)) hj (Nat.le_max_left ..)
  have h2 := parse_write q (max (height j) (height k)) hk (Nat.le_max_right ..)
  rw [h, h2] at h1
  exact (Option.some.inj h1).symm

end Json
