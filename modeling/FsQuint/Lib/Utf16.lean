/-
  Strings as sequences of UTF-16 code units.

  A managed string is a list of 16-bit code units, and nothing makes its surrogates come in
  pairs: a well-formed string is one every unit of which belongs to a scalar value.  Three facts
  are needed of them.

  1. **Ordinal order** (`ordinalLe`): unit by unit, a proper prefix first.  It is a linear order,
     so a list sorted by it is determined by its members.
  2. **Well-formedness** (`validUnicode`): `scalars` reads the units as scalar values and marks
     every unpaired surrogate.  Well-formed strings are closed under concatenation
     (`scalars_append`), and reading one then writing it back changes nothing
     (`flatMap_utf16_scalars`).
  3. **UTF-8** (`getBytes`, `getString`): the strict encoder refuses an ill-formed string, the
     decoder inverts it (`getString_getBytes`), and the replacing encoder `getBytesLossy` agrees
     with the strict one exactly where nothing had to be replaced, so that it is injective there
     (`getBytesLossy_inj`) and nowhere else.
-/
import Mathlib.Data.List.ReduceOption
import FsQuint.Lib.Collections

namespace Utf16

open Collections

/-- A string, as the list of its UTF-16 code units. -/
abbrev UString := List UInt16

instance : LawfulBEq UString := inferInstance

/-- The code units of an ASCII literal. -/
def lit (s : String) : UString := s.toList.map fun c => UInt16.ofNat c.toNat

/-- The texts one after another, with a separator between them. -/
def concat (separator : UString) : List UString → UString
  | [] => []
  | [text] => text
  | text :: next :: rest => text ++ separator ++ concat separator (next :: rest)

/-! ## Ordinal order -/

/-- `ordinalLe a b`: `a` comes before `b`, or is `b`, when code units are compared as numbers. -/
def ordinalLe : UString → UString → Bool
  | [], _ => true
  | _ :: _, [] => false
  | a :: as, b :: bs => decide (a < b) || (decide (a = b) && ordinalLe as bs)

/-- The ordinal comparison of strings that are not empty: by the first code unit, and then by the rest. -/
theorem ordinalLe_cons {a b : UInt16} {as bs : UString} :
    ordinalLe (a :: as) (b :: bs) = true ↔ a < b ∨ a = b ∧ ordinalLe as bs = true := by
  simp [ordinalLe]

/-- Of two strings one comes first. -/
theorem ordinalLe_total : ∀ a b : UString, ordinalLe a b = true ∨ ordinalLe b a = true
  | [], _ => Or.inl rfl
  | _ :: _, [] => Or.inr rfl
  | a :: as, b :: bs => by
    rw [ordinalLe_cons, ordinalLe_cons]
    rcases (show a < b ∨ b < a ∨ a = b by grind) with h | h | h
    · exact Or.inl (Or.inl h)
    · exact Or.inr (Or.inl h)
    · rcases ordinalLe_total as bs with ht | ht
      · exact Or.inl (Or.inr ⟨h, ht⟩)
      · exact Or.inr (Or.inr ⟨h.symm, ht⟩)

/-- The comparison is transitive. -/
theorem ordinalLe_trans : ∀ {a b c : UString},
    ordinalLe a b = true → ordinalLe b c = true → ordinalLe a c = true
  | [], _, _, _, _ => by simp [ordinalLe]
  | _ :: _, [], _, hab, _ => by simp [ordinalLe] at hab
  | _ :: _, _ :: _, [], _, hbc => by simp [ordinalLe] at hbc
  | a :: as, b :: bs, c :: cs, hab, hbc => by
    rw [ordinalLe_cons] at hab hbc ⊢
    rcases hab with hab | ⟨rfl, hab⟩
    · rcases hbc with hbc | ⟨rfl, _⟩
      · exact Or.inl (UInt16.lt_trans hab hbc)
      · exact Or.inl hab
    · rcases hbc with hbc | ⟨rfl, hbc⟩
      · exact Or.inl hbc
      · exact Or.inr ⟨rfl, ordinalLe_trans hab hbc⟩

/-- And antisymmetric. -/
theorem ordinalLe_antisymm : ∀ {a b : UString},
    ordinalLe a b = true → ordinalLe b a = true → a = b
  | [], [], _, _ => rfl
  | [], _ :: _, _, h => by simp [ordinalLe] at h
  | _ :: _, [], h, _ => by simp [ordinalLe] at h
  | a :: as, b :: bs, hab, hba => by
    rw [ordinalLe_cons] at hab hba
    rcases hab with hab | ⟨rfl, hab⟩
    · rcases hba with hba | ⟨rfl, _⟩
      · exact absurd (UInt16.lt_trans hab hba) (UInt16.lt_irrefl a)
      · exact absurd hab (UInt16.lt_irrefl _)
    · rcases hba with hba | ⟨_, hba⟩
      · exact absurd hba (UInt16.lt_irrefl _)
      · rw [ordinalLe_antisymm hab hba]

/-- The ordinal order of strings. -/
def ordinal : KeyOrder UString where
  le := ordinalLe
  total := ordinalLe_total
  trans := ordinalLe_trans
  antisymm := ordinalLe_antisymm

/-! ## Scalar values -/

/-- The first half of a surrogate pair. -/
def isHighSurrogate (u : UInt16) : Bool := decide (0xD800 ≤ u.toNat) && decide (u.toNat < 0xDC00)

/-- The second half of one. -/
def isLowSurrogate (u : UInt16) : Bool := decide (0xDC00 ≤ u.toNat) && decide (u.toNat < 0xE000)

/-- The scalar value of a unit that stands alone; a surrogate has none. -/
def unitScalar (u : UInt16) : Option Char :=
  if u.toNat < 0xD800 ∨ 0xE000 ≤ u.toNat then some (Char.ofNat u.toNat) else none

/-- The scalar value of a high surrogate followed by a low one. -/
def pairScalar (u v : UInt16) : Char :=
  Char.ofNat (0x10000 + (u.toNat - 0xD800) * 0x400 + (v.toNat - 0xDC00))

/-- The scalar values of a string, in order, with `none` for each unpaired surrogate. -/
def scalars : UString → List (Option Char)
  | [] => []
  | [u] => [unitScalar u]
  | u :: v :: rest =>
    if isHighSurrogate u && isLowSurrogate v then some (pairScalar u v) :: scalars rest
    else unitScalar u :: scalars (v :: rest)

/-- `validUnicode s`: every surrogate of `s` belongs to a pair. -/
def validUnicode (s : UString) : Bool := (scalars s).all Option.isSome

/-- The one or two units of a scalar value. -/
def utf16 (c : Char) : UString :=
  if c.toNat < 0x10000 then [UInt16.ofNat c.toNat]
  else [UInt16.ofNat (0xD800 + (c.toNat - 0x10000) / 0x400),
    UInt16.ofNat (0xDC00 + (c.toNat - 0x10000) % 0x400)]

/-- A number outside the surrogates is that of a character. -/
theorem toNat_ofNat_of_valid {n : Nat} (h : n < 0xD800 ∨ 0xE000 ≤ n ∧ n < 0x110000) :
    (Char.ofNat n).toNat = n := by
  have hv : n.isValidChar := by
    rcases h with h | h
    · exact Or.inl (by omega)
    · exact Or.inr (by omega)
  rw [Char.ofNat, dif_pos hv]
  rfl

/-- A unit that has a scalar value is written back as itself. -/
theorem utf16_unitScalar {u : UInt16} {c : Char} (h : unitScalar u = some c) : utf16 c = [u] := by
  have hlt : u.toNat < 65536 := u.toNat_lt
  unfold unitScalar at h
  split at h
  · rename_i hu
    obtain rfl := Option.some.inj h
    have hn := toNat_ofNat_of_valid (n := u.toNat) (by omega)
    rw [utf16, hn, if_pos hlt, UInt16.ofNat_toNat]
  · simp at h

/-- A surrogate pair is written back as itself. -/
theorem utf16_pairScalar {u v : UInt16} (hu : isHighSurrogate u = true)
    (hv : isLowSurrogate v = true) : utf16 (pairScalar u v) = [u, v] := by
  simp only [isHighSurrogate, isLowSurrogate, Bool.and_eq_true, decide_eq_true_eq] at hu hv
  have hn := toNat_ofNat_of_valid
    (n := 0x10000 + (u.toNat - 0xD800) * 0x400 + (v.toNat - 0xDC00)) (by omega)
  rw [pairScalar, utf16, hn, if_neg (by omega)]
  have hhigh : 0xD800 + (0x10000 + (u.toNat - 0xD800) * 0x400 + (v.toNat - 0xDC00) - 0x10000) / 0x400
      = u.toNat := by omega
  have hlow : 0xDC00 + (0x10000 + (u.toNat - 0xD800) * 0x400 + (v.toNat - 0xDC00) - 0x10000) % 0x400
      = v.toNat := by omega
  rw [hhigh, hlow, UInt16.ofNat_toNat, UInt16.ofNat_toNat]

/-- A surrogate pair is read as one scalar value. -/
theorem scalars_pair {u v : UInt16} (rest : UString)
    (h : (isHighSurrogate u && isLowSurrogate v) = true) :
    scalars (u :: v :: rest) = some (pairScalar u v) :: scalars rest := by
  rw [scalars, if_pos h]

/-- Everything else is read unit by unit. -/
theorem scalars_unit {u v : UInt16} (rest : UString)
    (h : ¬ (isHighSurrogate u && isLowSurrogate v) = true) :
    scalars (u :: v :: rest) = unitScalar u :: scalars (v :: rest) := by
  rw [scalars, if_neg h]

/-- A surrogate pair is well-formed. -/
theorem validUnicode_pair {u v : UInt16} {rest : UString}
    (h : (isHighSurrogate u && isLowSurrogate v) = true) :
    validUnicode (u :: v :: rest) = validUnicode rest := by
  simp only [validUnicode, scalars_pair rest h, List.all_cons, Option.isSome_some, Bool.true_and]

/-- A single unit is when it is no surrogate. -/
theorem validUnicode_unit {u v : UInt16} {rest : UString}
    (h : ¬ (isHighSurrogate u && isLowSurrogate v) = true) :
    validUnicode (u :: v :: rest) = ((unitScalar u).isSome && validUnicode (v :: rest)) := by
  simp only [validUnicode, scalars_unit rest h, List.all_cons]

/-- **Reading a well-formed string and writing it back changes nothing.** -/
theorem flatMap_utf16_scalars (s : UString) (h : validUnicode s = true) :
    (scalars s).reduceOption.flatMap utf16 = s := by
  induction s using scalars.induct with
  | case1 => rfl
  | case2 u =>
    simp only [validUnicode, scalars, List.all_cons, List.all_nil, Bool.and_true] at h
    obtain ⟨c, hc⟩ := Option.isSome_iff_exists.mp h
    simp [scalars, hc, utf16_unitScalar hc]
  | case3 u v rest hs ih =>
    rw [validUnicode_pair hs] at h
    obtain ⟨hu, hv⟩ := Bool.and_eq_true_iff.mp hs
    rw [scalars_pair rest hs, List.reduceOption_cons_of_some, List.flatMap_cons,
      utf16_pairScalar hu hv, ih h]
    rfl
  | case4 u v rest hs ih =>
    rw [validUnicode_unit hs, Bool.and_eq_true] at h
    obtain ⟨c, hc⟩ := Option.isSome_iff_exists.mp h.1
    rw [scalars_unit rest hs, hc, List.reduceOption_cons_of_some, List.flatMap_cons,
      utf16_unitScalar hc, ih h.2]
    rfl

/-- A well-formed string does not end inside a pair, so what follows it is read on its own. -/
theorem scalars_append (s t : UString) (h : validUnicode s = true) :
    scalars (s ++ t) = scalars s ++ scalars t := by
  induction s using scalars.induct with
  | case1 => rfl
  | case2 u =>
    simp only [validUnicode, scalars, List.all_cons, List.all_nil, Bool.and_true] at h
    have hu : isHighSurrogate u = false := by
      unfold unitScalar at h
      split at h
      · simp only [isHighSurrogate, Bool.and_eq_false_iff, decide_eq_false_iff_not]
        omega
      · simp at h
    cases t with
    | nil => rfl
    | cons v rest => exact scalars_unit rest (by simp [hu])
  | case3 u v rest hs ih =>
    rw [validUnicode_pair hs] at h
    rw [List.cons_append, List.cons_append, scalars_pair _ hs, scalars_pair _ hs, ih h,
      List.cons_append]
  | case4 u v rest hs ih =>
    rw [validUnicode_unit hs, Bool.and_eq_true] at h
    have hrest := ih h.2
    rw [List.cons_append] at hrest
    rw [List.cons_append, List.cons_append, scalars_unit _ hs, scalars_unit _ hs, hrest,
      List.cons_append]

/-- Well-formed strings are well-formed one after the other. -/
theorem validUnicode_append {s t : UString} (hs : validUnicode s = true)
    (ht : validUnicode t = true) : validUnicode (s ++ t) = true := by
  simp only [validUnicode] at hs ht ⊢
  rw [scalars_append s t hs, List.all_append, hs, ht]
  rfl

/-- A string none of whose units is a surrogate is well formed. -/
theorem validUnicode_of_forall {s : UString}
    (h : ∀ u ∈ s, u.toNat < 0xD800 ∨ 0xE000 ≤ u.toNat) : validUnicode s = true := by
  induction s with
  | nil => rfl
  | cons u rest ih =>
    have hu : validUnicode [u] = true := by
      simp only [validUnicode, scalars, unitScalar, if_pos (h u List.mem_cons_self)]
      rfl
    exact validUnicode_append hu (ih fun v hv => h v (List.mem_cons_of_mem u hv))

/-- An ASCII character does no harm in front. -/
theorem validUnicode_cons {c : UInt16} {s : UString} (hc : c.toNat < 0x80)
    (hs : validUnicode s = true) :
    validUnicode (c :: s) = true := by
  have hunit : validUnicode [c] = true := validUnicode_of_forall fun u hu => by
    rw [List.mem_singleton.mp hu]
    exact Or.inl (by omega)
  exact validUnicode_append hunit hs

/-- Nor do commas between well-formed strings. -/
theorem validUnicode_concat : ∀ {texts : List UString}, (∀ t ∈ texts, validUnicode t = true) →
    validUnicode (concat [0x2C] texts) = true
  | [], _ => rfl
  | [t], h => h t List.mem_cons_self
  | t :: next :: rest, h => by
    rw [concat]
    exact validUnicode_append (validUnicode_append (h t List.mem_cons_self) (by decide))
      (validUnicode_concat fun u hu => h u (List.mem_cons_of_mem t hu))

/-! ## UTF-8 -/

/-- Strict encoding: an ill-formed string has no bytes. -/
def getBytes (s : UString) : Option ByteArray :=
  if validUnicode s then some ((scalars s).reduceOption.flatMap String.utf8EncodeChar).toByteArray
  else none

/-- Replacing encoding: an unpaired surrogate is encoded as U+FFFD. -/
def getBytesLossy (s : UString) : ByteArray :=
  (((scalars s).map fun c => c.getD (Char.ofNat 0xFFFD)).flatMap String.utf8EncodeChar).toByteArray

/-- Strict decoding: bytes that are not UTF-8 have no string. -/
def getString (bytes : ByteArray) : Option UString :=
  bytes.utf8Decode?.map fun cs => cs.toList.flatMap utf16

/-- The decoder inverts the strict encoder. -/
theorem getString_getBytes {s : UString} {bytes : ByteArray} (h : getBytes s = some bytes) :
    getString bytes = some s := by
  unfold getBytes at h
  split at h
  · rename_i hs
    obtain rfl := Option.some.inj h
    have hd := List.utf8Decode?_utf8Encode (l := (scalars s).reduceOption)
    rw [List.utf8Encode] at hd
    rw [getString, hd, Option.map_some, List.toList_toArray, flatMap_utf16_scalars s hs]
  · simp at h

/-- A scalar value has at least as many bytes as code units. -/
theorem length_utf16_le (c : Char) : (utf16 c).length ≤ (String.utf8EncodeChar c).length := by
  rw [String.length_utf8EncodeChar]
  have hpos := c.utf8Size_pos
  unfold utf16
  split
  · exact hpos
  · rename_i h
    have hbig : ∀ m : UInt32, m.toNat < 0x10000 → ¬ c.val ≤ m := by
      intro m hm hle
      have := UInt32.le_iff_toNat_le.mp hle
      exact h (Nat.lt_of_le_of_lt this hm)
    rw [Char.utf8Size, if_neg (hbig _ (by decide)), if_neg (hbig _ (by decide)),
      if_neg (hbig _ (by decide))]
    show 2 ≤ 4
    decide

/-- The UTF-16 encoding has no more units than the UTF-8 encoding has bytes. -/
theorem length_flatMap_utf16_le : ∀ cs : List Char,
    (cs.flatMap utf16).length ≤ (cs.flatMap String.utf8EncodeChar).length
  | [] => Nat.le_refl 0
  | c :: cs => by
    rw [List.flatMap_cons, List.flatMap_cons, List.length_append, List.length_append]
    exact Nat.add_le_add (length_utf16_le c) (length_flatMap_utf16_le cs)

/-- A string has at least as many bytes as code units. -/
theorem length_le_size {s : UString} {bytes : ByteArray} (h : getBytes s = some bytes) :
    s.length ≤ bytes.size := by
  unfold getBytes at h
  split at h
  · rename_i hs
    obtain rfl := Option.some.inj h
    have hle := length_flatMap_utf16_le (scalars s).reduceOption
    rwa [flatMap_utf16_scalars s hs, ← List.size_toByteArray] at hle
  · cases h

/-- A default that is never used. -/
theorem map_getD_eq_reduceOption {α : Type} (d : α) :
    ∀ {cs : List (Option α)}, cs.all Option.isSome = true → cs.map (·.getD d) = cs.reduceOption
  | [], _ => rfl
  | none :: _, h => by simp at h
  | some c :: cs, h => by
    rw [List.reduceOption_cons_of_some, List.map_cons,
      map_getD_eq_reduceOption d (by simpa using h), Option.getD_some]

/-- Where nothing has to be replaced, the replacing encoder is the strict one. -/
theorem getBytes_eq_lossy {s : UString} (h : validUnicode s = true) :
    getBytes s = some (getBytesLossy s) := by
  rw [getBytes, if_pos h, getBytesLossy, map_getD_eq_reduceOption _ h]

/-- **The bytes of a well-formed string determine it.** -/
theorem getBytesLossy_inj {s t : UString} (hs : validUnicode s = true) (ht : validUnicode t = true)
    (h : getBytesLossy s = getBytesLossy t) : s = t := by
  have h1 := getString_getBytes (getBytes_eq_lossy hs)
  have h2 := getString_getBytes (getBytes_eq_lossy ht)
  rw [h, h2] at h1
  exact (Option.some.inj h1).symm

/-- The replacing encoder is not injective beyond that: a lone surrogate has the bytes of the
    replacement character. -/
example : getBytesLossy [0xD800] = getBytesLossy [0xFFFD] ∧ validUnicode [0xD800] = false := by
  decide

end Utf16
