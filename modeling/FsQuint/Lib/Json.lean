/-
  JSON texts (RFC 8259): the tree of a document and its reader.

  1. **Tree** (`JsonElement`): a document as its reader hands it out.  A number keeps its raw
     token, a string is held unescaped as code units (its escapes may form unpaired surrogates),
     and an object keeps its members in the order of the text, repeated names included.

  2. **Reader** (`parse`): a recursive descent that refuses nesting beyond a given depth.  The
     recursion carries an explicit fuel.  Every reader leaves less than it was given
     (`length_readValue`), so the fuel `parse` supplies is always enough (`readValue_fuel`), and
     `value`, `items` and `members` satisfy the equations of the grammar without any.
-/
import FsQuint.Lib.Decimal

namespace Json

open Utf16 Decimal

/-- A JSON value, as the reader hands it out. -/
inductive JsonElement where
  | null
  | boolean (b : Bool)
  | number (raw : UString)
  | string (value : UString)
  | array (items : List JsonElement)
  | object (members : List (UString × JsonElement))

/-- What holds of the leaves, and of an array or an object when it holds of what is in it, holds of
    every tree. -/
theorem JsonElement.induction {P : JsonElement → Prop} (null : P .null)
    (boolean : ∀ b, P (.boolean b)) (number : ∀ raw, P (.number raw))
    (string : ∀ s, P (.string s)) (array : ∀ items, (∀ item ∈ items, P item) → P (.array items))
    (object : ∀ members, (∀ member ∈ members, P member.2) → P (.object members)) : ∀ j, P j :=
  JsonElement.rec null boolean number string array object (fun _ h => nomatch h)
    (fun _ _ hitem hitems _ h => (List.mem_cons.mp h).elim (fun he => he ▸ hitem) (hitems _))
    (fun _ h => nomatch h)
    (fun _ _ hmember hmembers _ h => (List.mem_cons.mp h).elim
    (fun he => he ▸ hmember) (hmembers _))
    fun _ _ h => h

/-! ## Reading -/

/-- The four characters that JSON ignores between tokens. -/
def isSpace (u : UInt16) : Bool := u = 0x20 || u = 0x09 || u = 0x0A || u = 0x0D

/-- The text from the first character on that is not ignored. -/
def skipSpace : UString → UString
  | [] => []
  | u :: rest => if isSpace u then skipSpace rest else u :: rest

/-- The value of a hexadecimal digit. -/
def hexDigit (u : UInt16) : Option Nat :=
  if 0x30 ≤ u.toNat ∧ u.toNat ≤ 0x39 then some (u.toNat - 0x30)
  else if 0x41 ≤ u.toNat ∧ u.toNat ≤ 0x46 then some (u.toNat - 0x41 + 10)
  else if 0x61 ≤ u.toNat ∧ u.toNat ≤ 0x66 then some (u.toNat - 0x61 + 10)
  else none

/-- The code unit of the four digits of a `\u` escape. -/
def hexUnit (a b c d : UInt16) : Option UInt16 := do
  let a ← hexDigit a
  let b ← hexDigit b
  let c ← hexDigit c
  let d ← hexDigit d
  return UInt16.ofNat (a * 4096 + b * 256 + c * 16 + d)

/-- The code unit of a two-character escape. -/
def shortEscape (u : UInt16) : Option UInt16 :=
  if u = 0x22 ∨ u = 0x5C ∨ u = 0x2F then some u
  else if u = 0x62 then some 0x08
  else if u = 0x66 then some 0x0C
  else if u = 0x6E then some 0x0A
  else if u = 0x72 then some 0x0D
  else if u = 0x74 then some 0x09
  else none

/-- Put a unit in front of a string that has been read. -/
def consUnit (u : UInt16) : UString × UString → UString × UString := fun p => (u :: p.1, p.2)

/-- The rest of a string literal after its opening quote: its value, and what follows it. -/
def readString : UString → Option (UString × UString)
  | [] => none
  | u :: rest =>
    if u = 0x22 then some ([], rest)
    else if u = 0x5C then
      match rest with
      | [] => none
      | e :: rest =>
        if e = 0x75 then
          match rest with
          | a :: b :: c :: d :: rest =>
            (hexUnit a b c d).bind fun v => (readString rest).map (consUnit v)
          | _ => none
        else (shortEscape e).bind fun v => (readString rest).map (consUnit v)
    else if u.toNat < 0x20 then none
    else (readString rest).map (consUnit u)

/-- A run of digits, possibly empty, and what follows it. -/
def spanDigits : UString → UString × UString
  | [] => ([], [])
  | u :: rest => if isDigit u then (u :: (spanDigits rest).1, (spanDigits rest).2) else ([], u :: rest)

/-- A non-empty run of digits. -/
def readDigitRun (text : UString) : Option (UString × UString) :=
  match spanDigits text with
  | ([], _) => none
  | run => some run

/-- The integer part of a number: `0`, or a run of digits that does not start with it. -/
def readInt : UString → Option (UString × UString)
  | [] => none
  | u :: rest => if u = 0x30 then some ([u], rest) else readDigitRun (u :: rest)

/-- The fraction of a number, if there is one. -/
def readFraction : UString → Option (UString × UString)
  | [] => some ([], [])
  | u :: rest =>
    if u = 0x2E then do
      let (ds, rest) ← readDigitRun rest
      return (u :: ds, rest)
    else some ([], u :: rest)

/-- The exponent of a number, if there is one. -/
def readExponent : UString → Option (UString × UString)
  | [] => some ([], [])
  | u :: rest =>
    if u = 0x65 ∨ u = 0x45 then
      match rest with
      | [] => none
      | s :: rest =>
        if s = 0x2B ∨ s = 0x2D then do
          let (ds, rest) ← readDigitRun rest
          return (u :: s :: ds, rest)
        else do
          let (ds, rest) ← readDigitRun (s :: rest)
          return (u :: ds, rest)
    else some ([], u :: rest)

/-- An unsigned number token: integer part, fraction, exponent. -/
def readUnsigned (text : UString) : Option (UString × UString) := do
  let (int, rest) ← readInt text
  let (fraction, rest) ← readFraction rest
  let (exponent, rest) ← readExponent rest
  return (int ++ fraction ++ exponent, rest)

/-- A number token, and what follows it. -/
def readNumber : UString → Option (UString × UString)
  | [] => none
  | u :: rest =>
    if u = 0x2D then do
      let (token, rest) ← readUnsigned rest
      return (u :: token, rest)
    else readUnsigned (u :: rest)

/-- What follows a given keyword. -/
def readWord : UString → UString → Option UString
  | [], text => some text
  | _ :: _, [] => none
  | w :: word, u :: text => if w = u then readWord word text else none

/-- What follows a given unit, spaces before it skipped. -/
def expect (u : UInt16) (text : UString) : Option UString :=
  match skipSpace text with
  | [] => none
  | v :: rest => if v = u then some rest else none

/-- A string, keyword or number that starts with `u`, and what follows it. -/
def readScalar (u : UInt16) (rest : UString) : Option (JsonElement × UString) :=
  if u = 0x22 then (readString rest).map fun p => (.string p.1, p.2)
  else if u = 0x6E then (readWord (lit "ull") rest).map fun rest => (.null, rest)
  else if u = 0x74 then (readWord (lit "rue") rest).map fun rest => (.boolean true, rest)
  else if u = 0x66 then (readWord (lit "alse") rest).map fun rest => (.boolean false, rest)
  else (readNumber (u :: rest)).map fun p => (.number p.1, p.2)

mutual

/-- A value inside `depth` open arrays and objects, and what follows it. -/
def readValue (maxDepth : Nat) : Nat → Nat → UString → Option (JsonElement × UString)
  | 0, _, _ => none
  | fuel + 1, depth, text =>
    match skipSpace text with
    | [] => none
    | u :: rest =>
      if u = 0x7B then
        if depth < maxDepth then
          match expect 0x7D rest with
          | some rest => some (.object [], rest)
          | none =>
            (readMembers maxDepth fuel (depth + 1) rest).map fun p => (.object p.1, p.2)
        else none
      else if u = 0x5B then
        if depth < maxDepth then
          match expect 0x5D rest with
          | some rest => some (.array [], rest)
          | none => (readItems maxDepth fuel (depth + 1) rest).map fun p => (.array p.1, p.2)
        else none
      else readScalar u rest

/-- The items of a non-empty array, up to and including its closing bracket. -/
def readItems (maxDepth : Nat) : Nat → Nat → UString → Option (List JsonElement × UString)
  | 0, _, _ => none
  | fuel + 1, depth, text =>
    (readValue maxDepth fuel depth text).bind fun item =>
      match expect 0x5D item.2 with
      | some rest => some ([item.1], rest)
      | none =>
        (expect 0x2C item.2).bind fun rest =>
          (readItems maxDepth fuel depth rest).map fun p => (item.1 :: p.1, p.2)

/-- The members of a non-empty object, up to and including its closing brace. -/
def readMembers (maxDepth : Nat) : Nat → Nat → UString → Option (List (UString × JsonElement) × UString)
  | 0, _, _ => none
  | fuel + 1, depth, text =>
    (expect 0x22 text).bind fun rest =>
      (readString rest).bind fun name =>
        (expect 0x3A name.2).bind fun rest =>
          (readValue maxDepth fuel depth rest).bind fun value =>
            match expect 0x7D value.2 with
            | some rest => some ([(name.1, value.1)], rest)
            | none =>
              (expect 0x2C value.2).bind fun rest =>
                (readMembers maxDepth fuel depth rest).map fun p => ((name.1, value.1) :: p.1, p.2)

end

/-- The tree of a text; `none` when the text is not JSON or nests deeper than `maxDepth`. -/
def parse (maxDepth : Nat) (text : UString) : Option JsonElement :=
  match readValue maxDepth (2 * text.length + 1) 0 text with
  | some (value, rest) => if skipSpace rest = [] then some value else none
  | none => none

/-! ## The fuel is enough -/

/-- Skipping leaves no more than there was. -/
theorem length_skipSpace_le : ∀ text : UString, (skipSpace text).length ≤ text.length
  | [] => Nat.le_refl 0
  | u :: rest => by
    have h := length_skipSpace_le rest
    rw [skipSpace]
    split
    · simp only [List.length_cons]
      omega
    · exact Nat.le_refl _

/-- And a character that is read makes the text shorter. -/
theorem length_of_skipSpace {text rest : UString} {u : UInt16} (h : skipSpace text = u :: rest) :
    rest.length < text.length := by
  have hle := length_skipSpace_le text
  rw [h, List.length_cons] at hle
  omega

/-- A string literal either ends here, or goes on after a unit, written plainly or escaped. -/
theorem readString_cases {u : UInt16} {rest : UString} {p : UString × UString}
    (h : readString (u :: rest) = some p) :
    p = ([], rest) ∨
      ∃ v rest' q, rest'.length ≤ rest.length ∧ readString rest' = some q ∧ p = consUnit v q := by
  unfold readString at h
  split at h
  · exact Or.inl (Option.some.inj h).symm
  · refine Or.inr ?_
    split at h
    · split at h
      · simp at h
      · rename_i e rest
        split at h
        · split at h
          · rename_i a b c d rest
            obtain ⟨v, -, hv⟩ := Option.bind_eq_some_iff.mp h
            obtain ⟨q, hq, hp⟩ := Option.map_eq_some_iff.mp hv
            exact ⟨v, rest, q, by simp only [List.length_cons]; omega, hq, hp.symm⟩
          · simp at h
        · obtain ⟨v, -, hv⟩ := Option.bind_eq_some_iff.mp h
          obtain ⟨q, hq, hp⟩ := Option.map_eq_some_iff.mp hv
          exact ⟨v, rest, q, by simp only [List.length_cons]; omega, hq, hp.symm⟩
    · split at h
      · simp at h
      · obtain ⟨q, hq, hp⟩ := Option.map_eq_some_iff.mp h
        exact ⟨u, rest, q, Nat.le_refl _, hq, hp.symm⟩

/-- A string literal takes up at least its closing quote. -/
theorem length_readString (n : Nat) : ∀ {text : UString} {p : UString × UString},
    text.length ≤ n → readString text = some p → p.2.length < text.length := by
  induction n with
  | zero =>
    intro text p hn h
    rw [List.length_eq_zero_iff.mp (Nat.le_zero.mp hn)] at h
    simp [readString] at h
  | succ n ih =>
    intro text p hn h
    cases text with
    | nil => simp [readString] at h
    | cons u rest =>
      rw [List.length_cons] at hn ⊢
      rcases readString_cases h with rfl | ⟨v, rest', q, hle, hq, rfl⟩
      · exact Nat.lt_succ_self _
      · have := ih (by omega) hq
        show q.2.length < _
        omega

/-- The digits in front, and the rest, make up the text. -/
theorem spanDigits_append_eq : ∀ text : UString, (spanDigits text).1 ++ (spanDigits text).2 = text
  | [] => rfl
  | u :: rest => by
    rw [spanDigits]
    split
    · rw [List.cons_append, spanDigits_append_eq rest]
    · rfl

/-- A run of digits is a non-empty prefix of the text. -/
theorem readDigitRun_eq {text : UString} {p : UString × UString} (h : readDigitRun text = some p) :
    p.1 ++ p.2 = text ∧ p.1 ≠ [] := by
  have hs := spanDigits_append_eq text
  unfold readDigitRun at h
  split at h
  · simp at h
  · rename_i hne
    obtain rfl := Option.some.inj h
    exact ⟨hs, fun h1 => hne (spanDigits text).2 (Prod.ext h1 rfl)⟩

/-- An integer part is read off the text, and is not empty. -/
theorem readInt_eq {text : UString} {p : UString × UString} (h : readInt text = some p) :
    p.1 ++ p.2 = text ∧ p.1 ≠ [] := by
  cases text with
  | nil => simp [readInt] at h
  | cons u rest =>
    rw [readInt] at h
    split at h
    · obtain rfl := Option.some.inj h
      exact ⟨rfl, by simp⟩
    · exact readDigitRun_eq h

/-- A fraction is read off the text. -/
theorem readFraction_eq {text : UString} {p : UString × UString} (h : readFraction text = some p) :
    p.1 ++ p.2 = text := by
  cases text with
  | nil =>
    obtain rfl := Option.some.inj h
    rfl
  | cons u rest =>
    rw [readFraction] at h
    split at h
    · obtain ⟨q, hq, hp⟩ := Option.bind_eq_some_iff.mp h
      obtain rfl := Option.some.inj hp
      exact congrArg (u :: ·) (readDigitRun_eq hq).1
    · obtain rfl := Option.some.inj h
      rfl

/-- An exponent is. -/
theorem readExponent_eq {text : UString} {p : UString × UString} (h : readExponent text = some p) :
    p.1 ++ p.2 = text := by
  cases text with
  | nil =>
    obtain rfl := Option.some.inj h
    rfl
  | cons u rest =>
    unfold readExponent at h
    simp only at h
    split at h
    · split at h
      · simp at h
      · split at h
        · obtain ⟨q, hq, hp⟩ := Option.bind_eq_some_iff.mp h
          obtain rfl := Option.some.inj hp
          exact congrArg (fun t => u :: _ :: t) (readDigitRun_eq hq).1
        · obtain ⟨q, hq, hp⟩ := Option.bind_eq_some_iff.mp h
          obtain rfl := Option.some.inj hp
          exact congrArg (u :: ·) (readDigitRun_eq hq).1
    · obtain rfl := Option.some.inj h
      rfl

/-- And a number without its sign, which is not empty. -/
theorem readUnsigned_eq {text : UString} {p : UString × UString} (h : readUnsigned text = some p) :
    p.1 ++ p.2 = text ∧ p.1 ≠ [] := by
  obtain ⟨int, hint, h⟩ := Option.bind_eq_some_iff.mp h
  obtain ⟨fraction, hfraction, h⟩ := Option.bind_eq_some_iff.mp h
  obtain ⟨exponent, hexponent, h⟩ := Option.bind_eq_some_iff.mp h
  obtain rfl := Option.some.inj h
  refine ⟨?_, fun he => (readInt_eq hint).2 ?_⟩
  · rw [List.append_assoc, List.append_assoc, readExponent_eq hexponent, readFraction_eq hfraction,
      (readInt_eq hint).1]
  · exact (List.append_eq_nil_iff.mp (List.append_eq_nil_iff.mp he).1).1

/-- A number token is a non-empty prefix of the text. -/
theorem readNumber_eq {text : UString} {p : UString × UString} (h : readNumber text = some p) :
    p.1 ++ p.2 = text ∧ p.1 ≠ [] := by
  cases text with
  | nil => simp [readNumber] at h
  | cons u rest =>
    rw [readNumber] at h
    split at h
    · obtain ⟨q, hq, hp⟩ := Option.bind_eq_some_iff.mp h
      obtain rfl := Option.some.inj hp
      exact ⟨congrArg (u :: ·) (readUnsigned_eq hq).1, by simp⟩
    · exact readUnsigned_eq h

/-- A number takes up at least one character. -/
theorem length_readNumber {text : UString} {p : UString × UString} (h : readNumber text = some p) :
    p.2.length < text.length := by
  obtain ⟨he, hne⟩ := readNumber_eq h
  have := List.length_pos_iff.mpr hne
  rw [← he, List.length_append]
  omega

/-- A word is read off the text. -/
theorem readWord_eq : ∀ {word text rest : UString}, readWord word text = some rest →
    word ++ rest = text
  | [], _, _, h => Option.some.inj h.symm ▸ rfl
  | _ :: _, [], _, h => by simp [readWord] at h
  | w :: word, u :: text, rest, h => by
    rw [readWord] at h
    split at h
    · rename_i hw
      rw [List.cons_append, readWord_eq h, hw]
    · simp at h

/-- What follows it is no longer than the text. -/
theorem length_readWord {word text rest : UString} (h : readWord word text = some rest) :
    rest.length ≤ text.length := by
  rw [← readWord_eq h, List.length_append]
  omega

/-- A character that is expected and found makes the text shorter. -/
theorem length_expect {u : UInt16} {text rest : UString} (h : expect u text = some rest) :
    rest.length < text.length := by
  unfold expect at h
  split at h
  · simp at h
  · rename_i v rest' hs
    split at h
    · obtain rfl := Option.some.inj h
      exact length_of_skipSpace hs
    · simp at h

/-- What follows a scalar is no longer than the text after its first character. -/
theorem length_readScalar {u : UInt16} {rest : UString} {p : JsonElement × UString}
    (h : readScalar u rest = some p) : p.2.length ≤ rest.length := by
  unfold readScalar at h
  split at h
  · obtain ⟨q, hq, rfl⟩ := Option.map_eq_some_iff.mp h
    exact Nat.le_of_lt (length_readString _ (Nat.le_refl _) hq)
  split at h
  · obtain ⟨q, hq, rfl⟩ := Option.map_eq_some_iff.mp h
    exact length_readWord hq
  split at h
  · obtain ⟨q, hq, rfl⟩ := Option.map_eq_some_iff.mp h
    exact length_readWord hq
  split at h
  · obtain ⟨q, hq, rfl⟩ := Option.map_eq_some_iff.mp h
    exact length_readWord hq
  · obtain ⟨q, hq, rfl⟩ := Option.map_eq_some_iff.mp h
    have := length_readNumber hq
    rw [List.length_cons] at this
    show q.2.length ≤ _
    omega

/-- What a reader leaves is shorter than what it was given. -/
theorem length_readValue (maxDepth : Nat) (fuel : Nat) :
    (∀ depth text p, readValue maxDepth fuel depth text = some p → p.2.length < text.length) ∧
    (∀ depth text p, readItems maxDepth fuel depth text = some p → p.2.length < text.length) ∧
    (∀ depth text p, readMembers maxDepth fuel depth text = some p → p.2.length < text.length) := by
  induction fuel with
  | zero => refine ⟨?_, ?_, ?_⟩ <;> intro depth text p h <;>
      simp [readValue, readItems, readMembers] at h
  | succ fuel ih =>
    obtain ⟨ihv, ihi, ihm⟩ := ih
    refine ⟨?_, ?_, ?_⟩
    -- an object, an array or a scalar: each takes at least its first character
    · intro depth text p h
      rw [readValue] at h
      split at h
      · simp at h
      rename_i u rest hs
      have hlt := length_of_skipSpace hs
      split at h
      · split at h
        · split at h
          · rename_i rest' he
            obtain rfl := Option.some.inj h
            exact Nat.lt_trans (length_expect he) hlt
          · obtain ⟨q, hq, rfl⟩ := Option.map_eq_some_iff.mp h
            exact Nat.lt_trans (ihm _ _ _ hq) hlt
        · simp at h
      split at h
      · split at h
        · split at h
          · rename_i rest' he
            obtain rfl := Option.some.inj h
            exact Nat.lt_trans (length_expect he) hlt
          · obtain ⟨q, hq, rfl⟩ := Option.map_eq_some_iff.mp h
            exact Nat.lt_trans (ihi _ _ _ hq) hlt
        · simp at h
      · exact Nat.lt_of_le_of_lt (length_readScalar h) hlt
    · intro depth text p h
      rw [readItems] at h
      obtain ⟨item, hitem, h⟩ := Option.bind_eq_some_iff.mp h
      have hlt := ihv _ _ _ hitem
      split at h
      · rename_i rest he
        obtain rfl := Option.some.inj h
        exact Nat.lt_trans (length_expect he) hlt
      · obtain ⟨rest, he, h⟩ := Option.bind_eq_some_iff.mp h
        obtain ⟨q, hq, rfl⟩ := Option.map_eq_some_iff.mp h
        exact Nat.lt_trans (ihi _ _ q hq) (Nat.lt_trans (length_expect he) hlt)
    · intro depth text p h
      rw [readMembers] at h
      obtain ⟨rest, hquote, h⟩ := Option.bind_eq_some_iff.mp h
      obtain ⟨name, hname, h⟩ := Option.bind_eq_some_iff.mp h
      obtain ⟨rest', hcolon, h⟩ := Option.bind_eq_some_iff.mp h
      obtain ⟨value, hvalue, h⟩ := Option.bind_eq_some_iff.mp h
      have hlt : value.2.length < text.length :=
        calc value.2.length < rest'.length := ihv _ _ _ hvalue
          _ < name.2.length := length_expect hcolon
          _ < rest.length := length_readString _ (Nat.le_refl _) hname
          _ < text.length := length_expect hquote
      split at h
      · rename_i rest'' he
        obtain rfl := Option.some.inj h
        exact Nat.lt_trans (length_expect he) hlt
      · obtain ⟨rest'', he, h⟩ := Option.bind_eq_some_iff.mp h
        obtain ⟨q, hq, rfl⟩ := Option.map_eq_some_iff.mp h
        exact Nat.lt_trans (ihm _ _ q hq) (Nat.lt_trans (length_expect he) hlt)

/-- **The fuel `parse` supplies is enough**: from twice the length of the text on, one more unit
    of fuel changes nothing.  Each reader is entered with a text whose length is at most half the
    fuel left, because it has been shortened by then. -/
theorem readValue_fuel (maxDepth : Nat) (fuel : Nat) :
    (∀ depth text, 2 * text.length + 1 ≤ fuel →
      readValue maxDepth (fuel + 1) depth text = readValue maxDepth fuel depth text) ∧
    (∀ depth text, 2 * text.length + 2 ≤ fuel →
      readItems maxDepth (fuel + 1) depth text = readItems maxDepth fuel depth text) ∧
    (∀ depth text, 2 * text.length + 2 ≤ fuel →
      readMembers maxDepth (fuel + 1) depth text = readMembers maxDepth fuel depth text) := by
  induction fuel with
  | zero => refine ⟨?_, ?_, ?_⟩ <;> intro depth text h <;> omega
  | succ fuel ih =>
    obtain ⟨ihv, ihi, ihm⟩ := ih
    refine ⟨?_, ?_, ?_⟩
    · intro depth text hf
      rw [readValue, readValue]
      cases hs : skipSpace text with
      | nil => rfl
      | cons u rest =>
        have hlt := length_of_skipSpace hs
        simp only [ihm (depth + 1) rest (by omega), ihi (depth + 1) rest (by omega)]
    -- the item is read with the same text, which is why the items need one unit more
    · intro depth text hf
      rw [readItems, readItems, ihv depth text (by omega)]
      refine Option.bind_congr fun item hitem => ?_
      cases he : expect 0x5D item.2 with
      | some rest => rfl
      | none =>
        refine Option.bind_congr fun rest hrest => ?_
        have hitem' := (length_readValue maxDepth fuel).1 _ _ _ hitem
        have hrest' := length_expect hrest
        rw [ihi depth rest (by omega)]
    · intro depth text hf
      rw [readMembers, readMembers]
      refine Option.bind_congr fun rest hquote => ?_
      refine Option.bind_congr fun name hname => ?_
      refine Option.bind_congr fun rest' hcolon => ?_
      have h1 := length_expect hquote
      have h2 := length_readString _ (Nat.le_refl _) hname
      have h3 := length_expect hcolon
      rw [ihv depth rest' (by omega)]
      refine Option.bind_congr fun value hvalue => ?_
      cases he : expect 0x7D value.2 with
      | some rest => rfl
      | none =>
        refine Option.bind_congr fun rest'' hrest => ?_
        have h4 := (length_readValue maxDepth fuel).1 _ _ _ hvalue
        have h5 := length_expect hrest
        rw [ihm depth rest'' (by omega)]

/-! ## Readers without fuel -/

/-- A value inside `depth` open arrays and objects, and what follows it. -/
def value (maxDepth depth : Nat) (text : UString) : Option (JsonElement × UString) :=
  readValue maxDepth (2 * text.length + 1) depth text

/-- The items of a non-empty array, and what follows its closing bracket. -/
def items (maxDepth depth : Nat) (text : UString) : Option (List JsonElement × UString) :=
  readItems maxDepth (2 * text.length + 2) depth text

/-- The members of a non-empty object, and what follows its closing brace. -/
def members (maxDepth depth : Nat) (text : UString) : Option (List (UString × JsonElement) × UString) :=
  readMembers maxDepth (2 * text.length + 2) depth text

/-- **Enough fuel is enough**: with twice the length of the text and one more, the value is that of
    `value`. -/
theorem readValue_of_le (maxDepth depth : Nat) (text : UString) {fuel : Nat}
    (h : 2 * text.length + 1 ≤ fuel) :
    readValue maxDepth fuel depth text = value maxDepth depth text := by
  induction fuel, h using Nat.le_induction with
  | base => rfl
  | succ fuel h ih => rw [(readValue_fuel maxDepth fuel).1 depth text h, ih]

/-- The same for the items of an array. -/
theorem readItems_of_le (maxDepth depth : Nat) (text : UString) {fuel : Nat}
    (h : 2 * text.length + 2 ≤ fuel) :
    readItems maxDepth fuel depth text = items maxDepth depth text := by
  induction fuel, h using Nat.le_induction with
  | base => rfl
  | succ fuel h ih => rw [(readValue_fuel maxDepth fuel).2.1 depth text h, ih]

/-- And for the members of an object. -/
theorem readMembers_of_le (maxDepth depth : Nat) (text : UString) {fuel : Nat}
    (h : 2 * text.length + 2 ≤ fuel) :
    readMembers maxDepth fuel depth text = members maxDepth depth text := by
  induction fuel, h using Nat.le_induction with
  | base => rfl
  | succ fuel h ih => rw [(readValue_fuel maxDepth fuel).2.2 depth text h, ih]

/-- **The equation of `value`**, without fuel: what is read depends on the first character. -/
theorem value_cons (maxDepth depth : Nat) {text rest : UString} {u : UInt16}
    (h : skipSpace text = u :: rest) :
    value maxDepth depth text =
      if u = 0x7B then
        if depth < maxDepth then
          match expect 0x7D rest with
          | some rest => some (.object [], rest)
          | none => (members maxDepth (depth + 1) rest).map fun p => (.object p.1, p.2)
        else none
      else if u = 0x5B then
        if depth < maxDepth then
          match expect 0x5D rest with
          | some rest => some (.array [], rest)
          | none => (items maxDepth (depth + 1) rest).map fun p => (.array p.1, p.2)
        else none
      else readScalar u rest := by
  have hlt := length_of_skipSpace h
  rw [value, readValue, h]
  simp only [readMembers_of_le maxDepth (depth + 1)
    rest (show 2 * rest.length + 2 ≤ 2 * text.length by omega),
    readItems_of_le maxDepth (depth + 1) rest (show 2 * rest.length + 2 ≤ 2 * text.length by omega)]

/-- **The equation of `items`**: an item, and then a comma or the closing bracket. -/
theorem items_eq (maxDepth depth : Nat) (text : UString) :
    items maxDepth depth text =
      (value maxDepth depth text).bind fun item =>
        match expect 0x5D item.2 with
        | some rest => some ([item.1], rest)
        | none =>
          (expect 0x2C item.2).bind fun rest =>
            (items maxDepth depth rest).map fun p => (item.1 :: p.1, p.2) := by
  rw [items, readItems, ← value]
  refine Option.bind_congr fun item hitem => ?_
  cases he : expect 0x5D item.2 with
  | some rest => rfl
  | none =>
    refine Option.bind_congr fun rest hrest => ?_
    have h1 := (length_readValue maxDepth _).1 _ _ _ hitem
    have h2 := length_expect hrest
    rw [readItems_of_le maxDepth depth rest (by omega)]

/-- **The equation of `members`**: a name, a colon, a value, and then a comma or the closing brace. -/
theorem members_eq (maxDepth depth : Nat) (text : UString) :
    members maxDepth depth text =
      (expect 0x22 text).bind fun rest =>
        (readString rest).bind fun name =>
          (expect 0x3A name.2).bind fun rest =>
            (value maxDepth depth rest).bind fun value =>
              match expect 0x7D value.2 with
              | some rest => some ([(name.1, value.1)], rest)
              | none =>
                (expect 0x2C value.2).bind fun rest =>
                  (members maxDepth depth rest).map fun p => ((name.1, value.1) :: p.1, p.2) := by
  rw [members, readMembers]
  refine Option.bind_congr fun rest hquote => ?_
  refine Option.bind_congr fun name hname => ?_
  refine Option.bind_congr fun rest' hcolon => ?_
  have h1 := length_expect hquote
  have h2 := length_readString _ (Nat.le_refl _) hname
  have h3 := length_expect hcolon
  rw [readValue_of_le maxDepth depth rest' (by omega)]
  refine Option.bind_congr fun v hvalue => ?_
  cases he : expect 0x7D v.2 with
  | some rest => rfl
  | none =>
    refine Option.bind_congr fun rest'' hrest => ?_
    have h4 := (length_readValue maxDepth _).1 _ _ _ hvalue
    have h5 := length_expect hrest
    rw [readMembers_of_le maxDepth depth rest'' (by omega)]

end Json
