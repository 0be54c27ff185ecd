/-
  Integers in decimal notation.

  `decimal n` is the canonical text of an integer: a minus sign for the negative ones, then the
  digits without leading zeros.  `parseInteger` reads the wider notation with an optional sign of
  either kind and any number of leading zeros.  Reading inverts writing (`parseInteger_decimal`),
  so two spellings of one integer have one canonical text and two integers never share one
  (`decimal_inj`).
-/
import Mathlib.Algebra.Group.Int.Defs
import Mathlib.Algebra.Group.Nat.Defs
import Mathlib.Data.List.Induction
import FsQuint.Lib.Utf16

namespace Decimal

open Utf16

/-- An ASCII digit. -/
def isDigit (u : UInt16) : Bool := decide (0x30 ≤ u.toNat) && decide (u.toNat ≤ 0x39)

/-- The digits of a natural number, most significant first. -/
def natText (n : Nat) : UString := (Nat.toDigits 10 n).map fun c => UInt16.ofNat c.toNat

/-- The canonical decimal text of an integer. -/
def decimal : Int → UString
  | .ofNat n => natText n
  | .negSucc n => 0x2D :: natText (n + 1)

/-- The value of a run of digits that continues the number `acc`; `none` at any other unit. -/
def readDigits (acc : Nat) : UString → Option Nat
  | [] => some acc
  | u :: rest => if isDigit u then readDigits (10 * acc + (u.toNat - 0x30)) rest else none

/-- The value of a non-empty run of digits. -/
def parseNat : UString → Option Nat
  | [] => none
  | digits => readDigits 0 digits

/-- The value of a text that is an optional sign followed by decimal digits. -/
def parseInteger : UString → Option Int
  | [] => none
  | u :: rest =>
    if u = 0x2D then (parseNat rest).map fun n => -(n : Int)
    else if u = 0x2B then (parseNat rest).map fun n => (n : Int)
    else (parseNat (u :: rest)).map fun n => (n : Int)

/-! ## Writing, then reading -/

/-- The code unit of a digit. -/
theorem toNat_digitChar {d : Nat} (hd : d < 10) :
    (UInt16.ofNat d.digitChar.toNat).toNat = 0x30 + d := by
  rw [Nat.toNat_digitChar_of_lt_ten hd, UInt16.toNat_ofNat', Nat.mod_eq_of_lt (by omega)]

/-- A number below ten is written with one digit. -/
theorem natText_of_lt {n : Nat} (h : n < 10) : natText n = [UInt16.ofNat n.digitChar.toNat] := by
  rw [natText, Nat.toDigits_of_lt_base h]
  rfl

/-- A larger one by its tenth and its last digit. -/
theorem natText_of_le {n : Nat} (h : 10 ≤ n) :
    natText n = natText (n / 10) ++ [UInt16.ofNat (n % 10).digitChar.toNat] := by
  rw [natText, Nat.toDigits_of_base_le (by decide) h, List.map_append]
  rfl

/-- No number is written as nothing. -/
theorem natText_ne_nil (n : Nat) : natText n ≠ [] := by
  rw [natText]
  simp [Nat.toDigits_ne_nil]

/-- A digit is a digit. -/
theorem isDigit_digitChar {d : Nat} (hd : d < 10) :
    isDigit (UInt16.ofNat d.digitChar.toNat) = true := by
  simp only [isDigit, toNat_digitChar hd, Bool.and_eq_true, decide_eq_true_eq]
  omega

/-- A number is written with digits only. -/
theorem isDigit_of_mem_natText (n : Nat) : ∀ u ∈ natText n, isDigit u = true := by
  induction n using Nat.strong_induction_on with
  | _ n ih =>
    intro u hu
    rcases Nat.lt_or_ge n 10 with h | h
    · rw [natText_of_lt h, List.mem_singleton] at hu
      rw [hu]
      exact isDigit_digitChar h
    · rw [natText_of_le h, List.mem_append, List.mem_singleton] at hu
      rcases hu with hu | rfl
      · exact ih (n / 10) (by omega) u hu
      · exact isDigit_digitChar (by omega)

/-- Only zero is written with a leading zero. -/
theorem natText_head {n : Nat} (hn : 0 < n) : ∃ u rest, natText n = u :: rest ∧ u ≠ 0x30 := by
  induction n using Nat.strong_induction_on with
  | _ n ih =>
    rcases Nat.lt_or_ge n 10 with h | h
    · refine ⟨_, _, natText_of_lt h, fun he => ?_⟩
      have := congrArg UInt16.toNat he
      rw [toNat_digitChar h] at this
      simp at this
      omega
    · obtain ⟨u, rest, hrest, hu⟩ := ih (n / 10) (by omega) (by omega)
      exact ⟨u, rest ++ _, by rw [natText_of_le h, hrest, List.cons_append], hu⟩

/-- Digits are read from left to right, the value so far passed on. -/
theorem readDigits_append : ∀ (s t : UString) (acc : Nat),
    readDigits acc (s ++ t) = (readDigits acc s).bind fun n => readDigits n t
  | [], _, _ => rfl
  | u :: rest, t, acc => by
    by_cases h : isDigit u = true
    · simp only [List.cons_append, readDigits, if_pos h]
      exact readDigits_append rest t _
    · simp only [List.cons_append, readDigits, if_neg h]
      rfl

/-- One digit is appended to it. -/
theorem readDigits_digitChar (acc : Nat) {d : Nat} (hd : d < 10) :
    readDigits acc [UInt16.ofNat d.digitChar.toNat] = some (10 * acc + d) := by
  rw [readDigits, if_pos (isDigit_digitChar hd), toNat_digitChar hd, readDigits]
  congr 1
  omega

/-- What is written for a number reads as that number. -/
theorem readDigits_natText (n : Nat) : readDigits 0 (natText n) = some n := by
  induction n using Nat.strong_induction_on with
  | _ n ih =>
    rcases Nat.lt_or_ge n 10 with h | h
    · rw [natText_of_lt h, readDigits_digitChar 0 h]
      congr 1
      omega
    · rw [natText_of_le h, readDigits_append, ih (n / 10) (by omega), Option.bind_some,
        readDigits_digitChar _ (by omega)]
      congr 1
      omega

/-- Also as a whole literal. -/
theorem parseNat_natText (n : Nat) : parseNat (natText n) = some n := by
  have h := readDigits_natText n
  cases ht : natText n with
  | nil => exact absurd ht (natText_ne_nil n)
  | cons u rest =>
    rw [ht] at h
    exact h

/-- Digits without a leading zero are the text of a number. -/
theorem exists_natText {digits : UString} (hdigits : ∀ u ∈ digits, isDigit u = true)
    (hhead : ∃ u ∈ digits.head?, u ≠ 0x30) : ∃ n, 0 < n ∧ digits = natText n := by
  induction digits using List.reverseRecOn with
  | nil =>
    obtain ⟨u, hu, _⟩ := hhead
    cases hu
  | append_singleton front u ih =>
    -- the last digit
    obtain ⟨d, hd, rfl⟩ : ∃ d < 10, u = UInt16.ofNat d.digitChar.toNat := by
      have hu := hdigits u (List.mem_append_right _ List.mem_cons_self)
      simp only [isDigit, Bool.and_eq_true, decide_eq_true_eq] at hu
      refine ⟨u.toNat - 0x30, by omega, UInt16.toNat.inj ?_⟩
      rw [toNat_digitChar (by omega)]
      omega
    cases front with
    | nil =>
      refine ⟨d, Nat.pos_of_ne_zero ?_, (natText_of_lt hd).symm⟩
      rintro rfl
      obtain ⟨v, hv, hne⟩ := hhead
      exact hne (Option.some.inj hv).symm
    | cons v front =>
      obtain ⟨m, hm, hfront⟩ := ih (fun w hw => hdigits w (List.mem_append_left _ hw)) hhead
      refine ⟨10 * m + d, by omega, ?_⟩
      rw [natText_of_le (by omega), hfront, show (10 * m + d) / 10 = m by omega,
        show (10 * m + d) % 10 = d by omega]

/-- Only digits are read. -/
theorem isDigit_of_readDigits {s : UString} {acc n : Nat} (h : readDigits acc s = some n) :
    ∀ u ∈ s, isDigit u = true := by
  induction s generalizing acc with
  | nil => simp
  | cons u rest ih =>
    rw [readDigits] at h
    split at h
    · next hu => exact List.forall_mem_cons.mpr ⟨hu, ih h⟩
    · cases h

/-- Also in a whole literal. -/
theorem isDigit_of_parseNat {s : UString} {n : Nat} (h : parseNat s = some n) :
    ∀ u ∈ s, isDigit u = true := by
  cases s with
  | nil => cases h
  | cons u rest => exact isDigit_of_readDigits h

/-- What is read as an integer is a sign or a digit, and then digits. -/
theorem isDigit_of_parseInteger {u : UInt16} {rest : UString} {n : Int}
    (h : parseInteger (u :: rest) = some n) :
    (u = 0x2D ∨ u = 0x2B ∨ isDigit u = true) ∧ ∀ v ∈ rest, isDigit v = true := by
  have hrest : ∀ t, parseNat t ≠ none → ∀ v ∈ t, isDigit v = true := by
    intro t ht
    obtain ⟨m, hm⟩ := Option.ne_none_iff_exists'.mp ht
    exact isDigit_of_parseNat hm
  rw [parseInteger] at h
  split at h
  · next hu =>
    refine ⟨.inl hu, hrest rest fun hnone => ?_⟩
    rw [hnone] at h
    cases h
  · split at h
    · next hu =>
      refine ⟨.inr (.inl hu), hrest rest fun hnone => ?_⟩
      rw [hnone] at h
      cases h
    · have hall := hrest (u :: rest) fun hnone => by
        rw [hnone] at h
        cases h
      exact ⟨.inr (.inr (hall u List.mem_cons_self)), fun v hv =>
        hall v (List.mem_cons_of_mem u hv)⟩

/-- A digit is no sign. -/
theorem isDigit_ne_sign {u : UInt16} (h : isDigit u = true) : u ≠ 0x2D ∧ u ≠ 0x2B := by
  constructor
  · rintro rfl
    exact absurd h (by decide)
  · rintro rfl
    exact absurd h (by decide)

/-- **Reading inverts writing.** -/
theorem parseInteger_decimal (n : Int) : parseInteger (decimal n) = some n := by
  cases n with
  | ofNat n =>
    have h := parseNat_natText n
    rw [decimal]
    cases ht : natText n with
    | nil => exact absurd ht (natText_ne_nil n)
    | cons u rest =>
      have hu := isDigit_ne_sign (isDigit_of_mem_natText n u (by rw [ht]; exact List.mem_cons_self))
      rw [ht] at h
      rw [parseInteger, if_neg hu.1, if_neg hu.2, h]
      rfl
  | negSucc n =>
    rw [decimal, parseInteger, if_pos rfl, parseNat_natText]
    rfl

/-- **Different integers are written differently.** -/
theorem decimal_inj {m n : Int} (h : decimal m = decimal n) : m = n := by
  have hm := parseInteger_decimal m
  rw [h, parseInteger_decimal] at hm
  exact (Option.some.inj hm).symm

/-- The text of an integer is ASCII. -/
theorem toNat_lt_of_mem_decimal {n : Int} {u : UInt16} (h : u ∈ decimal n) : u.toNat < 0x80 := by
  have hdigit : ∀ m, u ∈ natText m → u.toNat < 0x80 := by
    intro m hm
    have hd := isDigit_of_mem_natText m u hm
    simp only [isDigit, Bool.and_eq_true, decide_eq_true_eq] at hd
    omega
  cases n with
  | ofNat m => exact hdigit m h
  | negSucc m =>
    rcases List.mem_cons.mp h with rfl | h
    · decide
    · exact hdigit _ h

/-- What is read as an integer is ASCII. -/
theorem validUnicode_of_parseInteger {s : UString} {n : Int} (h : parseInteger s = some n) :
    validUnicode s = true := by
  have hdigit : ∀ u, isDigit u = true → u.toNat < 0xD800 := by
    intro u hu
    simp only [isDigit, Bool.and_eq_true, decide_eq_true_eq] at hu
    omega
  refine validUnicode_of_forall fun u hu => .inl ?_
  cases s with
  | nil => cases hu
  | cons v rest =>
    obtain ⟨hv, hrest⟩ := isDigit_of_parseInteger h
    rcases List.mem_cons.mp hu with rfl | hu
    · rcases hv with rfl | rfl | hv
      · decide
      · decide
      · exact hdigit u hv
    · exact hdigit u (hrest u hu)

/-- What is written for an integer is well-formed. -/
theorem validUnicode_decimal (n : Int) : validUnicode (decimal n) = true := by
  refine validUnicode_of_forall fun u hu => ?_
  have := toNat_lt_of_mem_decimal hu
  omega

end Decimal
