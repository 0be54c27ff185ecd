/-
  What the texts of the merge fence tell.

  1. **Numbers** — a generation is written as the number of its comment, and the text determines the number
     (`decimalInt_injective`), also where another text follows it (`decimalInt_append`).
  2. **Stamps** — the deadline of a verdict is published as a date and a time.  All its fields but the year have
     two digits, and the date of a day belongs to no other; so a stamp names one second (`strftime_injective`).
  3. **Deadline lines** — the first line that is published with a verdict is the one for the deadline of its winner
     (`deadlineLines_head`), and it is the line of no other deadline (`expiresLine_injective`).

  A stamp does not show the offset of the clock that the instant is written with: the second that it names is one
  of that clock.
-/
import Mathlib.Tactic.Lift
import FsQuint.ClaimGeneration

namespace FsQuint

namespace ClaimGeneration

variable {args : ItemArgs} {i j : Int}

/-! ## Numbers -/

/-- Numbers are told apart by their digits. -/
theorem decimal_injective {m n : Nat} (h : decimal m = decimal n) : m = n := by
  have hvalue := congrArg (fun ds => Nat.ofDigitChars 10 ds 0) h
  simpa only [decimal, Nat.ofDigitChars_ten_toDigits] using hvalue

/-- The sign is no digit. -/
theorem decimal_ne_minus {m : Nat} {rest : Text} : decimal m ≠ '-' :: rest := by
  intro h
  have hmem : '-' ∈ Nat.toDigits 10 m := by
    rw [show Nat.toDigits 10 m = '-' :: rest from h]
    exact List.mem_cons_self
  have hdigit : '-'.isDigit = true := Nat.isDigit_of_mem_toDigits (by decide) (by decide) hmem
  exact absurd hdigit (by decide)

/-- **A generation names one number.** -/
theorem decimalInt_injective (h : decimalInt i = decimalInt j) : i = j := by
  cases i with
  | ofNat m =>
    cases j with
    | ofNat n => exact congrArg Int.ofNat (decimal_injective h)
    | negSucc n => exact absurd h decimal_ne_minus
  | negSucc m =>
    cases j with
    | ofNat n => exact absurd h.symm decimal_ne_minus
    | negSucc n => exact congrArg Int.negSucc (Nat.succ.inj (decimal_injective (List.cons.inj h).2))

/-- The digits of a number end where no digit follows. -/
theorem decimalInt_append {m n : Int} {c : Char} {s t : Text} (hm : 0 ≤ m) (hn : 0 ≤ n) (hc : c.isDigit = false)
    (h : decimalInt m ++ c :: s = decimalInt n ++ c :: t) : m = n ∧ s = t := by
  lift m to Nat using hm
  lift n to Nat using hn
  have hread : ∀ (k : Nat) (rest : Text), (decimal k ++ c :: rest).takeWhile Char.isDigit = decimal k := by
    intro k rest
    have hdigits : ∀ d ∈ decimal k, d.isDigit = true := fun d hd =>
      Nat.isDigit_of_mem_toDigits (by decide) (by decide) hd
    rw [List.takeWhile_append_of_pos hdigits, List.takeWhile_cons_of_neg (by simp [hc]), List.append_nil]
  have hfield : decimal m = decimal n :=
    (hread m s).symm.trans ((congrArg (List.takeWhile Char.isDigit) h).trans (hread n t))
  have hrest : c :: s = c :: t := List.append_cancel_left (h.trans (congrArg (· ++ c :: t) hfield.symm))
  exact ⟨congrArg Int.ofNat (decimal_injective hfield), (List.cons.inj hrest).2⟩

/-! ## Stamps -/

/-- The second that an instant falls in, on the clock that it is written with. -/
def Instant.second (t : Instant) : Int := t.local / microseconds

/-- A field of two digits has its width, and its digits tell its number. -/
theorem twoDigits_spec : ∀ n : Fin 100,
    (twoDigits n.val).length = 2 ∧ Nat.ofDigitChars 10 (twoDigits n.val) 0 = n.val := by
  decide

/-- A field of two digits can be read off, and what follows it. -/
theorem twoDigits_append {m n : Int} {s t : Text} (hm : 0 ≤ m ∧ m < 100) (hn : 0 ≤ n ∧ n < 100)
    (h : twoDigits m ++ s = twoDigits n ++ t) : m = n ∧ s = t := by
  lift m to Nat using hm.1
  lift n to Nat using hn.1
  obtain ⟨hwidth, hvalue⟩ := twoDigits_spec ⟨m, by omega⟩
  obtain ⟨hwidth', hvalue'⟩ := twoDigits_spec ⟨n, by omega⟩
  obtain ⟨hfield, hrest⟩ := List.append_inj h (hwidth.trans hwidth'.symm)
  have hsame : m = n := hvalue.symm.trans ((congrArg (Nat.ofDigitChars 10 · 0) hfield).trans hvalue')
  exact ⟨congrArg Int.ofNat hsame, hrest⟩

/-- A stamp, field by field. -/
theorem strftime_eq (t : Instant) : t.strftime =
    decimalInt (Calendar.civil (t.second / 86400)).1 ++ '-' ::
      (twoDigits (Calendar.civil (t.second / 86400)).2.1 ++ '-' ::
        (twoDigits (Calendar.civil (t.second / 86400)).2.2 ++ 'T' ::
          (twoDigits (t.second % 86400 / 3600) ++ ':' ::
            (twoDigits (t.second % 3600 / 60) ++ ':' :: (twoDigits (t.second % 60) ++ ['Z']))))) := by
  simp [Instant.strftime, Instant.second]

/-- **A stamp names one second**, of the clock that the instant is written with. -/
theorem strftime_injective {s t : Instant} (h : s.strftime = t.strftime) : s.second = t.second := by
  have hs : 0 ≤ s.second := Int.ediv_nonneg s.dated.1 (by decide)
  have ht : 0 ≤ t.second := Int.ediv_nonneg t.dated.1 (by decide)
  have hmonths := Calendar.civil_bounds (s.second / 86400)
  have hmonths' := Calendar.civil_bounds (t.second / 86400)
  have hyears := Calendar.civil_year (Int.ediv_nonneg hs (by decide : (0 : Int) ≤ 86400))
  have hyears' := Calendar.civil_year (Int.ediv_nonneg ht (by decide : (0 : Int) ≤ 86400))
  rw [strftime_eq, strftime_eq] at h
  -- the fields are read off from the left
  obtain ⟨hyear, h⟩ := decimalInt_append (by omega) (by omega) (by decide) h
  obtain ⟨hmonth, h⟩ := twoDigits_append (by omega) (by omega) h
  obtain ⟨hday, h⟩ := twoDigits_append (by omega) (by omega) (List.cons.inj h).2
  obtain ⟨hhour, h⟩ := twoDigits_append (by omega) (by omega) (List.cons.inj h).2
  obtain ⟨hminute, h⟩ := twoDigits_append (by omega) (by omega) (List.cons.inj h).2
  obtain ⟨hsecond, -⟩ := twoDigits_append (by omega) (by omega) (List.cons.inj h).2
  have hdate : s.second / 86400 = t.second / 86400 :=
    Calendar.civil_injective (Prod.ext hyear (Prod.ext hmonth hday))
  omega

/-- A stamp begins with a digit of its year. -/
theorem strftime_head (t : Instant) : ∃ d rest, t.strftime = d :: rest ∧ d.isDigit = true := by
  have hsecond : 0 ≤ t.second := Int.ediv_nonneg t.dated.1 (by decide)
  have hyear := Calendar.civil_year (Int.ediv_nonneg hsecond (by decide : (0 : Int) ≤ 86400))
  rw [strftime_eq]
  lift (Calendar.civil (t.second / 86400)).1 to Nat using by omega with year
  obtain ⟨d, digits, hdigits⟩ := List.exists_cons_of_ne_nil (Nat.toDigits_ne_nil (n := year) (b := 10))
  refine ⟨d, _, congrArg (· ++ _) hdigits, ?_⟩
  exact Nat.isDigit_of_mem_toDigits (by decide) (by decide) (hdigits ▸ List.mem_cons_self)

/-! ## Deadline lines -/

/-- A verdict says first when the lease of its winner runs out. -/
theorem deadlineLines_head {winner : Claimant} {clock : Instant} :
    (deadlineLines args (some (.held winner)) clock).head? = some (expiresLine winner.expiresAt) := by
  obtain ⟨id, worker, lease, leaseSource, expiresAt, ageSeconds⟩ := winner
  cases expiresAt with
  | none => rfl
  | some expires => rfl

/-- No stamp is taken for the word that stands where there is none. -/
theorem expiresLine_some_ne_none (t : Instant) : expiresLine (some t) ≠ expiresLine none := by
  intro heq
  obtain ⟨d, rest, hstamp, hdigit⟩ := strftime_head t
  -- what follows the text that both lines begin with
  have hdate : (expiresLine (some t)).drop 43 = t.strftime := List.drop_left' rfl
  have hword : ((expiresLine none).drop 43).head? = some 'u' := rfl
  rw [← heq, hdate, hstamp] at hword
  obtain rfl : d = 'u' := Option.some.inj hword
  exact absurd hdigit (by decide)

/-- **A deadline line names its deadline**, to the second, or that there is none. -/
theorem expiresLine_injective {expires expires' : Option Instant} (h : expiresLine expires = expiresLine expires') :
    expires.map Instant.second = expires'.map Instant.second := by
  cases expires with
  | none =>
    cases expires' with
    | none => rfl
    | some t => exact absurd h.symm (expiresLine_some_ne_none t)
  | some s =>
    cases expires' with
    | none => exact absurd h (expiresLine_some_ne_none s)
    | some t => exact congrArg some (strftime_injective (List.append_cancel_left h))

end ClaimGeneration

end FsQuint
