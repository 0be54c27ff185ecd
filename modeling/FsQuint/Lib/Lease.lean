/-
  Leases: a lock that its claimants hold in turn, each no longer than it said.

  Every claim has a number and a deadline.  The lock belongs to the first claim, by number, of those whose
  deadline has not come; nobody has to release it, for a claim that lapses makes way by itself.

  1. **The holder** (`Holds`): its number is unique.
  2. **More claims** (`Holds.of_insert`): a new claim takes the lock for itself or leaves it where it was.
  3. **Later claims** (`Follows`): what the claims of a later moment have in common with those of an
     earlier one.  A holder that nobody touches, while no claim before it is renewed, reigns until its
     deadline and not longer (`Holds.reign`), and a claim that has lapsed stays lapsed until it is renewed
     (`Lapsed.stays`).
-/
import Mathlib.Data.Set.Insert
import Mathlib.Order.Defs.LinearOrder

set_option linter.unusedSectionVars false

namespace Lease

variable {C ι τ : Type} [LinearOrder ι] [LinearOrder τ] {number : C → ι} {deadline : C → τ}
  {claims claims' claims'' : Set C} {now now' : τ} {c d : C} {i : ι}

/-! ## The holder -/

variable (number deadline) in
/-- A claim holds the lock. -/
structure Holds (claims : Set C) (now : τ) (c : C) : Prop where
  claimed : c ∈ claims
  live : now < deadline c
  first : ∀ d ∈ claims, now < deadline d → number c ≤ number d

variable (number deadline) in
/-- The lock belongs to a number. -/
def HeldBy (claims : Set C) (now : τ) (i : ι) : Prop := ∃ c, Holds number deadline claims now c ∧ number c = i

/-- Two claims that hold have one number. -/
theorem Holds.number_eq (h : Holds number deadline claims now c) (h' : Holds number deadline claims now d) :
    number c = number d :=
  le_antisymm (h.first d h'.claimed h'.live) (h'.first c h.claimed h.live)

/-- And only that number holds. -/
theorem Holds.heldBy_iff (h : Holds number deadline claims now c) :
    HeldBy number deadline claims now i ↔ number c = i := by
  constructor
  · rintro ⟨d, hd, rfl⟩
    exact h.number_eq hd
  · intro hi
    exact ⟨c, h, hi⟩

/-! ## More claims -/

/-- **A new claim takes the lock for itself or leaves it where it was.** -/
theorem Holds.of_insert (h : Holds number deadline (insert d claims) now c) :
    c = d ∨ Holds number deadline claims now c := by
  rcases h.claimed with hc | hc
  · exact Or.inl hc
  · exact Or.inr ⟨hc, h.live, fun x hx => h.first x (Set.mem_insert_of_mem d hx)⟩

/-! ## Later claims -/

variable (number) in
/-- Claims of a later moment: those with a settled number are old ones, and the old ones with a kept number
    are still there. -/
structure Follows (settled kept : ι → Prop) (claims claims' : Set C) : Prop where
  old : ∀ c ∈ claims', settled (number c) → c ∈ claims
  still : ∀ c ∈ claims, kept (number c) → c ∈ claims'

/-- Nothing has changed. -/
theorem Follows.refl {settled kept : ι → Prop} : Follows number settled kept claims claims :=
  ⟨fun _ hc _ => hc, fun _ hc _ => hc⟩

/-- What follows what follows. -/
theorem Follows.trans {settled kept : ι → Prop} (h : Follows number settled kept claims claims')
    (h' : Follows number settled kept claims' claims'') : Follows number settled kept claims claims'' :=
  ⟨fun c hc hs => h.old c (h'.old c hc hs) hs, fun c hc hk => h'.still c (h.still c hc hk) hk⟩

/-- Less may be asked of what is settled and of what is kept. -/
theorem Follows.mono {settled settled' kept kept' : ι → Prop} (h : Follows number settled kept claims claims')
    (hsettled : ∀ i, settled' i → settled i) (hkept : ∀ i, kept' i → kept i) :
    Follows number settled' kept' claims claims' :=
  ⟨fun c hc hs => h.old c hc (hsettled _ hs), fun c hc hk => h.still c hc (hkept _ hk)⟩

/-- **A reign**: the holder holds the lock until its deadline, and from then on its number does not. -/
theorem Holds.reign (h : Holds number deadline claims now c)
    (hunique : ∀ d ∈ claims, number d = number c → d = c)
    (hlater : Follows number (· ≤ number c) (· = number c) claims claims') (hnow : now ≤ now') :
    HeldBy number deadline claims' now' (number c) ↔ now' < deadline c := by
  constructor
  · rintro ⟨d, hd, hnumber⟩
    have hold : d = c := hunique d (hlater.old d hd.claimed hnumber.le) hnumber
    exact hold ▸ hd.live
  · intro hlive
    refine ⟨c, ⟨hlater.still c h.claimed rfl, hlive, fun d hd hdlive => ?_⟩, rfl⟩
    -- a claim before it would be an old one, and was live already
    by_contra hlt
    have hbefore : number d ≤ number c := le_of_not_ge hlt
    exact hlt (h.first d (hlater.old d hd hbefore) (lt_of_le_of_lt hnow hdlive))

variable (number deadline) in
/-- No claim with a number is live. -/
def Lapsed (claims : Set C) (now : τ) (i : ι) : Prop := ∀ c ∈ claims, number c = i → deadline c ≤ now

/-- What has lapsed does not hold. -/
theorem Lapsed.not_heldBy (h : Lapsed number deadline claims now i) : ¬ HeldBy number deadline claims now i := by
  rintro ⟨c, hc, hi⟩
  exact not_lt_of_ge (h c hc.claimed hi) hc.live

/-- What has lapsed stays lapsed until it is renewed. -/
theorem Lapsed.stays {kept : ι → Prop} (h : Lapsed number deadline claims now i)
    (hlater : Follows number (· = i) kept claims claims') (hnow : now ≤ now') :
    Lapsed number deadline claims' now' i :=
  fun c hc hi => le_trans (h c (hlater.old c hc hi) hi) hnow

end Lease
