/-
  The claims of an item are leases, and what is read from its comments is who holds them.

  1. **Ages** — the age of a claim is a floating point number that is cut off to whole seconds.  A lease is
     outlived a second after it has run out, or some microseconds less where the age is so great that the
     number has no digits left for them (`grace`, `hasLapsed_iff`).
  2. **One comment** — a comment that claims has a number and a deadline (`number`, `deadline`), which do not
     depend on when it is read; reading it later only tells whether the deadline has come (`readClaimant_some`).
  3. **All comments** — what is read is the state of the lock (`readComments_spec`): its holder, the claim that
     lapsed last, or that there is none.  A state is read where every change can be counted from (`Countable`).
  4. **The output** — a read of what GitHub prints is a read of the comments that it decodes to, line by line
     (`readClaimState_eq`).
-/
import Mathlib
import FsQuint.Lib.Lease
import FsQuint.ClaimGeneration

namespace FsQuint

open Lease PythonJson

namespace ClaimGeneration

variable {α β : Type} {fallback : Int} {cliOverride : Bool} {now since : Instant} {comment : Comment}
  {comments : List Comment}

/-- What comes of two steps, of which both have to succeed. -/
theorem bind_ok_iff {x : Except Raised α} {f : α → Except Raised β} {b : β} :
    (x >>= f) = .ok b ↔ ∃ a, x = .ok a ∧ f a = .ok b := by
  cases x with
  | error raised => simp [bind, Except.bind]
  | ok a => simp [bind, Except.bind]

/-! ## The first of some items -/

/-- The first of a list is one of it. -/
theorem firstBy_mem {before : α → α → Bool} : ∀ {l : List α} {a : α}, firstBy before l = some a → a ∈ l
  | [], _, h => absurd h (by simp [firstBy])
  | b :: rest, a, h => by
    rw [firstBy] at h
    split at h
    · rw [Option.some.inj h]
      exact List.mem_cons_self
    · next c hc =>
      split at h
      · rw [← Option.some.inj h]
        exact List.mem_cons_of_mem b (firstBy_mem hc)
      · rw [Option.some.inj h]
        exact List.mem_cons_self

/-- And there is one unless the list is empty. -/
theorem firstBy_eq_none {before : α → α → Bool} {l : List α} (h : firstBy before l = none) : l = [] := by
  cases l with
  | nil => rfl
  | cons a rest =>
    rw [firstBy] at h
    split at h
    · exact absurd h (by simp)
    · split at h
      · exact absurd h (by simp)
      · exact absurd h (by simp)

/-- No item is before the first one, if not to be before is an order. -/
theorem firstBy_first {before : α → α → Bool} (hasymm : ∀ a b, before a b = true → before b a = false)
    (htrans : ∀ a b c, before b a = false → before c b = false → before c a = false) :
    ∀ {l : List α} {a : α}, firstBy before l = some a → ∀ b ∈ l, before b a = false
  | [], _, h, _, _ => absurd h (by simp [firstBy])
  | first :: rest, a, h, b, hb => by
    have hself : before first first = false := by
      by_contra hbefore
      exact hbefore (hasymm first first (by simpa using hbefore))
    rw [firstBy] at h
    split at h
    · next hnone =>
      rw [firstBy_eq_none hnone, List.mem_singleton] at hb
      rw [hb, ← Option.some.inj h]
      exact hself
    · next c hc =>
      have hrest : ∀ d ∈ rest, before d c = false := fun d hd => firstBy_first hasymm htrans hc d hd
      split at h
      · next hbefore =>
        rw [← Option.some.inj h]
        rcases List.mem_cons.mp hb with rfl | hin
        · exact hasymm c b hbefore
        · exact hrest b hin
      · next hnot =>
        rw [← Option.some.inj h]
        rcases List.mem_cons.mp hb with rfl | hin
        · exact hself
        · exact htrans first c b (by simpa using hnot) (hrest b hin)

/-! ## Leases -/

/-- The claims among comments that have been decoded. -/
def readClaimants (fallback : Int) (cliOverride : Bool) (now : Instant) :
    List Comment → Except Raised (List Claimant)
  | [] => .ok []
  | comment :: comments => do
    let claimant ← readClaimant fallback cliOverride now comment
    let claimants ← readClaimants fallback cliOverride now comments
    .ok (claimant.toList ++ claimants)

/-- The comment claims, and can be ordered. -/
def Comment.Claims (comment : Comment) : Prop := (comment.body.bind claimMarker).isSome ∧ comment.id.isSome

/-- The number of a comment. -/
def number (comment : Comment) : Int := (comment.id.map CommentId.value).getD 0

/-- How long after its expiry a lease is not yet outlived: the rest of the last second, as far as the age has
    digits for it.  A lease below zero is outlived as soon as the age is not negative. -/
def grace (lease : Int) : Int :=
  if lease < 0 then 1 - microseconds - lease * 60 * microseconds
  else microseconds - Binary64.slack 1000000 (lease * 60).toNat

/-- The lease that a comment claims under, in minutes, and when it runs out; what has no readable time of change
    has none. -/
def leaseOf (fallback : Int) (cliOverride : Bool) (comment : Comment) : Option (Int × Instant) :=
  match comment.body.bind claimMarker, comment.updatedAt with
  | some fields, some since =>
    match usableLease (markerLease fields fallback cliOverride) fallback since with
    | .ok (lease, expires) => some (lease.1, expires)
    | .error _ => none
  | _, _ => none

/-- The end of a lease that runs out at an instant. -/
def endOfLease (lease : Int × Instant) : WithTop Int := ((lease.2.utc + grace lease.1 : Int) : WithTop Int)

/-- From when on a claim is no longer live; what has no readable time of change lives on. -/
def deadline (fallback : Int) (cliOverride : Bool) (comment : Comment) : WithTop Int :=
  (leaseOf fallback cliOverride comment).elim ⊤ endOfLease

/-- The comments that claim, of some. -/
def claims (comments : List Comment) : Set Comment := {comment | comment ∈ comments ∧ comment.Claims}

/-! ## Ages -/

/-- No offset takes an instant further than a day out of the calendar. -/
theorem Instant.utc_bounds (t : Instant) : -oneDay < t.utc ∧ t.utc < endOfTime + oneDay := by
  have hdated := t.dated
  have hnear := t.near
  omega

/-- No age needs more digits for its seconds than there are. -/
theorem age_small : (now.utc - since.utc).natAbs / 1000000 < 2 ^ 52 := by
  have hnow := now.utc_bounds
  have hsince := since.utc_bounds
  simp only [endOfTime, oneDay, microseconds] at hnow hsince
  omega

/-- **When an age passes a bound**, in whole seconds. -/
theorem lt_secondsFrom_iff {bound : Nat} : (bound : Int) < secondsFrom since now ↔
    (bound + 1) * microseconds - Binary64.slack 1000000 bound ≤ now.utc - since.utc := by
  have hslack : Binary64.slack 1000000 bound ≤ bound * 1000000 := by
    cases bound with
    | zero => decide
    | succ bound =>
      have hle : Binary64.slack 1000000 (bound + 1) ≤ 1000000 := Binary64.slack_le
      omega
  have hwhole : bound < Binary64.whole (now.utc - since.utc).natAbs 1000000 ↔
      (bound + 1) * 1000000 - Binary64.slack 1000000 bound ≤ (now.utc - since.utc).natAbs :=
    Binary64.lt_whole_iff (by decide) (by decide) age_small
  rw [secondsFrom, microseconds]
  rcases lt_or_ge 0 (now.utc - since.utc) with hpast | hfuture
  · rw [Int.sign_eq_one_of_pos hpast, one_mul, Int.ofNat_lt, hwhole]
    omega
  · -- what has not begun has no age, and outlives nothing
    have hsign : (now.utc - since.utc).sign * (Binary64.whole (now.utc - since.utc).natAbs 1000000 : Int) ≤ 0 :=
      mul_nonpos_of_nonpos_of_nonneg (Int.sign_nonpos_iff.mpr hfuture) (Int.natCast_nonneg _)
    exact iff_of_false (by omega) (by omega)

/-- An age is not negative from the second before the change on. -/
theorem secondsFrom_nonneg_iff : 0 ≤ secondsFrom since now ↔ 1 - microseconds ≤ now.utc - since.utc := by
  have hwhole : 0 < Binary64.whole (now.utc - since.utc).natAbs 1000000 ↔
      (0 + 1) * 1000000 - Binary64.slack 1000000 0 ≤ (now.utc - since.utc).natAbs :=
    Binary64.lt_whole_iff (by decide) (by decide) age_small
  rw [show Binary64.slack 1000000 0 = 0 by decide] at hwhole
  rw [secondsFrom, microseconds]
  rcases lt_or_ge (now.utc - since.utc) 0 with hfuture | hpast
  · rw [Int.sign_eq_neg_one_of_neg hfuture]
    omega
  · have hsign : 0 ≤ (now.utc - since.utc).sign * (Binary64.whole (now.utc - since.utc).natAbs 1000000 : Int) :=
      mul_nonneg (Int.sign_nonneg_iff.mpr hpast) (Int.natCast_nonneg _)
    exact iff_of_true hsign (by omega)

/-- Where a deadline can be counted, it is the beginning and the lease. -/
theorem expiryOf_eq_some {lease : Int} {expires : Instant} (h : expiryOf since lease = some expires) :
    expires.utc = since.utc + lease * 60 * microseconds := by
  rw [expiryOf] at h
  split at h
  · exact (congrArg Instant.utc (Option.some.inj h)).symm
  · exact absurd h (by simp)

/-- The lease that is used is the one that the expiry is counted from. -/
theorem usableLease_spec {lease used : Int × Text} {expires : Instant}
    (h : usableLease lease fallback since = .ok (used, expires)) :
    expires.utc = since.utc + used.1 * 60 * microseconds := by
  rw [usableLease] at h
  split at h
  · next expires' hexpires =>
    obtain ⟨rfl, rfl⟩ := Prod.mk.inj (Except.ok.inj h)
    exact expiryOf_eq_some hexpires
  · split at h
    · next expires' hexpires =>
      obtain ⟨rfl, rfl⟩ := Prod.mk.inj (Except.ok.inj h)
      exact expiryOf_eq_some hexpires
    · exact absurd h (by simp)

/-- **When a lease is outlived.** -/
theorem hasLapsed_iff {c : Claimant} {expires : Instant} (hage : c.ageSeconds = secondsFrom since now)
    (hexpires : expires.utc = since.utc + c.lease * 60 * microseconds) :
    c.hasLapsed = true ↔ endOfLease (c.lease, expires) ≤ now.utc := by
  have hend : endOfLease (c.lease, expires) =
      ((since.utc + c.lease * 60 * microseconds + grace c.lease : Int) : WithTop Int) := by
    rw [← hexpires]
    rfl
  rw [Claimant.hasLapsed, Bool.and_eq_true, decide_eq_true_eq, decide_eq_true_eq, hage, hend, WithTop.coe_le_coe,
    grace]
  have hnonneg : 0 ≤ secondsFrom since now ↔ 1 - microseconds ≤ now.utc - since.utc := secondsFrom_nonneg_iff
  by_cases hlease : c.lease < 0
  · rw [if_pos hlease]
    constructor
    · rintro ⟨hage, -⟩
      have := hnonneg.mp hage
      omega
    · intro h
      have hage := hnonneg.mpr (by omega)
      exact ⟨hage, by omega⟩
  · rw [if_neg hlease]
    have hbound : ((c.lease * 60).toNat : Int) = c.lease * 60 := Int.toNat_of_nonneg (by omega)
    have hpasses : ((c.lease * 60).toNat : Int) < secondsFrom since now ↔
        ((c.lease * 60).toNat + 1) * microseconds - Binary64.slack 1000000 (c.lease * 60).toNat ≤
          now.utc - since.utc := lt_secondsFrom_iff
    rw [hbound] at hpasses
    constructor
    · rintro ⟨-, hage⟩
      have := hpasses.mp hage
      linarith
    · intro h
      have hage := hpasses.mpr (by linarith)
      exact ⟨by omega, hage⟩

/-! ## One comment -/

/-- When the lease of a claim that was read is outlived. -/
def Claimant.until (c : Claimant) : WithTop Int := c.expiresAt.elim ⊤ fun expires => endOfLease (c.lease, expires)

/-- What is read from a comment that claims. -/
structure Reads (fallback : Int) (cliOverride : Bool) (now : Instant) (comment : Comment) (c : Claimant) : Prop where
  claims : comment.Claims
  id : comment.id = some c.id
  lapsed : c.hasLapsed = true ↔ deadline fallback cliOverride comment ≤ now.utc
  expires : leaseOf fallback cliOverride comment = c.expiresAt.map fun expires => (c.lease, expires)

/-- The number of a comment is that of its id. -/
theorem number_of_id {comment : Comment} {id : CommentId} (h : comment.id = some id) : number comment = id.value := by
  rw [number, h]
  rfl

/-- A claimant has the number of its comment. -/
theorem Reads.number_eq {c : Claimant} (h : Reads fallback cliOverride now comment c) : number comment = c.id.value :=
  number_of_id h.id

/-- The deadline of a comment is that of the claim which is read from it. -/
theorem Reads.until {c : Claimant} (h : Reads fallback cliOverride now comment c) :
    deadline fallback cliOverride comment = c.until := by
  rw [deadline, h.expires, Claimant.until]
  cases c.expiresAt <;> rfl

/-- What is read as no claimant does not claim. -/
theorem readClaimant_none (h : readClaimant fallback cliOverride now comment = .ok none) : ¬ comment.Claims := by
  rintro ⟨hmarker, hid⟩
  obtain ⟨fields, hfields⟩ := Option.isSome_iff_exists.mp hmarker
  obtain ⟨id, hid⟩ := Option.isSome_iff_exists.mp hid
  rw [readClaimant, hfields, hid] at h
  simp only at h
  split at h
  · exact absurd h (by simp)
  · obtain ⟨used, _, h⟩ := bind_ok_iff.mp h
    exact absurd h (by simp)

/-- **What is read from one comment**: who claims, and until when. -/
theorem readClaimant_some {c : Claimant} (h : readClaimant fallback cliOverride now comment = .ok (some c)) :
    Reads fallback cliOverride now comment c := by
  rw [readClaimant] at h
  split at h
  · next fields id hfields hid =>
    have hclaims : comment.Claims := ⟨by rw [hfields]; rfl, by rw [hid]; rfl⟩
    simp only at h
    split at h
    · next hupdated =>
      have hc := Option.some.inj (Except.ok.inj h)
      have hlease : leaseOf fallback cliOverride comment = none := by rw [leaseOf, hfields, hupdated]
      refine ⟨hclaims, by rw [← hc, hid], ?_, by rw [hlease, ← hc]; rfl⟩
      -- no age outlives anything, and no instant is infinitely late
      rw [deadline, hlease, ← hc]
      simp [Claimant.hasLapsed]
    · next since hupdated =>
      obtain ⟨⟨used, expires⟩, hused, h⟩ := bind_ok_iff.mp h
      have hc := Option.some.inj (Except.ok.inj h)
      have hlease : leaseOf fallback cliOverride comment = some (used.1, expires) := by
        rw [leaseOf, hfields, hupdated]
        simp only [hused]
      refine ⟨hclaims, by rw [← hc, hid], ?_, by rw [hlease, ← hc]; rfl⟩
      have hage : c.ageSeconds = secondsFrom since now := by rw [← hc]
      have hlapsed : c.hasLapsed = true ↔ endOfLease (c.lease, expires) ≤ now.utc :=
        hasLapsed_iff hage (by rw [usableLease_spec hused, ← hc])
      rw [hlapsed, deadline, hlease, ← hc]
      rfl
  · exact absurd h (by simp)

/-! ## All comments -/

/-- **Each comment is read by itself**, in the order of the comments. -/
theorem readClaimants_spec : ∀ {comments : List Comment} {claimants : List Claimant},
    readClaimants fallback cliOverride now comments = .ok claimants →
    (∀ comment ∈ comments, ∃ c, readClaimant fallback cliOverride now comment = .ok c) ∧
      ∀ c, c ∈ claimants ↔ ∃ comment ∈ comments, readClaimant fallback cliOverride now comment = .ok (some c)
  | [], claimants, h => by
    rw [← Except.ok.inj h]
    simp
  | comment :: comments, claimants, h => by
    obtain ⟨first, hfirst, h⟩ := bind_ok_iff.mp h
    obtain ⟨rest, hrest, h⟩ := bind_ok_iff.mp h
    obtain ⟨hall, hmem⟩ := readClaimants_spec hrest
    rw [← Except.ok.inj h]
    refine ⟨?_, fun c => ?_⟩
    · intro comment' hcomment'
      rcases List.mem_cons.mp hcomment' with rfl | hin
      · exact ⟨first, hfirst⟩
      · exact hall comment' hin
    · rw [List.mem_append, hmem c, Option.mem_toList, List.exists_mem_cons_iff, hfirst, Except.ok.injEq]

/-- The comments that claim, each with what is read from it. -/
theorem reads_of_readClaimants {claimants : List Claimant}
    (h : readClaimants fallback cliOverride now comments = .ok claimants) :
    (∀ comment ∈ claims comments, ∃ c ∈ claimants, Reads fallback cliOverride now comment c) ∧
      ∀ c ∈ claimants, ∃ comment ∈ claims comments, Reads fallback cliOverride now comment c := by
  obtain ⟨hall, hmem⟩ := readClaimants_spec h
  constructor
  · rintro comment ⟨hcomment, hclaims⟩
    obtain ⟨c, hc⟩ := hall comment hcomment
    cases c with
    | none => exact absurd hclaims (readClaimant_none hc)
    | some c => exact ⟨c, (hmem c).mpr ⟨comment, hcomment, hc⟩, readClaimant_some hc⟩
  · intro c hc
    obtain ⟨comment, hcomment, hread⟩ := (hmem c).mp hc
    have hreads := readClaimant_some hread
    exact ⟨comment, ⟨hcomment, hreads.claims⟩, hreads⟩

/-- When the lease of a comment that claims runs out, if it does. -/
def expiry (fallback : Int) (cliOverride : Bool) (comment : Comment) : WithTop Int :=
  (leaseOf fallback cliOverride comment).elim ⊤ fun lease => (lease.2.utc : WithTop Int)

/-- What a state says about the claims at an instant. -/
def Describes (fallback : Int) (cliOverride : Bool) (comments : List Comment) (now : Instant) : ClaimState → Prop
  | .held winner =>
    ∃ comment, Holds number (deadline fallback cliOverride) (claims comments) now.utc comment ∧
      Reads fallback cliOverride now comment winner
  | .expired lapsed =>
    (∀ comment ∈ claims comments, deadline fallback cliOverride comment ≤ now.utc) ∧
      ∃ comment ∈ claims comments, Reads fallback cliOverride now comment lapsed ∧
        ∀ other ∈ claims comments, expiry fallback cliOverride other < expiry fallback cliOverride comment ∨
          expiry fallback cliOverride other = expiry fallback cliOverride comment ∧ number other ≤ number comment
  | .released => claims comments = ∅

/-- A claim that has lapsed has run out before. -/
theorem Reads.lapse {c : Claimant} (h : Reads fallback cliOverride now comment c) (hlapsed : c.hasLapsed = true) :
    expiry fallback cliOverride comment = (c.lapse : WithTop Int) := by
  have hdeadline := h.lapsed.mp hlapsed
  rw [h.until, Claimant.until] at hdeadline
  rw [expiry, h.expires, Claimant.lapse]
  cases hexpires : c.expiresAt with
  | none =>
    rw [hexpires] at hdeadline
    exact absurd hdeadline (by simp)
  | some expires => rfl

/-- Of two claims that have lapsed, the one that did so earlier, or has the lower number. -/
theorem Reads.lapse_le {other : Comment} {c d : Claimant} (hc : Reads fallback cliOverride now comment c)
    (hd : Reads fallback cliOverride now other d) (hclapsed : c.hasLapsed = true) (hdlapsed : d.hasLapsed = true)
    (hle : d.lapsedAfter c = false) :
    expiry fallback cliOverride other < expiry fallback cliOverride comment ∨
      expiry fallback cliOverride other = expiry fallback cliOverride comment ∧ number other ≤ number comment := by
  rw [hc.lapse hclapsed, hd.lapse hdlapsed, hc.number_eq, hd.number_eq, WithTop.coe_lt_coe, WithTop.coe_inj]
  simp only [Claimant.lapsedAfter, Bool.or_eq_false_iff, Bool.and_eq_false_iff, decide_eq_false_iff_not] at hle
  omega

/-- The order of lapsed claims is transitive. -/
theorem not_lapsedAfter_trans (c d e : Claimant) (hde : d.lapsedAfter c = false) (hed : e.lapsedAfter d = false) :
    e.lapsedAfter c = false := by
  simp only [Claimant.lapsedAfter, Bool.or_eq_false_iff, Bool.and_eq_false_iff, decide_eq_false_iff_not] at *
  omega

/-- And it is asymmetric. -/
theorem lapsedAfter_asymm (c d : Claimant) (h : c.lapsedAfter d = true) : d.lapsedAfter c = false := by
  simp only [Claimant.lapsedAfter, Bool.or_eq_true, Bool.and_eq_true, decide_eq_true_eq] at h
  simp only [Claimant.lapsedAfter, Bool.or_eq_false_iff, Bool.and_eq_false_iff, decide_eq_false_iff_not]
  omega

/-- The winner has the lowest number. -/
theorem lowest_le {claimants : List Claimant} {winner c : Claimant}
    (h : firstBy (fun c d => c.id.value < d.id.value) claimants = some winner) (hc : c ∈ claimants) :
    winner.id.value ≤ c.id.value := by
  have hnot := firstBy_first (by simp only [decide_eq_true_eq, decide_eq_false_iff_not]; omega)
    (by simp only [decide_eq_false_iff_not]; omega) h c hc
  simpa using hnot

/-- **What is made of the claimants is the state of the lock.** -/
theorem stateOf_describes {claimants : List Claimant}
    (h : readClaimants fallback cliOverride now comments = .ok claimants) :
    Describes fallback cliOverride comments now (stateOf claimants) := by
  obtain ⟨hread, hclaim⟩ := reads_of_readClaimants h
  rw [stateOf]
  split
  · next winner hwinner =>
    have hmem := List.mem_filter.mp (firstBy_mem hwinner)
    obtain ⟨comment, hcomment, hreads⟩ := hclaim winner hmem.1
    have hlive : ¬ winner.hasLapsed = true := by simpa using hmem.2
    refine ⟨comment, ⟨hcomment, not_le.mp fun hle => hlive (hreads.lapsed.mpr hle), fun other hother hotherlive => ?_⟩,
      hreads⟩
    obtain ⟨c, hc, hcreads⟩ := hread other hother
    have hclive : ¬ c.hasLapsed = true := fun hlapsed => not_le.mpr hotherlive (hcreads.lapsed.mp hlapsed)
    have hle := lowest_le hwinner (List.mem_filter.mpr ⟨hc, by simpa using hclive⟩)
    rw [← hreads.number_eq, ← hcreads.number_eq] at hle
    exact hle
  · next hnone =>
    have hall : ∀ c ∈ claimants, c.hasLapsed = true := by
      intro c hc
      by_contra hlive
      have hin : c ∈ claimants.filter fun c => !c.hasLapsed := List.mem_filter.mpr ⟨hc, by simpa using hlive⟩
      rw [firstBy_eq_none hnone] at hin
      exact absurd hin List.not_mem_nil
    split
    · next lapsed hlapsed =>
      have hmem := List.mem_filter.mp (firstBy_mem hlapsed)
      obtain ⟨comment, hcomment, hreads⟩ := hclaim lapsed hmem.1
      refine ⟨fun other hother => ?_, comment, hcomment, hreads, fun other hother => ?_⟩
      · obtain ⟨c, hc, hcreads⟩ := hread other hother
        exact hcreads.lapsed.mp (hall c hc)
      · obtain ⟨c, hc, hcreads⟩ := hread other hother
        exact hreads.lapse_le hcreads hmem.2 (hall c hc)
          (firstBy_first lapsedAfter_asymm not_lapsedAfter_trans hlapsed c (List.mem_filter.mpr ⟨hc, hall c hc⟩))
    · next hempty =>
      rw [Describes, Set.eq_empty_iff_forall_notMem]
      intro other hother
      obtain ⟨c, hc, -⟩ := hread other hother
      have hin := List.mem_filter.mpr ⟨hc, hall c hc⟩
      rw [firstBy_eq_none hempty] at hin
      exact absurd hin List.not_mem_nil

/-- The state that comments are read as. -/
def readComments (fallback : Int) (cliOverride : Bool) (now : Instant) (comments : List Comment) :
    Except Raised ClaimState :=
  (readClaimants fallback cliOverride now comments).map stateOf

/-- A read succeeds when every comment can be read. -/
theorem readComments_eq_ok {state : ClaimState} : readComments fallback cliOverride now comments = .ok state ↔
    ∃ claimants, readClaimants fallback cliOverride now comments = .ok claimants ∧ stateOf claimants = state := by
  rw [readComments]
  cases readClaimants fallback cliOverride now comments with
  | error raised => simp [Except.map]
  | ok claimants => simp [Except.map]

/-- **What is read is the state of the lock.** -/
theorem readComments_spec {state : ClaimState} (h : readComments fallback cliOverride now comments = .ok state) :
    Describes fallback cliOverride comments now state := by
  obtain ⟨claimants, hclaimants, rfl⟩ := readComments_eq_ok.mp h
  exact stateOf_describes hclaimants

/-- The lock belongs to a number exactly if the state that is read has it for its winner's. -/
theorem heldBy_iff_of_read {state : ClaimState} {i : Int}
    (h : readComments fallback cliOverride now comments = .ok state) :
    HeldBy number (deadline fallback cliOverride) (claims comments) now.utc i ↔
      ∃ winner, state = .held winner ∧ winner.id.value = i := by
  have hdescribes := readComments_spec h
  cases state with
  | held winner =>
    obtain ⟨comment, hholds, hreads⟩ := hdescribes
    rw [hholds.heldBy_iff, hreads.number_eq]
    constructor
    · intro hi
      exact ⟨winner, rfl, hi⟩
    · rintro ⟨winner', hwinner, hi⟩
      rwa [ClaimState.held.inj hwinner]
  | expired lapsed =>
    constructor
    · rintro ⟨comment, hholds, -⟩
      exact absurd hholds.live (not_lt.mpr (hdescribes.1 comment hholds.claimed))
    · rintro ⟨_, hstate, -⟩
      exact absurd hstate (by simp)
  | released =>
    constructor
    · rintro ⟨comment, hholds, -⟩
      have hclaimed := hholds.claimed
      rw [show claims comments = ∅ from hdescribes] at hclaimed
      exact absurd hclaimed (Set.notMem_empty comment)
    · rintro ⟨_, hstate, -⟩
      exact absurd hstate (by simp)

/-! ## No verdict -/

/-- The fallback lease can be counted from every change. -/
def Countable (fallback : Int) (comments : List Comment) : Prop :=
  ∀ comment ∈ comments, ∀ since, comment.updatedAt = some since → (expiryOf since fallback).isSome

/-- What the program checks of the fallback lease before it reads a claim is enough for changes in the past, if the
    lease is not below zero and everything is written in UTC, as GitHub does. -/
theorem countable_of_past (hfallback : 0 ≤ fallback) (hnow : now.offset = 0) (hcheck : (expiryOf now fallback).isSome)
    (hpast : ∀ comment ∈ comments, ∀ since, comment.updatedAt = some since → since.offset = 0 ∧ since.utc ≤ now.utc) :
    Countable fallback comments := by
  intro comment hcomment since hsince
  obtain ⟨hoffset, hle⟩ := hpast comment hcomment since hsince
  have hdated := since.dated
  rw [expiryOf, Option.isSome_dite] at hcheck ⊢
  simp only [hnow, hoffset, microseconds] at hcheck hdated ⊢
  omega

/-- Each comment can be read if all can. -/
theorem readClaimants_of_each : ∀ {comments : List Comment},
    (∀ comment ∈ comments, ∃ c, readClaimant fallback cliOverride now comment = .ok c) →
    ∃ claimants, readClaimants fallback cliOverride now comments = .ok claimants
  | [], _ => ⟨_, rfl⟩
  | comment :: comments, h => by
    obtain ⟨c, hc⟩ := h comment List.mem_cons_self
    obtain ⟨claimants, hclaimants⟩ :=
      readClaimants_of_each fun comment' h' => h comment' (List.mem_cons_of_mem comment h')
    exact ⟨_, bind_ok_iff.mpr ⟨c, hc, bind_ok_iff.mpr ⟨claimants, hclaimants, rfl⟩⟩⟩

/-- **A lease that can be counted from every change leaves no claim without one**, so that a state is read. -/
theorem readComments_total (hcountable : Countable fallback comments) :
    ∃ state, readComments fallback cliOverride now comments = .ok state := by
  have hone : ∀ comment ∈ comments, ∃ c, readClaimant fallback cliOverride now comment = .ok c := by
    intro comment hcomment
    rw [readClaimant]
    split
    · next fields id hfields hid =>
      simp only
      split
      · exact ⟨_, rfl⟩
      · next since hupdated =>
        obtain ⟨expires, hexpires⟩ := Option.isSome_iff_exists.mp (hcountable comment hcomment since hupdated)
        rw [usableLease, hexpires]
        split
        · exact ⟨_, rfl⟩
        · exact ⟨_, rfl⟩
    · exact ⟨_, rfl⟩
  obtain ⟨claimants, hclaimants⟩ := readClaimants_of_each hone
  exact ⟨_, by rw [readComments, hclaimants]; rfl⟩

/-! ## The output -/

/-- The comments that GitHub prints, as far as every line can be read. -/
def commentsOf (runtime : Runtime) (out : Text) : Except Raised (List Comment) :=
  readLines runtime.maxDepth (fun json => (commentOf runtime json).map some) (lines out)

section

variable {maxDepth : Nat} {f : Json → Except Raised (Option α)} {line : Text} {rest : List Text}

/-- A line that is no document is passed over. -/
theorem readLines_skip (h : loads maxDepth line = .error .decodeError) :
    readLines maxDepth f (line :: rest) = readLines maxDepth f rest := by
  rw [readLines, h]

/-- One at which the decoder fails otherwise ends the read. -/
theorem readLines_break (h : loads maxDepth line = .error .otherError) :
    readLines maxDepth f (line :: rest) = .error .other := by
  rw [readLines, h]

/-- A document is given to the function. -/
theorem readLines_read {json : Json} (h : loads maxDepth line = .ok json) : readLines maxDepth f (line :: rest) = (do
    let found ← f json
    let others ← readLines maxDepth f rest
    .ok (found.toList ++ others)) := by
  rw [readLines, h]

end

/-- Where every line can be read, a loop that goes on with what it reads is a loop over that. -/
theorem readLines_bind {runtime : Runtime} : ∀ {text : List Text} {comments : List Comment},
    readLines runtime.maxDepth (fun json => (commentOf runtime json).map some) text = .ok comments →
    readLines runtime.maxDepth (fun json => commentOf runtime json >>= readClaimant fallback cliOverride now) text =
      readClaimants fallback cliOverride now comments
  | [], comments, h => by
    rw [← Except.ok.inj h]
    rfl
  | line :: rest, comments, h => by
    cases hline : loads runtime.maxDepth line with
    | error failure =>
      cases failure with
      | decodeError =>
        rw [readLines_skip hline] at h ⊢
        exact readLines_bind h
      | otherError =>
        rw [readLines_break hline] at h
        exact absurd h (by simp)
    | ok json =>
      rw [readLines_read hline] at h ⊢
      obtain ⟨first, hfirst, h⟩ := bind_ok_iff.mp h
      obtain ⟨others, hothers, h⟩ := bind_ok_iff.mp h
      cases hcomment : commentOf runtime json with
      | error raised =>
        rw [hcomment] at hfirst
        exact absurd hfirst (by simp [Except.map])
      | ok comment =>
        rw [hcomment] at hfirst
        have hsame : some comment = first := Except.ok.inj hfirst
        rw [← Except.ok.inj h, ← hsame, readLines_bind hothers]
        rfl

/-- **A read of an output is a read of the comments that it decodes to.** -/
theorem readClaimState_eq {runtime : Runtime} {out : Text} (h : commentsOf runtime out = .ok comments) :
    readClaimState runtime out fallback cliOverride now = readComments fallback cliOverride now comments := by
  rw [readClaimState, readLines_bind h, readComments]
  cases readClaimants fallback cliOverride now comments <;> rfl

end ClaimGeneration

end FsQuint
