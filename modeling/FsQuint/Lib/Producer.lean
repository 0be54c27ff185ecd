/-
  A producer that numbers its batches, and repeats what may have been lost.

  A producer submits batches to a consumer over a channel that can lose a submission or its answer.  It
  must not number two batches alike, skip a number, or give a number another content once the consumer
  may have seen it; and yet it can die between the answer and the moment at which it takes note of it.

  1. **What it knows** (`Knowledge`): the batches that were acknowledged, and the one whose last
     submission had no answer.
  2. **What it may submit** (`Submits`): the batch with the next number, or the one that was
     acknowledged last, of which it may not have taken note; and only the batch of unknown outcome, as
     long as there is one.  When a batch was rejected, its number is free again.
  3. **What the record of the submissions shows** (`Orderly`), with no regard to the producer: the
     acknowledged batches bear the numbers from 1 on, each submission offers the next number or repeats
     the last, and what had no answer is repeated as it was.  The main result is `Produces.orderly`; a
     consumer can rely on it to apply each batch once and in order.
-/
import Mathlib.Data.List.Range
import FsQuint.Lib.Transition

namespace Producer

open Transition

/-! ## Submissions -/

/-- What a submission came to, as far as the producer lived to see it. -/
inductive Verdict where
  | acknowledged
  /-- the consumer refused the batch, and has not applied it -/
  | rejected
  | unknown
  deriving DecidableEq

/-- A batch that was submitted, and what became of it. -/
structure Submission (B : Type) where
  batch : B
  verdict : Verdict

variable {B : Type} [DecidableEq B]

/-- The batches that were acknowledged, in the order in which each was for the first time. -/
def acknowledged (log : List (Submission B)) : List B :=
  log.foldl (fun done s => if s.verdict = .acknowledged ∧ s.batch ∉ done then done ++ [s.batch] else done) []

/-- One more submission. -/
theorem acknowledged_concat (log : List (Submission B)) (s : Submission B) :
    acknowledged (log ++ [s]) = if s.verdict = .acknowledged ∧ s.batch ∉ acknowledged log then
      acknowledged log ++ [s.batch] else acknowledged log := by
  rw [acknowledged, List.foldl_append]
  rfl

/-- What counts as acknowledged was submitted, and answered so. -/
theorem mem_acknowledged {log : List (Submission B)} {b : B} (h : b ∈ acknowledged log) :
    ⟨b, .acknowledged⟩ ∈ log := by
  induction log using List.reverseRecOn with
  | nil => exact absurd h List.not_mem_nil
  | append_singleton log s ih =>
    obtain ⟨batch, verdict⟩ := s
    rw [acknowledged_concat] at h
    split at h
    · next hnew =>
      obtain ⟨rfl, -⟩ := hnew
      rcases List.mem_append.mp h with hold | hlast
      · exact List.mem_append_left _ (ih hold)
      · rw [List.mem_singleton.mp hlast]
        exact List.mem_concat_self
    · exact List.mem_append_left _ (ih h)

variable (number : B → Nat)

/-- A record of submissions on which a consumer can rely. -/
structure Orderly (log : List (Submission B)) : Prop where
  /-- the acknowledged batches bear the numbers from 1 on -/
  numbered : (acknowledged log).map number = List.range' 1 (acknowledged log).length
  /-- a submission offers the next number, or repeats the batch that was acknowledged last -/
  offered : ∀ before s after, log = before ++ s :: after →
    number s.batch = (acknowledged before).length + 1 ∨
      (acknowledged before).getLast? = some s.batch ∧ s.verdict ≠ .rejected
  /-- what had no answer is repeated as it was -/
  repeated : ∀ before s s' after, log = before ++ s :: s' :: after → s.verdict = .unknown → s'.batch = s.batch

/-! ## The producer -/

/-- What a producer knows: the batches that were acknowledged, and the one that was submitted last, if it
    had no answer. -/
structure Knowledge (B : Type) where
  done : List B
  pending : Option B

/-- What is known after a batch was submitted. -/
def Knowledge.after (k : Knowledge B) (b : B) : Verdict → Knowledge B
  | .acknowledged => { done := if b ∈ k.done then k.done else k.done ++ [b], pending := none }
  | .rejected => { k with pending := none }
  | .unknown => { k with pending := some b }

/-- What a producer may submit. -/
inductive Submits (k : Knowledge B) : Submission B → Knowledge B → Prop
  /-- the last batch again, whose acknowledgement may not have been recorded -/
  | again {b : B} {v : Verdict} (hlast : k.done.getLast? = some b) (hpending : ∀ b' ∈ k.pending, b' = b)
    (hv : v ≠ .rejected) : Submits k ⟨b, v⟩ (k.after b v)
  | next {b : B} {v : Verdict} (hnumber : number b = k.done.length + 1) (hpending : ∀ b' ∈ k.pending, b' = b) :
    Submits k ⟨b, v⟩ (k.after b v)

/-- A record of what a producer submitted, with what it knows then. -/
def Produces (log : List (Submission B)) (k : Knowledge B) : Prop := Steps (Submits number) ⟨[], none⟩ log k

variable {number} {log : List (Submission B)} {k k' : Knowledge B} {s : Submission B}

/-- The batches bear the numbers from 1 on, and the one without an answer is the next or the last. -/
structure Counted (number : B → Nat) (k : Knowledge B) : Prop where
  done : k.done.map number = List.range' 1 k.done.length
  pending : ∀ b ∈ k.pending, number b = k.done.length + 1 ∨ k.done.getLast? = some b

omit [DecidableEq B] in
/-- A batch with the next number is not among those before it. -/
theorem Counted.not_mem (h : Counted number k) {b : B} (hnumber : number b = k.done.length + 1) : b ∉ k.done := by
  intro hmem
  have hrange : number b ∈ List.range' 1 k.done.length := h.done ▸ List.mem_map_of_mem hmem
  have hbounds := List.mem_range'_1.mp hrange
  omega

omit [DecidableEq B] in
/-- Where the number of the last batch leads. -/
theorem Counted.last (h : Counted number k) {b : B} (hlast : k.done.getLast? = some b) : number b = k.done.length := by
  obtain ⟨done, hdone⟩ := List.getLast?_eq_some_iff.mp hlast
  have hcount := h.done
  rw [hdone, List.map_append, List.map_singleton, List.length_append, List.length_singleton,
    List.range'_concat] at hcount
  obtain ⟨-, hnumber⟩ := List.append_singleton_inj.mp hcount
  rw [hdone, List.length_append, List.length_singleton]
  omega

/-- A submission keeps the count. -/
theorem Counted.step (h : Counted number k) (hs : Submits number k s k') : Counted number k' := by
  cases hs with
  | @again b v hlast hpending hv =>
    cases v with
    | acknowledged =>
      have hdone : (k.after b .acknowledged).done = k.done := if_pos (List.mem_of_getLast? hlast)
      exact ⟨by rw [hdone]; exact h.done, fun _ h => absurd h (by simp [Knowledge.after])⟩
    | rejected => exact absurd rfl hv
    | unknown =>
      refine ⟨h.done, fun b' hb' => .inr ?_⟩
      rw [← Option.some_inj.mp hb']
      exact hlast
  | @next b v hnumber hpending =>
    cases v with
    | acknowledged =>
      have hdone : (k.after b .acknowledged).done = k.done ++ [b] := if_neg (h.not_mem hnumber)
      refine ⟨?_, fun _ h => absurd h (by simp [Knowledge.after])⟩
      rw [hdone, List.map_append, h.done, List.map_singleton, hnumber, List.length_append,
        List.length_singleton, List.range'_concat, Nat.one_mul, Nat.add_comm]
    | rejected => exact ⟨h.done, fun _ h => absurd h (by simp [Knowledge.after])⟩
    | unknown =>
      refine ⟨h.done, fun b' hb' => .inl ?_⟩
      rw [← Option.some_inj.mp hb']
      exact hnumber

/-- **The count is right after every run.** -/
theorem Produces.counted (h : Produces number log k) : Counted number k :=
  h.invariant (Counted number) (fun h hs => h.step hs) ⟨rfl, fun _ h => absurd h (by simp)⟩

/-- The batch that a submission is of, whichever of the two it is. -/
theorem Submits.eq (h : Submits number k s k') : k' = k.after s.batch s.verdict := by
  cases h <;> rfl

/-- A batch that has no answer is not followed by another. -/
theorem Submits.pending (h : Submits number k s k') : ∀ b ∈ k.pending, b = s.batch := by
  cases h with
  | again _ hpending | next _ hpending => exact hpending

/-- What a producer knows to be done is what was acknowledged. -/
theorem Produces.done (h : Produces number log k) : k.done = acknowledged log := by
  refine h.history (fun log k => k.done = acknowledged log) ?_ rfl
  intro log k s k' ih hs
  obtain ⟨b, v⟩ := s
  rw [acknowledged_concat, ← ih, hs.eq]
  cases v with
  | acknowledged =>
    show (if b ∈ k.done then k.done else k.done ++ [b]) = _
    by_cases hmem : b ∈ k.done
    · rw [if_pos hmem, if_neg fun h => h.2 hmem]
    · rw [if_neg hmem, if_pos ⟨rfl, hmem⟩]
  | rejected | unknown => rw [if_neg fun h => nomatch h.1]; rfl

/-- The batch that was acknowledged last is the last that is done. -/
theorem Produces.last_acknowledged {b : B} (h : Produces number (log ++ [⟨b, .acknowledged⟩]) k) :
    number b = k.done.length ∧ k.pending = none := by
  obtain ⟨k₀, h₀, hs⟩ := Steps.of_snoc h
  have hcounted := Produces.counted h
  cases hs with
  | again hlast =>
    have hdone : (k₀.after b .acknowledged).done = k₀.done := if_pos (List.mem_of_getLast? hlast)
    refine ⟨hcounted.last ?_, rfl⟩
    rw [hdone]
    exact hlast
  | next hnumber =>
    have hdone : (k₀.after b .acknowledged).done = k₀.done ++ [b] :=
      if_neg ((Produces.counted h₀).not_mem hnumber)
    rw [hdone, List.length_append, List.length_singleton]
    exact ⟨hnumber, rfl⟩

/-- After a batch was rejected, its number is the next, and nothing is of unknown outcome. -/
theorem Produces.last_rejected {b : B} (h : Produces number (log ++ [⟨b, .rejected⟩]) k) :
    k.pending = none ∧ number b = k.done.length + 1 := by
  obtain ⟨k₀, h₀, hs⟩ := Steps.of_snoc h
  cases hs with
  | again _ _ hv => exact absurd rfl hv
  | next hnumber => exact ⟨rfl, hnumber⟩

/-- A submission without an answer is what the producer has pending. -/
theorem Produces.last_unknown {b : B} (h : Produces number (log ++ [⟨b, .unknown⟩]) k) : k.pending = some b := by
  obtain ⟨k₀, h₀, hs⟩ := Steps.of_snoc h
  rw [hs.eq]
  rfl

/-- **What a producer submits is orderly**, whatever was lost and whenever it died. -/
theorem Produces.orderly (h : Produces number log k) : Orderly number log := by
  refine ⟨?_, ?_, ?_⟩
  · rw [← h.done]
    exact h.counted.done
  · -- every submission was the last of a record
    induction h with
    | refl =>
      intro before s after heq
      exact absurd heq.symm (by simp)
    | @snoc past label k₀ k₁ hpast hs ih =>
      intro before s after heq
      rcases List.eq_nil_or_concat after with rfl | ⟨after, last, rfl⟩
      · obtain ⟨rfl, hlabel⟩ := List.append_inj' heq rfl
        obtain rfl := (List.cons.inj hlabel).1
        rw [← Produces.done hpast]
        cases hs with
        | again hlast _ hv => exact .inr ⟨hlast, hv⟩
        | next hnumber => exact .inl hnumber
      · rw [List.concat_eq_append, ← List.cons_append, ← List.append_assoc] at heq
        exact ih before s after (List.append_inj' heq rfl).1
  · induction h with
    | refl =>
      intro before s s' after heq
      exact absurd heq.symm (by simp)
    | @snoc past label k₀ k₁ hpast hs ih =>
      intro before s s' after heq hunknown
      rcases List.eq_nil_or_concat after with rfl | ⟨after, last, rfl⟩
      · have hsplit : past ++ [label] = (before ++ [s]) ++ [s'] := by
          rw [heq, List.append_assoc]
          rfl
        obtain ⟨rfl, hlabel⟩ := List.append_inj' hsplit rfl
        obtain rfl := (List.cons.inj hlabel).1
        obtain ⟨b, v⟩ := s
        obtain rfl : v = .unknown := hunknown
        exact (hs.pending b (Produces.last_unknown hpast)).symm
      · rw [List.concat_eq_append, ← List.cons_append, ← List.cons_append, ← List.append_assoc] at heq
        exact ih before s s' after (List.append_inj' heq rfl).1 hunknown

end Producer
