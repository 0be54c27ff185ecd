/-
  Custody of resources in a pool of slots.

  Parties make resources and keep them in a fixed pool of slots.  A party first claims a vacant slot,
  then prepares its resource, then stores it in the slot it has claimed.  A stored resource can be
  released by anyone, which vacates its slot; the party may not learn of it, and the slot may be
  claimed again while the party still takes it for its own.

  1. **The protocol** (`Pool`, `Move`): the slots, how far each party is, and what has been released.
  2. **The invariant** (`Sound`): each claimed slot has one claimant, each resource one maker, and a
     resource that is stored and not released is in exactly one slot.  Every move keeps it.
-/
import Mathlib.Data.Set.Insert
import Mathlib.Logic.Function.Basic
import Mathlib.Logic.Relation

set_option linter.unusedSectionVars false

namespace SlotPool

variable {ι κ σ : Type}

/-- What a slot of the pool holds. -/
inductive Slot (σ : Type) where
  | vacant
  | claimed
  | retained (resource : σ)
  deriving DecidableEq

/-- How far a party is. -/
inductive Stage (κ σ : Type) where
  | idle
  | claimed (slot : κ)
  /-- its resource is made and in no slot yet -/
  | prepared (slot : κ) (resource : σ)
  | stored (slot : κ) (resource : σ)
  /-- it is over; what it stored stays where it is -/
  | settled (resource : σ)

/-- The slot of which a party holds the claim. -/
def Stage.claim : Stage κ σ → Option κ
  | .claimed slot | .prepared slot _ => some slot
  | _ => none

/-- The resource that a party has made. -/
def Stage.resource : Stage κ σ → Option σ
  | .prepared _ resource | .stored _ resource | .settled resource => some resource
  | _ => none

/-- Its resource has been put into a slot. -/
def Stage.Stored (stage : Stage κ σ) (resource : σ) : Prop :=
  stage = .settled resource ∨ ∃ slot, stage = .stored slot resource

/-- A pool: what is in each slot, how far each holder has come with it, and what has been released. -/
structure Pool (ι κ σ : Type) where
  slots : κ → Slot σ
  stage : ι → Stage κ σ
  released : Set σ

section

variable [DecidableEq ι] [DecidableEq κ]

/-- What a holder, or the pool itself, may do. -/
inductive Move : Pool ι κ σ → Pool ι κ σ → Prop
  /-- a resource is released, and its slot vacated -/
  | giveUp {pool : Pool ι κ σ} {k : κ} {s : σ} : pool.slots k = .retained s →
      Move pool { pool with
        slots := Function.update pool.slots k .vacant, released := insert s pool.released }
  | claim {pool : Pool ι κ σ} {i : ι} {k : κ} : pool.stage i = .idle → pool.slots k = .vacant →
      Move pool { pool with
        slots := Function.update pool.slots k .claimed, stage := Function.update pool.stage i (.claimed k) }
  | prepare {pool : Pool ι κ σ} {i : ι} {k : κ} {s : σ} : pool.stage i = .claimed k →
      (∀ j, (pool.stage j).resource ≠ some s) →
      Move pool { pool with stage := Function.update pool.stage i (.prepared k s) }
  | store {pool : Pool ι κ σ} {i : ι} {k : κ} {s : σ} : pool.stage i = .prepared k s →
      Move pool { pool with
        slots := Function.update pool.slots k (.retained s)
        stage := Function.update pool.stage i (.stored k s) }
  /-- the claimant of a slot leaves without a resource -/
  | abandon {pool : Pool ι κ σ} {i : ι} {k : κ} : pool.stage i = .claimed k →
      Move pool { pool with
        slots := Function.update pool.slots k .vacant, stage := Function.update pool.stage i .idle }
  | retire {pool : Pool ι κ σ} {i : ι} {k : κ} {s : σ} : pool.stage i = .stored k s →
      Move pool { pool with stage := Function.update pool.stage i (.settled s) }

end

/-- **Nothing is lost, duplicated or overwritten.** -/
structure Sound (pool : Pool ι κ σ) : Prop where
  claimed : ∀ k, pool.slots k = .claimed ↔ ∃ i, (pool.stage i).claim = some k
  claimant : ∀ i j k, (pool.stage i).claim = some k → (pool.stage j).claim = some k → i = j
  maker : ∀ i j s, (pool.stage i).resource = some s → (pool.stage j).resource = some s → i = j
  released : ∀ s ∈ pool.released, ∃ i, (pool.stage i).Stored s
  retained : ∀ k s, pool.slots k = .retained s → s ∉ pool.released ∧ ∃ i, (pool.stage i).Stored s
  once : ∀ k l s, pool.slots k = .retained s → pool.slots l = .retained s → k = l
  stored : ∀ i k s, pool.stage i = .stored k s → s ∉ pool.released → pool.slots k = .retained s
  settled : ∀ i s, pool.stage i = .settled s → s ∉ pool.released → ∃ k, pool.slots k = .retained s

/-- A stored resource is the one that the holder has. -/
theorem Stage.Stored.resource {stage : Stage κ σ} {s : σ} (h : stage.Stored s) :
    stage.resource = some s := by
  rcases h with rfl | ⟨slot, rfl⟩ <;> rfl

/-! ## The invariant is kept -/

namespace Sound

variable {pool : Pool ι κ σ} {i : ι} {k : κ} {s : σ}

/-- The slot that a holder has claimed is claimed. -/
theorem slots_of_claim (h : Sound pool) (hi : (pool.stage i).claim = some k) :
    pool.slots k = .claimed :=
  (h.claimed k).mpr ⟨i, hi⟩

/-- A resource that its maker has not stored yet is in no slot, and nobody can have released it. -/
theorem of_prepared (h : Sound pool) (hi : pool.stage i = .prepared k s) :
    s ∉ pool.released ∧ ∀ l, pool.slots l ≠ .retained s := by
  -- one who has stored it would be its maker, who has not
  have hstored : ∀ j, ¬ (pool.stage j).Stored s := by
    intro j hj
    have hij : i = j := h.maker i j s (by rw [hi]; rfl) hj.resource
    rw [← hij, hi] at hj
    rcases hj with hj | ⟨slot, hj⟩ <;> exact nomatch hj
  constructor
  · intro hs
    obtain ⟨j, hj⟩ := h.released s hs
    exact hstored j hj
  · intro l hl
    obtain ⟨-, j, hj⟩ := h.retained l s hl
    exact hstored j hj

/-- A stored resource is in no slot but that of its maker. -/
theorem slot_unique (h : Sound pool) (hi : pool.stage i = .stored k s) {l : κ}
    (hl : pool.slots l = .retained s) : l = k :=
  h.once l k s hl (h.stored i k s hi (h.retained l s hl).1)

/-- A resource that was prepared and not released is in exactly one slot, or its maker still holds
    exactly the claim under which it was made. -/
theorem kept (h : Sound pool) (hi : (pool.stage i).resource = some s) (hs : s ∉ pool.released) :
    (∃! k, pool.slots k = .retained s) ∨
      ∃ k, pool.stage i = .prepared k s ∧ pool.slots k = .claimed ∧
        ∀ l, pool.slots l ≠ .retained s := by
  cases hstage : pool.stage i with
  | idle => rw [hstage] at hi; exact nomatch hi
  | claimed k => rw [hstage] at hi; exact nomatch hi
  | prepared k t =>
    rw [hstage] at hi
    cases hi
    exact .inr ⟨k, rfl, h.slots_of_claim (by rw [hstage]; rfl), (h.of_prepared hstage).2⟩
  | stored k t =>
    rw [hstage] at hi
    cases hi
    exact .inl ⟨k, h.stored i k s hstage hs, fun l hl => h.slot_unique hstage hl⟩
  | settled t =>
    rw [hstage] at hi
    cases hi
    obtain ⟨k, hk⟩ := h.settled i s hstage hs
    exact .inl ⟨k, hk, fun l hl => h.once l k s hl hk⟩

variable [DecidableEq ι] [DecidableEq κ]

/-- A retained resource may be released, and its slot vacated. -/
theorem giveUp (h : Sound pool) (hk : pool.slots k = .retained s) :
    Sound { pool with
      slots := Function.update pool.slots k .vacant, released := insert s pool.released } := by
  -- another slot that retains something retains another resource
  have hother : ∀ l t, l ≠ k → pool.slots l = .retained t → t ≠ s := by
    rintro l t hl ht rfl
    exact hl (h.once l k t ht hk)
  obtain ⟨hclaimed, hclaimant, hmaker, hreleased, hretained, honce, hstored, hover⟩ := h
  refine ⟨fun l => ?_, hclaimant, hmaker, ?_, ?_, ?_, ?_, ?_⟩ <;>
    simp only [Function.update_apply, Set.mem_insert_iff] <;> grind

/-- A vacant slot may be claimed. -/
theorem claim (h : Sound pool) (hi : pool.stage i = .idle) (hk : pool.slots k = .vacant) :
    Sound { pool with
      slots := Function.update pool.slots k .claimed
      stage := Function.update pool.stage i (.claimed k) } := by
  obtain ⟨hclaimed, hclaimant, hmaker, hreleased, hretained, honce, hstored, hover⟩ := h
  refine ⟨fun l => ?_, ?_, ?_, ?_, ?_, ?_, ?_, ?_⟩ <;>
    simp only [Function.update_apply] <;> grind [Stage.claim, Stage.resource, Stage.Stored]

/-- A holder may make a resource that no holder has. -/
theorem prepare (h : Sound pool) (hi : pool.stage i = .claimed k)
    (hnew : ∀ j, (pool.stage j).resource ≠ some s) :
    Sound { pool with stage := Function.update pool.stage i (.prepared k s) } := by
  obtain ⟨hclaimed, hclaimant, hmaker, hreleased, hretained, honce, hstored, hover⟩ := h
  refine ⟨fun l => ?_, ?_, ?_, ?_, ?_, honce, ?_, ?_⟩ <;>
    simp only [Function.update_apply] <;> grind [Stage.claim, Stage.resource, Stage.Stored]

/-- And store it in its slot. -/
theorem store (h : Sound pool) (hi : pool.stage i = .prepared k s) :
    Sound { pool with
      slots := Function.update pool.slots k (.retained s)
      stage := Function.update pool.stage i (.stored k s) } := by
  have hnew := h.of_prepared hi
  have hk : pool.slots k = .claimed := h.slots_of_claim (by rw [hi]; rfl)
  obtain ⟨hclaimed, hclaimant, hmaker, hreleased, hretained, honce, hstored, hover⟩ := h
  refine ⟨fun l => ?_, ?_, ?_, ?_, ?_, ?_, ?_, ?_⟩ <;>
    simp only [Function.update_apply] <;> grind [Stage.claim, Stage.resource, Stage.Stored]

/-- Or give the slot back without one. -/
theorem abandon (h : Sound pool) (hi : pool.stage i = .claimed k) :
    Sound { pool with
      slots := Function.update pool.slots k .vacant, stage :=
        Function.update pool.stage i .idle } := by
  have hk : pool.slots k = .claimed := h.slots_of_claim (by rw [hi]; rfl)
  obtain ⟨hclaimed, hclaimant, hmaker, hreleased, hretained, honce, hstored, hover⟩ := h
  refine ⟨fun l => ?_, ?_, ?_, ?_, ?_, ?_, ?_, ?_⟩ <;>
    simp only [Function.update_apply] <;> grind [Stage.claim, Stage.resource, Stage.Stored]

/-- And be done with a stored resource, which stays where it is. -/
theorem retire (h : Sound pool) (hi : pool.stage i = .stored k s) :
    Sound { pool with stage := Function.update pool.stage i (.settled s) } := by
  obtain ⟨hclaimed, hclaimant, hmaker, hreleased, hretained, honce, hstored, hover⟩ := h
  refine ⟨fun l => ?_, ?_, ?_, ?_, ?_, honce, ?_, ?_⟩ <;>
    simp only [Function.update_apply] <;> grind [Stage.claim, Stage.resource, Stage.Stored]

/-- **Every move keeps the invariant.** -/
theorem move {pool' : Pool ι κ σ} (h : Sound pool) (hmove : Move pool pool') : Sound pool' := by
  cases hmove with
  | giveUp hk => exact h.giveUp hk
  | claim hi hk => exact h.claim hi hk
  | prepare hi hnew => exact h.prepare hi hnew
  | store hi => exact h.store hi
  | abandon hi => exact h.abandon hi
  | retire hi => exact h.retire hi

/-- **Every run of moves keeps the pool sound.** -/
theorem moves {pool' : Pool ι κ σ} (h : Sound pool)
    (hmoves : Relation.ReflTransGen Move pool pool') : Sound pool' := by
  induction hmoves with
  | refl => exact h
  | tail _ hmove ih => exact ih.move hmove

/-- What was released stays released. -/
theorem released_move {pool' : Pool ι κ σ} (hmove : Move pool pool') (hs : s ∈ pool.released) :
    s ∈ pool'.released := by
  cases hmove with
  | giveUp => exact Set.mem_insert_of_mem _ hs
  | claim | prepare | store | abandon | retire => exact hs

/-- A resource leaves its slot when it is released, and only then. -/
theorem retained_move {pool' : Pool ι κ σ} (h : Sound pool) (hmove : Move pool pool')
    (hk : pool.slots k = .retained s) : pool'.slots k = .retained s ∨ s ∈ pool'.released := by
  -- a slot with another content is another slot
  have hother : ∀ {l value}, pool.slots l ≠ .retained s →
      Function.update pool.slots l value k = .retained s := by
    intro l value hl
    have hne : k ≠ l := by
      rintro rfl
      exact hl hk
    rw [Function.update_of_ne hne, hk]
  cases hmove with
  | @giveUp l t hl =>
    by_cases hkl : k = l
    · rw [← hkl, hk] at hl
      cases hl
      exact .inr (Set.mem_insert _ _)
    · exact .inl ((Function.update_of_ne hkl _ _).trans hk)
  | claim _ hl => exact .inl (hother (by rw [hl]; exact nofun))
  | prepare | retire => exact .inl hk
  | store hi | abandon hi =>
    have hl := h.slots_of_claim (by rw [hi]; rfl)
    exact .inl (hother (by rw [hl]; exact nofun))

/-- **A retained resource is retained or released after every run of moves.** -/
theorem retained_moves {pool' : Pool ι κ σ} (h : Sound pool)
    (hmoves : Relation.ReflTransGen Move pool pool') (hk : pool.slots k = .retained s) :
    pool'.slots k = .retained s ∨ s ∈ pool'.released := by
  induction hmoves with
  | refl => exact .inl hk
  | tail hbefore hmove ih =>
    rcases ih with hmid | hmid
    · exact (h.moves hbefore).retained_move hmove hmid
    · exact .inr (released_move hmove hmid)

end Sound

/-- In the beginning every slot is vacant and every party idle. -/
theorem sound_start : Sound (⟨fun _ => .vacant, fun _ => .idle, ∅⟩ : Pool ι κ σ) where
  claimed k := by
    constructor
    · exact fun h => nomatch h
    · rintro ⟨i, h⟩
      exact nomatch h
  claimant _ _ _ h := nomatch h
  maker _ _ _ h := nomatch h
  released _ h := absurd h (Set.notMem_empty _)
  retained _ _ h := nomatch h
  once _ _ _ h := nomatch h
  stored _ _ _ h := nomatch h
  settled _ _ h := nomatch h

end SlotPool
