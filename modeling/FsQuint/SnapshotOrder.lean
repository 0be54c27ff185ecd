/-
  Which comes first, the final snapshot of a session or its release.

  1. **Where a release comes from** (`Takes.released_of`): `TryRelease` is called by a sweep, by the
     owner, and in the `finally` block.
  2. **The owner** releases after its final snapshot (`step_releasing`); the other two callers do not
     ask for it.  `Careful` is the condition under which they need not.
  3. **The order** (`released_after_snapshot`), and an interleaving without it.

  The invariant (`Sequenced`) says that the owner of a released session has its final snapshot.  Two
  calls can break it: a sweep, which releases every retained session that answers, also one whose
  owner still observes it; and the cleanup of an invocation that an exception has ended early.
  `Careful` looks at the state before such a call only, and keeps to sessions that have not settled,
  which `TryRelease` refuses (`Honest`).
-/
import FsQuint.ProcessCustody

set_option linter.unusedSectionVars false

namespace FsQuint

open SlotPool Transition

variable {ι σ : Type} [DecidableEq ι] [DecidableEq σ]

/-- A session that has been released is one of which the final snapshot has been taken. -/
def Ordered (system : System ι σ) : Prop :=
  ∀ session ∈ system.custody.released, ∀ i, (system.invocations i).retained = some session →
    (system.invocations i).snapshot.isSome

/-- No sweep meets a settled session whose final snapshot is still to come, and no invocation that an
    exception ended before its final snapshot cleans up after its session has settled. -/
def Careful (system : System ι σ) : Label ι σ → Prop
  | .act _ (.claim _) => ∀ k session i, system.custody.slots k = .retained session →
      (system.invocations i).retained = some session → session ∈ system.settled →
        (system.invocations i).snapshot.isSome
  | .act i (.leave _) => (system.invocations i).snapshot = none →
      ∀ session, (system.invocations i).retained = some session → session ∉ system.settled
  | _ => True

/-! ## Where a release comes from -/

/-- A session that is released by this call was released before, or is the one that answered. -/
theorem mem_released_releaseSlot {slot : Fin 16} {session s : σ} {reply : Outcome ReleaseReply}
    {custody : Custody σ} (h : s ∈ (Quint.releaseSlot slot session reply custody).1.released) :
    s ∈ custody.released ∨ s = session ∧ reply = .ok .resourcesReleased := by
  by_cases hreply : reply = .ok .resourcesReleased
  · have hs : s ∈ session :: custody.released := by
      rw [hreply, releaseSlot_released] at h
      split at h <;> exact h
    rcases List.mem_cons.mp hs with rfl | hs
    · exact .inr ⟨rfl, hreply⟩
    · exact .inl hs
  · rw [releaseSlot_refused hreply] at h
    exact .inl h

/-- A sweep releases what the slots retained before it, and only what `TryRelease` lets go. -/
theorem mem_released_sweep {replies : Fin 16 → Outcome ReleaseReply} {s : σ} :
    ∀ (indices : List (Fin 16)) {custody : Custody σ},
    s ∈ (indices.foldl (Quint.sweepSlot replies) custody).released →
      s ∈ custody.released ∨ ∃ k, custody.slots k = .retained s ∧ replies k = .ok .resourcesReleased
  | [], _, h => .inl h
  | index :: indices, custody, h => by
    rcases mem_released_sweep indices h with hs | ⟨k, hk, hreply⟩
    · unfold Quint.sweepSlot at hs
      split at hs
      · rename_i session hslot
        rcases mem_released_releaseSlot hs with hs | ⟨rfl, hreply⟩
        · exact .inl hs
        · exact .inr ⟨index, hslot, hreply⟩
      · exact .inl hs
    · refine .inr ⟨k, ?_, hreply⟩
      unfold Quint.sweepSlot at hk
      split at hk
      · rename_i session hslot
        rcases @releaseSlot_slots σ _ index session (replies index)
          custody k with hsame | ⟨-, hvacant⟩
        · exact hsame.symm.trans hk
        · exact nomatch hvacant.symm.trans hk
      · exact hk

/-- A session that the sweep releases was retained in a slot, and answered. -/
theorem mem_released_claim {replies : Fin 16 → Outcome ReleaseReply} {custody : Custody σ} {s : σ}
    (h : s ∈ (Quint.claimSlot replies custody).1.released) :
    s ∈ custody.released ∨ ∃ k, custody.slots k = .retained s ∧
      replies k = .ok .resourcesReleased := by
  unfold Quint.claimSlot at h
  generalize List.finRange 16 = indices at h
  refine mem_released_sweep indices ?_
  dsimp only at h
  split at h <;> exact h

/-! ## The owner -/

/-- An invocation that is about to release its session has taken its final snapshot. -/
theorem Invocation.step_releasing {invocation invocation' : Invocation σ}
    {custody custody' : Custody σ} {action : Action σ} {slot : Fin 16} {session : σ}
    {initial final : TextExecutionResult}
    (h : invocation.step custody action = some (custody', invocation'))
    (hphase : invocation'.phase = .releasing slot session initial final) :
    invocation'.snapshot.isSome := by
  cases step_cases h with
  | finish => rfl
  | observe _ hnext => rcases hnext with rfl | rfl <;> cases hphase
  | pause _ hnext => rcases hnext with ⟨rfl, -⟩ | rfl <;> cases hphase
  | _ => cases hphase

namespace Invocation.Effect

variable {invocation invocation' : Invocation σ} {custody custody' : Custody σ} {action : Action σ}

/-- A snapshot that was taken stays taken. -/
theorem snapshot (h : Effect invocation custody action custody' invocation')
    (hs : invocation.snapshot.isSome) :
    invocation'.snapshot.isSome := by
  cases h with
  | wait _ _ _ hmono => exact hmono hs
  | claim _ _ _ _ _ hsame | release _ _ _ hsame =>
    rw [hsame]
    exact hs
  | prepare | store | retire | abandon => exact hs

/-- A session is retained from the step on that made it, which releases nothing. -/
theorem retained (h : Effect invocation custody action custody' invocation') {session : σ}
    (hr : invocation'.retained = some session) :
    invocation.retained = some session ∨ action = .prepare (.ok (.ok session)) ∧
    custody' = custody := by
  cases h with
  | wait _ hsame | claim _ _ _ hsame | release _ _ hsame => exact .inl (hsame.symm.trans hr)
  | prepare =>
    cases Option.some.inj hr
    exact .inr ⟨rfl, rfl⟩
  | store | retire | abandon => exact .inl hr

end Invocation.Effect

/-! ## The order -/

/-- What holds in a run whose steps are all careful. -/
structure Sequenced (system : System ι σ) : Prop where
  good : system.Good
  releasing : ∀ i slot session initial final,
    (system.invocations i).phase = .releasing slot session initial final → (system.invocations i).snapshot.isSome
  ordered : Ordered system

/-- What a careful step releases has had its final snapshot. -/
theorem Sequenced.newly_released {system : System ι σ} {i : ι} {action : Action σ}
    {custody' : Custody σ} {invocation' : Invocation σ} (hseq : Sequenced system)
    (heffect : (system.invocations i).Effect system.custody action custody' invocation')
    (hhonest : Honest system (.act i action)) (hcareful : Careful system (.act i action)) {s : σ}
    (hs : s ∈ custody'.released) (hnew : s ∉ system.custody.released) {j : ι}
    (hj : (system.invocations j).retained = some s) : (system.invocations j).snapshot.isSome := by
  -- a session has one maker
  have hmaker : (system.invocations i).retained = some s → j = i := by
    intro hi
    exact hseq.good.sound.maker j i s ((hseq.good.coherent j).retained ▸ hj)
      ((hseq.good.coherent i).retained ▸ hi)
  cases heffect with
  | wait | prepare | store | abandon => exact absurd hs hnew
  | @claim replies _ _ _ _ hclaim =>
    have hclaimed : s ∈ (Quint.claimSlot replies system.custody).1.released := by
      rw [hclaim]
      exact hs
    rcases mem_released_claim hclaimed with hold | ⟨k, hk, hreply⟩
    · exact absurd hold hnew
    · exact hcareful k s j hk hj (hhonest k s hk hreply)
  | @release slot session initial final reply _ hphase =>
    rcases mem_released_releaseSlot hs with hold | ⟨rfl, -⟩
    · exact absurd hold hnew
    · have hstage : (system.invocations i).stage = .stored slot
        s := by simp only [Invocation.stage, hphase]
      rw [hmaker ((hseq.good.coherent i).retained_of_stored hstage)]
      exact hseq.releasing i slot s initial final hphase
  | @retire slot session result reply hphase hr =>
    split at hs
    · rcases mem_released_releaseSlot hs with hold | ⟨rfl, hreply⟩
      · exact absurd hold hnew
      · rw [hmaker hr, Option.isSome_iff_ne_none]
        exact fun hnone => hcareful hnone s hr (hhonest s hr hreply)
    · exact absurd hs hnew

/-- **A careful step keeps the order**: a release comes after the snapshot. -/
theorem Sequenced.takes {system system' : System ι σ} {label : Label ι σ}
    (hseq : Sequenced system) (htakes : Takes system label system')
    (hhonest : Honest system label) (hcareful : Careful system label) :
    Sequenced system' := by
  have hgood' := htakes.good hseq.good
  cases label with
  | settle session =>
    cases Option.some.inj htakes.2
    exact ⟨hgood', hseq.releasing, hseq.ordered⟩
  | act i action =>
    obtain ⟨⟨custody', invocation'⟩, hstep, rfl⟩ := Option.map_eq_some_iff.mp htakes.2
    have heffect := Invocation.step_effect (hseq.good.coherent i) hstep
    refine ⟨hgood', fun j slot session initial final hphase => ?_, fun s hs j hj => ?_⟩
    -- the invocation that took the step has taken its snapshot in it; the others stay as they were
    · by_cases hij : j = i
      · subst hij
        dsimp only at hphase ⊢
        rw [Function.update_self] at hphase ⊢
        exact Invocation.step_releasing hstep hphase
      · dsimp only at hphase ⊢
        rw [Function.update_of_ne hij] at hphase ⊢
        exact hseq.releasing j slot session initial final hphase
    · -- one who had prepared the session before the step had its snapshot then
      have hbefore : ∀ m, (system.invocations m).retained = some s →
          (system.invocations m).snapshot.isSome := by
        intro m hm
        by_cases hold : s ∈ system.custody.released
        · exact hseq.ordered s hold m hm
        · exact hseq.newly_released heffect hhonest hcareful hs hold hm
      by_cases hij : j = i
      · subst hij
        dsimp only at hj ⊢
        rw [Function.update_self] at hj ⊢
        rcases heffect.retained hj with hr | ⟨rfl, rfl⟩
        · exact heffect.snapshot (hbefore j hr)
        · -- a new session has not been released
          obtain ⟨m, hm⟩ := hseq.good.sound.released s hs
          exact absurd ((hseq.good.coherent m).retained.trans hm.resource) (htakes.1 s rfl m)
      · dsimp only at hj ⊢
        rw [Function.update_of_ne hij] at hj ⊢
        exact hbefore j hj

/-- **Where every step is careful, no session is released before its final snapshot.** -/
theorem released_after_snapshot {ι σ : Type} [DecidableEq ι] [DecidableEq σ] {labels : List (Label ι σ)}
    {system : System ι σ}
    (h : Steps (fun s label t => Takes s label t ∧ Honest s label ∧ Careful s label) {} labels system) :
    Ordered system := by
  have hstart : Sequenced ({} : System ι σ) :=
    ⟨good_start, fun _ _ _ _ _ hphase => (nomatch hphase), fun _ hs => (nomatch hs)⟩
  exact (h.invariant Sequenced (fun hseq hstep => hseq.takes hstep.1 hstep.2.1 hstep.2.2)
    hstart).ordered

/-- A process whose tasks have settled. -/
def quiet : TextExecutionResult :=
  ⟨⟨.notRequested, .other, .unknown, .known .settled, none, []⟩, running.text⟩

/-- The first invocation takes the final snapshot of its session, and the sweep of the second, which is
    careful, then releases the session and takes over its slot. -/
theorem released_after_snapshot_sweep : ∃ labels, ∃ system : System Bool Nat,
    Steps (fun s label t => Takes s label t ∧ Honest s label ∧ Careful s label) {} labels system ∧
      system.custody.released = [7] ∧ (system.invocations false).retained = some 7 ∧
      (system.invocations true).retained = some 8 ∧ Ordered system := by
  have hsteps : ∃ system : System Bool Nat,
      Steps (fun s label t => Takes s label t ∧ Honest s label ∧ Careful s label) {}
        [.act false (.budget (.ok (.ok ⟨false⟩)) false),
          .act false (.claim fun _ => .ok .releaseRefused),
          .act false (.prepare (.ok (.ok 7))), .act false .store,
          .act false (.run (.ok running)), .act true (.budget (.ok (.ok ⟨false⟩)) false), .settle 7,
          .act false (.observe (.ok quiet)), .act false (.observe (.ok quiet)),
          .act true (.claim fun slot => if slot = 0 then .ok .resourcesReleased else .ok .releaseRefused),
          .act true (.prepare (.ok (.ok 8)))] system ∧
            system.custody.released = [7] ∧ (system.invocations false).retained = some 7 ∧
            (system.invocations true).retained = some 8 := by
    refine ⟨_, .cons ⟨⟨fresh_of_made_none rfl, rfl⟩, trivial, trivial⟩ (.cons ⟨⟨fresh_of_made_none rfl, rfl⟩, ?_, ?_⟩
      (.cons ⟨⟨?_, rfl⟩, trivial, trivial⟩ (.cons ⟨⟨fresh_of_made_none rfl, rfl⟩, trivial, trivial⟩
      (.cons ⟨⟨fresh_of_made_none rfl, rfl⟩, trivial, trivial⟩ (.cons ⟨⟨fresh_of_made_none rfl, rfl⟩, trivial, trivial⟩
      (.cons ⟨⟨fresh_of_made_none rfl, rfl⟩, trivial, trivial⟩ (.cons ⟨⟨fresh_of_made_none rfl, rfl⟩, trivial, trivial⟩
      (.cons ⟨⟨fresh_of_made_none rfl, rfl⟩, trivial, trivial⟩ (.cons ⟨⟨fresh_of_made_none rfl, rfl⟩, ?_, ?_⟩
      (.cons ⟨⟨?_, rfl⟩, trivial, trivial⟩ .refl)))))))))), rfl, rfl, rfl⟩
    -- the sweep of the first invocation finds nothing
    · exact fun k session hk _ => nomatch hk
    · exact fun k session i hk _ _ => nomatch hk
    · rintro session - (_ | _) <;> exact nofun
    -- that of the second finds a session that has settled
    · intro k session hk hreply
      by_cases hzero : k = 0
      · subst hzero
        have hseven : 7 = session := Slot.retained.inj hk
        exact List.mem_singleton.mpr hseven.symm
      · have hrefused := (if_neg hzero).symm.trans hreply
        exact nomatch hrefused
    -- and of which the final snapshot has been taken
    · rintro k session (_ | _) hk hmaker _
      · rfl
      · cases hmaker
    · rintro session hsession (_ | _) hmaker
      · cases hsession
        cases hmaker
      · cases hmaker
  obtain ⟨system, hsteps, hreleased, hfirst, hsecond⟩ := hsteps
  exact ⟨_, system, hsteps, hreleased, hfirst, hsecond, released_after_snapshot hsteps⟩

/-- **An invocation can lose its session while it observes it**: the sweep of another releases the
    session, which has settled, before its final snapshot. -/
theorem released_before_snapshot : ∃ system : System Bool Nat,
    Steps (fun s label t => Takes s label t ∧ Honest s label) {} overlap system ∧
      (system.invocations false).phase = .observing 0 7 running ∧ ¬ Ordered system := by
  obtain ⟨system, hsteps, hreleased, -, hphase, hretained, hnone⟩ := steps_overlap
  refine ⟨system, hsteps, hphase, fun hordered => ?_⟩
  have hsome := hordered 7 (by rw [hreleased]; exact List.mem_cons_self) false hretained
  rw [hnone] at hsome
  exact nomatch hsome

end FsQuint
