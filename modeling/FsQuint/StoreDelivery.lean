/-
  What the contract store keeps of its commits: the outbox, and the states they start from.

  1. **What a request does to the history and to the queue** (`after_outbox`): only a commit extends
     the history, and puts its actions at the end of the queue; only `Complete` and `Abandon` take an
     action out of it.
  2. **The outbox** (`outbox_exact`): an action of a commit is pending until something settles it, it
     never comes back, and it is there once.
  3. **No lost update** (`no_lost_update`): where workers compute drafts from snapshots that the store
     answered, each commit of an entity starts from the state in which the one before left it, however
     long ago its worker read it.
-/
import FsQuint.StoreSafety

namespace FsQuint

open Utf16

namespace ProtocolStore

variable {s t : TestStore} {r r' : Row} {id lease : Nat}

/-! ## What a request does to the history and to the queue -/

/-- The key that a request settles: that of an action which is acknowledged, unless the acknowledgment
    is lost, or abandoned. -/
def settled (s : TestStore) : Request → Option (Nat × Nat)
  | .complete action => if s.loseAck then none else some action.key
  | .abandon action => some action.key
  | _ => none

/-- Nothing settles a key in a run. -/
def Unsettled (key : Nat × Nat) : TestStore → List Request → Prop
  | _, [] => True
  | s, request :: requests => settled s request ≠ some key ∧ Unsettled key (s.after request) requests

/-- Leasing touches neither the history, nor the queue, nor a snapshot. -/
theorem leaseAll_frame {rows : List Row} : ∀ {s : TestStore},
    (s.leaseAll rows).2.history = s.history ∧ (s.leaseAll rows).2.pending = s.pending ∧
      (s.leaseAll rows).2.snapshots = s.snapshots := by
  induction rows with
  | nil => exact ⟨rfl, rfl, rfl⟩
  | cons r rows ih => exact ih

/-- Neither does activating actions. -/
theorem activateAll_frame {actions : List LeasedAction} : ∀ {s : TestStore},
    (s.activateAll actions).2.history = s.history ∧ (s.activateAll actions).2.pending = s.pending ∧
      (s.activateAll actions).2.snapshots = s.snapshots := by
  induction actions with
  | nil => exact ⟨rfl, rfl, rfl⟩
  | cons a actions ih => exact ih

/-- Nor does a submission touch the history or the queue. -/
theorem submit_frame (submission : CommandSubmission) :
    (s.submit submission).2.history = s.history ∧ (s.submit submission).2.pending = s.pending := by
  rw [TestStore.submit]
  split <;> exact ⟨rfl, rfl⟩

/-- A completion takes the action that it settles from the queue, and no other. -/
theorem complete_frame (action : LeasedAction) :
    (s.complete action).2.history = s.history ∧ (s.complete action).2.pending =
      s.pending.filter fun a => settled s (.complete action) ≠ some a.key := by
  rw [TestStore.complete, settled]
  split
  · refine ⟨rfl, Eq.symm (List.filter_eq_self.mpr fun a _ => ?_)⟩
    simp
  · refine ⟨rfl, List.filter_congr fun a _ => ?_⟩
    simp [eq_comm]

/-- What a request adds to the history. -/
structure Adds (s : TestStore) (request : Request) (commits : List CommittedTransition) : Prop where
  history : (s.after request).history = s.history ++ commits
  pending : (s.after request).pending =
    (s.pending.filter fun a => settled s request ≠ some a.key) ++ commits.flatMap TestStore.enqueued
  single : commits.length ≤ 1
  /-- a commit is of the draft of the request, at the epoch that it expects -/
  draft : ∀ c ∈ commits, ∃ id lease expected, request = .commit id lease expected c.draft ∧
    (expected = (s.snapshot c.draft.entityId).epoch ∨ s.duplicateFinalize = true)

/-- A request that leaves the history and at most settles an action adds no commit. -/
theorem adds_nothing {request : Request} (hhistory : (s.after request).history = s.history)
    (hpending : (s.after request).pending = s.pending.filter fun a => settled s request ≠ some a.key) :
    Adds s request [] :=
  ⟨by rw [hhistory, List.append_nil], by rw [hpending, List.flatMap_nil, List.append_nil],
    Nat.zero_le _, fun _ h => absurd h List.not_mem_nil⟩

/-- In particular one that leaves both. -/
theorem adds_untouched {request : Request} (hsettled : settled s request = none)
    (hhistory : (s.after request).history = s.history) (hpending : (s.after request).pending = s.pending) :
    Adds s request [] := by
  refine adds_nothing hhistory (hpending.trans (Eq.symm (List.filter_eq_self.mpr fun a _ => ?_)))
  simp [hsettled]

/-- The state after a request that is served. -/
theorem after_of_serve {request : Request} {response : Response} (h : s.serve request = some (response, t)) :
    s.after request = t := by
  rw [TestStore.after, h]
  rfl

/-- A request for a row that answers and changes the row when the lease is its own. -/
theorem owned_frame {α : Type} {answer : Row → α} {lost : α} {change : Row → Row} {outcome : α}
    (h : (do
      let r ← s.row id
      if s.owns r lease then return (answer r, s.amend id change) else return (lost, s)) = some (outcome, t)) :
    t.history = s.history ∧ t.pending = s.pending := by
  obtain ⟨r, -, h⟩ := Option.bind_eq_some_iff.mp h
  split at h
  · cases h
    exact ⟨rfl, rfl⟩
  · cases h
    exact ⟨rfl, rfl⟩

/-- **A commit adds its draft, or nothing.** -/
theorem commit_adds {expected : Nat} {draft : TransitionDraft} {answer : Except StoreError FinalizeOutcome}
    (h : s.commit id lease expected draft = some (answer, t)) :
    ∃ commits, Adds s (.commit id lease expected draft) commits := by
  have hafter : s.after (.commit id lease expected draft) = t :=
    after_of_serve (by rw [TestStore.serve, h]; rfl)
  obtain ⟨r, -, ⟨-, -, -, -, rfl⟩ | ⟨-, -, -, -, rfl⟩ | ⟨-, h⟩⟩ := commit_cases h
  · exact ⟨[], adds_untouched rfl (by rw [hafter]) (by rw [hafter])⟩
  · exact ⟨[], adds_untouched rfl (by rw [hafter]) (by rw [hafter])⟩
  · obtain ⟨rfl, -, -⟩ | ⟨rfl, -, -⟩ | ⟨hexpected, -, response, rfl, -⟩ := h
    · exact ⟨[], adds_untouched rfl (by rw [hafter]) (by rw [hafter])⟩
    · exact ⟨[], adds_untouched rfl (by rw [hafter]) (by rw [hafter])⟩
    · refine ⟨[⟨draft, (s.snapshot draft.entityId).epoch + 1, id, r.record.chartVersion⟩], ⟨?_, ?_, Nat.le_refl _, ?_⟩⟩
      · rw [hafter]
        rfl
      · rw [hafter, List.filter_eq_self.mpr fun a _ => by simp [settled], List.flatMap_singleton]
        rfl
      · intro c hc
        rw [List.mem_singleton] at hc
        subst hc
        exact ⟨id, lease, expected, rfl, hexpected⟩

/-- **What a request does to the history and to the queue.** -/
theorem after_outbox (s : TestStore) (request : Request) : ∃ commits, Adds s request commits := by
  cases hserve : s.serve request with
  | none =>
    have hafter : s.after request = s := by
      rw [TestStore.after, hserve]
      rfl
    refine ⟨[], adds_untouched ?_ (by rw [hafter]) (by rw [hafter])⟩
    cases request with
    | complete | abandon => cases hserve
    | _ => rfl
  | some out =>
    obtain ⟨response, t⟩ := out
    have hafter := after_of_serve hserve
    have huntouched : settled s request = none → t.history = s.history ∧ t.pending = s.pending →
        ∃ commits, Adds s request commits :=
      fun hs h => ⟨[], adds_untouched hs (by rw [hafter]; exact h.1) (by rw [hafter]; exact h.2)⟩
    cases request with
    | submit submission =>
      refine huntouched rfl ?_
      cases hserve
      exact submit_frame submission
    | claim machine batch =>
      refine huntouched rfl ?_
      cases hserve
      exact ⟨leaseAll_frame.1, leaseAll_frame.2.1⟩
    | reschedule id lease =>
      refine huntouched rfl ?_
      obtain ⟨⟨_, _⟩, h, heq⟩ := Option.map_eq_some_iff.mp hserve
      cases heq
      exact owned_frame h
    | extendLease id lease =>
      refine huntouched rfl ?_
      obtain ⟨⟨_, _⟩, h, heq⟩ := Option.map_eq_some_iff.mp hserve
      obtain ⟨r, -, h⟩ := Option.bind_eq_some_iff.mp h
      cases heq
      cases h
      exact ⟨rfl, rfl⟩
    | commit id lease expected draft =>
      obtain ⟨⟨_, _⟩, h, -⟩ := Option.map_eq_some_iff.mp hserve
      exact commit_adds h
    | reject id lease | deadLetter id lease =>
      refine huntouched rfl ?_
      obtain ⟨⟨_, _⟩, h, heq⟩ := Option.map_eq_some_iff.mp hserve
      cases heq
      exact owned_frame h
    | claimActions batch =>
      refine huntouched rfl ?_
      cases hserve
      exact ⟨activateAll_frame.1, activateAll_frame.2.1⟩
    | complete action =>
      cases hserve
      exact ⟨[], adds_nothing (by rw [hafter]; exact (complete_frame action).1)
        (by rw [hafter]; exact (complete_frame action).2)⟩
    | abandon action =>
      cases hserve
      refine ⟨[], adds_nothing (by rw [hafter]) ?_⟩
      rw [hafter]
      exact List.filter_congr fun a _ => by simp [settled, eq_comm]
    | commitCalled | rescheduleAction | expire | setLoseCommitResponse | setLoseAck | setFailCommit =>
      refine huntouched rfl ?_
      cases hserve
      exact ⟨rfl, rfl⟩

/-- **The history only grows.** -/
theorem history_isPrefix (requests : List Request) : ∀ s : TestStore, s.history <+: (s.run requests).history := by
  induction requests with
  | nil => exact fun _ => List.prefix_rfl
  | cons request requests ih =>
    intro s
    obtain ⟨commits, hadds⟩ := after_outbox s request
    exact (hadds.history ▸ List.prefix_append _ _).trans (ih (s.after request))

/-! ## The outbox -/

/-- The actions of a commit are keyed by its command and numbered. -/
theorem keys_enqueued (c : CommittedTransition) :
    (TestStore.enqueued c).map LeasedAction.key =
      (List.range c.draft.actions.length).map fun ordinal => (c.commandId, ordinal) := by
  refine List.ext_getElem (by simp [TestStore.enqueued]) fun i h₁ h₂ => ?_
  simp [TestStore.enqueued, LeasedAction.key]

/-- So their keys name the command. -/
theorem fst_key_enqueued {c : CommittedTransition} {a : LeasedAction} (h : a ∈ TestStore.enqueued c) :
    a.key.1 = c.commandId := by
  have hkey := List.mem_map_of_mem (f := LeasedAction.key) h
  rw [keys_enqueued] at hkey
  obtain ⟨ordinal, -, heq⟩ := List.mem_map.mp hkey
  rw [← heq]

/-- Where a command is committed once, each of its actions has a key of its own. -/
theorem nodup_keys {history : List CommittedTransition}
    (h : (history.map CommittedTransition.commandId).Nodup) :
    ((history.flatMap TestStore.enqueued).map LeasedAction.key).Nodup := by
  rw [List.map_flatMap, List.nodup_flatMap]
  refine ⟨fun c _ => ?_, (List.Nodup.pairwise_of_forall_ne (List.Nodup.of_map _ h) fun c hc c' hc' hne => ?_)⟩
  · rw [keys_enqueued]
    exact List.Nodup.map (fun _ _ heq => congrArg Prod.snd heq) List.nodup_range
  · intro key hkey hkey'
    obtain ⟨a, ha, rfl⟩ := List.mem_map.mp hkey
    obtain ⟨a', ha', heq⟩ := List.mem_map.mp hkey'
    refine hne (List.inj_on_of_nodup_map h hc hc' ?_)
    rw [← fst_key_enqueued ha, ← fst_key_enqueued ha', heq]

/-- What a run does to an action that no later commit enqueues. -/
theorem mem_pending_run {a : LeasedAction} (requests : List Request) : ∀ {s : TestStore},
    (∀ commits, (s.run requests).history = s.history ++ commits → a ∉ commits.flatMap TestStore.enqueued) →
      (a ∈ (s.run requests).pending ↔ a ∈ s.pending ∧ Unsettled a.key s requests) := by
  induction requests with
  | nil =>
    intro s _
    exact ⟨fun h => ⟨h, trivial⟩, fun h => h.1⟩
  | cons request requests ih =>
    intro s h
    obtain ⟨commits, hadds⟩ := after_outbox s request
    obtain ⟨later, hlater⟩ := history_isPrefix requests (s.after request)
    have hnot : a ∉ (commits ++ later).flatMap TestStore.enqueued := by
      refine h _ ?_
      rw [← List.append_assoc, ← hadds.history]
      exact hlater.symm
    rw [List.flatMap_append, List.mem_append, not_or] at hnot
    have hrest : a ∈ ((s.after request).run requests).pending ↔ _ := ih fun commits' heq => by
      rw [← hlater, List.append_cancel_left_eq] at heq
      exact heq ▸ hnot.2
    change a ∈ ((s.after request).run requests).pending ↔ _
    rw [hrest, hadds.pending, List.mem_append, Unsettled]
    simp only [hnot.1, or_false, List.mem_filter, decide_eq_true_eq, and_assoc]

/-- **The outbox.**  After every run of a store that does not finalize twice, what is pending was
    enqueued by the commits, in their order, and no action is there twice; and an action of a commit is
    pending exactly as long as nothing has settled it since. -/
theorem outbox_exact (ignoreFence : Bool) (before after : List Request) (request : Request) :
    let s := (TestStore.create ignoreFence false).run before
    let t := (s.after request).run after
    t.pending.Sublist (t.history.flatMap TestStore.enqueued) ∧ (t.pending.map LeasedAction.key).Nodup ∧
      ∀ c, c ∉ s.history → c ∈ (s.after request).history → ∀ a ∈ TestStore.enqueued c,
        (a ∈ t.pending ↔ Unsettled a.key (s.after request) after) := by
  intro s t
  have ht : t = (TestStore.create ignoreFence false).run (before ++ request :: after) := by
    rw [run_append]
    rfl
  have hc : Consistent t := ht ▸ run_consistent (consistent_create ignoreFence false) rfl _
  refine ⟨hc.queue, (nodup_keys hc.once).sublist (hc.queue.map _), fun c hold hnew a ha => ?_⟩
  obtain ⟨commits, hadds⟩ := after_outbox s request
  have hmem : a ∈ (s.after request).pending := by
    rw [hadds.history, List.mem_append] at hnew
    rw [hadds.pending]
    exact List.mem_append_right _ (List.mem_flatMap.mpr ⟨c, hnew.resolve_left hold, ha⟩)
  have hnot : ∀ later, t.history = (s.after request).history ++ later →
      a ∉ later.flatMap TestStore.enqueued := by
    intro later hlater hin
    obtain ⟨c', hc', ha'⟩ := List.mem_flatMap.mp hin
    have honce := hc.once
    rw [hlater, List.map_append, List.nodup_append] at honce
    refine honce.2.2 _ (List.mem_map_of_mem hnew) _ (List.mem_map_of_mem hc') ?_
    rw [← fst_key_enqueued ha, ← fst_key_enqueued ha']
  rw [mem_pending_run after hnot]
  exact ⟨fun h => h.2, fun h => ⟨hmem, h⟩⟩

/-! ## No lost update -/

/-- The drafts of a run were computed from snapshots that the store had answered by then. -/
def Grounded (s : TestStore) (requests : List Request) : Prop :=
  ∀ before id lease expected draft after, requests = before ++ .commit id lease expected draft :: after →
    ∃ earlier, earlier <+: before ∧ (s.run earlier).snapshot draft.entityId = ⟨draft.fromState, expected⟩

/-- Each transition starts in the state in which the one before ended. -/
def Chained : Int → List CommittedTransition → Prop
  | _, [] => True
  | state, c :: commits => c.draft.fromState = state ∧ Chained c.draft.toState commits

/-- A chain of commits is continued from where it ends. -/
theorem chained_append {start : Int} {commits : List CommittedTransition} {c : CommittedTransition}
    (h : Chained start commits)
    (hc : c.draft.fromState = (commits.getLast?.map fun c => c.draft.toState).getD start) :
    Chained start (commits ++ [c]) := by
  induction commits generalizing start with
  | nil => exact ⟨hc, trivial⟩
  | cons first commits ih =>
    refine ⟨h.1, ih h.2 ?_⟩
    rw [hc, List.getLast?_cons]
    cases commits.getLast? <;> rfl

/-- The snapshot is where the last commit of the entity went. -/
theorem Consistent.snapshot_state (hs : Consistent s) (entity : UString) :
    (s.snapshot entity).state = ((s.historyOf entity).getLast?.map fun c => c.draft.toState).getD 0 := by
  rw [TestStore.snapshot, hs.snapshots]
  cases (s.historyOf entity).getLast? <;> rfl

/-- **A snapshot is fixed by its epoch**: two stores of a run that have the same epoch for an entity
    have the same state for it. -/
theorem snapshot_eq_of_epoch (requests : List Request) {entity : UString} (hs : Consistent s)
    (ht : Consistent (s.run requests))
    (hepoch : (s.snapshot entity).epoch = ((s.run requests).snapshot entity).epoch) :
    (s.run requests).snapshot entity = s.snapshot entity := by
  have hprefix : s.historyOf entity <+: (s.run requests).historyOf entity :=
    (history_isPrefix requests s).filter _
  have heq : s.historyOf entity = (s.run requests).historyOf entity := by
    rw [hs.snapshot_epoch, ht.snapshot_epoch] at hepoch
    exact hprefix.eq_of_length hepoch
  rw [TestStore.snapshot, TestStore.snapshot, hs.snapshots, ht.snapshots, heq]

/-- A run that is grounded is so from its beginning. -/
theorem Grounded.before {requests : List Request} {request : Request}
    (h : Grounded s (requests ++ [request])) : Grounded s requests := by
  intro before id lease expected draft after heq
  refine h before id lease expected draft (after ++ [request]) ?_
  rw [heq, List.append_assoc, List.cons_append]

/-- **No lost update.**  Where every draft was computed from a snapshot that the store had answered,
    the commits of an entity form one chain of states from 0 to the state of its snapshot, whatever
    other workers committed in between. -/
theorem no_lost_update (ignoreFence : Bool) (requests : List Request)
    (h : Grounded (TestStore.create ignoreFence false) requests) (entity : UString) :
    let s := (TestStore.create ignoreFence false).run requests
    Chained 0 (s.historyOf entity) ∧
      (s.snapshot entity).state = ((s.historyOf entity).getLast?.map fun c => c.draft.toState).getD 0 := by
  intro s
  have hconsistent : ∀ requests, Consistent ((TestStore.create ignoreFence false).run requests) :=
    run_consistent (consistent_create ignoreFence false) rfl
  refine ⟨?_, (hconsistent requests).snapshot_state entity⟩
  induction requests using List.reverseRecOn with
  | nil => exact trivial
  | append_singleton requests request ih =>
    have hchained := ih h.before
    obtain ⟨commits, hadds⟩ := after_outbox ((TestStore.create ignoreFence false).run requests) request
    have hs : s.history = _ ++ commits := (congrArg TestStore.history (run_append _ requests [request])).trans
      hadds.history
    change Chained 0 (s.history.filter _)
    rw [hs, List.filter_append]
    -- the commit of the last request, if there is one
    rcases commits with - | ⟨c, - | ⟨c', rest⟩⟩
    · rw [List.filter_nil, List.append_nil]
      exact hchained
    · by_cases hentity : c.draft.entityId = entity
      · obtain ⟨id, lease, expected, hrequest, hexpected⟩ := hadds.draft c List.mem_cons_self
        obtain ⟨earlier, ⟨between, hbetween⟩, hread⟩ := h requests id lease expected c.draft [] (by rw [hrequest])
        have hexpected := hexpected.resolve_right (by
          rw [(run_flags (numbered_create ignoreFence false) requests).2]
          exact Bool.false_ne_true)
        rw [← hbetween, run_append, hentity] at hexpected
        rw [hentity] at hread
        -- the state that the worker read is the one that the commit replaces
        have hsame := snapshot_eq_of_epoch between (hconsistent earlier)
          (by rw [← run_append]; exact hconsistent _) (by rw [hread, ← hexpected])
        rw [← run_append, hbetween, hread] at hsame
        rw [List.filter_cons, if_pos (by simpa using hentity), List.filter_nil]
        refine chained_append hchained ?_
        have hstate := (hconsistent requests).snapshot_state entity
        rw [hsame] at hstate
        exact hstate
      · rw [List.filter_cons, if_neg (by simpa using hentity), List.filter_nil, List.append_nil]
        exact hchained
    · have := hadds.single
      simp at this

/-- Two commands of one entity, each committed from the snapshot that is current. -/
def twoCommits : List Request :=
  [.submit ⟨[], [], [1], 1, 1⟩, .submit ⟨[], [], [2], 1, 2⟩, .claim [] 1, .commit 1 1 0 ⟨[], [], [], 0, 1⟩,
    .claim [] 1, .commit 2 2 1 ⟨[], [], [], 1, 3⟩]

/-- Both commits start from the state that their worker read. -/
theorem grounded_twoCommits : Grounded (TestStore.create false false) twoCommits := by
  intro before id lease expected draft after heq
  rcases before with - | ⟨_, - | ⟨_, - | ⟨_, - | ⟨_, - | ⟨_, - | ⟨_, before⟩⟩⟩⟩⟩⟩ <;>
    simp only [twoCommits, List.nil_append, List.cons_append, List.cons.injEq, reduceCtorEq, false_and,
      and_false, Request.commit.injEq, List.nil_eq, List.append_eq_nil_iff] at heq
  · obtain ⟨-, -, -, ⟨rfl, rfl, rfl, rfl⟩, -⟩ := heq
    exact ⟨[], List.nil_prefix, rfl⟩
  · obtain ⟨rfl, rfl, rfl, rfl, rfl, ⟨rfl, rfl, rfl, rfl⟩, -⟩ := heq
    exact ⟨_, List.prefix_rfl, rfl⟩

/-- So neither update is lost. -/
theorem no_lost_update_two :
    Grounded (TestStore.create false false) twoCommits ∧
      (((TestStore.create false false).run twoCommits).snapshot []).state = 3 :=
  ⟨grounded_twoCommits, (no_lost_update false twoCommits grounded_twoCommits []).2⟩

end ProtocolStore

end FsQuint
