/-
  What a request can do to the contract store.

  1. **Changes** (`Change`): the effects of which every request is made up, each with the guard under
     which the store lets it happen.
  2. **Requests are made of changes** (`after_changes`): where the rows are numbered in the order of
     their arrival, a request is a sequence of changes; only `Claim` makes more than one lease.
  3. **Runs** (`run_changes`, `run_keeps`): so what every change keeps, every run keeps.

  Later modules never look at a request: they show what they have to show for each constructor of
  `Change`, and have it for every run.  A request may be several changes because a claim leases
  several rows; it is none when it is refused, apart from the count of fenced commits.
-/
import Mathlib.Logic.Relation
import FsQuint.ProtocolStore

namespace FsQuint

open Utf16 Relation

namespace ProtocolStore

variable {s t : TestStore} {r r' : Row} {id lease : Nat}

/-! ## Changes -/

/-- **The ways in which a request can change the store**, one step at a time. -/
inductive Change (s : TestStore) : TestStore → Prop
  | submitted {r : Row} :
      r.id = s.commands.length + 1 → (∀ r' ∈ s.commands, r'.identity ≠ r.identity) →
      r.record.sequence = 1 + (s.commands.filter fun r' => r'.record.entityId = r.record.entityId).length →
      r.record.status = .ready → r.token = 0 → r.record.attempts = 0 →
      Change s { s with commands := s.commands ++ [r] }
  | leased {id : Nat} {r : Row} :
      s.row id = some r → r.record.status = .ready → s.unblocked r = true →
      Change s ({ s with token := s.token + 1 }.amend id (Row.lease (s.token + 1)))
  | retried {id lease : Nat} {r : Row} :
      s.row id = some r → s.owns r lease = true → Change s (s.amend id Row.retry)
  | finished {id lease : Nat} {r : Row} {status : CommandStatus} :
      s.row id = some r → s.owns r lease = true → status = .rejected ∨ status = .deadLettered →
      Change s (s.amend id (Row.withStatus status))
  | recorded {id lease : Nat} {r : Row} {draft : TransitionDraft} :
      s.row id = some r →
      s.owns r lease = true ∨ (s.duplicateFinalize = true ∧ r.record.status = .succeeded) →
      Change s (s.record id lease
        ⟨draft, (s.snapshot draft.entityId).epoch + 1, id, r.record.chartVersion⟩)
  | fenced {id lease : Nat} {r : Row} :
      s.row id = some r → ¬ (r.record.status = .succeeded ∧ r.token = lease) → s.owns r lease = false →
      Change s { s with fenced := s.fenced + 1 }
  | expired : Change s s.expire
  | acknowledged (key : Nat × Nat) :
      Change s { s with pending := s.withoutAction key, acknowledged := s.acknowledged + 1 }
  | abandoned (key : Nat × Nat) : Change s { s with pending := s.withoutAction key }
  /-- what no other change looks at -/
  | noted {token : Nat} {active : Finset (Nat × Nat)} {response ack fail : Bool}
      {last : Option (Nat × Nat × Nat × TransitionDraft)} :
      s.token ≤ token →
      Change s { s with token := token, activeActions := active, loseCommitResponse := response
                        loseAck := ack, failCommit := fail, lastCommit := last }

/-- Any number of such steps. -/
abbrev Changes : TestStore → TestStore → Prop := ReflTransGen Change

/-- A change of what no other change looks at, from another store. -/
theorem Change.note {active : Finset (Nat × Nat)} {response ack fail : Bool}
    {last : Option (Nat × Nat × Nat × TransitionDraft)} :
    Changes s { s with activeActions := active, loseCommitResponse := response, loseAck := ack
                       failCommit := fail, lastCommit := last } :=
  .single (.noted (Nat.le_refl _))

/-! ## Rows -/

/-- A row keeps its id when its status changes. -/
@[simp] theorem id_withStatus (status : CommandStatus) (r : Row) : (r.withStatus status).id = r.id := rfl

/-- A row keeps its id when it is leased. -/
@[simp] theorem id_lease (token : Nat) (r : Row) : (r.lease token).id = r.id := rfl

/-- A row keeps its id when it is tried again. -/
@[simp] theorem id_retry (r : Row) : r.retry.id = r.id := rfl

/-- A row keeps its id when its command succeeds. -/
@[simp] theorem id_succeed (lease : Nat) (r : Row) : (r.succeed lease).id = r.id := rfl

/-- A row keeps its id when its lease expires. -/
@[simp] theorem id_expire (r : Row) : r.expire.id = r.id := by
  rw [Row.expire]
  split <;> rfl

/-- The rows are numbered in the order of their arrival. -/
def TestStore.Numbered (s : TestStore) : Prop := Table.Numbered Row.id s.commands

/-- So the rows stay numbered. -/
theorem numbered_amend (h : s.Numbered) {change : Row → Row} (hc : ∀ r : Row, (change r).id = r.id) :
    (s.amend id change).Numbered :=
  Table.Numbered.of_map_eq h (Table.map_update fun r _ _ => hc r)

/-- And they do with a new one. -/
theorem Change.numbered (h : Change s t) (hn : s.Numbered) : t.Numbered := by
  cases h with
  | submitted hid => exact Table.Numbered.append hn hid
  | leased => exact numbered_amend (s := { s with token := _ }) hn (id_lease _)
  | retried => exact numbered_amend hn id_retry
  | finished => exact numbered_amend hn (id_withStatus _)
  | recorded => exact numbered_amend hn (id_succeed _)
  | expired => exact Table.Numbered.of_map_eq hn (by simp [TestStore.expire])
  | fenced | acknowledged | abandoned | noted => exact hn

/-- The row that is found is the one with the id. -/
theorem row_eq_some_iff (hn : s.Numbered) : s.row id = some r ↔ r ∈ s.commands ∧ r.id = id :=
  Table.lookup_eq_some_iff (Table.Numbered.nodup hn)

/-- A row of the store after a change of one row. -/
theorem mem_amend (hn : s.Numbered) {change : Row → Row} :
    r' ∈ (s.amend id change).commands ↔
      (∃ r ∈ s.commands, r.id = id ∧ r' = change r) ∨ (r' ∈ s.commands ∧ r'.id ≠ id) :=
  Table.mem_update (Table.Numbered.nodup hn)

/-! ## Requests are made of changes -/

/-- Rows that can be leased one after the other. -/
def Leasable (s : TestStore) (rows : List Row) : Prop :=
  (∀ r ∈ rows, r ∈ s.commands ∧ r.record.status = .ready ∧ s.unblocked r = true) ∧
    (rows.map Row.id).Nodup

/-- A row is unblocked when all earlier ones of its entity are final. -/
theorem unblocked_iff :
    s.unblocked r = true ↔ ∀ earlier ∈ s.commands, earlier.record.entityId = r.record.entityId →
      earlier.record.sequence < r.record.sequence → final earlier.record.status = true := by
  simp [TestStore.unblocked]

/-- A lease leaves the rest of the rows leasable. -/
theorem Leasable.tail {rows : List Row} {token : Nat} (hn : s.Numbered) (h : Leasable s (r :: rows)) :
    Leasable ({ s with token := token }.amend r.id (Row.lease token)) rows := by
  have hn' : { s with token := token }.Numbered := hn
  obtain ⟨hr, hnd⟩ := List.nodup_cons.mp h.2
  obtain ⟨hmem, hready, -⟩ := h.1 r List.mem_cons_self
  refine ⟨fun r' hr' => ?_, hnd⟩
  obtain ⟨hmem', hready', hfree⟩ := h.1 r' (List.mem_cons_of_mem _ hr')
  refine ⟨(mem_amend hn').mpr (.inr ⟨hmem', fun heq => hr ?_⟩), hready', unblocked_iff.mpr ?_⟩
  · exact heq ▸ List.mem_map_of_mem hr'
  · intro earlier hearlier hentity hseq
    rcases (mem_amend hn').mp hearlier with ⟨r₀, hr₀, hid, rfl⟩ | ⟨hearlier, -⟩
    · -- the row that was leased was not finished before
      have : r₀ = r := List.inj_on_of_nodup_map (Table.Numbered.nodup hn) hr₀ hmem hid
      subst this
      have hfinal := unblocked_iff.mp hfree r₀ hr₀ hentity hseq
      rw [hready] at hfinal
      exact absurd hfinal (by decide)
    · exact unblocked_iff.mp hfree earlier hearlier hentity hseq

/-- **Leasing is a sequence of changes**, by induction on the rows. -/
theorem leaseAll_changes {rows : List Row} :
    ∀ {s : TestStore}, s.Numbered → Leasable s rows → Changes s (s.leaseAll rows).2 := by
  induction rows with
  | nil => exact fun _ _ => .refl
  | cons r rows ih =>
    intro s hn h
    obtain ⟨hmem, hready, hfree⟩ := h.1 r List.mem_cons_self
    have hrow : s.row r.id = some r := (row_eq_some_iff hn).mpr ⟨hmem, rfl⟩
    have hc : Change s _ := .leased hrow hready hfree
    exact (ReflTransGen.single hc).trans (ih (hc.numbered hn) (h.tail hn))

/-- What a claim leases, it can lease. -/
theorem leasable_eligible (hn : s.Numbered) (machine : UString) (batch : Int) :
    Leasable s ((s.eligible machine).take batch.toNat) := by
  refine ⟨fun r hr => ?_, ?_⟩
  · have h := List.mem_filter.mp (List.mem_of_mem_take hr)
    simp only [Bool.and_eq_true, decide_eq_true_eq] at h
    exact ⟨h.1, h.2.1.2, h.2.2⟩
  · have hsub : ((s.eligible machine).take batch.toNat).Sublist s.commands :=
      (List.take_sublist _ _).trans List.filter_sublist
    exact (Table.Numbered.nodup hn).sublist (hsub.map Row.id)

/-- `Claim` leases rows that stay leasable while others are leased. -/
theorem claim_changes (hn : s.Numbered) (machine : UString) (batch : Int) :
    Changes s (s.claim machine batch).2 := leaseAll_changes hn (leasable_eligible hn machine batch)

/-- Activating actions is one, too. -/
theorem activateAll_changes {actions : List LeasedAction} :
    ∀ {s : TestStore}, Changes s (s.activateAll actions).2 := by
  induction actions with
  | nil => exact .refl
  | cons a actions ih =>
    intro s
    have hc : Change s { s with token := s.token + 1, activeActions := insert a.key s.activeActions } :=
      .noted (Nat.le_succ _)
    exact (ReflTransGen.single hc).trans ih

/-- A submission is one change or none. -/
theorem submit_changes (submission : CommandSubmission) : Changes s (s.submit submission).2 := by
  rw [TestStore.submit]
  split
  · exact .refl
  · next hfind =>
    refine .single (.submitted rfl (fun r' hr' => ?_) rfl rfl rfl rfl)
    simpa [Row.identity] using List.find?_eq_none.mp hfind r' hr'

/-- What a commit answers and does, for the row that it finds. -/
theorem commit_cases {expected : Nat} {draft : TransitionDraft}
    {answer : Except StoreError FinalizeOutcome} (h : s.commit id lease expected draft = some (answer, t)) :
    ∃ r, s.row id = some r ∧
      ((r.record.status = .succeeded ∧ r.token = lease ∧ s.duplicateFinalize = false ∧
          answer = .ok (.alreadyFinalized (s.snapshot draft.entityId).epoch) ∧ t = s) ∨
        (¬ (r.record.status = .succeeded ∧ r.token = lease) ∧ s.owns r lease = false ∧
          ¬ (s.duplicateFinalize = true ∧ r.record.status = .succeeded) ∧
          answer = .ok .leaseLost ∧ t = { s with fenced := s.fenced + 1 }) ∨
        ((s.owns r lease = true ∨ (s.duplicateFinalize = true ∧ r.record.status = .succeeded)) ∧
          ((t = s ∧ answer = .ok (.conflict expected (s.snapshot draft.entityId).epoch) ∧
              expected ≠ (s.snapshot draft.entityId).epoch) ∨
            (t = s ∧ s.failCommit = true ∧ answer = .error (.unavailable "injected before commit")) ∨
            ((expected = (s.snapshot draft.entityId).epoch ∨ s.duplicateFinalize = true) ∧ s.failCommit = false ∧
              ∃ response, t = { s.record id lease ⟨draft, (s.snapshot draft.entityId).epoch + 1, id,
                  r.record.chartVersion⟩ with loseCommitResponse := response } ∧
                (answer = .ok (.finalized ((s.snapshot draft.entityId).epoch + 1)) ∨
                  answer = .error (.unavailable "injected after atomic commit")))))) := by
  rw [TestStore.commit] at h
  obtain ⟨r, hrow, h⟩ := Option.bind_eq_some_iff.mp h
  refine ⟨r, hrow, ?_⟩
  simp only [Bool.and_eq_true, Bool.not_eq_true', decide_eq_true_eq, Bool.and_eq_false_iff,
    decide_eq_false_iff_not] at h
  split at h
  · next hdone =>
    cases h
    exact .inl ⟨hdone.1.1, hdone.1.2, hdone.2, rfl, rfl⟩
  · next hdone =>
    split at h
    · next hlost =>
      cases h
      refine .inr (.inl ⟨fun hs => ?_, hlost.1, fun hs => ?_, rfl, rfl⟩)
      · rcases hlost.2 with hdup | hne
        · exact hdone ⟨hs, hdup⟩
        · exact hne hs.1
      · rcases hlost.2 with hdup | hne
        · exact absurd hs.1 (by simp [hdup])
        · exact hne hs.2
    · next hlost =>
      refine .inr (.inr ⟨?_, ?_⟩)
      · cases howns : s.owns r lease with
        | true => exact .inl rfl
        | false =>
          refine .inr (by_contra fun hne => hlost ⟨howns, ?_⟩)
          rw [not_and_or, Bool.not_eq_true] at hne
          exact hne
      · split at h
        · next hconflict =>
          cases h
          exact .inl ⟨rfl, rfl, hconflict.1⟩
        · next hconflict =>
          split at h
          · next hfail =>
            cases h
            exact .inr (.inl ⟨rfl, hfail, rfl⟩)
          · next hfail =>
            refine .inr (.inr ⟨?_, Bool.not_eq_true _ ▸ hfail, ?_⟩)
            · rw [not_and_or, Bool.not_eq_false, not_not] at hconflict
              exact hconflict
            · split at h
              · cases h
                exact ⟨false, rfl, .inr rfl⟩
              · cases h
                exact ⟨s.loseCommitResponse, rfl, .inl rfl⟩

/-- So is a commit, whatever it answers. -/
theorem commit_changes {expected : Nat} {draft : TransitionDraft}
    {answer : Except StoreError FinalizeOutcome} (h : s.commit id lease expected draft = some (answer, t)) :
    Changes s t := by
  obtain ⟨r, hrow, ⟨-, -, -, -, rfl⟩ | ⟨hdone, howns, -, -, rfl⟩ | ⟨howns, h⟩⟩ := commit_cases h
  · exact .refl
  · exact .single (.fenced hrow hdone howns)
  · obtain ⟨rfl, -, -⟩ | ⟨rfl, -, -⟩ | ⟨-, -, response, rfl, -⟩ := h
    · exact .refl
    · exact .refl
    · exact (ReflTransGen.single (.recorded hrow howns)).trans Change.note

/-- A request for a row that answers and changes the row when the lease is its own. -/
theorem owned_changes {α : Type} {answer : Row → α} {lost : α} {change : Row → Row} {outcome : α}
    (h : (do
      let r ← s.row id
      if s.owns r lease then return (answer r, s.amend id change) else return (lost, s)) = some (outcome, t))
    (hc : ∀ r, s.row id = some r → s.owns r lease = true → Change s (s.amend id change)) :
    Changes s t := by
  obtain ⟨r, hrow, h⟩ := Option.bind_eq_some_iff.mp h
  split at h
  · next howns =>
    cases h
    exact .single (hc r hrow howns)
  · cases h
    exact .refl

/-- And a completion. -/
theorem complete_changes (action : LeasedAction) : Changes s (s.complete action).2 := by
  rw [TestStore.complete]
  split
  · exact .single (.noted (Nat.le_refl _))
  · exact (ReflTransGen.single (Change.acknowledged action.key)).trans
      (Change.note (s := { s with pending := s.withoutAction action.key, acknowledged := s.acknowledged + 1 }))

/-- **A request is a sequence of changes.** -/
theorem after_changes (hn : s.Numbered) (request : Request) : Changes s (s.after request) := by
  rw [TestStore.after]
  cases hserve : s.serve request with
  | none => exact .refl
  | some out =>
    rw [Option.map_some, Option.getD_some]
    cases request with
    | submit submission =>
      cases hserve
      exact submit_changes submission
    | claim machine batch =>
      cases hserve
      exact claim_changes hn machine batch
    | reschedule id lease =>
      obtain ⟨⟨_, _⟩, h, rfl⟩ := Option.map_eq_some_iff.mp hserve
      exact owned_changes h fun _ hrow howns => .retried hrow howns
    | extendLease id lease =>
      obtain ⟨out, h, rfl⟩ := Option.map_eq_some_iff.mp hserve
      obtain ⟨r, -, h⟩ := Option.bind_eq_some_iff.mp h
      cases h
      exact .refl
    | commitCalled =>
      cases hserve
      exact Change.note
    | commit id lease expected draft =>
      obtain ⟨out, h, rfl⟩ := Option.map_eq_some_iff.mp hserve
      exact commit_changes h
    | reject id lease =>
      obtain ⟨⟨_, _⟩, h, rfl⟩ := Option.map_eq_some_iff.mp hserve
      exact owned_changes h fun _ hrow howns => .finished hrow howns (.inl rfl)
    | deadLetter id lease =>
      obtain ⟨⟨_, _⟩, h, rfl⟩ := Option.map_eq_some_iff.mp hserve
      exact owned_changes h fun _ hrow howns => .finished hrow howns (.inr rfl)
    | claimActions batch =>
      cases hserve
      exact activateAll_changes
    | complete action =>
      cases hserve
      exact complete_changes action
    | rescheduleAction action =>
      cases hserve
      exact Change.note
    | abandon action =>
      cases hserve
      exact .single (.abandoned action.key)
    | expire =>
      cases hserve
      exact .single .expired
    | setLoseCommitResponse | setLoseAck | setFailCommit =>
      cases hserve
      exact Change.note

/-! ## Runs -/

/-- **The rows are numbered from 1 on, throughout.** -/
theorem Changes.numbered (h : Changes s t) (hn : s.Numbered) : t.Numbered := by
  induction h with
  | refl => exact hn
  | tail _ hc ih => exact hc.numbered ih

/-- A run in two parts. -/
theorem run_append (s : TestStore) (before requests : List Request) :
    s.run (before ++ requests) = (s.run before).run requests := List.foldl_append

/-- **A run is a sequence of changes**, by induction on the requests. -/
theorem run_changes (requests : List Request) :
    ∀ {s : TestStore}, s.Numbered → Changes s (s.run requests) := by
  induction requests with
  | nil => exact fun _ => .refl
  | cons request requests ih =>
    intro s hn
    have hc := after_changes hn request
    exact hc.trans (ih (hc.numbered hn))

/-- **What every change keeps, every run keeps.** -/
theorem run_keeps {P : TestStore → Prop} (hchange : ∀ {s t : TestStore}, P s → Change s t → P t)
    (hn : s.Numbered) (h : P s) (requests : List Request) : P (s.run requests) := by
  have hrun := run_changes requests hn
  generalize s.run requests = t at hrun
  induction hrun with
  | refl => exact h
  | tail _ hc ih => exact hchange ih hc

/-- The empty store is numbered. -/
theorem numbered_create (ignoreFence duplicateFinalize : Bool) :
    (TestStore.create ignoreFence duplicateFinalize).Numbered := Table.numbered_nil

end ProtocolStore

end FsQuint
