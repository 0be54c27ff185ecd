/-
  What the contract store guarantees over every run, whatever the workers do.

  1. **Commits** (`commits_once_iff`): a command is committed at most once, the commits of an entity
     follow its sequence, and its epochs and its snapshot are those of its commits — exactly for the
     stores that do not finalize twice.
  2. **The fence** (`fences_iff`): once a command has been leased again, nothing is done under the
     older lease ever again — exactly for the stores with neither fault.
  3. **Leases** (`claim_exclusive`): a claim hands out the oldest unfinished commands of entities that
     nobody works on, under tokens that were never used.

  The two switches with which the store is built are faults for the test to find.  The first two
  guarantees are stated for all of the four stores and hold for exactly those without the faults
  that matter to them; for each of the others a run of a few requests shows what goes wrong.  What a
  claim hands out does not depend on either.
-/
import FsQuint.StoreInvariant

namespace FsQuint

open Utf16

namespace ProtocolStore

variable {s t : TestStore} {r r' : Row} {id lease : Nat}

/-! ## Commits -/

/-- Two commands of an entity, the first of which was submitted first. -/
def Precedes (s : TestStore) (id id' : Nat) : Prop :=
  ∃ r r', s.row id = some r ∧ s.row id' = some r' ∧ r.record.entityId = r'.record.entityId ∧
    r.record.sequence < r'.record.sequence

/-- No command is committed twice, and a result is there exactly for the commands that succeeded. -/
structure CommitsOnce (s : TestStore) : Prop where
  once : (s.history.map CommittedTransition.commandId).Nodup
  /-- a result is there for the commands that succeeded, and only for these -/
  results : ∀ id, (∃ c, s.tryGetResult id = some c) ↔ ∃ r, s.row id = some r ∧ r.record.status = .succeeded
  /-- what was submitted first is committed first, or not at all -/
  inSequence : ∀ before c after c' rest, s.history = before ++ c :: (after ++ c' :: rest) →
    ¬ Precedes s c'.commandId c.commandId
  /-- when a command is committed, those before it are finished -/
  finished : ∀ c ∈ s.history, ∀ id r, Precedes s id c.commandId → s.row id = some r → final r.record.status = true
  epochs : ∀ entity, (s.historyOf entity).map CommittedTransition.epoch =
    List.range' 1 (s.historyOf entity).length
  snapshot : ∀ entity, s.snapshot entity =
    ((s.historyOf entity).getLast?.map fun c => ⟨c.draft.toState, c.epoch⟩).getD ⟨0, 0⟩

/-- There is a result exactly for what the history names. -/
theorem tryGetResult_isSome : (∃ c, s.tryGetResult id = some c) ↔
    id ∈ s.history.map CommittedTransition.commandId := by
  rw [← Option.isSome_iff_exists, TestStore.tryGetResult, List.find?_isSome]
  simp

/-- The invariant says so. -/
theorem Consistent.commitsOnce (h : Consistent s) : CommitsOnce s := by
  have hmem : ∀ {id r}, s.row id = some r → r ∈ s.commands ∧ r.id = id := (row_eq_some_iff h.numbered).mp
  refine ⟨h.once, fun id => ?_, fun before c after c' rest hhistory => ?_, fun c hc id r hp hr => ?_,
    h.epochs, fun entity => ?_⟩
  · rw [tryGetResult_isSome, h.committed]
    constructor
    · rintro ⟨r, hr, hid, hstatus⟩
      exact ⟨r, (row_eq_some_iff h.numbered).mpr ⟨hr, hid⟩, hstatus⟩
    · rintro ⟨r, hr, hstatus⟩
      exact ⟨r, (hmem hr).1, (hmem hr).2, hstatus⟩
  · rintro ⟨r', r, hr', hr, hentity, hlt⟩
    have horder := h.inOrder
    rw [hhistory, List.pairwise_append, List.pairwise_cons] at horder
    have := horder.2.1.1 c' (List.mem_append_right _ List.mem_cons_self) r (hmem hr).1 r' (hmem hr').1
      (hmem hr).2 (hmem hr').2 hentity.symm
    omega
  · obtain ⟨x, y, hx, hy, hentity, hlt⟩ := hp
    obtain ⟨z, hz, hzid, hstatus⟩ := (h.committed c.commandId).mp (List.mem_map_of_mem hc)
    have hy := hmem hy
    obtain rfl : z = y :=
      List.inj_on_of_nodup_map (Table.Numbered.nodup h.numbered) hz hy.1 (hzid.trans hy.2.symm)
    obtain rfl := Option.some_inj.mp (hx.symm.trans hr)
    exact unblocked_iff.mp (h.ordered z hz (by rw [hstatus]; decide)) x (hmem hx).1 hentity hlt
  · rw [TestStore.snapshot, h.snapshots]

/-- A submission, a claim, and two commits under the same lease. -/
def committedTwice : List Request :=
  [.submit ⟨[], [], [], 1, 1⟩, .claim [] 1, .commit 1 1 0 ⟨[], [], [], 0, 1⟩, .commit 1 1 1 ⟨[], [], [], 1, 2⟩]

/-- **A command is committed at most once, in the order of its entity**, after every run of a store:
    exactly when the store does not finalize twice, whether or not it honours the fence. -/
theorem commits_once_iff (ignoreFence duplicateFinalize : Bool) :
    (∀ requests, CommitsOnce ((TestStore.create ignoreFence duplicateFinalize).run requests)) ↔
      duplicateFinalize = false := by
  constructor
  · intro h
    cases duplicateFinalize with
    | false => rfl
    | true =>
      have hids : ((TestStore.create ignoreFence true).run committedTwice).history.map
          CommittedTransition.commandId = [1, 1] := by
        cases ignoreFence <;> rfl
      have honce := (h committedTwice).once
      rw [hids] at honce
      exact absurd honce (by decide)
  · intro hd requests
    exact (run_consistent (consistent_create ignoreFence duplicateFinalize) hd requests).commitsOnce

/-! ## The fence -/

/-- Every request about a command under a lease is refused, and changes nothing but the count of
    fenced commits.  The call of `Commit` has noted its arguments before its lock (`commitCalled`), which
    is a request of its own. -/
def Refused (s : TestStore) (id lease : Nat) : Prop :=
  (∀ expected draft, s.commit id lease expected draft = some (.ok .leaseLost, { s with fenced := s.fenced + 1 })) ∧
    s.reject id lease = some (.leaseLost, s) ∧ s.deadLetter id lease = some (.leaseLost, s) ∧
    s.reschedule id lease = some (.leaseLost, s) ∧ s.extendLease id lease = some (.leaseLost, s)

/-- Once a command has been leased again, an older lease of it is refused for ever. -/
def Fences (ignoreFence duplicateFinalize : Bool) : Prop :=
  ∀ before after id lease r, ((TestStore.create ignoreFence duplicateFinalize).run before).row id = some r →
    lease < r.token → Refused ((TestStore.create ignoreFence duplicateFinalize).run (before ++ after)) id lease

/-- A lease that is older than the last one of its row is refused. -/
theorem refused_of_lt (hf : s.ignoreFence = false) (hd : s.duplicateFinalize = false)
    (hrow : s.row id = some r) (hlt : lease < r.token) : Refused s id lease := by
  have hne : r.token ≠ lease := by omega
  have howns : s.owns r lease = false := by simp [TestStore.owns, hf, hne]
  have hfinish : ∀ status, s.finish status id lease = some (.leaseLost, s) := by
    intro status
    simp [TestStore.finish, hrow, howns]
  refine ⟨fun expected draft => ?_, hfinish _, hfinish _, ?_, ?_⟩
  · simp [TestStore.commit, hrow, howns, hd, hne]
  · simp [TestStore.reschedule, hrow, howns]
  · simp [TestStore.extendLease, hrow, howns]

/-- No row has a token that was not issued yet. -/
structure Issued (s : TestStore) : Prop where
  fence : s.ignoreFence = false
  final : s.duplicateFinalize = false
  numbered : s.Numbered
  le : ∀ r ∈ s.commands, r.token ≤ s.token

/-- With the fence, the owner has the token of the row. -/
theorem owns_token (hf : s.ignoreFence = false) (h : s.owns r lease = true) : r.token = lease := by
  rw [TestStore.owns, hf, Bool.false_or, Bool.and_eq_true, decide_eq_true_eq] at h
  exact h.1

/-- What a change does to a row: the token never falls, and never passes what was issued. -/
theorem Issued.change (hs : Issued s) (h : Change s t) :
    Issued t ∧ ∀ id r, s.row id = some r → ∃ r', t.row id = some r' ∧ r.token ≤ r'.token := by
  have hmap : ∀ {t : TestStore} (g : Row → Row), t.Numbered → t.ignoreFence = s.ignoreFence →
      t.duplicateFinalize = s.duplicateFinalize → s.token ≤ t.token → t.commands = s.commands.map g →
      (∀ r ∈ s.commands, (g r).id = r.id ∧ r.token ≤ (g r).token ∧ (g r).token ≤ t.token) →
      Issued t ∧ ∀ id r, s.row id = some r → ∃ r', t.row id = some r' ∧ r.token ≤ r'.token := by
    intro t g hn hfence hfinal htoken hcommands hg
    refine ⟨⟨hfence.trans hs.fence, hfinal.trans hs.final, hn, fun r' hr' => ?_⟩, fun id r hr => ?_⟩
    · rw [hcommands] at hr'
      obtain ⟨r, hr, rfl⟩ := List.mem_map.mp hr'
      exact (hg r hr).2.2
    · obtain ⟨hr, hid⟩ := (row_eq_some_iff hs.numbered).mp hr
      refine ⟨g r, (row_eq_some_iff hn).mpr ⟨hcommands ▸ List.mem_map_of_mem hr, (hg r hr).1.trans hid⟩, ?_⟩
      exact (hg r hr).2.1
  have hsame : ∀ {t : TestStore} (g : Row → Row), t.Numbered → t.ignoreFence = s.ignoreFence →
      t.duplicateFinalize = s.duplicateFinalize → s.token ≤ t.token → t.commands = s.commands.map g →
      (∀ r ∈ s.commands, (g r).id = r.id ∧ (g r).token = r.token) →
      Issued t ∧ ∀ id r, s.row id = some r → ∃ r', t.row id = some r' ∧ r.token ≤ r'.token := by
    intro t g hn hfence hfinal htoken hcommands hg
    refine hmap g hn hfence hfinal htoken hcommands fun r hr => ?_
    rw [(hg r hr).2]
    exact ⟨(hg r hr).1, Nat.le_refl _, (hs.le r hr).trans htoken⟩
  have honly : ∀ (change : Row → Row) (id : Nat), (∀ r, (change r).id = r.id ∧ (change r).token = r.token) →
      ∀ r ∈ s.commands, (only id change r).id = r.id ∧ (only id change r).token = r.token := by
    intro change id hc r _
    rw [only]
    split
    · exact hc r
    · exact ⟨rfl, rfl⟩
  have hn := h.numbered hs.numbered
  cases h with
  | submitted hid _ _ _ htoken =>
    refine ⟨⟨hs.fence, hs.final, hn, fun r' hr' => ?_⟩, fun id r hr => ?_⟩
    · rcases List.mem_append.mp hr' with hr' | hr'
      · exact hs.le r' hr'
      · rw [List.mem_singleton.mp hr', htoken]
        exact Nat.zero_le _
    · obtain ⟨hr, hid⟩ := (row_eq_some_iff hs.numbered).mp hr
      exact ⟨r, (row_eq_some_iff hn).mpr ⟨List.mem_append_left _ hr, hid⟩, Nat.le_refl _⟩
  | @leased id r hrow =>
    have hs' : { s with token := s.token + 1 }.Numbered := hs.numbered
    refine hmap (only id (Row.lease (s.token + 1))) hn rfl rfl (Nat.le_succ _) (commands_amend hs') fun r' hr' => ?_
    have := hs.le r' hr'
    rw [only]
    split
    · exact ⟨rfl, by change r'.token ≤ s.token + 1; omega, Nat.le_refl _⟩
    · exact ⟨rfl, Nat.le_refl _, by change r'.token ≤ s.token + 1; omega⟩
  | @retried id =>
    exact hsame _ hn rfl rfl (Nat.le_refl _) (commands_amend hs.numbered)
      (honly Row.retry id fun _ => ⟨rfl, rfl⟩)
  | @finished id _ _ status =>
    exact hsame _ hn rfl rfl (Nat.le_refl _) (commands_amend hs.numbered)
      (honly (Row.withStatus status) id fun _ => ⟨rfl, rfl⟩)
  | @recorded id lease r _ hrow howns =>
    rcases howns with howns | ⟨hdup, -⟩
    · refine hsame (only id (Row.succeed lease)) hn rfl rfl (Nat.le_refl _) (commands_amend hs.numbered)
        fun r' hr' => ?_
      rw [only]
      split
      · next hid =>
        obtain rfl := Option.some_inj.mp (((row_eq_some_iff hs.numbered).mpr ⟨hr', hid⟩).symm.trans hrow)
        exact ⟨rfl, (owns_token hs.fence howns).symm⟩
      · exact ⟨rfl, rfl⟩
    · rw [hs.final] at hdup
      exact absurd hdup (by decide)
  | expired =>
    refine hsame Row.expire hn rfl rfl (Nat.le_refl _) rfl fun r _ => ⟨id_expire r, ?_⟩
    rw [Row.expire]
    split <;> rfl
  | fenced | acknowledged | abandoned =>
    exact hsame (fun r => r) hn rfl rfl (Nat.le_refl _) (List.map_id' _).symm fun _ _ => ⟨rfl, rfl⟩
  | noted htoken =>
    exact hsame (fun r => r) hn rfl rfl htoken (List.map_id' _).symm fun _ _ => ⟨rfl, rfl⟩

/-- Before the first lease every token is older than the counter. -/
theorem issued_create : Issued (TestStore.create false false) :=
  ⟨rfl, rfl, Table.numbered_nil, fun _ h => absurd h List.not_mem_nil⟩

/-- **Tokens come from the counter, in every run.** -/
theorem run_issued (requests : List Request) : Issued ((TestStore.create false false).run requests) :=
  run_keeps (fun h hc => (h.change hc).1) (numbered_create false false) issued_create requests

/-- The token of a command never falls. -/
theorem run_token (hs : Issued s) (hrow : s.row id = some r) (requests : List Request) :
    ∃ r', (s.run requests).row id = some r' ∧ r.token ≤ r'.token := by
  refine (run_keeps (P := fun t => Issued t ∧ ∃ r', t.row id = some r' ∧ r.token ≤ r'.token)
    (fun {t u} h hc => ?_) hs.numbered ⟨hs, r, hrow, Nat.le_refl _⟩ requests).2
  obtain ⟨ht, r', hr', hle⟩ := h
  obtain ⟨hu, htokens⟩ := ht.change hc
  obtain ⟨r'', hr'', hle'⟩ := htokens id r' hr'
  exact ⟨hu, r'', hr'', hle.trans hle'⟩

/-- A command that is leased, expires, and is leased again. -/
def leasedAgain : List Request := [.submit ⟨[], [], [], 1, 1⟩, .claim [] 1, .expire, .claim [] 1]

/-- **A command that was leased again is fenced against its older leases for ever**: exactly in the
    stores that honour the fence and do not finalize twice. -/
theorem fences_iff (ignoreFence duplicateFinalize : Bool) :
    Fences ignoreFence duplicateFinalize ↔ ignoreFence = false ∧ duplicateFinalize = false := by
  constructor
  · intro h
    have hrow : ∀ f d, ∃ r, ((TestStore.create f d).run leasedAgain).row 1 = some r ∧ r.token = 2 := by
      intro f d
      cases f <;> cases d <;> exact ⟨_, rfl, rfl⟩
    -- the current lease commits first, and then the older one
    have hstale : ∀ requests outcome, Fences ignoreFence duplicateFinalize →
        (((TestStore.create ignoreFence duplicateFinalize).run (leasedAgain ++ requests)).commit 1 1 0
          ⟨[], [], [], 0, 1⟩).map Prod.fst = some outcome → outcome = .ok .leaseLost := by
      intro requests outcome hfences hcommit
      obtain ⟨r, hr, htoken⟩ := hrow ignoreFence duplicateFinalize
      rw [(hfences leasedAgain requests 1 1 r hr (by omega)).1] at hcommit
      exact (Option.some_inj.mp hcommit).symm
    cases ignoreFence with
    | true =>
      have := hstale [] (.ok (.finalized 1)) h (by cases duplicateFinalize <;> rfl)
      simp at this
    | false =>
      cases duplicateFinalize with
      | true =>
        have := hstale [.commit 1 2 0 ⟨[], [], [], 0, 1⟩] (.ok (.finalized 2)) h rfl
        simp at this
      | false => exact ⟨rfl, rfl⟩
  · rintro ⟨rfl, rfl⟩ before after id lease r hrow hlt
    rw [run_append]
    obtain ⟨r', hr', hle⟩ := run_token (run_issued before) hrow after
    have ht := run_issued (before ++ after)
    rw [run_append] at ht
    exact refused_of_lt ht.fence ht.final hr' (by omega)

/-! ## Leases -/

/-- What a sequence of leases leaves behind. -/
theorem leaseAll_spec {rows : List Row} : ∀ {s : TestStore}, s.Numbered → Leasable s rows →
    (s.leaseAll rows).1.map LeasedCommand.token = List.range' (s.token + 1) rows.length ∧
      (s.leaseAll rows).1.map (fun w => w.work.commandId) = rows.map Row.id ∧
      (s.leaseAll rows).1.map (fun w => w.work.entityId) = rows.map (fun r => r.record.entityId) ∧
      (∀ w ∈ (s.leaseAll rows).1, ∃ r ∈ rows, w.work = { r.record with status := .leased }) ∧
      (s.leaseAll rows).2.token = s.token + rows.length ∧
      (∀ w ∈ (s.leaseAll rows).1, ∃ r, (s.leaseAll rows).2.row w.work.commandId = some r ∧
        r.record = w.work ∧ r.token = w.token) ∧
      ∀ r ∈ s.commands, r.id ∉ rows.map Row.id → r ∈ (s.leaseAll rows).2.commands := by
  induction rows with
  | nil =>
    exact fun _ _ => ⟨rfl, rfl, rfl, fun _ h => absurd h List.not_mem_nil, rfl,
      fun _ h => absurd h List.not_mem_nil, fun _ h _ => h⟩
  | cons r rows ih =>
    intro s hn h
    obtain ⟨hmem, hready, hfree⟩ := h.1 r List.mem_cons_self
    obtain ⟨hfresh, -⟩ := List.nodup_cons.mp h.2
    have hn₀ : { s with token := s.token + 1 }.Numbered := hn
    have hn' : ({ s with token := s.token + 1 }.amend r.id (Row.lease (s.token + 1))).Numbered :=
      numbered_amend hn₀ (id_lease (s.token + 1))
    obtain ⟨htokens, hids, hentities, hwork, htoken, hrows, hothers⟩ := ih hn' (h.tail hn)
    have hleased : r.lease (s.token + 1) ∈ ({ s with token := s.token + 1 }.amend r.id
        (Row.lease (s.token + 1))).commands := (mem_amend hn₀).mpr (.inl ⟨r, hmem, rfl, rfl⟩)
    refine ⟨?_, ?_, ?_, ?_, ?_, ?_, ?_⟩
    · rw [TestStore.leaseAll, List.map_cons, htokens, List.length_cons, List.range'_succ]
      rfl
    · rw [TestStore.leaseAll, List.map_cons, hids, List.map_cons]
      rfl
    · rw [TestStore.leaseAll, List.map_cons, hentities, List.map_cons]
      rfl
    · rw [TestStore.leaseAll]
      rintro w (_ | ⟨_, hw⟩)
      · exact ⟨r, List.mem_cons_self, rfl⟩
      · obtain ⟨r', hr', heq⟩ := hwork w hw
        exact ⟨r', List.mem_cons_of_mem _ hr', heq⟩
    · rw [TestStore.leaseAll, htoken, List.length_cons]
      change s.token + 1 + rows.length = _
      omega
    · rw [TestStore.leaseAll]
      rintro w (_ | ⟨_, hw⟩)
      · have hnumbered := (leaseAll_changes hn' (h.tail hn)).numbered hn'
        refine ⟨r.lease (s.token + 1), (row_eq_some_iff hnumbered).mpr ⟨hothers _ hleased hfresh, rfl⟩, rfl, rfl⟩
      · exact hrows w hw
    · intro r' hr' hne
      rw [List.map_cons, List.mem_cons, not_or] at hne
      exact hothers r' ((mem_amend hn₀).mpr (.inr ⟨hr', hne.1⟩)) hne.2

/-- An entity has a command that is being worked on. -/
def Busy (s : TestStore) (entity : UString) : Prop :=
  ∃ r ∈ s.commands, r.record.entityId = entity ∧ r.record.status = .leased

/-- Two commands of an entity with one number are the same. -/
theorem Arranged.eq_of_sequence (h : Arranged s) (hr : r ∈ s.commands) (hr' : r' ∈ s.commands)
    (hentity : r.record.entityId = r'.record.entityId) (hseq : r.record.sequence = r'.record.sequence) :
    r = r' := by
  have hmem : ∀ x ∈ s.commands, x.record.entityId = r'.record.entityId →
      x ∈ s.commands.filter fun x => x.record.entityId = r'.record.entityId :=
    fun x hx hxe => List.mem_filter.mpr ⟨hx, decide_eq_true hxe⟩
  exact List.inj_on_of_nodup_map (h.sequences r'.record.entityId).nodup (hmem r hr hentity)
    (hmem r' hr' rfl) hseq

/-- An unfinished command that nothing blocks is the oldest unfinished one of its entity. -/
theorem oldest (hr' : r' ∈ s.commands) (hentity : r'.record.entityId = r.record.entityId)
    (hfree : s.unblocked r = true) (hopen : final r'.record.status = false) :
    r.record.sequence ≤ r'.record.sequence := by
  by_contra hlt
  rw [unblocked_iff.mp hfree r' hr' hentity (by omega)] at hopen
  exact absurd hopen (by decide)

/-- **At most one unfinished command of an entity is unblocked**, so at most one is leased. -/
theorem Arranged.unblocked_unique (h : Arranged s) (hr : r ∈ s.commands) (hr' : r' ∈ s.commands)
    (hentity : r.record.entityId = r'.record.entityId) (hfree : s.unblocked r = true)
    (hfree' : s.unblocked r' = true) (hopen : final r.record.status = false)
    (hopen' : final r'.record.status = false) : r = r' := by
  have h₁ := oldest hr' hentity.symm hfree hopen'
  have h₂ := oldest hr hentity hfree' hopen
  exact h.eq_of_sequence hr hr' hentity (by omega)

/-- **What a claim hands out**, after any run of any store: at most as many commands as asked for, of
    that machine, of different entities none of which was being worked on, each the oldest unfinished
    one of its entity, under consecutive new tokens; and when there was room for more, there was no
    other such command. -/
theorem claim_exclusive (ignoreFence duplicateFinalize : Bool) (requests : List Request) (machine : UString)
    (batch : Int) :
    let s := (TestStore.create ignoreFence duplicateFinalize).run requests
    let (work, t) := s.claim machine batch
    work.length ≤ batch.toNat ∧ work.map LeasedCommand.token = List.range' (s.token + 1) work.length ∧
      t.token = s.token + work.length ∧ (work.map fun w => w.work.entityId).Nodup ∧
      (∀ w ∈ work, w.work.machineId = machine ∧ ¬ Busy s w.work.entityId ∧
        (∀ r ∈ s.commands, r.record.entityId = w.work.entityId → final r.record.status = false →
          w.work.sequence ≤ r.record.sequence) ∧
        ∃ r, t.row w.work.commandId = some r ∧ r.record.status = .leased ∧ r.token = w.token) ∧
      ((work.length : Int) < batch → ∀ r ∈ s.commands, r.record.machineId = machine →
        r.record.status = .ready → s.unblocked r = true → r.id ∈ work.map fun w => w.work.commandId) := by
  intro s
  have hs : Arranged s := run_arranged (arranged_create ignoreFence duplicateFinalize) requests
  generalize hrows : (s.eligible machine).take batch.toNat = rows
  have hrow : ∀ r ∈ rows, r ∈ s.commands ∧ r.record.machineId = machine ∧ r.record.status = .ready ∧
      s.unblocked r = true := by
    intro r hr
    have h := List.mem_filter.mp (List.mem_of_mem_take (hrows ▸ hr))
    simp only [Bool.and_eq_true, decide_eq_true_eq] at h
    exact ⟨h.1, h.2.1.1, h.2.1.2, h.2.2⟩
  have hopen : ∀ r ∈ rows, final r.record.status = false := fun r hr => by
    rw [(hrow r hr).2.2.1]
    decide
  have hsub : rows.Sublist s.commands := hrows ▸ (List.take_sublist _ _).trans List.filter_sublist
  have hleasable : Leasable s rows :=
    ⟨fun r hr => ⟨(hrow r hr).1, (hrow r hr).2.2⟩, (Table.Numbered.nodup hs.numbered).sublist (hsub.map Row.id)⟩
  obtain ⟨htokens, hids, hentities, hwork, htoken, hleased, -⟩ := leaseAll_spec hs.numbered hleasable
  have hlength : (s.leaseAll rows).1.length = rows.length := by
    simpa using congrArg List.length hids
  rw [TestStore.claim, hrows]
  refine ⟨?_, by rw [hlength]; exact htokens, by rw [hlength]; exact htoken, ?_, fun w hw => ?_,
    fun hroom r hr hmachine hready hfree => ?_⟩
  · rw [hlength, ← hrows]
    exact List.length_take_le _ _
  · rw [hentities, List.Nodup, List.pairwise_map]
    refine (List.Nodup.of_map _ hleasable.2).imp_of_mem fun {r r'} hr hr' hne hentity => hne ?_
    exact hs.unblocked_unique (hrow r hr).1 (hrow r' hr').1 hentity (hrow r hr).2.2.2 (hrow r' hr').2.2.2
      (hopen r hr) (hopen r' hr')
  · obtain ⟨r, hr, heq⟩ := hwork w hw
    obtain ⟨r', hr', hrecord, htoken'⟩ := hleased w hw
    have hentity : w.work.entityId = r.record.entityId := by rw [heq]
    have hseq : w.work.sequence = r.record.sequence := by rw [heq]
    rw [hentity, hseq]
    refine ⟨by rw [heq]; exact (hrow r hr).2.1, ?_,
      fun r' hr' hentity hopen' => oldest hr' hentity (hrow r hr).2.2.2 hopen',
      r', hr', by rw [hrecord, heq], htoken'⟩
    rintro ⟨x, hx, hentity, hstatus⟩
    have : x = r := hs.unblocked_unique hx (hrow r hr).1 hentity
      (hs.ordered x hx (by rw [hstatus]; decide)) (hrow r hr).2.2.2 (by rw [hstatus]; decide) (hopen r hr)
    rw [this, (hrow r hr).2.2.1] at hstatus
    exact absurd hstatus (by decide)
  · rw [hlength, ← hrows, List.length_take] at hroom
    rw [hids, ← hrows, List.take_of_length_le (by omega)]
    refine List.mem_map_of_mem (List.mem_filter.mpr ⟨hr, ?_⟩)
    simp only [Bool.and_eq_true, decide_eq_true_eq]
    exact ⟨⟨hmachine, hready⟩, hfree⟩

end ProtocolStore

end FsQuint
