/-
  The specification of the protocol follows each change of the contract store.

  1. **What is known of the store** (`Known`): its invariant, and which leases were those of commands.
  2. **Rows are commands** (`Known.commandAt`, `world_amend`, `Known.eligible`): a row stands at the index
     of its command, and what the store lets a worker claim, the specification lets it claim.
  3. **Changes are operations** (`Follows`): each change of the store is enabled operations of the
     specification, under the assumptions that it needs.

  The renaming of leases is what makes this a simulation and not an equality: the store draws the
  tokens of commands and of actions from one counter, the specification numbers the leases of
  commands alone.  The ordinal of a lease among those of commands is order preserving, so that the
  store's comparison of tokens and the specification's agree.

  A change that the specification does not see is followed by no operation; one that it sees is
  followed by one, and the claims and expiries of several rows by one for each.
-/
import FsQuint.StoreView

namespace FsQuint

open Utf16

namespace ProtocolStore

open Protocol (World Op Cmd applyOp applyAll applyTo enabled enabledAll)

variable {r r' : Row} {id lease token : Nat} {issued : List Nat} {g g₁ g₂ : Ghost} {s t u : TestStore}
  {ops ops' : List Op}

/-! ## Store and specification -/

/-- What the store keeps, with the leases of commands that it has issued. -/
structure Known (issued : List Nat) (s : TestStore) : Prop where
  consistent : Consistent s
  fence : s.ignoreFence = false
  final : s.duplicateFinalize = false
  ascending : issued.Pairwise (· < ·)
  bounds : ∀ token ∈ issued, 0 < token ∧ token ≤ s.token
  tokens : ∀ r ∈ s.commands, r.token = 0 ∨ r.token ∈ issued
  entities : ∀ r ∈ s.commands, r.record.entityId ∈ TestStore.entities
  ordinals : ∀ a ∈ s.pending, a.work.ordinal = 0

/-- The specification follows a change of the store by enabled operations. -/
structure Follows (g : Ghost) (s : TestStore) (ops : List Op) (g' : Ghost) (t : TestStore) : Prop where
  known : Known g'.issued t
  leads : ∀ handler, Protocol.Leads (world g ⟨s, handler⟩) ops (world g' ⟨t, handler⟩)

/-- Doing nothing is followed by no operation. -/
theorem Follows.refl (h : Known g.issued s) : Follows g s [] g s := ⟨h, fun _ => Protocol.Leads.refl _⟩

/-- What is followed twice is followed by the operations of both. -/
theorem Follows.trans (h : Follows g s ops g₁ t) (h' : Follows g₁ t ops' g₂ u) :
    Follows g s (ops ++ ops') g₂ u :=
  ⟨h'.known, fun handler => (h.leads handler).trans (h'.leads handler)⟩

/-- No change takes the token counter back. -/
theorem Change.token_le (h : Change s t) : s.token ≤ t.token := by
  cases h with
  | leased => exact Nat.le_succ _
  | noted htoken => exact htoken
  | _ => exact Nat.le_refl _

/-- A change that keeps what is known. -/
theorem Known.change (h : Known issued s) (hc : Change s t)
    (hrows : ∀ r ∈ t.commands, (r.token = 0 ∨ r.token ∈ issued) ∧ r.record.entityId ∈ TestStore.entities)
    (hordinals : ∀ a ∈ t.pending, a.work.ordinal = 0) : Known issued t :=
  ⟨h.consistent.change h.final hc, hc.flags.1.trans h.fence, hc.flags.2.trans h.final, h.ascending,
    fun token htoken => ⟨(h.bounds token htoken).1, (h.bounds token htoken).2.trans hc.token_le⟩,
    fun r hr => (hrows r hr).1, fun r hr => (hrows r hr).2, hordinals⟩

/-- A change that the specification does not see. -/
theorem Known.unseen (h : Known g.issued s) (hc : Change s t) (hcommands : t.commands = s.commands)
    (hsnapshots : t.snapshots = s.snapshots) (hhistory : t.history = s.history) (hpending : t.pending = s.pending)
    (hacknowledged : t.acknowledged = s.acknowledged) (hfenced : t.fenced = s.fenced) : Follows g s [] g t := by
  refine ⟨h.change hc (fun r hr => ?_) (hpending ▸ h.ordinals), fun handler => ⟨rfl, ?_⟩⟩
  · rw [hcommands] at hr
    exact ⟨h.tokens r hr, h.entities r hr⟩
  · have heq : world g ⟨t, handler⟩ = world g ⟨s, handler⟩ := by
      simp only [world, TestStore.snapshot, TestStore.count, hcommands, hsnapshots, hhistory, hpending,
        hacknowledged, hfenced]
    rw [heq]
    rfl

/-- No lease of a command is 0. -/
theorem Known.zero (h : Known issued s) : 0 ∉ issued := fun hmem => absurd (h.bounds 0 hmem).1 (Nat.lt_irrefl 0)

/-- A change that the specification does not see: of the counter, the active actions and the faults. -/
theorem Known.noted (h : Known g.issued s) {active : Finset (Nat × Nat)} {response ack fail : Bool}
    {last : Option (Nat × Nat × Nat × TransitionDraft)} {token : Nat} (htoken : s.token ≤ token) :
    Follows g s [] g { s with token := token, activeActions := active, loseCommitResponse := response
                              loseAck := ack, failCommit := fail, lastCommit := last } :=
  h.unseen (.noted htoken) rfl rfl rfl rfl rfl rfl

/-! ### Rows -/

/-- A row that is found is among the commands, under its id. -/
theorem Known.mem (h : Known issued s) (hrow : s.row id = some r) : r ∈ s.commands ∧ r.id = id :=
  (row_eq_some_iff h.consistent.numbered).mp hrow

/-- The command of a row stands at its index. -/
theorem Known.commandAt (h : Known g.issued s) (hrow : s.row id = some r) (handler : Handler) :
    index id = ((id - 1 : Nat) : Int) ∧
      (world g ⟨s, handler⟩).commands[id - 1]? = some (command g.issued r) := by
  obtain ⟨hpos, hget, -⟩ := Table.Numbered.getElem?_of_lookup h.consistent.numbered hrow
  refine ⟨by rw [index]; omega, ?_⟩
  simp only [world, List.getElem?_map, hget, Option.map_some]

/-- How a change of one row changes the counts. -/
theorem count_amend (hn : s.Numbered) (hrow : s.row id = some r) (change : Row → Row) (status : CommandStatus) :
    ((s.amend id change).count status : Int) = s.count status - (if r.record.status = status then 1 else 0) +
      if (change r).record.status = status then 1 else 0 := by
  obtain ⟨hpos, hget, hset⟩ := Table.Numbered.getElem?_of_lookup hn hrow
  obtain ⟨hlt, hr⟩ := List.getElem?_eq_some_iff.mp hget
  have hcommands : (s.amend id change).commands = s.commands.set (id - 1) (change r) := hset change
  rw [TestStore.count, TestStore.count, hcommands, ← List.countP_eq_length_filter,
    ← List.countP_eq_length_filter, List.countP_set hlt, hr]
  simp only [decide_eq_true_eq]
  by_cases hbefore : r.record.status = status
  · have hpos : 0 < s.commands.countP fun r => r.record.status = status :=
      List.countP_pos_iff.mpr ⟨r, hr ▸ List.getElem_mem hlt, decide_eq_true hbefore⟩
    rw [if_pos hbefore, if_pos hbefore]
    split <;> omega
  · rw [if_neg hbefore, if_neg hbefore]
    split <;> omega

/-- It changes none that it has nothing to do with. -/
theorem count_amend_of_ne (hn : s.Numbered) (hrow : s.row id = some r) {change : Row → Row} {status : CommandStatus}
    (h₁ : r.record.status ≠ status) (h₂ : (change r).record.status ≠ status) :
    ((s.amend id change).count status : Int) = s.count status := by
  rw [count_amend hn hrow, if_neg h₁, if_neg h₂, Int.sub_zero, Int.add_zero]

/-- What a change of a row is for the specification. -/
theorem world_amend (hn : s.Numbered) (hrow : s.row id = some r) (change : Row → Row) (handler : Handler) :
    world g ⟨s.amend id change, handler⟩ =
      { world g ⟨s, handler⟩ with
        commands := (world g ⟨s, handler⟩).commands.set (id - 1) (command g.issued (change r))
        dead := (s.amend id change).count .deadLettered
        rejected := (s.amend id change).count .rejected } := by
  obtain ⟨-, -, hset⟩ := Table.Numbered.getElem?_of_lookup hn hrow
  have hcommands : (s.amend id change).commands = s.commands.set (id - 1) (change r) := hset change
  simp only [world, hcommands, List.map_set]
  rfl

/-- What is known of the rows, after a change of one of them. -/
theorem Known.rows (h : Known issued s) {change : Row → Row} (hrow : s.row id = some r)
    (hc : (change r).token = r.token ∧ (change r).record.entityId = r.record.entityId) :
    ∀ r' ∈ (s.amend id change).commands,
      (r'.token = 0 ∨ r'.token ∈ issued) ∧ r'.record.entityId ∈ TestStore.entities := by
  intro r' hr'
  rcases (mem_amend h.consistent.numbered).mp hr' with ⟨x, hx, hid, rfl⟩ | ⟨hr', -⟩
  · obtain rfl := Option.some_inj.mp (((row_eq_some_iff h.consistent.numbered).mpr ⟨hx, hid⟩).symm.trans hrow)
    rw [hc.1, hc.2]
    exact ⟨h.tokens x hx, h.entities x hx⟩
  · exact ⟨h.tokens r' hr', h.entities r' hr'⟩

/-! ### Commands -/

/-- Statuses are told apart by the specification as they are by the store. -/
theorem statusOf_eq_iff (status status' : CommandStatus) : statusOf status = statusOf status' ↔ status = status' := by
  cases status <;> cases status' <;> decide

/-- A command is leased there when its row is. -/
theorem leased_iff : (command issued r).status = .leased ↔ r.record.status = .leased :=
  statusOf_eq_iff r.record.status .leased

/-- It is done when its row has succeeded. -/
theorem done_iff : (command issued r).status = .done ↔ r.record.status = .succeeded :=
  statusOf_eq_iff r.record.status .succeeded

/-- It is final when its row is. -/
theorem finalized_command : Protocol.finalized (command issued r) = final r.record.status := by
  have h : ∀ status, (Protocol.finalized { command issued r with status := statusOf status }) = final status := by
    intro status
    cases status <;> rfl
  exact h r.record.status

/-- The two entities have two numbers. -/
theorem entityIndex_eq_iff {entity entity' : UString} (h : entity ∈ TestStore.entities) :
    entityIndex entity = entityIndex entity' ↔ entity = entity' := by
  rw [entityIndex, entityIndex, Int.natCast_inj]
  exact List.idxOf_inj h

/-- And both are numbers of entities. -/
theorem entityIndex_bounds {entity : UString} (h : entity ∈ TestStore.entities) :
    0 ≤ entityIndex entity ∧ entityIndex entity < 2 := by
  have hlt : TestStore.entities.idxOf entity < 2 := List.idxOf_lt_length_of_mem h
  rw [entityIndex]
  omega

/-- Commands of an entity stand in the order of its sequence. -/
theorem Consistent.sequence_lt (h : Consistent s) {i j : Nat} (hi : s.commands[i]? = some r)
    (hj : s.commands[j]? = some r') (hij : i < j) (hentity : r.record.entityId = r'.record.entityId) :
    r.record.sequence < r'.record.sequence := by
  have hpairwise := (h.sequences r'.record.entityId).pairwise
  rw [List.pairwise_filter, List.pairwise_iff_getElem] at hpairwise
  obtain ⟨hi', rfl⟩ := List.getElem?_eq_some_iff.mp hi
  obtain ⟨hj', rfl⟩ := List.getElem?_eq_some_iff.mp hj
  exact hpairwise i j hi' hj' hij (decide_eq_true hentity) (decide_eq_true rfl)

/-- What the store lets a worker claim, the specification lets it claim. -/
theorem Known.eligible (h : Known g.issued s) (hrow : s.row id = some r) (hready : r.record.status = .ready)
    (hfree : s.unblocked r = true) (handler : Handler) :
    Protocol.eligible (world g ⟨s, handler⟩) (index id) (command g.issued r) = true := by
  obtain ⟨hpos, hget, -⟩ := Table.Numbered.getElem?_of_lookup h.consistent.numbered hrow
  rw [Protocol.eligible, Bool.and_eq_true, decide_eq_true_eq, List.all_eq_true]
  refine ⟨(statusOf_eq_iff r.record.status .ready).mpr hready, fun p hc => ?_⟩
  obtain ⟨c, j⟩ := p
  rw [List.mk_mem_zipIdx_iff_getElem?] at hc
  simp only [world, List.getElem?_map, Option.map_eq_some_iff] at hc
  obtain ⟨earlier, hearlier, rfl⟩ := hc
  have hmem := List.mem_of_getElem? hearlier
  rw [Bool.or_eq_true, Bool.or_eq_true, decide_eq_true_eq, decide_eq_true_eq, finalized_command]
  by_cases hj : (j : Int) ≥ index id
  · exact .inl (.inl hj)
  · by_cases hentity : earlier.record.entityId = r.record.entityId
    · have hlt : j < id - 1 := by
        rw [index] at hj
        omega
      exact .inr (unblocked_iff.mp hfree earlier hmem hentity (h.consistent.sequence_lt hearlier hget hlt hentity))
    · refine .inl (.inr fun heq => hentity ?_)
      exact (entityIndex_eq_iff (h.entities earlier hmem)).mp heq

/-! ### Changes -/

/-- **A lease is followed by one claim**, with the next ordinal. -/
theorem Known.leased (h : Known g.issued s) (hrow : s.row id = some r) (hready : r.record.status = .ready)
    (hfree : s.unblocked r = true) :
    Follows g s [⟨.claim, index id, 0, 0⟩] { g with issued := g.issued ++ [s.token + 1] }
      ({ s with token := s.token + 1 }.amend id (Row.lease (s.token + 1))) := by
  have hn := h.consistent.numbered
  have hc : Change s ({ s with token := s.token + 1 }.amend id (Row.lease (s.token + 1))) :=
    .leased hrow hready hfree
  have hnew : s.token + 1 ∉ g.issued := fun hmem => absurd (h.bounds _ hmem).2 (by omega)
  have hknown : ∀ r ∈ s.commands, command (g.issued ++ [s.token + 1]) r = command g.issued r := by
    intro r hr
    simp only [command, ordinal_append_of_known (h.tokens r hr) (Nat.succ_ne_zero s.token)]
  refine ⟨⟨h.consistent.change h.final hc, hc.flags.1.trans h.fence, hc.flags.2.trans h.final, ?_, ?_, ?_, ?_,
    h.ordinals⟩, fun handler => ?_⟩
  · rw [List.pairwise_append]
    refine ⟨h.ascending, List.pairwise_singleton _ _, fun token htoken last hlast => ?_⟩
    rw [List.mem_singleton.mp hlast]
    exact Nat.lt_succ_of_le (h.bounds token htoken).2
  · intro token htoken
    rcases List.mem_append.mp htoken with htoken | htoken
    · exact ⟨(h.bounds token htoken).1, (h.bounds token htoken).2.trans (Nat.le_succ _)⟩
    · rw [List.mem_singleton.mp htoken]
      exact ⟨Nat.succ_pos _, Nat.le_refl _⟩
  · intro r' hr'
    rcases (mem_amend (s := { s with token := s.token + 1 }) hn).mp hr' with ⟨x, -, -, rfl⟩ | ⟨hr', -⟩
    · exact .inr (List.mem_append_right _ List.mem_cons_self)
    · exact (h.tokens r' hr').imp_right (List.mem_append_left _)
  · intro r' hr'
    rcases (mem_amend (s := { s with token := s.token + 1 }) hn).mp hr' with ⟨x, hx, -, rfl⟩ | ⟨hr', -⟩
    · exact h.entities x hx
    · exact h.entities r' hr'
  · obtain ⟨hindex, hcommand⟩ := h.commandAt hrow handler
    refine Protocol.leads_command hindex hcommand rfl (.inl rfl) ?_
    have hlt := (List.getElem?_eq_some_iff.mp hcommand).1
    have hel := h.eligible hrow hready hfree handler
    have hamend : world { g with issued := g.issued ++ [s.token + 1] }
        ⟨{ s with token := s.token + 1 }.amend id (Row.lease (s.token + 1)), handler⟩ =
        world { g with issued := g.issued ++ [s.token + 1] } ⟨s.amend id (Row.lease (s.token + 1)), handler⟩ := rfl
    have hbefore : world { g with issued := g.issued ++ [s.token + 1] } ⟨s, handler⟩ =
        { world g ⟨s, handler⟩ with serial := (world g ⟨s, handler⟩).serial + 1 } := by
      simp only [world, List.map_congr_left hknown, List.length_append, List.length_singleton, Int.natCast_add,
        Int.cast_ofNat_Int]
    have hne : ∀ status : CommandStatus, status = .deadLettered ∨ status = .rejected →
        ((s.amend id (Row.lease (s.token + 1))).count status : Int) = s.count status := by
      rintro status (rfl | rfl)
      · exact count_amend_of_ne hn hrow (by rw [hready]; decide) (show CommandStatus.leased ≠ _ by decide)
      · exact count_amend_of_ne hn hrow (by rw [hready]; decide) (show CommandStatus.leased ≠ _ by decide)
    rw [hamend, world_amend hn hrow, hbefore, hne _ (.inl rfl), hne _ (.inr rfl)]
    have hlease : command (g.issued ++ [s.token + 1]) (r.lease (s.token + 1)) =
        { command g.issued r with status := .leased, token := (world g ⟨s, handler⟩).serial + 1 } := by
      have hfailures : failures (r.lease (s.token + 1)) = failures r := by
        rw [failures, failures, hready]
        rfl
      rw [command, hfailures]
      exact congrArg (Cmd.mk _ _ _ · _) (ordinal_append_self hnew)
    simp only [applyTo]
    rw [if_pos hel, hindex, QuintList.replaceAt_natCast hlt, hlease]
    rfl

/-- A change of a row under its own lease, which the specification follows by one operation. -/
theorem Known.amended (h : Known g.issued s) (hrow : s.row id = some r) (howns : s.owns r lease = true)
    {change : Row → Row} (hc : Change s (s.amend id change))
    (hchange : (change r).token = r.token ∧ (change r).record.entityId = r.record.entityId) {kind : Protocol.Kind}
    (hkind : kind.onCommand = true)
    (happly : ∀ w : World, QuintList.replaceAt w.commands (index id) (command g.issued (change r)) =
        some (w.commands.set (id - 1) (command g.issued (change r))) →
      applyTo w ⟨kind, index id, 0, 0⟩ (command g.issued r) =
        some { w with
          commands := w.commands.set (id - 1) (command g.issued (change r))
          dead := w.dead + if (change r).record.status = .deadLettered then 1 else 0
          rejected := w.rejected + if (change r).record.status = .rejected then 1 else 0 }) :
    Follows g s [⟨kind, index id, 0, 0⟩] g (s.amend id change) := by
  have hn := h.consistent.numbered
  have hleased := owns_leased howns
  refine ⟨h.change hc (h.rows hrow hchange) h.ordinals, fun handler => ?_⟩
  obtain ⟨hindex, hcommand⟩ := h.commandAt hrow handler
  have hlt := (List.getElem?_eq_some_iff.mp hcommand).1
  have hcount : ∀ status : CommandStatus, status ≠ .leased → ((s.amend id change).count status : Int) =
      s.count status + if (change r).record.status = status then 1 else 0 := by
    intro status hne
    rw [count_amend hn hrow, hleased, if_neg hne.symm, Int.sub_zero]
  refine Protocol.leads_command hindex hcommand hkind (.inr (.inr ?_)) ?_
  · rw [Ne, done_iff, hleased]
    decide
  · rw [happly _ (by rw [hindex, QuintList.replaceAt_natCast hlt]), world_amend hn hrow, hcount _ (by decide),
      hcount _ (by decide)]
    rfl

/-- **A retry is followed by one failure.** -/
theorem Known.retried (h : Known g.issued s) (hrow : s.row id = some r) (howns : s.owns r lease = true)
    (hattempts : r.record.attempts + 1 < 3) :
    Follows g s [⟨.fail, index id, 0, 0⟩] g (s.amend id Row.retry) := by
  refine h.amended hrow howns (.retried hrow howns) ⟨rfl, rfl⟩ rfl fun w hreplace => ?_
  have hfailures : failures r = r.record.attempts := by
    rw [failures, owns_leased howns]
    exact Int.add_zero _
  have hretry : command g.issued r.retry =
      { command g.issued r with status := .ready, failures := (command g.issued r).failures + 1 } := by
    rw [command, command, hfailures]
    rfl
  have hnot : ¬ (command g.issued r).failures + 1 ≥ 3 := by
    change ¬ failures r + 1 ≥ 3
    rw [hfailures]
    omega
  rw [hretry] at hreplace ⊢
  simp only [applyTo, hnot, decide_false, Bool.false_eq_true, if_false, hreplace]
  rw [show r.retry.record.status = .ready from rfl, if_neg (by decide), if_neg (by decide), Int.add_zero,
    Int.add_zero]
  rfl

/-- **So is the failure that ends the command.** -/
theorem Known.deadLettered (h : Known g.issued s) (hrow : s.row id = some r) (howns : s.owns r lease = true)
    (hattempts : 3 ≤ r.record.attempts + 1) :
    Follows g s [⟨.fail, index id, 0, 0⟩] g (s.amend id (Row.withStatus .deadLettered)) := by
  refine h.amended hrow howns (.finished hrow howns (.inr rfl)) ⟨rfl, rfl⟩ rfl fun w hreplace => ?_
  have hfailures : failures r = r.record.attempts := by
    rw [failures, owns_leased howns]
    exact Int.add_zero _
  have hdead : command g.issued (r.withStatus .deadLettered) =
      { command g.issued r with status := .dead, failures := (command g.issued r).failures + 1 } := by
    rw [command, command, hfailures]
    rfl
  have hgive : (command g.issued r).failures + 1 ≥ 3 := by
    change failures r + 1 ≥ 3
    rw [hfailures]
    omega
  rw [hdead] at hreplace ⊢
  simp only [applyTo, hgive, decide_true, if_true, hreplace]
  rw [show (r.withStatus .deadLettered).record.status = .deadLettered from rfl, if_pos rfl, if_neg (by decide),
    Int.add_zero]
  rfl

/-- **A rejection is followed by a rejection.** -/
theorem Known.rejected (h : Known g.issued s) (hrow : s.row id = some r) (howns : s.owns r lease = true) :
    Follows g s [⟨.reject, index id, 0, 0⟩] g (s.amend id (Row.withStatus .rejected)) := by
  refine h.amended hrow howns (.finished hrow howns (.inl rfl)) ⟨rfl, rfl⟩ rfl fun w hreplace => ?_
  have hrejected : command g.issued (r.withStatus .rejected) = { command g.issued r with status := .rejected } := by
    rw [command, command, failures, failures, owns_leased howns]
    rfl
  rw [hrejected] at hreplace ⊢
  simp only [applyTo, hreplace]
  rw [show (r.withStatus .rejected).record.status = .rejected from rfl, if_pos rfl, if_neg (by decide), Int.add_zero]
  rfl

/-- What the checks of a commit are for the specification. -/
theorem Known.checks (h : Known g.issued s) (hrow : s.row id = some r) (lease : Nat) :
    ((command g.issued r).status = .done ∧ (command g.issued r).token = ordinal g.issued lease ↔
        r.record.status = .succeeded ∧ r.token = lease) ∧
      ((command g.issued r).status ≠ .leased ∨ (command g.issued r).token ≠ ordinal g.issued lease ↔
        s.owns r lease = false) := by
  have htoken : (command g.issued r).token = ordinal g.issued lease ↔ r.token = lease :=
    ordinal_eq_iff h.ascending h.zero (h.tokens r (h.mem hrow).1)
  rw [Ne, Ne, done_iff, leased_iff, htoken, ← not_and_or, TestStore.owns, h.fence, Bool.false_or,
    ← Bool.not_eq_true, Bool.and_eq_true, decide_eq_true_eq, decide_eq_true_eq]
  exact ⟨Iff.rfl, not_congr and_comm⟩

/-- **A commit that is fenced is followed by one under a lease that does not count any more.** -/
theorem Known.fenced (h : Known g.issued s) (hrow : s.row id = some r)
    (hdone : ¬ (r.record.status = .succeeded ∧ r.token = lease)) (howns : s.owns r lease = false) :
    Follows g s [⟨.commit, index id, 0, ordinal g.issued lease⟩] g { s with fenced := s.fenced + 1 } := by
  refine ⟨h.change (.fenced hrow hdone howns) (fun r hr => ⟨h.tokens r hr, h.entities r hr⟩) h.ordinals,
    fun handler => ?_⟩
  obtain ⟨hindex, hcommand⟩ := h.commandAt hrow handler
  obtain ⟨hdone', howns'⟩ := h.checks hrow lease
  refine Protocol.leads_command hindex hcommand rfl (.inr (.inl rfl)) ?_
  simp only [applyTo]
  rw [if_neg (mt hdone'.mp hdone), if_pos (howns'.mpr howns)]
  rfl

/-- **A commit that is repeated is followed by one that changes nothing.** -/
theorem Known.alreadyFinalized (h : Known g.issued s) (hrow : s.row id = some r)
    (hdone : r.record.status = .succeeded ∧ r.token = lease) :
    Follows g s [⟨.commit, index id, 0, ordinal g.issued lease⟩] g s := by
  refine ⟨h, fun handler => ?_⟩
  obtain ⟨hindex, hcommand⟩ := h.commandAt hrow handler
  refine Protocol.leads_command hindex hcommand rfl (.inr (.inl rfl)) ?_
  simp only [applyTo]
  rw [if_pos ((h.checks hrow _).1.mpr hdone)]

/-- The epochs and amounts of the two entities, when the snapshot of one of them is replaced. -/
theorem entities_update {β : Type} {f : UString → β} {entity : UString} {x : β} (h : entity ∈ TestStore.entities) :
    (TestStore.entities.map f)[TestStore.entities.idxOf entity]? = some (f entity) ∧
      TestStore.entities.map (Function.update f entity x) =
        (TestStore.entities.map f).set (TestStore.entities.idxOf entity) x := by
  have hne : lit "one" ≠ lit "two" := by decide
  rcases List.mem_cons.mp h with rfl | h
  · refine ⟨by simp [TestStore.entities], ?_⟩
    simp only [TestStore.entities, List.map_cons, List.map_nil, List.idxOf_cons_self, List.set_cons_zero,
      Function.update_self, Function.update_of_ne hne.symm]
  · obtain rfl := List.mem_singleton.mp h
    have hidx : TestStore.entities.idxOf (lit "two") = 1 := by
      rw [TestStore.entities, List.idxOf_cons_ne _ hne, List.idxOf_cons_self]
    rw [hidx]
    refine ⟨rfl, ?_⟩
    simp only [TestStore.entities, List.map_cons, List.map_nil, List.set_cons_succ, List.set_cons_zero,
      Function.update_self, Function.update_of_ne hne]

/-- A commit that goes through. -/
theorem Known.recorded (h : Known g.issued s) (hrow : s.row id = some r) (howns : s.owns r lease = true)
    {draft : TransitionDraft} (hentity : draft.entityId = r.record.entityId) (hactions : draft.actions.length = 1)
    (hstate : draft.toState = (s.snapshot draft.entityId).state + r.record.event) :
    Follows g s [⟨.commit, index id, 0, ordinal g.issued lease⟩] g
      (s.record id lease ⟨draft, (s.snapshot draft.entityId).epoch + 1, id, r.record.chartVersion⟩) := by
  have hn := h.consistent.numbered
  have hleased := owns_leased howns
  have htoken := owns_token h.fence howns
  have hmem := h.entities r (h.mem hrow).1
  obtain ⟨action, haction⟩ := List.length_eq_one_iff.mp hactions
  generalize hcommitted : (⟨draft, (s.snapshot draft.entityId).epoch + 1, id, r.record.chartVersion⟩ :
    CommittedTransition) = committed
  have hc : Change s (s.record id lease committed) := hcommitted ▸ .recorded hrow (.inl howns)
  have henqueued : TestStore.enqueued committed =
      [⟨⟨draft.machineId, draft.entityId, id, (s.snapshot draft.entityId).epoch + 1, 0, action⟩, none, 0⟩] := by
    rw [← hcommitted, TestStore.enqueued, haction]
    rfl
  refine ⟨h.change hc (h.rows hrow ⟨htoken.symm, rfl⟩) (fun a ha => ?_), fun handler => ?_⟩
  · rcases List.mem_append.mp ha with ha | ha
    · exact h.ordinals a ha
    · rw [henqueued, List.mem_singleton] at ha
      rw [ha]
  · obtain ⟨hindex, hcommand⟩ := h.commandAt hrow handler
    obtain ⟨hdone, howns'⟩ := h.checks hrow lease
    have hlt := (List.getElem?_eq_some_iff.mp hcommand).1
    refine Protocol.leads_command hindex hcommand rfl (.inr (.inl rfl)) ?_
    have hnotDone : ¬ ((command g.issued r).status = .done ∧ (command g.issued r).token = ordinal g.issued lease) :=
      fun hd => absurd (hleased.symm.trans (hdone.mp hd).1) (by decide)
    have hmine : ¬ ((command g.issued r).status ≠ .leased ∨ (command g.issued r).token ≠ ordinal g.issued lease) := by
      rw [howns', howns]
      decide
    -- the snapshot that is replaced is that of the row's entity
    have hsnapshot : ∀ entity, (s.record id lease committed).snapshot entity =
        Function.update s.snapshot draft.entityId ⟨draft.toState, (s.snapshot draft.entityId).epoch + 1⟩ entity := by
      intro entity
      rw [← hcommitted]
      change (Function.update s.snapshots draft.entityId _ entity).getD _ = _
      by_cases heq : entity = draft.entityId
      · rw [heq, Function.update_self, Function.update_self]
        rfl
      · rw [Function.update_of_ne heq, Function.update_of_ne heq]
        rfl
    have hupdate : ∀ {β : Type} (f : Snapshot → β),
        TestStore.entities.map (fun entity => f ((s.record id lease committed).snapshot entity)) =
          (TestStore.entities.map fun entity => f (s.snapshot entity)).set
            (TestStore.entities.idxOf r.record.entityId)
            (f ⟨draft.toState, (s.snapshot draft.entityId).epoch + 1⟩) := by
      intro β f
      rw [← (entities_update hmem).2, ← hentity]
      refine List.map_congr_left fun entity _ => ?_
      rw [hsnapshot]
      by_cases heq : entity = draft.entityId
      · rw [heq, Function.update_self, Function.update_self]
      · rw [Function.update_of_ne heq, Function.update_of_ne heq]
    have hcommands : (world g ⟨s, handler⟩).commands.set (id - 1) { command g.issued r with status := .done } =
        (s.record id lease committed).commands.map (command g.issued) := by
      have hset : (s.record id lease committed).commands = s.commands.set (id - 1) (r.succeed lease) :=
        (Table.Numbered.getElem?_of_lookup hn hrow).2.2 _
      have hsucceed : command g.issued (r.succeed lease) = { command g.issued r with status := .done } := by
        rw [command, command, failures, failures, hleased, htoken]
        rfl
      rw [hset, List.map_set, hsucceed]
      rfl
    have hcount : ∀ status, status = .deadLettered ∨ status = .rejected →
        ((s.record id lease committed).count status : Int) = s.count status := by
      rintro status (rfl | rfl)
      · exact count_amend_of_ne hn hrow (by rw [hleased]; decide) (show CommandStatus.succeeded ≠ _ by decide)
      · exact count_amend_of_ne hn hrow (by rw [hleased]; decide) (show CommandStatus.succeeded ≠ _ by decide)
    have hlength : TestStore.entities.idxOf r.record.entityId < 2 := List.idxOf_lt_length_of_mem hmem
    have hepoch : QuintList.nth (world g ⟨s, handler⟩).epochs (command g.issued r).entity =
        some ((s.snapshot draft.entityId).epoch : Int) := by
      rw [hentity]
      exact (QuintList.nth_natCast _ _).trans
        (entities_update (f := fun entity => ((s.snapshot entity).epoch : Int)) (x := 0) hmem).1
    have hamount : QuintList.nth (world g ⟨s, handler⟩).amounts (command g.issued r).entity =
        some (s.snapshot draft.entityId).state := by
      rw [hentity]
      exact (QuintList.nth_natCast _ _).trans
        (entities_update (f := fun entity => (s.snapshot entity).state) (x := 0) hmem).1
    have hreplace : ∀ (xs : List Int) (x : Int), xs.length = 2 →
        QuintList.replaceAt xs (command g.issued r).entity x =
          some (xs.set (TestStore.entities.idxOf r.record.entityId) x) :=
      fun xs x hxs => QuintList.replaceAt_natCast (hxs ▸ hlength) x
    simp only [applyTo]
    rw [if_neg hnotDone, if_neg hmine, hindex, QuintList.replaceAt_natCast hlt, hcommands, hepoch, hamount]
    simp only [Option.bind_eq_bind, Option.bind_some]
    rw [hreplace _ _ rfl, hreplace _ _ rfl]
    simp only [Option.bind_some, Option.pure_def, Option.some_inj]
    simp only [world, hcount _ (.inl rfl), hcount _ (.inr rfl), hupdate fun x => (x.epoch : Int), hupdate Snapshot.state]
    have hhistory : (s.record id lease committed).history.map (fun c => index c.commandId) =
        s.history.map (fun c => index c.commandId) ++ [index id] := by
      rw [← hcommitted]
      exact List.map_append
    have hpending : (s.record id lease committed).pending.map (fun a => index a.work.commandId) =
        s.pending.map (fun a => index a.work.commandId) ++ [index id] := by
      change (s.pending ++ TestStore.enqueued committed).map _ = _
      rw [henqueued]
      exact List.map_append
    rw [← hindex, hhistory, hpending, hstate]
    rfl

/-- An acknowledgement of what is pending. -/
theorem Known.acknowledged (h : Known g.issued s) {key : Nat × Nat}
    (hpending : s.pending.any fun a => a.key = key) :
    Follows g s [⟨.ack, index key.1, 0, 0⟩] g
      { s with pending := s.withoutAction key, acknowledged := s.acknowledged + 1 } := by
  obtain ⟨a, ha, hkey⟩ := List.any_eq_true.mp hpending
  have hkey : a.key = key := of_decide_eq_true hkey
  have hzero : ∀ a ∈ s.pending, a.key = key ↔ index a.work.commandId = index key.1 := by
    intro b hb
    rw [← hkey, LeasedAction.key, LeasedAction.key, h.ordinals a ha, h.ordinals b hb, index, index, Prod.mk.injEq]
    omega
  refine ⟨h.change (.acknowledged key) (fun r hr => ⟨h.tokens r hr, h.entities r hr⟩)
    (fun b hb => h.ordinals b (List.mem_of_mem_filter hb)), fun handler => Protocol.Leads.single ?_ ?_⟩
  · simp only [enabled, List.contains_iff_mem]
    exact List.mem_map.mpr ⟨a, ha, (hzero a ha).mp hkey⟩
  · have houtbox : (s.withoutAction key).map (fun a => index a.work.commandId) =
        (s.pending.map fun a => index a.work.commandId).filter fun i => i ≠ index key.1 := by
      rw [TestStore.withoutAction, List.filter_map]
      refine congrArg _ (List.filter_congr fun b hb => ?_)
      simp only [Function.comp_apply, ne_eq, hzero b hb]
    simp only [applyOp, world]
    rw [houtbox]
    rfl

/-- A submission. -/
theorem Known.submitted (h : Known g.issued s) {submission : CommandSubmission}
    (hentity : submission.entityId ∈ TestStore.entities) :
    Follows g s [⟨.submit, index (s.submit submission).1.commandId, entityIndex submission.entityId,
      submission.event⟩] g (s.submit submission).2 := by
  have henabled : ∀ (w : World) (id : Int),
      enabled w ⟨.submit, id, entityIndex submission.entityId, submission.event⟩ = true :=
    fun w id => decide_eq_true (entityIndex_bounds hentity)
  rw [TestStore.submit]
  split
  · next r hfind =>
    refine ⟨h, fun handler => Protocol.Leads.single (henabled _ _) ?_⟩
    have hmem := List.mem_of_find?_eq_some hfind
    have hlt : index r.id < ((world g ⟨s, handler⟩).commands.length : Int) := by
      have := Table.Numbered.le_length h.consistent.numbered hmem
      simp only [world, List.length_map, index]
      omega
    exact Protocol.applyOp_submitted hlt
  · next hfind =>
    have hc : Change s _ := .submitted (r := ⟨⟨s.commands.length + 1, submission.machineId, submission.entityId,
      1 + (s.commands.filter fun r => r.record.entityId = submission.entityId).length, submission.idempotencyKey,
      submission.chartVersion, submission.event, .ready, 0⟩, 0, 0⟩) rfl (fun r' hr' => by
        simpa [Row.identity] using List.find?_eq_none.mp hfind r' hr') rfl rfl rfl rfl
    refine ⟨h.change hc (fun r hr => ?_) h.ordinals, fun handler => Protocol.Leads.single (henabled _ _) ?_⟩
    · rcases List.mem_append.mp hr with hr | hr
      · exact ⟨h.tokens r hr, h.entities r hr⟩
      · rw [List.mem_singleton.mp hr]
        exact ⟨.inl rfl, hentity⟩
    · have hnot : ¬ index (s.commands.length + 1) < ((world g ⟨s, handler⟩).commands.length : Int) := by
        simp only [world, List.length_map, index]
        omega
      refine (Protocol.applyOp_submit hnot).trans (congrArg some ?_)
      have hfilter : ∀ (status : CommandStatus) (r : Row), r.record.status ≠ status →
          (s.commands ++ [r]).filter (fun r => r.record.status = status) =
            s.commands.filter fun r => r.record.status = status := by
        intro status r hne
        rw [List.filter_append, List.filter_cons_of_neg (by simpa using hne), List.filter_nil, List.append_nil]
      simp only [world, TestStore.count, List.map_append]
      rw [hfilter _ _ (show CommandStatus.ready ≠ .deadLettered by decide),
        hfilter _ _ (show CommandStatus.ready ≠ .rejected by decide), List.map_singleton, command, ordinal_zero h.zero]
      rfl

/-- Leases that expire, from an index on. -/
theorem leads_expire (rows : List Row) : ∀ {w : World} {before : List Cmd},
    w.commands = before ++ rows.map (command issued) → rows.map Row.id = List.range' (before.length + 1) rows.length →
      Protocol.Leads w ((rows.filter fun r => r.record.status = .leased).map fun r => ⟨.expire, index r.id, 0, 0⟩)
        { w with commands := before ++ rows.map fun r => command issued r.expire } := by
  induction rows with
  | nil =>
    intro w before hw _
    have heq : { w with commands := before ++ [].map fun r : Row => command issued r.expire } = w := by
      rw [List.map_nil, ← List.map_nil (f := command issued), ← hw]
    rw [heq]
    exact Protocol.Leads.refl w
  | cons r rows ih =>
    intro w before hw hids
    rw [List.map_cons, List.length_cons, List.range'_succ, List.cons.injEq] at hids
    have hids' : ∀ c : Cmd, rows.map Row.id = List.range' ((before ++ [c]).length + 1) rows.length := by
      intro c
      rw [List.length_append, List.length_singleton]
      exact hids.2
    have hassoc : ∀ (c : Cmd) (rest : List Cmd), before ++ c :: rest = (before ++ [c]) ++ rest := by
      intro c rest
      rw [List.append_assoc, List.singleton_append]
    rw [List.map_cons, hassoc] at hw
    rw [List.map_cons, hassoc]
    by_cases hleased : r.record.status = .leased
    · rw [List.filter_cons_of_pos (by simpa using hleased), List.map_cons]
      have hexpire : command issued r.expire = { command issued r with status := .ready } := by
        rw [Row.expire, if_pos hleased, command, command, failures, failures, hleased]
        rfl
      have hindex : index r.id = (before.length : Nat) := by
        rw [index, hids.1]
        omega
      have hget : w.commands[before.length]? = some (command issued r) := by
        rw [hw, List.append_assoc, List.getElem?_append_right (Nat.le_refl _), Nat.sub_self]
        rfl
      have hlt := (List.getElem?_eq_some_iff.mp hget).1
      have hset : w.commands.set before.length (command issued r.expire) =
          (before ++ [command issued r.expire]) ++ rows.map (command issued) := by
        rw [hw, List.append_assoc, List.set_append_right _ _ (Nat.le_refl _), Nat.sub_self, List.append_assoc]
        rfl
      have hfirst : Protocol.Leads w [⟨.expire, index r.id, 0, 0⟩]
          { w with commands := w.commands.set before.length (command issued r.expire) } := by
        refine Protocol.leads_command hindex hget rfl (.inr (.inr ?_)) ?_
        · rw [Ne, done_iff, hleased]
          decide
        · simp only [applyTo]
          rw [hindex, QuintList.replaceAt_natCast hlt, hexpire]
          rfl
      exact hfirst.trans (ih hset (hids' _))
    · have hexpire : r.expire = r := if_neg hleased
      rw [List.filter_cons_of_neg (by simpa using hleased), hexpire]
      exact ih hw (hids' _)

/-- **Expiry is followed by one operation for each leased command.** -/
theorem Known.expired (h : Known g.issued s) :
    Follows g s ((s.commands.filter fun r => r.record.status = .leased).map fun r => ⟨.expire, index r.id, 0, 0⟩) g
      s.expire := by
  have htoken : ∀ r : Row, r.expire.token = r.token ∧ r.expire.record.entityId = r.record.entityId := by
    intro r
    rw [Row.expire]
    split <;> exact ⟨rfl, rfl⟩
  have hcount : ∀ status : CommandStatus, status = .deadLettered ∨ status = .rejected →
      s.expire.count status = s.count status := by
    intro status hstatus
    rw [TestStore.count, TestStore.count, TestStore.expire, List.filter_map, List.length_map]
    refine congrArg List.length (List.filter_congr fun r _ => ?_)
    rw [Function.comp_apply, Row.expire]
    split
    · next hleased =>
      rw [hleased]
      rcases hstatus with rfl | rfl <;> rfl
    · rfl
  refine ⟨h.change .expired (fun r hr => ?_) h.ordinals, fun handler => ?_⟩
  · obtain ⟨x, hx, rfl⟩ := List.mem_map.mp hr
    rw [(htoken x).1, (htoken x).2]
    exact ⟨h.tokens x hx, h.entities x hx⟩
  · have hall : (world g ⟨s, handler⟩).commands = [] ++ s.commands.map (command g.issued) := rfl
    have hleads := leads_expire s.commands hall h.consistent.numbered
    have hworld : world g ⟨s.expire, handler⟩ =
        { world g ⟨s, handler⟩ with commands := [] ++ s.commands.map fun r => command g.issued r.expire } := by
      have hcommands : s.expire.commands.map (command g.issued) =
          [] ++ s.commands.map fun r => command g.issued r.expire := List.map_map
      simp only [world, hcount _ (.inl rfl), hcount _ (.inr rfl), hcommands]
      rfl
    rw [hworld]
    exact hleads

/-- The leases of a claim, one after the other. -/
theorem Known.claimed {rows : List Row} : ∀ {s : TestStore} {g : Ghost}, Known g.issued s → Leasable s rows →
    Follows g s ((s.leaseAll rows).1.map fun w => ⟨.claim, index w.work.commandId, 0, 0⟩)
      { g with issued := g.issued ++ (s.leaseAll rows).1.map LeasedCommand.token } (s.leaseAll rows).2 := by
  induction rows with
  | nil =>
    intro s g h _
    have hissued : { g with issued := g.issued ++ ([] : List LeasedCommand).map LeasedCommand.token } = g := by
      rw [List.map_nil, List.append_nil]
    exact hissued.symm ▸ .refl h
  | cons r rows ih =>
    intro s g h hleasable
    obtain ⟨hmem, hready, hfree⟩ := hleasable.1 r List.mem_cons_self
    have hn := h.consistent.numbered
    have hfirst := h.leased ((row_eq_some_iff hn).mpr ⟨hmem, rfl⟩) hready hfree
    have hrest := hfirst.trans (ih hfirst.known (hleasable.tail hn))
    rw [List.append_assoc] at hrest
    exact hrest

end ProtocolStore

end FsQuint
