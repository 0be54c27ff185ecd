/-
  The invariant of the contract store, over every run.

  1. **The invariant** (`Consistent`): commands are numbered and known by their identity; a command
     that has left the queue has no unfinished one before it; the history has every succeeded command
     once, in the order of its entity's sequence; epochs count the commits of an entity, and its
     snapshot is the last of them; what is pending was enqueued by a commit, in that order.
  2. **A change of rows** (`Relabels`): it keeps what identifies a row, so the parts of the invariant
     that do not look at the status are kept for every change of rows at once.
  3. **Every change keeps it** (`Consistent.change`), where a commit is not finalized twice; the part
     about the rows (`Arranged`) is kept in every store.
  4. **Every run keeps it** (`run_consistent`), and the flag is what it takes (`commits_once_iff`).
-/
import FsQuint.StoreChanges

namespace FsQuint

open Utf16

namespace ProtocolStore

variable {s t : TestStore} {r r' : Row} {id lease : Nat} {g : Row → Row}

/-- The rows of the store: commands are numbered and known by their identity, and those of an entity are
    worked on in the order of their arrival. -/
structure Arranged (s : TestStore) : Prop where
  numbered : s.Numbered
  identities : (s.commands.map Row.identity).Nodup
  sequences : ∀ entity : UString,
    Table.Numbered (fun r : Row => r.record.sequence) (s.commands.filter fun r => r.record.entityId = entity)
  /-- a command that is not waiting has no unfinished one before it -/
  ordered : ∀ r ∈ s.commands, r.record.status ≠ .ready → s.unblocked r = true

/-- The rows, with the history, the snapshots and the queue of actions that fit them. -/
structure Consistent (s : TestStore) : Prop extends Arranged s where
  once : (s.history.map CommittedTransition.commandId).Nodup
  committed : ∀ id, id ∈ s.history.map CommittedTransition.commandId ↔
    ∃ r ∈ s.commands, r.id = id ∧ r.record.status = .succeeded
  inOrder : s.history.Pairwise fun t t' => ∀ r ∈ s.commands, ∀ r' ∈ s.commands,
    r.id = t.commandId → r'.id = t'.commandId → r.record.entityId = r'.record.entityId →
      r.record.sequence < r'.record.sequence
  epochs : ∀ entity, Table.Numbered CommittedTransition.epoch (s.historyOf entity)
  snapshots : ∀ entity, s.snapshots entity =
    (s.historyOf entity).getLast?.map fun t => ⟨t.draft.toState, t.epoch⟩
  queue : s.pending.Sublist (s.history.flatMap TestStore.enqueued)

/-! ## Changes of rows -/

/-- A change of rows keeps what identifies them, and does not reopen what is finished. -/
structure Relabels (s : TestStore) (g : Row → Row) : Prop where
  id : ∀ r, (g r).id = r.id
  identity : ∀ r, (g r).identity = r.identity
  sequence : ∀ r, (g r).record.sequence = r.record.sequence
  final : ∀ r ∈ s.commands, final r.record.status = true → final (g r).record.status = true
  /-- what it takes out of the queue has no unfinished one before it -/
  ordered : ∀ r ∈ s.commands, (g r).record.status ≠ .ready → r.record.status ≠ .ready ∨ s.unblocked r = true

/-- A change of a row leaves its entity. -/
theorem Relabels.entity (h : Relabels s g) (r : Row) : (g r).record.entityId = r.record.entityId :=
  congrArg Prod.fst (h.identity r)

/-- The change of the row with an id. -/
def only (id : Nat) (change : Row → Row) (r : Row) : Row := if r.id = id then change r else r

/-- Changing the row of an id changes that row alone. -/
theorem commands_amend (hn : s.Numbered) {change : Row → Row} :
    (s.amend id change).commands = s.commands.map (only id change) :=
  Table.update_eq_map (Table.Numbered.nodup hn)

/-- And is one of the changes that keep the order. -/
theorem relabels_only (hn : s.Numbered) {change : Row → Row} (hrow : s.row id = some r)
    (hc : ∀ r, (change r).id = r.id ∧ (change r).identity = r.identity ∧
      (change r).record.sequence = r.record.sequence)
    (hfinal : final r.record.status = true → final (change r).record.status = true)
    (hordered : (change r).record.status ≠ .ready → r.record.status ≠ .ready ∨ s.unblocked r = true) :
    Relabels s (only id change) := by
  have hr : ∀ r' ∈ s.commands, r'.id = id → r' = r := fun r' hr' hid =>
    Option.some_inj.mp (((row_eq_some_iff hn).mpr ⟨hr', hid⟩).symm.trans hrow)
  constructor
  · intro r'
    rw [only]
    split
    · exact (hc r').1
    · rfl
  · intro r'
    rw [only]
    split
    · exact (hc r').2.1
    · rfl
  · intro r'
    rw [only]
    split
    · exact (hc r').2.2
    · rfl
  · intro r' hr' hf
    rw [only]
    split
    · next hid =>
      obtain rfl := hr r' hr' hid
      exact hfinal hf
    · exact hf
  · intro r' hr' hs
    rw [only] at hs
    split at hs
    · next hid =>
      obtain rfl := hr r' hr' hid
      exact hordered hs
    · exact .inl hs

/-- So the commands of an entity stay where they are. -/
theorem filter_map_entity (h : Relabels s g) (entity : UString) (rows : List Row) :
    (rows.map g).filter (fun r => r.record.entityId = entity) =
      (rows.filter fun r => r.record.entityId = entity).map g := by
  rw [List.filter_map]
  refine congrArg (List.map g) (List.filter_congr fun r _ => ?_)
  simp only [Function.comp_apply, h.entity]

/-- The parts of the invariant that do not look at the history. -/
theorem Relabels.rows (h : Relabels s g) (hs : Arranged s) (hcommands : t.commands = s.commands.map g) :
    Arranged t := by
  have hmap : ∀ {β : Type} (f : Row → β) (rows : List Row), (∀ r, f (g r) = f r) →
      (rows.map g).map f = rows.map f := by
    intro β f rows hf
    rw [List.map_map]
    exact List.map_congr_left fun r _ => hf r
  refine ⟨?_, ?_, fun entity => ?_, fun r' hr' hstatus => ?_⟩
  · refine Table.Numbered.of_map_eq hs.numbered ?_
    rw [hcommands, hmap Row.id _ h.id]
  · rw [hcommands, hmap Row.identity _ h.identity]
    exact hs.identities
  · rw [hcommands, filter_map_entity h]
    exact Table.Numbered.of_map_eq (hs.sequences entity) (hmap (fun r : Row => r.record.sequence) _ h.sequence)
  · rw [hcommands] at hr'
    obtain ⟨r, hr, rfl⟩ := List.mem_map.mp hr'
    have hfree : s.unblocked r = true := (h.ordered r hr hstatus).elim (hs.ordered r hr) fun hu => hu
    refine unblocked_iff.mpr fun earlier hearlier hentity hseq => ?_
    rw [hcommands] at hearlier
    obtain ⟨x, hx, rfl⟩ := List.mem_map.mp hearlier
    rw [h.entity, h.entity] at hentity
    rw [h.sequence, h.sequence] at hseq
    exact h.final x hx (unblocked_iff.mp hfree x hx hentity hseq)

/-- The order of the history does not depend on what a change of rows changes. -/
theorem Relabels.inOrder (h : Relabels s g) (hs : Consistent s) (hcommands : t.commands = s.commands.map g) :
    s.history.Pairwise fun c c' => ∀ r ∈ t.commands, ∀ r' ∈ t.commands,
      r.id = c.commandId → r'.id = c'.commandId → r.record.entityId = r'.record.entityId →
        r.record.sequence < r'.record.sequence := by
  refine hs.inOrder.imp fun {c c'} hcc r hr r' hr' hid hid' hentity => ?_
  rw [hcommands] at hr hr'
  obtain ⟨x, hx, rfl⟩ := List.mem_map.mp hr
  obtain ⟨x', hx', rfl⟩ := List.mem_map.mp hr'
  rw [h.entity, h.entity] at hentity
  rw [h.id] at hid hid'
  rw [h.sequence, h.sequence]
  exact hcc x hx x' hx' hid hid' hentity

/-- A change of rows that commits nothing keeps the invariant. -/
theorem Consistent.relabel (hs : Consistent s) (h : Relabels s g)
    (hsucceeded : ∀ r ∈ s.commands, (g r).record.status = .succeeded ↔ r.record.status = .succeeded)
    (hcommands : t.commands = s.commands.map g) (hhistory : t.history = s.history)
    (hsnapshots : t.snapshots = s.snapshots) (hpending : t.pending = s.pending) : Consistent t := by
  refine ⟨h.rows hs.toArranged hcommands, ?_, fun id => ?_, ?_, fun entity => ?_,
    fun entity => ?_, ?_⟩
  · rw [hhistory]
    exact hs.once
  · rw [hhistory, hs.committed, hcommands]
    constructor
    · rintro ⟨r, hr, hid, hstatus⟩
      exact ⟨g r, List.mem_map_of_mem hr, (h.id r).trans hid, (hsucceeded r hr).mpr hstatus⟩
    · rintro ⟨r', hr', hid, hstatus⟩
      obtain ⟨r, hr, rfl⟩ := List.mem_map.mp hr'
      exact ⟨r, hr, (h.id r).symm.trans hid, (hsucceeded r hr).mp hstatus⟩
  · rw [hhistory]
    exact h.inOrder hs hcommands
  · rw [TestStore.historyOf, hhistory]
    exact hs.epochs entity
  · rw [hsnapshots, TestStore.historyOf, hhistory]
    exact hs.snapshots entity
  · rw [hpending, hhistory]
    exact hs.queue

/-! ## Every change keeps the invariant -/

/-- A new command is the last of its entity. -/
theorem Arranged.below (hs : Arranged s)
    (hseq : r.record.sequence =
      1 + (s.commands.filter fun r' => r'.record.entityId = r.record.entityId).length)
    (hr' : r' ∈ s.commands) (hentity : r'.record.entityId = r.record.entityId) :
    r'.record.sequence < r.record.sequence := by
  have hle := (hs.sequences r.record.entityId).le_length (List.mem_filter.mpr ⟨hr', decide_eq_true hentity⟩)
  omega

/-- **A submission keeps the order**: the new command is the last of its entity. -/
theorem Arranged.submitted (hs : Arranged s) (hid : r.id = s.commands.length + 1)
    (hnew : ∀ r' ∈ s.commands, r'.identity ≠ r.identity)
    (hseq : r.record.sequence =
      1 + (s.commands.filter fun r' => r'.record.entityId = r.record.entityId).length)
    (hready : r.record.status = .ready) : Arranged { s with commands := s.commands ++ [r] } := by
  refine ⟨Table.Numbered.append hs.numbered hid, ?_, fun entity => ?_, fun r' hr' hstatus => ?_⟩
  · rw [List.map_append, List.nodup_append]
    refine ⟨hs.identities, List.nodup_singleton _, ?_⟩
    intro a ha b hb hab
    obtain ⟨r', hr', rfl⟩ := List.mem_map.mp ha
    exact hnew r' hr' (hab.trans (List.mem_singleton.mp hb))
  · rw [List.filter_append]
    by_cases hentity : r.record.entityId = entity
    · subst hentity
      rw [List.filter_cons_of_pos (by simp), List.filter_nil]
      exact (hs.sequences _).append (hseq.trans (Nat.add_comm _ _))
    · rw [List.filter_cons_of_neg (by simpa using hentity), List.filter_nil, List.append_nil]
      exact hs.sequences entity
  · rcases List.mem_append.mp hr' with hr' | hr'
    · refine unblocked_iff.mpr fun earlier hearlier hentity hlt => ?_
      rcases List.mem_append.mp hearlier with hearlier | hearlier
      · exact unblocked_iff.mp (hs.ordered r' hr' hstatus) earlier hearlier hentity hlt
      · rw [List.mem_singleton.mp hearlier] at hentity hlt
        have hbelow := hs.below hseq hr' hentity.symm
        omega
    · exact absurd (List.mem_singleton.mp hr' ▸ hready) hstatus

/-- And the agreement of rows and history. -/
theorem Consistent.submitted (hs : Consistent s) (hid : r.id = s.commands.length + 1)
    (hnew : ∀ r' ∈ s.commands, r'.identity ≠ r.identity)
    (hseq : r.record.sequence =
      1 + (s.commands.filter fun r' => r'.record.entityId = r.record.entityId).length)
    (hready : r.record.status = .ready) : Consistent { s with commands := s.commands ++ [r] } := by
  have hknown : ∀ c ∈ s.history, ∀ r' ∈ s.commands ++ [r], r'.id = c.commandId → r' ∈ s.commands := by
    intro c hc r' hr' hid'
    rcases List.mem_append.mp hr' with hr' | hr'
    · exact hr'
    · obtain ⟨x, hx, hxid, -⟩ := (hs.committed c.commandId).mp (List.mem_map_of_mem hc)
      have hle := Table.Numbered.le_length hs.numbered hx
      rw [List.mem_singleton.mp hr', hid] at hid'
      omega
  refine ⟨hs.toArranged.submitted hid hnew hseq hready, hs.once, fun id => ?_, ?_, hs.epochs, hs.snapshots,
    hs.queue⟩
  · rw [hs.committed]
    constructor
    · rintro ⟨r', hr', h⟩
      exact ⟨r', List.mem_append_left _ hr', h⟩
    · rintro ⟨r', hr', hid', hstatus⟩
      rcases List.mem_append.mp hr' with hr' | hr'
      · exact ⟨r', hr', hid', hstatus⟩
      · rw [List.mem_singleton.mp hr', hready] at hstatus
        exact absurd hstatus (by decide)
  · refine hs.inOrder.imp_of_mem fun {c c'} hc hc' hcc r₁ hr₁ r₂ hr₂ hid₁ hid₂ => ?_
    exact hcc r₁ (hknown c hc r₁ hr₁ hid₁) r₂ (hknown c' hc' r₂ hr₂ hid₂) hid₁ hid₂

/-- Only a leased row has an owner. -/
theorem owns_leased (h : s.owns r lease = true) : r.record.status = .leased := by
  rw [TestStore.owns, Bool.and_eq_true, decide_eq_true_eq] at h
  exact h.2

/-- A commit is the last of its entity’s history. -/
theorem historyOf_record (committed : CommittedTransition) (entity : UString) :
    (s.record id lease committed).historyOf entity =
      s.historyOf entity ++ if committed.draft.entityId = entity then [committed] else [] := by
  rw [TestStore.historyOf, TestStore.record, List.filter_append, TestStore.historyOf, List.filter_cons,
    List.filter_nil]
  simp only [decide_eq_true_eq]

/-- The epoch of the snapshot counts the commits of an entity. -/
theorem Consistent.snapshot_epoch (hs : Consistent s) (entity : UString) :
    (s.snapshot entity).epoch = (s.historyOf entity).length := by
  rw [TestStore.snapshot, hs.snapshots]
  rcases List.eq_nil_or_concat (s.historyOf entity) with hnil | ⟨before, last, hlast⟩
  · rw [hnil]
    rfl
  · have h := hs.epochs entity
    rw [Table.Numbered, hlast, List.concat_eq_append, List.map_append, List.length_append,
      List.length_singleton, List.range'_concat, Nat.one_mul] at h
    have h := (List.append_inj h (by simp)).2
    rw [hlast, List.concat_eq_append, List.getLast?_append, List.length_append]
    simpa [Nat.add_comm] using h

/-- **A commit keeps the agreement**: its row was leased, so that its command had no result. -/
theorem Consistent.recorded (hs : Consistent s) (hrow : s.row id = some r)
    (hleased : r.record.status = .leased) (draft : TransitionDraft) :
    Consistent (s.record id lease
      ⟨draft, (s.snapshot draft.entityId).epoch + 1, id, r.record.chartVersion⟩) := by
  obtain ⟨hr, hid⟩ := (row_eq_some_iff hs.numbered).mp hrow
  have hfresh : id ∉ s.history.map CommittedTransition.commandId := by
    intro hmem
    obtain ⟨x, hx, hxid, hstatus⟩ := (hs.committed id).mp hmem
    have : x = r := List.inj_on_of_nodup_map (Table.Numbered.nodup hs.numbered) hx hr (hxid.trans hid.symm)
    rw [this, hleased] at hstatus
    exact absurd hstatus (by decide)
  generalize hcommitted : (⟨draft, (s.snapshot draft.entityId).epoch + 1, id, r.record.chartVersion⟩ :
    CommittedTransition) = committed
  have hcid : committed.commandId = id := by rw [← hcommitted]
  have hcommands : (s.record id lease committed).commands = s.commands.map (only id (Row.succeed lease)) :=
    commands_amend hs.numbered
  have hrel : Relabels s (only id (Row.succeed lease)) := by
    refine relabels_only hs.numbered hrow (fun _ => ⟨rfl, rfl, rfl⟩) (fun _ => rfl) fun _ => .inl ?_
    rw [hleased]
    decide
  refine ⟨hrel.rows hs.toArranged hcommands, ?_, fun id' => ?_, ?_, fun entity => ?_, fun entity => ?_, ?_⟩
  · change (List.map _ (s.history ++ [committed])).Nodup
    rw [List.map_append, List.nodup_append]
    refine ⟨hs.once, List.nodup_singleton _, fun a ha b hb hab => ?_⟩
    rw [List.map_singleton, List.mem_singleton] at hb
    exact hfresh (hcid ▸ hb ▸ hab ▸ ha)
  · change id' ∈ List.map _ (s.history ++ [committed]) ↔ _
    rw [List.map_append, List.mem_append, hs.committed, hcommands, List.map_singleton, List.mem_singleton, hcid]
    constructor
    · rintro (⟨x, hx, hxid, hstatus⟩ | rfl)
      · have hne : x.id ≠ id := by
          rintro heq
          exact hfresh ((hs.committed id).mpr ⟨x, hx, heq, hstatus⟩)
        refine ⟨x, List.mem_map.mpr ⟨x, hx, if_neg hne⟩, hxid, hstatus⟩
      · exact ⟨r.succeed lease, List.mem_map.mpr ⟨r, hr, if_pos hid⟩, hid, rfl⟩
    · rintro ⟨x', hx', hxid, hstatus⟩
      obtain ⟨x, hx, rfl⟩ := List.mem_map.mp hx'
      rw [hrel.id] at hxid
      by_cases hidx : x.id = id
      · exact .inr (hxid.symm.trans hidx)
      · rw [only, if_neg hidx] at hstatus
        exact .inl ⟨x, hx, hxid, hstatus⟩
  · change (s.history ++ [committed]).Pairwise _
    rw [List.pairwise_append]
    refine ⟨hrel.inOrder hs hcommands, List.pairwise_singleton _ _, fun c hc c' hc' x' hx' y' hy' hxid hyid => ?_⟩
    rw [List.mem_singleton] at hc'
    subst hc'
    rw [hcommands] at hx' hy'
    obtain ⟨x, hx, rfl⟩ := List.mem_map.mp hx'
    obtain ⟨y, hy, rfl⟩ := List.mem_map.mp hy'
    rw [hrel.entity, hrel.entity, hrel.sequence, hrel.sequence]
    rw [hrel.id] at hxid hyid
    intro hentity
    have hy : y = r := List.inj_on_of_nodup_map (Table.Numbered.nodup hs.numbered) hy hr
      (hyid.trans (hcid.trans hid.symm))
    subst hy
    obtain ⟨z, hz, hzid, hzstatus⟩ := (hs.committed c.commandId).mp (List.mem_map_of_mem hc)
    have hxz : x = z := List.inj_on_of_nodup_map (Table.Numbered.nodup hs.numbered) hx hz (hxid.trans hzid.symm)
    subst hxz
    -- the committed command cannot come after the leased one, which would then be finished
    by_contra hlt
    rcases Nat.lt_or_eq_of_le (Nat.le_of_not_lt hlt) with hlt | heq
    · have hfinal := unblocked_iff.mp (hs.ordered x hx (by rw [hzstatus]; decide)) y hr hentity.symm hlt
      rw [hleased] at hfinal
      exact absurd hfinal (by decide)
    · have hmem : ∀ w ∈ s.commands, w.record.entityId = y.record.entityId →
          w ∈ s.commands.filter fun w => w.record.entityId = y.record.entityId :=
        fun w hw hwe => List.mem_filter.mpr ⟨hw, decide_eq_true hwe⟩
      have : x = y := List.inj_on_of_nodup_map (hs.sequences y.record.entityId).nodup
        (hmem x hx hentity) (hmem y hr rfl) heq.symm
      rw [this, hleased] at hzstatus
      exact absurd hzstatus (by decide)
  · rw [historyOf_record]
    split
    · next hentity =>
      refine (hs.epochs entity).append ?_
      rw [← hs.snapshot_epoch, ← hentity, ← hcommitted]
    · rw [List.append_nil]
      exact hs.epochs entity
  · rw [historyOf_record]
    change Function.update s.snapshots committed.draft.entityId _ entity = _
    split
    · next hentity =>
      rw [hentity, Function.update_self, List.getLast?_append_of_ne_nil _ (List.cons_ne_nil _ _)]
      rfl
    · next hentity =>
      rw [Function.update_of_ne (Ne.symm hentity), List.append_nil]
      exact hs.snapshots entity
  · change (s.pending ++ _).Sublist (List.flatMap _ (s.history ++ [committed]))
    rw [List.flatMap_append, List.flatMap_singleton]
    exact hs.queue.append (List.Sublist.refl _)

/-- Nothing that the invariant looks at is changed. -/
theorem Consistent.of_eq (hs : Consistent s) (hcommands : t.commands = s.commands)
    (hhistory : t.history = s.history) (hsnapshots : t.snapshots = s.snapshots)
    (hpending : t.pending.Sublist s.pending) : Consistent t := by
  have hid : Relabels s fun r => r :=
    ⟨fun _ => rfl, fun _ => rfl, fun _ => rfl, fun _ _ h => h, fun _ _ h => .inl h⟩
  have ht : Consistent { t with pending := s.pending } :=
    hs.relabel hid (fun _ _ => Iff.rfl) (by rw [List.map_id']; exact hcommands) hhistory hsnapshots rfl
  exact ⟨⟨ht.numbered, ht.identities, ht.sequences, ht.ordered⟩, ht.once, ht.committed, ht.inOrder, ht.epochs,
    ht.snapshots, hpending.trans ht.queue⟩

/-- What expiry does to a status. -/
theorem status_expire (r : Row) :
    r.expire.record.status = if r.record.status = .leased then .ready else r.record.status := by
  rw [Row.expire]
  split <;> rfl

/-- It keeps the order. -/
theorem relabels_expire : Relabels s Row.expire := by
  refine ⟨id_expire, fun r => ?_, fun r => ?_, fun r _ hf => ?_, fun r _ hne => ?_⟩
  · rw [Row.expire]
    split <;> rfl
  · rw [Row.expire]
    split <;> rfl
  · rw [status_expire]
    split
    · next hleased =>
      rw [hleased] at hf
      exact absurd hf (by decide)
    · exact hf
  · rw [status_expire] at hne
    split at hne
    · exact absurd rfl hne
    · exact .inl hne

/-- A leased row whose status changes was not waiting. -/
theorem relabels_leased (hn : s.Numbered) {change : Row → Row} (hrow : s.row id = some r)
    (hc : ∀ r, (change r).id = r.id ∧ (change r).identity = r.identity ∧
      (change r).record.sequence = r.record.sequence) (hleased : r.record.status = .leased) :
    Relabels s (only id change) := by
  refine relabels_only hn hrow hc (fun hf => ?_) fun _ => .inl ?_
  · rw [hleased] at hf
    exact absurd hf (by decide)
  · rw [hleased]
    decide

/-- **Every change keeps the rows in order**, also where a commit is finalized twice. -/
theorem Arranged.change (hs : Arranged s) (h : Change s t) : Arranged t := by
  cases h with
  | submitted hid hnew hseq hready => exact hs.submitted hid hnew hseq hready
  | @leased id r hrow hready hfree =>
    have hs' : Arranged { s with token := s.token + 1 } := ⟨hs.numbered, hs.identities, hs.sequences, hs.ordered⟩
    have hrel : Relabels { s with token := s.token + 1 } (only id (Row.lease (s.token + 1))) := by
      refine relabels_only hs'.numbered hrow (fun _ => ⟨rfl, rfl, rfl⟩) (fun hf => ?_) fun _ => .inr hfree
      rw [hready] at hf
      exact absurd hf (by decide)
    exact hrel.rows hs' (commands_amend hs'.numbered)
  | @retried id lease r hrow howns =>
    have hrel : Relabels s (only id Row.retry) :=
      relabels_leased hs.numbered hrow (fun _ => ⟨rfl, rfl, rfl⟩) (owns_leased howns)
    exact hrel.rows hs (commands_amend hs.numbered)
  | @finished id lease r status hrow howns =>
    have hrel : Relabels s (only id (Row.withStatus status)) :=
      relabels_leased hs.numbered hrow (fun _ => ⟨rfl, rfl, rfl⟩) (owns_leased howns)
    exact hrel.rows hs (commands_amend hs.numbered)
  | @recorded id lease r draft hrow howns =>
    have hrel : Relabels s (only id (Row.succeed lease)) := by
      refine relabels_only hs.numbered hrow (fun _ => ⟨rfl, rfl, rfl⟩) (fun _ => rfl) fun _ => .inl ?_
      -- the row was being worked on, or it was committed before
      rcases howns with howns | ⟨-, hsucceeded⟩
      · rw [owns_leased howns]
        decide
      · rw [hsucceeded]
        decide
    exact hrel.rows hs (commands_amend hs.numbered)
  | expired => exact relabels_expire.rows hs rfl
  | fenced | acknowledged | abandoned | noted => exact ⟨hs.numbered, hs.identities, hs.sequences, hs.ordered⟩

/-- **Every change keeps the invariant**, where a commit is not finalized twice. -/
theorem Consistent.change (hs : Consistent s) (hd : s.duplicateFinalize = false) (h : Change s t) :
    Consistent t := by
  have hamend : ∀ (change : Row → Row) {id : Nat} {r : Row}, s.row id = some r →
      (∀ r, (change r).id = r.id ∧ (change r).identity = r.identity ∧
        (change r).record.sequence = r.record.sequence) →
      r.record.status = .leased → (change r).record.status ≠ .succeeded →
      Consistent (s.amend id change) := by
    intro change id r hrow hc hleased hne
    refine hs.relabel (relabels_leased hs.numbered hrow hc hleased) (fun x hx => ?_)
      (commands_amend hs.numbered) rfl rfl rfl
    rw [only]
    split
    · next hid =>
      obtain rfl := Option.some_inj.mp (((row_eq_some_iff hs.numbered).mpr ⟨hx, hid⟩).symm.trans hrow)
      rw [hleased]
      exact ⟨fun h => absurd h hne, fun h => absurd h (by decide)⟩
    · exact Iff.rfl
  cases h with
  | submitted hid hnew hseq hready => exact hs.submitted hid hnew hseq hready
  | @leased id r hrow hready hfree =>
    have hs' : Consistent { s with token := s.token + 1 } := hs.of_eq rfl rfl rfl (List.Sublist.refl _)
    have hrel : Relabels { s with token := s.token + 1 } (only id (Row.lease (s.token + 1))) := by
      refine relabels_only hs'.numbered hrow (fun _ => ⟨rfl, rfl, rfl⟩) (fun hf => ?_) fun _ => .inr hfree
      rw [hready] at hf
      exact absurd hf (by decide)
    refine hs'.relabel hrel (fun x hx => ?_) (commands_amend hs'.numbered) rfl rfl rfl
    · rw [only]
      split
      · next hid =>
        obtain rfl := Option.some_inj.mp (((row_eq_some_iff hs.numbered).mpr ⟨hx, hid⟩).symm.trans hrow)
        rw [hready]
        exact ⟨fun h => absurd h (show CommandStatus.leased ≠ .succeeded by decide),
          fun h => absurd h (by decide)⟩
      · exact Iff.rfl
  | retried hrow howns =>
    exact hamend Row.retry hrow (fun _ => ⟨rfl, rfl, rfl⟩) (owns_leased howns)
      (show CommandStatus.ready ≠ .succeeded by decide)
  | @finished _ _ _ status hrow howns hstatus =>
    have hne : status ≠ .succeeded := by rcases hstatus with rfl | rfl <;> decide
    exact hamend (Row.withStatus status) hrow (fun _ => ⟨rfl, rfl, rfl⟩) (owns_leased howns) hne
  | recorded hrow howns =>
    rcases howns with howns | ⟨hdup, -⟩
    · exact hs.recorded hrow (owns_leased howns) _
    · rw [hd] at hdup
      exact absurd hdup (by decide)
  | expired =>
    refine hs.relabel relabels_expire (fun r _ => ?_) rfl rfl rfl rfl
    rw [status_expire]
    split
    · next hleased =>
      rw [hleased]
      exact ⟨fun h => absurd h (by decide), fun h => absurd h (by decide)⟩
    · exact Iff.rfl
  | fenced => exact hs.of_eq rfl rfl rfl (List.Sublist.refl _)
  | acknowledged => exact hs.of_eq rfl rfl rfl List.filter_sublist
  | abandoned => exact hs.of_eq rfl rfl rfl List.filter_sublist
  | noted => exact hs.of_eq rfl rfl rfl (List.Sublist.refl _)

/-! ## Every run keeps it -/

/-- The flags of the store never change. -/
theorem Change.flags (h : Change s t) :
    t.ignoreFence = s.ignoreFence ∧ t.duplicateFinalize = s.duplicateFinalize := by
  cases h <;> exact ⟨rfl, rfl⟩

/-- The rows of the empty store are arranged. -/
theorem arranged_create (ignoreFence duplicateFinalize : Bool) :
    Arranged (TestStore.create ignoreFence duplicateFinalize) :=
  ⟨Table.numbered_nil, List.nodup_nil, fun _ => Table.numbered_nil, fun _ h => absurd h List.not_mem_nil⟩

/-- **The invariant holds of the empty store.** -/
theorem consistent_create (ignoreFence duplicateFinalize : Bool) :
    Consistent (TestStore.create ignoreFence duplicateFinalize) :=
  ⟨arranged_create ignoreFence duplicateFinalize,
    List.nodup_nil, fun _ => ⟨fun h => absurd h List.not_mem_nil, fun ⟨_, h, _⟩ => absurd h List.not_mem_nil⟩,
    List.Pairwise.nil, fun _ => Table.numbered_nil, fun _ => rfl, List.Sublist.refl _⟩

/-- No request changes the switches. -/
theorem run_flags (hn : s.Numbered) (requests : List Request) :
    (s.run requests).ignoreFence = s.ignoreFence ∧ (s.run requests).duplicateFinalize = s.duplicateFinalize :=
  run_keeps (P := fun t => t.ignoreFence = s.ignoreFence ∧ t.duplicateFinalize = s.duplicateFinalize)
    (fun h hc => ⟨hc.flags.1.trans h.1, hc.flags.2.trans h.2⟩) hn ⟨rfl, rfl⟩ requests

/-- **The rows are in order after every run**, of whatever store. -/
theorem run_arranged (hs : Arranged s) (requests : List Request) : Arranged (s.run requests) :=
  run_keeps (fun h hc => h.change hc) hs.numbered hs requests

/-- **The invariant holds after every run of a store that does not finalize twice**, whether or not it
    honours the fence. -/
theorem run_consistent (hs : Consistent s) (hd : s.duplicateFinalize = false) (requests : List Request) :
    Consistent (s.run requests) :=
  (run_keeps (P := fun t => Consistent t ∧ t.duplicateFinalize = false)
    (fun h hc => ⟨h.1.change h.2 hc, hc.flags.2.trans h.2⟩) hs.numbered ⟨hs, hd⟩ requests).1

end ProtocolStore

end FsQuint
