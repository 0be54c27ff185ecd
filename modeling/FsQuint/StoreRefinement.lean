/-
  The contract store refines the specification of the protocol.

  1. **Events** (`Related.step`): each event of conforming workers is enabled operations of the
     specification.
  2. **Runs** (`Related.run`, `Related.observe`): so is every run, and what the specification observes
     after it is what the example projects, up to the renaming of leases.
  3. **When actions are claimed last** (`Related.counted`): then the renaming changes nothing.

  The relation (`Related`) holds what is known of the store and that the handler has seen what the
  specification has delivered.  It is kept by one event of conforming workers at a time; what workers
  conform to is what the processor of the example does, and nothing is assumed of the order in which
  their requests arrive.
-/
import FsQuint.StoreFollows

namespace FsQuint

open Utf16

namespace ProtocolStore

open Protocol (World Op Cmd applyOp applyAll applyTo enabled enabledAll)

variable {r : Row} {id lease token : Nat} {issued : List Nat} {g g₁ g₂ : Ghost} {s t u : TestStore}
  {ops ops' : List Op}

/-! ## Events -/

/-- What relates the system and the specification's view of it. -/
structure Related (g : Ghost) (s : System) : Prop where
  store : Known g.issued s.store
  dedup : s.handler.undeduplicated = false
  seen : ∀ id, (id, 0) ∈ s.handler.seen ↔ index id ∈ g.delivered
  effects : g.delivered.length = s.handler.effects

/-- A request for a row that changes the row when the lease is its own. -/
theorem Known.owned {α : Type} {response : α → Response} {answer : Row → α} {lost : α} {change : Row → Row}
    {request : Request} {op : Op} (h : Known g.issued s)
    (hserve : s.serve request = (do
      let r ← s.row id
      if s.owns r lease then return (answer r, s.amend id change) else return (lost, s) :
        Option (α × TestStore)).map (respond response))
    (hfollows : ∀ r, s.row id = some r → s.owns r lease = true → Follows g s [op] g (s.amend id change)) :
    Follows g s (if (s.row id).any fun r => s.owns r lease then [op] else []) g (s.after request) := by
  rw [TestStore.after, hserve]
  cases hrow : s.row id with
  | none => exact .refl h
  | some r =>
    rw [Option.any_some]
    cases howns : s.owns r lease with
    | true =>
      have hfirst := hfollows r hrow howns
      simpa [howns, respond] using hfirst
    | false => simpa [howns, respond] using Follows.refl h

/-- **A commit is followed**, in each of the ways it can go. -/
theorem Known.commit (h : Known g.issued s) {expected : Nat} {draft : TransitionDraft} {handler : Handler}
    (hconforms : conforms ⟨s, handler⟩ (.request (.commit id lease expected draft)) = true) :
    Follows g s (operations g ⟨s, handler⟩ (.request (.commit id lease expected draft))) g
      (s.after (.commit id lease expected draft)) := by
  cases hrow : s.row id with
  | none =>
    have hcommit : s.commit id lease expected draft = none := by
      rw [TestStore.commit, hrow]
      rfl
    rw [operations, TestStore.after, TestStore.serve, hcommit, hrow]
    exact .refl h
  | some r =>
    have hsome : (s.commit id lease expected draft).isSome := by
      simp only [TestStore.commit, hrow, Option.bind_eq_bind, Option.bind_some]
      split_ifs <;> rfl
    obtain ⟨⟨answer, t⟩, hcommit⟩ := Option.isSome_iff_exists.mp hsome
    have hafter : s.after (.commit id lease expected draft) = t := after_of_serve (by
      rw [TestStore.serve, hcommit]
      rfl)
    rw [operations, hafter, hrow]
    obtain ⟨r', hrow', hcases⟩ := commit_cases hcommit
    obtain rfl := Option.some_inj.mp (hrow'.symm.trans hrow)
    rw [conforms, hrow, Option.all_some, Bool.or_eq_true, Bool.not_eq_true', decide_eq_true_eq] at hconforms
    rcases hcases with ⟨hdone, htoken, -, -, ht⟩ | ⟨hdone, howns, -, -, ht⟩ | ⟨howns, hcases⟩
    · have howns : s.owns r' lease = false := by
        rw [TestStore.owns, hdone]
        simp
      rw [ht]
      simpa [howns] using h.alreadyFinalized hrow ⟨hdone, htoken⟩
    · rw [ht]
      simpa [howns] using h.fenced hrow hdone howns
    · have howns : s.owns r' lease = true := howns.resolve_right fun hd => by
        rw [h.final] at hd
        exact absurd hd.1 (by decide)
      obtain ⟨hentity, hactions, hstate⟩ := hconforms.resolve_left (by rw [howns]; decide)
      rcases hcases with ⟨ht, -, hne⟩ | ⟨ht, hfail, -⟩ | ⟨hexpected, hfail, response, ht, -⟩
      · rw [ht]
        simpa [howns, hne] using Follows.refl h
      · rw [ht]
        simpa [howns, hfail] using Follows.refl h
      · have hexpected : expected = (s.snapshot draft.entityId).epoch := hexpected.resolve_right (by
          rw [h.final]
          decide)
        have hrecorded := h.recorded hrow howns hentity hactions (hstate hexpected)
        simp only [howns, hfail, hexpected, ne_eq, not_true_eq_false, decide_false, Bool.or_self, Bool.and_false,
          Bool.false_eq_true, if_false]
        rw [ht]
        exact hrecorded.trans (hrecorded.known.noted (Nat.le_refl _))

/-- The claims of actions are not seen by the specification. -/
theorem Known.activated {actions : List LeasedAction} : ∀ {s : TestStore}, Known g.issued s →
    Follows g s [] g (s.activateAll actions).2 := by
  induction actions with
  | nil => exact fun h => .refl h
  | cons a actions ih =>
    intro s h
    have hfirst : Follows g s [] g { s with token := s.token + 1, activeActions := insert a.key s.activeActions } :=
      h.noted (Nat.le_succ _)
    exact hfirst.trans (ih hfirst.known)

/-- A completion is an acknowledgement, unless it is lost. -/
theorem Known.completed (h : Known g.issued s) {action : LeasedAction}
    (hpending : s.pending.any fun a => a.key = action.key) :
    Follows g s (if s.loseAck then [] else [⟨.ack, index action.work.commandId, 0, 0⟩]) g (s.complete action).2 := by
  by_cases hlose : s.loseAck = true
  · have hcomplete : (s.complete action).2 =
        { s with activeActions := s.activeActions.erase action.key, loseAck := false } :=
      congrArg Prod.snd (if_pos hlose)
    rw [if_pos hlose, hcomplete]
    exact h.noted (Nat.le_refl _)
  · have hcomplete : (s.complete action).2 =
        { s with
          activeActions := s.activeActions.erase action.key, pending := s.withoutAction action.key
          acknowledged := s.acknowledged + 1 } :=
      congrArg Prod.snd (if_neg hlose)
    have hnoted : Follows g s [] g { s with activeActions := s.activeActions.erase action.key } :=
      h.noted (Nat.le_refl _)
    rw [if_neg hlose, hcomplete]
    exact hnoted.trans (hnoted.known.acknowledged hpending)

/-- **Every request of a worker is followed** by its operations. -/
theorem Known.request (h : Known g.issued s) {request : Request} {handler : Handler}
    (hconforms : conforms ⟨s, handler⟩ (.request request) = true) :
    Follows g s (operations g ⟨s, handler⟩ (.request request)) (g.after ⟨s, handler⟩ (.request request))
      (s.after request) := by
  have hn := h.consistent.numbered
  cases request with
  | submit c => exact h.submitted (List.contains_iff_mem.mp hconforms)
  | claim machine batch => exact h.claimed (leasable_eligible hn machine batch)
  | reschedule id lease =>
    refine h.owned rfl fun r hrow howns => h.retried hrow howns ?_
    simpa [conforms, hrow, howns] using hconforms
  | extendLease id lease =>
    have hafter : s.after (.extendLease id lease) = s := by
      rw [TestStore.after, TestStore.serve, TestStore.extendLease]
      cases s.row id <;> rfl
    rw [hafter]
    exact .refl h
  | commitCalled => exact h.noted (Nat.le_refl _)
  | commit id lease expected draft => exact h.commit hconforms
  | reject id lease => exact h.owned rfl fun r hrow howns => h.rejected hrow howns
  | deadLetter id lease =>
    refine h.owned rfl fun r hrow howns => h.deadLettered hrow howns ?_
    simpa [conforms, hrow, howns] using hconforms
  | claimActions batch => exact h.activated
  | complete action => exact h.completed hconforms
  | rescheduleAction action => exact h.noted (Nat.le_refl _)
  | abandon action => exact absurd hconforms Bool.false_ne_true
  | expire => exact h.expired
  | setLoseCommitResponse value | setLoseAck value | setFailCommit value => exact h.noted (Nat.le_refl _)

/-- A delivery of an action to the handler. -/
theorem Related.handle {s : System} (h : Related g s) {action : LeasedAction} (hordinal : action.work.ordinal = 0) :
    Related (g.after s (.handle action)) (s.after (.handle action)) ∧
      Protocol.Leads (world g s) [⟨.deliver, index action.work.commandId, 0, 0⟩]
        (world (g.after s (.handle action)) (s.after (.handle action))) := by
  have hkey : action.key = (action.work.commandId, 0) := by rw [LeasedAction.key, hordinal]
  have hseen : action.key ∈ s.handler.seen ↔ index action.work.commandId ∈ g.delivered := by
    rw [hkey]
    exact h.seen _
  have hindex : ∀ id, index id = index action.work.commandId ↔ id = action.work.commandId := by
    intro id
    rw [index, index]
    omega
  -- what the specification does, on both branches
  have hdeliver : ∀ w : World, w.effects = g.delivered →
      applyOp w ⟨.deliver, index action.work.commandId, 0, 0⟩ = some { w with
        attempts := w.attempts + 1
        effects := if action.key ∈ s.handler.seen then g.delivered
          else g.delivered ++ [index action.work.commandId] } := by
    intro w hw
    have hfilter : (g.delivered.filter fun id => id = index action.work.commandId).length > 0 ↔
        action.key ∈ s.handler.seen := by
      rw [gt_iff_lt, List.length_filter_pos_iff, hseen]
      simp
    refine (if_neg (show Protocol.Kind.deliver ≠ .submit by decide)).trans ((if_pos rfl).trans ?_)
    simp only [hw, hfilter, decide_eq_true_eq]
  by_cases hmem : action.key ∈ s.handler.seen
  · have hghost : g.after s (.handle action) = g := if_pos hmem
    have hhandler : s.handler.handle action = { s.handler with attempts := s.handler.attempts + 1 } := by
      rw [Handler.handle, Finset.insert_eq_of_mem hmem, if_neg (by simp [hmem, h.dedup])]
    rw [hghost]
    refine ⟨⟨h.store, ?_, fun id => ?_, ?_⟩, Protocol.Leads.single rfl ?_⟩
    · rw [System.after, hhandler]
      exact h.dedup
    · rw [System.after, hhandler]
      exact h.seen id
    · rw [System.after, hhandler]
      exact h.effects
    · rw [hdeliver _ rfl, if_pos hmem, System.after, hhandler]
      rfl
  · have hghost : g.after s (.handle action) =
        { g with delivered := g.delivered ++ [index action.work.commandId] } := if_neg hmem
    have hhandler : s.handler.handle action = { s.handler with
        attempts := s.handler.attempts + 1
        seen := insert action.key s.handler.seen
        effects := s.handler.effects + 1 } := by
      rw [Handler.handle, if_pos (.inl hmem)]
    rw [hghost]
    refine ⟨⟨h.store, ?_, fun id => ?_, ?_⟩, Protocol.Leads.single rfl ?_⟩
    · rw [System.after, hhandler]
      exact h.dedup
    · rw [System.after, hhandler, Finset.mem_insert, List.mem_append, List.mem_singleton, h.seen, hkey, hindex,
        Prod.mk.injEq, or_comm]
      simp
    · rw [System.after, hhandler, List.length_append, h.effects]
      rfl
    · rw [hdeliver _ rfl, if_neg hmem, System.after, hhandler]
      rfl

/-- **One event**: the relation is kept, and the specification can take its operations. -/
theorem Related.step {s : System} (h : Related g s) {event : Event} (hconforms : conforms s event = true) :
    Related (g.after s event) (s.after event) ∧
      Protocol.Leads (world g s) (operations g s event) (world (g.after s event) (s.after event)) := by
  cases event with
  | request request =>
    have hfollows := h.store.request hconforms
    have hdelivered : (g.after s (.request request)).delivered = g.delivered := by cases request <;> rfl
    refine ⟨⟨hfollows.known, h.dedup, fun id => ?_, ?_⟩, hfollows.leads s.handler⟩
    · rw [hdelivered]
      exact h.seen id
    · rw [hdelivered]
      exact h.effects
  | handle action => exact h.handle (of_decide_eq_true hconforms)

/-! ## Runs -/

/-- The relation holds at the beginning. -/
theorem related_correct : Related {} System.correct :=
  ⟨⟨consistent_create false false, rfl, rfl, List.Pairwise.nil, fun _ h => absurd h List.not_mem_nil,
    fun _ h => absurd h List.not_mem_nil, fun _ h => absurd h List.not_mem_nil, fun _ h => absurd h List.not_mem_nil⟩,
    rfl, fun _ => ⟨fun h => absurd h (Finset.notMem_empty _), fun h => absurd h List.not_mem_nil⟩, rfl⟩

/-- Where the specification sees its initial state. -/
theorem world_correct : world {} System.correct = Protocol.initial := rfl

/-- **A run of the system is a run of the specification.** -/
theorem Related.run {events : List Event} : ∀ {g : Ghost} {s : System}, Related g s → conformsAll s events = true →
    Related (translate g s events).2 (s.run events) ∧
      Protocol.Leads (world g s) (translate g s events).1 (world (translate g s events).2 (s.run events)) := by
  induction events with
  | nil => exact fun h _ => ⟨h, Protocol.Leads.refl _⟩
  | cons event events ih =>
    intro g s h hconforms
    rw [conformsAll, Bool.and_eq_true] at hconforms
    obtain ⟨h₁, hfirst⟩ := h.step hconforms.1
    obtain ⟨h₂, hrest⟩ := ih h₁ hconforms.2
    exact ⟨h₂, hfirst.trans hrest⟩

/-- What the specification observes is what the example projects, with the winners' leases renamed. -/
theorem Related.observe {s : System} (h : Related g s) : Protocol.observe (world g s) =
    { s.project with winners := s.store.metrics.winners.map (ordinal g.issued) } := by
  have hwinners : ((s.store.commands.map (command g.issued)).filter fun c => c.status = .done).map Cmd.token =
      s.store.metrics.winners.map (ordinal g.issued) := by
    rw [List.filter_map, List.map_map, TestStore.metrics, List.map_map]
    refine congrArg _ (List.filter_congr fun r _ => ?_)
    rw [Function.comp_apply, decide_eq_decide]
    exact done_iff
  simp only [Protocol.observe, world, hwinners, h.effects, List.length_map, System.project, TestStore.metrics,
    List.map_map]
  rfl

/-! ### When actions are claimed last -/

/-- Events that lease commands. -/
def Event.claims : Event → Bool
  | .request (.claim _ _) => true
  | _ => false

/-- Events that lease actions, for which the store uses the same counter. -/
def Event.claimsActions : Event → Bool
  | .request (.claimActions _) => true
  | _ => false

/-- No command is claimed after an action. -/
def ActionsLast (events : List Event) : Prop := events.Pairwise fun e e' => ¬ (e.claimsActions ∧ e'.claims)

/-- Only claims issue leases. -/
theorem after_token {request : Request} (h : (Event.request request).claims = false)
    (h' : (Event.request request).claimsActions = false) : (s.after request).token = s.token := by
  have hgetD : ∀ {α : Type} (response : α → Response) (out : Option (α × TestStore)),
      (∀ answer t, out = some (answer, t) → t.token = s.token) →
        (((out.map (respond response)).map Prod.snd).getD s).token = s.token := by
    intro α response out hout
    cases out with
    | none => rfl
    | some out => exact hout out.1 out.2 rfl
  have howned : ∀ {α : Type} {id lease : Nat} {answer : Row → α} {lost : α} {change : Row → Row} (outcome : α)
      (t : TestStore), (do
        let r ← s.row id
        if s.owns r lease then return (answer r, s.amend id change) else return (lost, s)) = some (outcome, t) →
      t.token = s.token := by
    intro α id lease answer lost change outcome t hout
    obtain ⟨r, -, hout⟩ := Option.bind_eq_some_iff.mp hout
    split at hout <;> cases hout <;> rfl
  cases request with
  | claim | claimActions => simp [Event.claims, Event.claimsActions] at h h'
  | submit c =>
    rw [TestStore.after, TestStore.serve, TestStore.submit]
    split <;> rfl
  | reschedule id lease | reject id lease | deadLetter id lease => exact hgetD _ _ howned
  | extendLease id lease =>
    refine hgetD _ _ fun answer t hout => ?_
    obtain ⟨r, -, hout⟩ := Option.bind_eq_some_iff.mp hout
    cases hout
    rfl
  | commit id lease expected draft =>
    refine hgetD _ _ fun answer t hout => ?_
    obtain ⟨r, -, ⟨-, -, -, -, rfl⟩ | ⟨-, -, -, -, rfl⟩ | ⟨-, ⟨rfl, -⟩ | ⟨rfl, -⟩ | ⟨-, -, response, rfl, -⟩⟩⟩ :=
      commit_cases hout <;> rfl
  | complete action =>
    change (s.complete action).2.token = s.token
    rw [TestStore.complete]
    split <;> rfl
  | _ => rfl

/-- Only claims of commands are counted by the specification. -/
theorem after_issued {s : System} {event : Event} (h : event.claims = false) :
    (g.after s event).issued = g.issued := by
  cases event with
  | request request =>
    cases request with
    | claim => exact absurd h Bool.false_ne_true.symm
    | _ => rfl
  | handle action =>
    rw [Ghost.after]
    split <;> rfl

/-- Leases of commands that were issued before any other are numbered as they are. -/
theorem Related.counted {events : List Event} : ∀ {g : Ghost} {s : System}, Related g s →
    conformsAll s events = true → ActionsLast events → g.issued = List.range' 1 g.issued.length →
      (s.store.token = g.issued.length ∨ ∀ event ∈ events, event.claims = false) →
        (translate g s events).2.issued = List.range' 1 (translate g s events).2.issued.length := by
  induction events with
  | nil => exact fun _ _ _ h _ => h
  | cons event events ih =>
    intro g s h hconforms hlast hissued hcount
    rw [conformsAll, Bool.and_eq_true] at hconforms
    obtain ⟨hactions, hrest⟩ := List.pairwise_cons.mp hlast
    obtain ⟨h₁, -⟩ := h.step hconforms.1
    change (translate (g.after s event) (s.after event) events).2.issued = _
    cases hclaims : event.claims with
    | false =>
      have hsame : (g.after s event).issued = g.issued := after_issued hclaims
      refine ih h₁ hconforms.2 hrest (by rw [hsame]; exact hissued) ?_
      rw [hsame]
      rcases hcount with hcount | hcount
      · cases hclaimsActions : event.claimsActions with
        | true =>
          refine .inr fun later hlater => ?_
          have := hactions later hlater
          rw [hclaimsActions] at this
          simpa using this
        | false =>
          refine .inl ?_
          cases event with
          | request request => rw [System.after, after_token hclaims hclaimsActions, hcount]
          | handle action => exact hcount
      · exact .inr fun later hlater => hcount later (List.mem_cons_of_mem _ hlater)
    | true =>
      have hbefore : s.store.token = g.issued.length := hcount.resolve_right fun hnone => by
        rw [hnone event List.mem_cons_self] at hclaims
        exact absurd hclaims (by decide)
      cases event with
      | handle action => exact absurd hclaims Bool.false_ne_true
      | request request =>
        cases request with
        | claim machine batch =>
          have hn := h.store.consistent.numbered
          obtain ⟨htokens, -, -, -, htoken, -⟩ := leaseAll_spec hn (leasable_eligible hn machine batch)
          have hgrown : (g.after s (.request (.claim machine batch))).issued =
              List.range' 1 (g.issued.length + ((s.store.eligible machine).take batch.toNat).length) := by
            rw [← List.range'_append_1, ← hissued, Nat.add_comm 1, ← hbefore, ← htokens]
            rfl
          have hlength := congrArg List.length hgrown
          rw [List.length_range'] at hlength
          refine ih h₁ hconforms.2 hrest (by rw [hlength]; exact hgrown) (.inl ?_)
          rw [hlength, ← hbefore]
          exact htoken
        | _ => exact absurd hclaims Bool.false_ne_true

/-- As long as all leases are those of commands, the ordinals are the tokens. -/
theorem ordinal_range {n : Nat} (h : token ∈ List.range' 1 n) : ordinal (List.range' 1 n) token = token := by
  have hlt := List.idxOf_lt_length_of_mem h
  have hget := List.getElem_idxOf hlt
  rw [List.getElem_range'] at hget
  rw [ordinal, if_pos h]
  omega

/-- The leases under which commands succeeded are leases of commands. -/
theorem Known.winners (h : Known issued s) {token : Nat} (hwinner : token ∈ s.metrics.winners) :
    token = 0 ∨ token ∈ issued := by
  obtain ⟨r, hr, rfl⟩ := List.mem_map.mp hwinner
  exact h.tokens r (List.mem_of_mem_filter hr)

/-- **The store refines the specification.**  Whatever the interleaving of its workers, a run of the
    system is a run of enabled operations of the specification, so it is safe, and the specification
    observes what the example projects: with the leases renamed in their order, and the very same where
    no command is claimed after an action. -/
theorem refines (events : List Event) (hconforms : conformsAll System.correct events = true) :
    let s := System.correct.run events
    let (ops, ghost) := translate {} System.correct events
    enabledAll Protocol.initial ops = true ∧
      ∃ w, applyAll Protocol.initial ops = some w ∧ Protocol.safe w = true ∧
        Protocol.observe w = { s.project with winners := s.store.metrics.winners.map (ordinal ghost.issued) } ∧
        (∀ token ∈ s.store.metrics.winners, ∀ token' ∈ s.store.metrics.winners, token < token' →
          ordinal ghost.issued token < ordinal ghost.issued token') ∧
        (ActionsLast events → Protocol.observe w = s.project) := by
  intro s
  obtain ⟨hrelated, hleads⟩ := related_correct.run hconforms
  rw [world_correct] at hleads
  obtain ⟨w, hrun, hsound⟩ := Protocol.sound_initial.run hleads.1
  have hw : world (translate {} System.correct events).2 s = w := Option.some_inj.mp (hleads.2.symm.trans hrun.2)
  refine ⟨hleads.1, w, hrun.2, hsound.safe, ?_, fun token h token' h' hlt => ?_, fun hlast => ?_⟩
  · rw [← hw]
    exact hrelated.observe
  · have hmem := (hrelated.store.winners h').resolve_left (by omega)
    rcases hrelated.store.winners h with rfl | h
    · rw [ordinal_zero hrelated.store.zero, ordinal, if_pos hmem]
      omega
    · exact ordinal_lt hrelated.store.ascending h hmem hlt
  · have hissued := related_correct.counted hconforms hlast rfl (.inl rfl)
    have hsame : s.store.metrics.winners.map (ordinal (translate {} System.correct events).2.issued) =
        s.project.winners := by
      change _ = s.store.metrics.winners.map fun token : Nat => (token : Int)
      refine List.map_congr_left fun token h => ?_
      rcases hrelated.store.winners h with rfl | h
      · exact ordinal_zero hrelated.store.zero
      · rw [hissued] at h ⊢
        exact ordinal_range h
    rw [← hw, hrelated.observe, hsame]

/-- Two commands, of which the first is leased again after its lease has expired, and its action. -/
def expiredLease : List Event :=
  [.request (.submit ⟨[], lit "one", [1], 1, 1⟩), .request (.submit ⟨[], lit "two", [1], 1, 4⟩),
    .request (.claim [] 4), .request .expire, .request (.claim [] 1), .request (.commit 1 1 0 ⟨[], lit "one", [[]], 0, 1⟩),
    .request (.commit 1 3 0 ⟨[], lit "one", [[]], 0, 1⟩), .request (.claimActions 1),
    .handle ⟨⟨[], lit "one", 1, 1, 0, []⟩, some 4, 1⟩, .request (.complete ⟨⟨[], lit "one", 1, 1, 0, []⟩, some 4, 1⟩)]

/-- **The old lease is fenced and the last one wins**, at the specification too. -/
theorem refines_expiredLease :
    ∃ w, applyAll Protocol.initial (translate {} System.correct expiredLease).1 = some w ∧ Protocol.safe w = true ∧
      (Protocol.observe w).winners = [3] ∧ (Protocol.observe w).fenced = 1 := by
  obtain ⟨-, w, happly, hsafe, hobserve, -⟩ := refines expiredLease (by decide)
  refine ⟨w, happly, hsafe, ?_⟩
  rw [hobserve]
  decide

end ProtocolStore

end FsQuint
