/-
  Custody of process sessions under concurrent invocations.

  1. **The system** (`System`, `Takes`): any number of invocations of `executeText` that share the
     pool, each step being one lock or one await of one of them.  `Prepare` answers with a session
     that nobody had before.
  2. **It follows the protocol of the pool** (`Takes.moves`): a step of an invocation is a sequence
     of moves of `SlotPool`; only `claimSlot` makes more than one.
  3. **Custody** (`reachable_sound`): the invariant of the protocol holds in every reachable state.
  4. **Two invocations that overlap** (`overlap`): the second takes over the slot of the first.

  What makes overlapping invocations hard is that a slot can change hands while its owner is away: a
  sweep by another invocation releases the session, the slot is claimed again, and the owner comes
  back to a slot that is no longer its own.  `stillOwnsSlot` compares sessions, not slots, and
  sessions are never reused; that is the whole reason why a late owner changes nothing
  (`Takes.late`).
-/
import FsQuint.Lib.Transition
import FsQuint.InvocationSteps

set_option linter.unusedSectionVars false

namespace FsQuint

open SlotPool Transition

variable {ι σ : Type}

/-! ## The system -/

/-- The pool, and any number of invocations that share it. -/
structure System (ι σ : Type) where
  custody : Custody σ := {}
  invocations : ι → Invocation σ := fun _ => {}
  /-- the sessions whose local tasks have settled, which no code reads -/
  settled : List σ := []

/-- What happens next: an invocation takes a lock or is answered, or the local tasks of a session settle. -/
inductive Label (ι σ : Type) where
  | act (i : ι) (action : Action σ)
  | settle (session : σ)

/-- The session that `Prepare` answers. -/
def Label.made : Label ι σ → Option σ
  | .act _ (.prepare (.ok (.ok session))) => some session
  | _ => none

/-- A session that is answered is a new object. -/
def Fresh (system : System ι σ) (label : Label ι σ) : Prop :=
  ∀ session ∈ label.made, ∀ j, (system.invocations j).retained ≠ some session

/-- `TryRelease` refuses before the local tasks of the session have settled. -/
def Honest (system : System ι σ) : Label ι σ → Prop
  | .act _ (.claim replies) => ∀ k session, system.custody.slots k = .retained session →
      replies k = .ok .resourcesReleased → session ∈ system.settled
  | .act i (.release reply) | .act i (.leave reply) => ∀ session,
      (system.invocations i).retained = some session → reply = .ok .resourcesReleased → session ∈ system.settled
  | _ => True

section

variable [DecidableEq ι] [DecidableEq σ]

/-- One of the two, where the phase of the invocation takes the action. -/
def System.step (system : System ι σ) : Label ι σ → Option (System ι σ)
  | .act i action =>
    ((system.invocations i).step system.custody action).map fun (custody, invocation) =>
      { system with custody := custody, invocations := Function.update system.invocations i invocation }
  | .settle session => some { system with settled := session :: system.settled }

/-- One step of the system. -/
def Takes (system : System ι σ) (label : Label ι σ) (system' : System ι σ) : Prop :=
  Fresh system label ∧ system.step label = some system'

/-- The states that some interleaving leads to. -/
def Reachable (system : System ι σ) : Prop := ∃ labels, Steps Takes {} labels system

end

/-! ## How far an invocation is -/

/-- An invocation as a party of the pool. -/
def Invocation.stage (invocation : Invocation σ) : Stage (Fin 16) σ :=
  match invocation.phase with
  | .entered | .claiming => .idle
  | .preparing slot => .claimed slot
  | .storing slot session => .prepared slot session
  | .running slot session | .observing slot session _ | .pausing slot session _ | .finishing slot session _
  | .releasing slot session _ _ => .stored slot session
  | .leaving slot _ =>
    match invocation.retained with
    | some session => .stored slot session
    | none => .claimed slot
  | .ended _ =>
    match invocation.retained with
    | some session => .settled session
    | none => .idle

/-- A party that has asked for a slot. -/
def taken : Option (Fin 16) → Stage (Fin 16) σ
  | some slot => .claimed slot
  | none => .idle

/-- The locals fit the place where the invocation is. -/
structure Invocation.Coherent (invocation : Invocation σ) : Prop where
  retained : invocation.retained = invocation.stage.resource
  ownsSlot : invocation.retained = none → invocation.ownsSlot = true

namespace Invocation

/-- Remembering a stop keeps the session. -/
@[simp] theorem rememberStop_retained (invocation : Invocation σ) (result : TextExecutionResult) :
    (invocation.rememberStop result).retained = invocation.retained := by
  unfold rememberStop
  split <;> rfl

/-- Remembering a stop keeps the ownership of the slot. -/
@[simp] theorem rememberStop_ownsSlot (invocation : Invocation σ) (result : TextExecutionResult) :
    (invocation.rememberStop result).ownsSlot = invocation.ownsSlot := by
  unfold rememberStop
  split <;> rfl

/-- Remembering a stop keeps the final snapshot. -/
@[simp] theorem rememberStop_snapshot (invocation : Invocation σ) (result : TextExecutionResult) :
    (invocation.rememberStop result).snapshot = invocation.snapshot := by
  unfold rememberStop
  split <;> rfl

variable [DecidableEq σ]

/-- What a step of an invocation can do to the pool, and to the invocation as a party of it. -/
inductive Effect (invocation : Invocation σ) (custody : Custody σ) : Action σ → Custody σ → Invocation σ → Prop
  | wait {action : Action σ} {invocation' : Invocation σ} : invocation'.stage = invocation.stage →
      invocation'.retained = invocation.retained → invocation'.ownsSlot = invocation.ownsSlot →
      (invocation.snapshot.isSome → invocation'.snapshot.isSome) →
      Effect invocation custody action custody invocation'
  | claim {replies : Fin 16 → Outcome ReleaseReply} {slot : Option (Fin 16)} {custody' : Custody σ}
      {invocation' : Invocation σ} : invocation.stage = .idle →
      Quint.claimSlot replies custody = (custody', slot) →
      invocation'.stage = taken slot →
      invocation'.retained = invocation.retained → invocation'.ownsSlot = invocation.ownsSlot →
      invocation'.snapshot = invocation.snapshot →
      Effect invocation custody (.claim replies) custody' invocation'
  | prepare {slot : Fin 16} {session : σ} : invocation.stage = .claimed slot →
      Effect invocation custody (.prepare (.ok (.ok session))) custody
        { invocation with phase := .storing slot session, retained := some session }
  | store {slot : Fin 16} {session : σ} : invocation.phase = .storing slot session →
      Effect invocation custody .store (custody.put slot (.retained session))
        (invocation.enter (.running slot session))
  | release {slot : Fin 16} {session : σ} {initial final : TextExecutionResult} {reply : Outcome ReleaseReply}
      {invocation' : Invocation σ} : invocation.phase = .releasing slot session initial final →
      invocation'.stage = .stored slot session → invocation'.retained = invocation.retained →
      invocation'.snapshot = invocation.snapshot →
      Effect invocation custody (.release reply) (Quint.releaseSlot slot session reply custody).1 invocation'
  | retire {slot : Fin 16} {session : σ} {result : TextResult} {reply : Outcome ReleaseReply} :
      invocation.phase = .leaving slot result → invocation.retained = some session →
      Effect invocation custody (.leave reply)
        (if invocation.ownsSlot then (Quint.releaseSlot slot session reply custody).1 else custody)
        (invocation.enter (.ended (.ok result)))
  | abandon {slot : Fin 16} {result : TextResult} {reply : Outcome ReleaseReply} :
      invocation.phase = .leaving slot result → invocation.retained = none →
      Effect invocation custody (.leave reply) (custody.put slot .vacant)
        (invocation.enter (.ended (.ok result)))

/-- An invocation whose session is stored holds it in its local. -/
theorem Coherent.retained_of_stored {invocation : Invocation σ} {slot : Fin 16} {session : σ}
    (hc : invocation.Coherent) (hs : invocation.stage = .stored slot session) :
    invocation.retained = some session := by
  rw [hc.retained, hs]
  rfl

/-- Leaving does not change what the invocation is to the pool. -/
theorem stage_quit_stored {invocation : Invocation σ} {slot : Fin 16} {session : σ}
    (outcome : ToolOutcome) (hr : invocation.retained = some session) :
    (invocation.quit slot outcome).stage = .stored slot session := by
  simp only [stage, quit, enter, hr]

/-- Giving up before a session is prepared leaves the claim to be cleaned up. -/
theorem stage_quit_claimed {invocation : Invocation σ} {slot : Fin 16} (outcome : ToolOutcome)
    (hr : invocation.retained = none) : (invocation.quit slot outcome).stage = .claimed slot := by
  simp only [stage, quit, enter, hr]

/-- An exception in a place that has a slot. -/
theorem Effect.interrupt {invocation : Invocation σ} {custody : Custody σ} {action : Action σ}
    {slot : Fin 16} (hc : invocation.Coherent) (h : Interrupts invocation.phase slot action) :
    Effect invocation custody action custody (invocation.rescue slot) := by
  have hretained := hc.retained
  refine .wait ?_ rfl rfl id
  generalize hphase : invocation.phase = phase at h
  cases h with
  | prepare =>
    have hs : invocation.stage = .claimed slot := by simp only [stage, hphase]
    rw [hs] at hretained ⊢
    exact stage_quit_claimed _ hretained
  | @run _ session | @observe _ session | @pause _ session | @finish _ session =>
    have hs : invocation.stage = .stored slot session := by simp only [stage, hphase]
    rw [hs] at hretained ⊢
    exact stage_quit_stored _ hretained

/-- **What a step can do to the pool.** -/
theorem step_effect {invocation invocation' : Invocation σ} {custody custody' : Custody σ}
    {action : Action σ} (hc : invocation.Coherent)
    (h : invocation.step custody action = some (custody', invocation')) :
    Effect invocation custody action custody' invocation' := by
  have hretained := hc.retained
  cases step_cases h with
  | escape hphase | decline hphase _ =>
    have hs : invocation.stage = .idle := by simp only [stage, hphase]
    rw [hs] at hretained
    refine .wait (.trans ?_ hs.symm) rfl rfl id
    simp only [stage, conclude, enter, hretained]
    rfl
  | proceed hphase => exact .wait (by simp only [stage, hphase, enter]) rfl rfl id
  | crowd hphase hclaim _ =>
    have hs : invocation.stage = .idle := by simp only [stage, hphase]
    rw [hs] at hretained
    refine .claim hs hclaim ?_ rfl rfl rfl
    simp only [stage, conclude, enter, hretained]
    rfl
  | claim hphase hclaim => exact .claim (by simp only [stage, hphase]) hclaim rfl rfl rfl rfl
  | @refuse slot _ outcome hphase _ =>
    have hs : invocation.stage = .claimed slot := by simp only [stage, hphase]
    rw [hs] at hretained
    exact .wait ((stage_quit_claimed outcome hretained).trans hs.symm) rfl rfl id
  | prepare hphase => exact .prepare (by simp only [stage, hphase])
  | store hphase => exact .store hphase
  | run hphase =>
    exact .wait (by simp only [stage, hphase, enter]) (rememberStop_retained _ _)
      (rememberStop_ownsSlot _ _) (by simp only [enter, rememberStop_snapshot, imp_self])
  | observe hphase hnext =>
    rcases hnext with rfl | rfl <;>
      exact .wait (by simp only [stage, hphase, enter]) (rememberStop_retained _ _)
        (rememberStop_ownsSlot _ _) (by simp only [enter, rememberStop_snapshot, imp_self])
  | pause hphase hnext =>
    rcases hnext with ⟨rfl, -⟩ | rfl <;> exact .wait (by simp only [stage, hphase, enter]) rfl rfl id
  | finish hphase =>
    exact .wait (by simp only [stage, hphase]) (rememberStop_retained _ _)
      (rememberStop_ownsSlot _ _) fun _ => rfl
  | @release slot session _ _ reply _ _ hphase hrelease =>
    have hs : invocation.stage = .stored slot session := by simp only [stage, hphase]
    obtain rfl : (Quint.releaseSlot slot session reply custody).1 = custody' := by rw [hrelease]
    refine .release hphase ?_ rfl rfl
    simp only [stage, judged, hc.retained_of_stored hs]
  | @leave slot _ reply hphase =>
    cases hr : invocation.retained with
    | none =>
      have howns : invocation.ownsSlot = true := hc.ownsSlot hr
      have hcustody : invocation.cleanUp slot reply custody = custody.put slot .vacant := by
        simp only [cleanUp, howns, hr, if_true]
      rw [hcustody]
      exact .abandon hphase hr
    | some session =>
      have hcustody : invocation.cleanUp slot reply custody =
          if invocation.ownsSlot then (Quint.releaseSlot slot session reply custody).1
          else custody := by
        simp only [cleanUp, hr]
      rw [hcustody]
      exact .retire hphase hr
  | interrupt hi => exact .interrupt hc hi

/-- A step keeps the locals in order. -/
theorem Effect.coherent {invocation invocation' : Invocation σ} {custody custody' : Custody σ}
    {action : Action σ} (hc : invocation.Coherent)
    (h : Effect invocation custody action custody' invocation') :
    invocation'.Coherent := by
  obtain ⟨hretained, howns⟩ := hc
  cases h with
  | wait hs hr ho _ => exact ⟨by rw [hr, hs, hretained], fun hn =>
      ho.trans (howns (hr.symm.trans hn))⟩
  | @claim _ slot _ _ hs _ hs' hr ho _ =>
    rw [hs] at hretained
    refine ⟨?_, fun hn => ho.trans (howns (hr.symm.trans hn))⟩
    rw [hr, hs', hretained]
    cases slot <;> rfl
  | prepare hs => exact ⟨rfl, fun hn => nomatch hn⟩
  | @store slot session hphase =>
    have hs : invocation.stage.resource = some session := by simp only [stage, hphase]; rfl
    exact ⟨hretained.trans hs, howns⟩
  | @release slot session _ _ _ _ hphase hs' hr _ =>
    have hs : invocation.stage.resource = some session := by simp only [stage, hphase]; rfl
    rw [hs] at hretained
    refine ⟨by rw [hr, hs', hretained]; rfl, fun hn => ?_⟩
    rw [hr, hretained] at hn
    exact nomatch hn
  | retire hphase hr => exact ⟨by simp only [stage, enter, hr]; rfl, howns⟩
  | abandon hphase hr => exact ⟨by simp only [stage, enter, hr]; rfl, howns⟩

end Invocation

/-! ## Steps are moves of the pool -/

section

variable [DecidableEq σ]

/-- **A late release leaves every slot as it is.** -/
theorem releaseSlot_late {slot : Fin 16} {session : σ} {reply : Outcome ReleaseReply}
    {custody : Custody σ} (h : custody.slots slot ≠ .retained session) :
    (Quint.releaseSlot slot session reply custody).1.slots = custody.slots := by
  by_cases hreply : reply = .ok .resourcesReleased
  · rw [hreply, releaseSlot_released, if_neg h]
    rfl
  · rw [releaseSlot_refused hreply]

/-- A release changes no slot but one that retains the session, which it vacates. -/
theorem releaseSlot_slots {slot : Fin 16} {session : σ} {reply : Outcome ReleaseReply}
    {custody : Custody σ} (l : Fin 16) :
    (Quint.releaseSlot slot session reply custody).1.slots l = custody.slots l ∨
      custody.slots l = .retained session ∧
      (Quint.releaseSlot slot session reply custody).1.slots l = .vacant := by
  by_cases hreply : reply = .ok .resourcesReleased
  · by_cases hslot : custody.slots slot = .retained session
    · rw [hreply, releaseSlot_released, if_pos hslot]
      by_cases hl : l = slot
      · rw [hl]
        exact .inr ⟨hslot, Function.update_self _ _ _⟩
      · exact .inl (Function.update_of_ne hl _ _)
    · exact .inl (congrFun (releaseSlot_late hslot) l)
  · exact .inl (by rw [releaseSlot_refused hreply])

/-- The sweep changes no slot but those whose session is released. -/
theorem sweep_slots {replies : Fin 16 → Outcome ReleaseReply} {l : Fin 16} {value : SessionSlot σ}
    (hvalue : ∀ session, value ≠ .retained session) :
    ∀ (indices : List (Fin 16)) {custody : Custody σ},
    custody.slots l = value → (indices.foldl (Quint.sweepSlot replies) custody).slots l = value
  | [], _, h => h
  | index :: indices, custody, h => by
    refine sweep_slots hvalue indices ?_
    unfold Quint.sweepSlot
    split
    · rename_i session hslot
      rcases @releaseSlot_slots σ _ index session (replies index) custody l with hsame |
        ⟨hretained, -⟩
      · rw [hsame, h]
      · exact absurd (h.symm.trans hretained) (hvalue session)
    · exact h

/-- A claimed slot stays claimed while others claim. -/
theorem claimSlot_claimed {replies : Fin 16 → Outcome ReleaseReply} {custody : Custody σ}
    {k : Fin 16} (h : custody.slots k = .claimed) :
    (Quint.claimSlot replies custody).1.slots k = .claimed := by
  unfold Quint.claimSlot
  generalize List.finRange 16 = indices
  have hswept : (indices.foldl (Quint.sweepSlot replies) custody).slots k = .claimed :=
    sweep_slots (by rintro session ⟨⟩) indices h
  dsimp only
  split
  · rename_i index _
    by_cases hk : k = index
    · rw [hk]
      exact Function.update_self _ _ _
    · exact (Function.update_of_ne hk _ _).trans hswept
  · exact hswept

/-- The pool, with the stages of the invocations. -/
def Custody.pool (custody : Custody σ) (stages : ι → Stage (Fin 16) σ) : Pool ι (Fin 16) σ :=
  ⟨custody.slots, stages, {session | session ∈ custody.released}⟩

variable [DecidableEq ι] {stages : ι → Stage (Fin 16) σ} {custody : Custody σ}

/-- A report adds one session to those that are released. -/
theorem released_report (session : σ) :
    {s | s ∈ (custody.report session).released} = insert session {s | s ∈ custody.released} := by
  ext s
  exact List.mem_cons

/-- Releasing a session gives the slot up that holds it, unless the session is refused. -/
theorem releaseSlot_moves {slot : Fin 16} {session : σ} (reply : Outcome ReleaseReply)
    (h : session ∉ custody.released → custody.slots slot = .retained session) :
    Relation.ReflTransGen Move (custody.pool stages)
      ((Quint.releaseSlot slot session reply custody).1.pool stages) := by
  by_cases hreply : reply = .ok .resourcesReleased
  · rw [hreply, releaseSlot_released]
    by_cases hslot : custody.slots slot = .retained session
    · rw [if_pos hslot]
      have hmove : Move (custody.pool stages)
          (((custody.report session).put slot .vacant).pool stages) := by
        show Move _ ⟨Function.update custody.slots slot .vacant, stages,
          {s | s ∈ (custody.report session).released}⟩
        rw [released_report]
        exact .giveUp hslot
      exact .single hmove
    · -- the slot was given up before, and so the session had been released before
      have hreleased : session ∈ custody.released := by
        by_contra hn
        exact hslot (h hn)
      have hpool : (custody.report session).pool stages = custody.pool stages := by
        have hset : insert session {s | s ∈ custody.released} = {s | s ∈ custody.released} :=
          Set.insert_eq_of_mem hreleased
        rw [Custody.pool, released_report, hset]
        rfl
      rw [if_neg hslot, hpool]
  · rw [releaseSlot_refused hreply]

/-- A turn of the sweep is at most one move of the pool. -/
theorem sweepSlot_moves (replies : Fin 16 → Outcome ReleaseReply) (index : Fin 16) :
    Relation.ReflTransGen Move (custody.pool stages)
      ((Quint.sweepSlot replies custody index).pool stages) := by
  unfold Quint.sweepSlot
  split
  · rename_i session hslot
    exact releaseSlot_moves (replies index) fun _ => hslot
  · exact .refl

/-- **The sweep is a sequence of moves**, by induction on the slots that are still to come. -/
theorem sweep_moves (replies : Fin 16 → Outcome ReleaseReply) :
    ∀ (indices : List (Fin 16)) (custody : Custody σ),
    Relation.ReflTransGen Move (custody.pool stages)
      ((indices.foldl (Quint.sweepSlot replies) custody).pool stages)
  | [], _ => .refl
  | index :: indices, _ => (sweepSlot_moves replies index).trans (sweep_moves replies indices _)

/-- What the test for a vacant slot decides. -/
theorem isVacant_iff {slot : SessionSlot σ} : slot.isVacant = true ↔ slot = .vacant := by
  cases slot <;> simp [SessionSlot.isVacant]

/-- Claiming a slot sweeps the pool, and takes a vacant slot if there is one. -/
theorem claimSlot_moves {replies : Fin 16 → Outcome ReleaseReply} {custody' : Custody σ}
    {slot : Option (Fin 16)} {i : ι} (hi : stages i = .idle)
    (h : Quint.claimSlot replies custody = (custody', slot)) :
    Relation.ReflTransGen Move (custody.pool stages)
      (custody'.pool (Function.update stages i (taken slot))) := by
  unfold Quint.claimSlot at h
  generalize List.finRange 16 = indices at h
  have hsweep := @sweep_moves ι σ _ _ stages replies indices custody
  generalize indices.foldl (Quint.sweepSlot replies) custody = swept at h hsweep
  dsimp only at h
  split at h
  · rename_i index hfind
    obtain ⟨rfl, rfl⟩ := Prod.mk.inj h
    have hvacant : (swept.slots index).isVacant = true := by
      have hfound := List.find?_some hfind
      exact hfound
    exact hsweep.tail (.claim hi (isVacant_iff.mp hvacant))
  · obtain ⟨rfl, rfl⟩ := Prod.mk.inj h
    rw [show taken none = stages i from hi.symm, Function.update_eq_self]
    exact hsweep

/-- **A step of an invocation is a sequence of moves of the pool.** -/
theorem Invocation.Effect.moves {invocation invocation' : Invocation σ} {custody' : Custody σ}
    {action : Action σ} {i : ι} (hi : stages i = invocation.stage)
    (hsound : Sound (custody.pool stages))
    (hfresh : ∀ session, action = .prepare (.ok (.ok session)) →
      ∀ j, (stages j).resource ≠ some session)
    (h : Effect invocation custody action custody' invocation') :
    Relation.ReflTransGen Move (custody.pool stages)
      (custody'.pool (Function.update stages i invocation'.stage)) := by
  -- a session that has not been released is still in its slot
  have hstored : ∀ {slot session}, stages i = .stored slot session → session ∉ custody.released →
      custody.slots slot = .retained session := fun hs hn => hsound.stored i _ _ hs hn
  cases h with
  | wait hs => rw [hs, ← hi, Function.update_eq_self]
  | claim hs hclaim hs' =>
    rw [hs']
    exact claimSlot_moves (hi.trans hs) hclaim
  | prepare hs => exact .single (.prepare (hi.trans hs) (hfresh _ rfl))
  | store hphase =>
    have hs : stages i = .prepared _ _ := hi.trans (by simp only [stage, hphase]; rfl)
    exact .single (.store hs)
  | @release slot session _ _ reply _ hphase hs' =>
    have hs : stages i = .stored slot session := hi.trans (by simp only [stage, hphase])
    rw [hs', ← hs, Function.update_eq_self]
    exact releaseSlot_moves reply (hstored hs)
  | @retire slot session result reply hphase hr =>
    have hs : stages i = .stored slot session := hi.trans (by simp only [stage, hphase, hr])
    -- the slot is given up if it is still owned; the invocation has settled either way
    have hs' : (invocation.enter (.ended (.ok result))).stage =
      .settled session := by simp only [stage, enter, hr]
    rw [hs']
    split
    · exact (releaseSlot_moves reply (hstored hs)).tail (.retire hs)
    · exact .single (.retire hs)
  | @abandon slot result reply hphase hr =>
    have hs : stages i = .claimed slot := hi.trans (by simp only [stage, hphase, hr])
    have hs' : (invocation.enter (.ended (.ok result))).stage =
      .idle := by simp only [stage, enter, hr]
    rw [hs']
    exact .single (.abandon hs)

/-! ## Reachable states -/

/-- The state of the protocol. -/
def System.pool (system : System ι σ) : Pool ι (Fin 16) σ :=
  system.custody.pool fun i => (system.invocations i).stage

/-- The invariant of a run. -/
structure System.Good (system : System ι σ) : Prop where
  sound : Sound system.pool
  coherent : ∀ i, (system.invocations i).Coherent

/-- A step of the system is a step of one invocation, or nothing that the pool could see. -/
theorem Takes.effect {system system' : System ι σ} {i : ι} {action : Action σ}
    (hgood : system.Good) (h : Takes system (.act i action) system') :
    ∃ custody' invocation', (system.invocations i).Effect system.custody action
      custody' invocation' ∧
      system' = { system with
        custody := custody'
        invocations := Function.update system.invocations i invocation' } := by
  obtain ⟨-, hstep⟩ := h
  obtain ⟨⟨custody', invocation'⟩, hinner, rfl⟩ := Option.map_eq_some_iff.mp hstep
  exact ⟨custody', invocation', Invocation.step_effect (hgood.coherent i) hinner, rfl⟩

/-- An invocation that moves changes no other’s stage. -/
theorem update_stage (system : System ι σ) (i : ι) (invocation : Invocation σ) :
    (fun j => (Function.update system.invocations i invocation j).stage) =
      Function.update (fun j => (system.invocations j).stage) i invocation.stage := by
  funext j
  by_cases hj : j = i
  · rw [hj, Function.update_self, Function.update_self]
  · rw [Function.update_of_ne hj, Function.update_of_ne hj]

/-- **A step of the system is a sequence of moves of the pool.** -/
theorem Takes.moves {system system' : System ι σ} {label : Label ι σ} (hgood : system.Good)
    (h : Takes system label system') : Relation.ReflTransGen Move system.pool system'.pool := by
  cases label with
  | settle session =>
    cases Option.some.inj h.2
    exact .refl
  | act i action =>
    obtain ⟨custody', invocation', heffect, rfl⟩ := h.effect hgood
    have hfresh : ∀ session, action = .prepare (.ok (.ok session)) →
        ∀ j, (system.invocations j).stage.resource ≠ some session := by
      rintro session rfl j
      rw [← (hgood.coherent j).retained]
      exact h.1 session rfl j
    rw [System.pool, System.pool, update_stage]
    exact heffect.moves rfl hgood.sound hfresh

/-- **Every step keeps the invariant.** -/
theorem Takes.good {system system' : System ι σ} {label : Label ι σ} (hgood : system.Good)
    (h : Takes system label system') : system'.Good := by
  cases label with
  | settle session =>
    cases Option.some.inj h.2
    exact ⟨hgood.sound, hgood.coherent⟩
  | act i action =>
    obtain ⟨custody', invocation', heffect, rfl⟩ := h.effect hgood
    refine ⟨hgood.sound.moves (h.moves hgood), fun j => ?_⟩
    by_cases hj : j = i
    · rw [hj]
      dsimp only
      rw [Function.update_self]
      exact heffect.coherent (hgood.coherent i)
    · dsimp only
      rw [Function.update_of_ne hj]
      exact hgood.coherent j

/-- It holds before the first invocation. -/
theorem good_start : ({} : System ι σ).Good where
  sound := by
    have hset : {session : σ | session ∈ ([] : List σ)} = ∅ :=
      Set.eq_empty_of_forall_notMem fun _ h => nomatch h
    rw [System.pool, Custody.pool, hset]
    exact sound_start
  coherent _ := ⟨rfl, fun _ => rfl⟩

/-- **The invariant of the protocol holds whatever the interleaving.** -/
theorem Reachable.good {system : System ι σ} (h : Reachable system) : system.Good := by
  obtain ⟨labels, hsteps⟩ := h
  exact hsteps.invariant System.Good Takes.good good_start

/-! ## Custody -/

/-- An invocation has a slot: it holds the claim of it, or the slot retains the session it prepared. -/
def Holds (system : System ι σ) (i : ι) (k : Fin 16) : Prop :=
  (system.invocations i).stage.claim = some k ∨
    ∃ session, (system.invocations i).retained = some session ∧ system.custody.slots k = .retained session

/-- The invocation has begun and has not come back. -/
def Invocation.InProgress (invocation : Invocation σ) : Prop :=
  invocation.phase ≠ .entered ∧ ∀ answer, invocation.phase ≠ .ended answer

/-- **Custody of the sessions.** -/
structure Kept (system : System ι σ) : Prop where
  /-- a session that was not released is in one slot, or about to be stored in the one that is claimed -/
  session : ∀ i session, (system.invocations i).retained = some session → session ∉ system.custody.released →
    (∃! k, system.custody.slots k = .retained session) ∨
      ∃ k, (system.invocations i).phase = .storing k session ∧ system.custody.slots k = .claimed ∧
        ∀ l, system.custody.slots l ≠ .retained session
  holder : ∀ i j k, Holds system i k → Holds system j k → i = j
  idle : (∀ i, ¬ (system.invocations i).InProgress) → ∀ k, system.custody.slots k ≠ .claimed

/-- What a step may do to the slots. -/
structure KeepsCustody (system : System ι σ) (label : Label ι σ) (system' : System ι σ) : Prop where
  /-- a session leaves its slot when it is released, and only then -/
  retained : ∀ k session, system.custody.slots k = .retained session →
    system'.custody.slots k = .retained session ∨ session ∈ system'.custody.released
  /-- a claim is given up by a claimant who has prepared nothing, and only by him -/
  claimed : ∀ k, system.custody.slots k = .claimed → system'.custody.slots k = .vacant →
    ∃ i reply, label = .act i (.leave reply) ∧ Holds system i k ∧ (system.invocations i).retained = none
  /-- nobody changes a slot that has become another's -/
  late : ∀ i action k, label = .act i action →
    ((∃ session initial final, (system.invocations i).phase = .releasing k session initial final) ∨
      ∃ result, (system.invocations i).phase = .leaving k result) →
    ¬ Holds system i k → system'.custody.slots = system.custody.slots

/-- A session that is prepared and not yet stored is in the phase between the two. -/
theorem Invocation.phase_of_prepared {invocation : Invocation σ} {k : Fin 16} {session : σ}
    (h : invocation.stage = .prepared k session) : invocation.phase = .storing k session := by
  unfold stage at h
  split at h
  case h_4 hphase =>
    cases h
    exact hphase
  case h_10 => split at h <;> exact nomatch h
  case h_11 => split at h <;> exact nomatch h
  all_goals exact nomatch h

/-- Only an invocation in progress claims a slot. -/
theorem Invocation.inProgress_of_claim {invocation : Invocation σ} {k : Fin 16}
    (h : invocation.stage.claim = some k) : invocation.InProgress := by
  constructor
  · intro hphase
    simp only [stage, hphase] at h
    exact nomatch h
  · intro answer hphase
    simp only [stage, hphase] at h
    split at h <;> exact nomatch h

/-- **The invariant says what custody means.** -/
theorem System.Good.kept {system : System ι σ} (h : system.Good) : Kept system where
  session i session hr hn := by
    rw [(h.coherent i).retained] at hr
    rcases h.sound.kept hr hn with hone | ⟨k, hs, hk, hl⟩
    · exact .inl hone
    · exact .inr ⟨k, Invocation.phase_of_prepared hs, hk, hl⟩
  holder i j k hi hj := by
    rcases hi with hi | ⟨session, hri, hki⟩ <;> rcases hj with hj | ⟨session', hrj, hkj⟩
    · exact h.sound.claimant i j k hi hj
    · have hk := h.sound.slots_of_claim hi
      exact nomatch hk.symm.trans hkj
    · have hk := h.sound.slots_of_claim hj
      exact nomatch hk.symm.trans hki
    · cases hki.symm.trans hkj
      exact h.sound.maker i j session ((h.coherent i).retained ▸ hri)
        ((h.coherent j).retained ▸ hrj)
  idle hidle k hk := by
    obtain ⟨i, hi⟩ := (h.sound.claimed k).mp hk
    exact hidle i (Invocation.inProgress_of_claim hi)

/-- A session that leaves its slot has been released. -/
theorem Takes.retained {system system' : System ι σ} {label : Label ι σ} (hgood : system.Good)
    (h : Takes system label system') {k : Fin 16} {session : σ}
    (hk : system.custody.slots k = .retained session) :
    system'.custody.slots k = .retained session ∨ session ∈ system'.custody.released :=
  hgood.sound.retained_moves (h.moves hgood) hk

/-- A claimed slot that is vacant after a step was given up by a claimant with nothing to store. -/
theorem Takes.claimed {system system' : System ι σ} {label : Label ι σ} (hgood : system.Good)
    (h : Takes system label system') {k : Fin 16} (hk : system.custody.slots k = .claimed)
    (hk' : system'.custody.slots k = .vacant) :
    ∃ i reply, label = .act i (.leave reply) ∧ Holds system i k ∧
      (system.invocations i).retained = none := by
  -- what does not touch the claim leaves it as it is
  have hstays : system'.custody.slots k ≠ .claimed := by
    rw [hk']
    exact nofun
  cases label with
  | settle session =>
    cases Option.some.inj h.2
    exact absurd hk hstays
  | act i action =>
    obtain ⟨custody', invocation', heffect, rfl⟩ := h.effect hgood
    dsimp only at hk' hstays
    have hrelease : ∀ {slot session reply},
        (Quint.releaseSlot slot session reply system.custody).1.slots k = .claimed := by
      intro slot session reply
      rcases @releaseSlot_slots σ _ slot session reply system.custody k with hsame | ⟨hretained, -⟩
      · rw [hsame, hk]
      · exact nomatch hk.symm.trans hretained
    cases heffect with
    | wait | prepare => exact absurd hk hstays
    | @claim replies _ _ _ hs hclaim =>
      have hkept : (Quint.claimSlot replies system.custody).1.slots k = .claimed :=
        claimSlot_claimed hk
      rw [hclaim] at hkept
      exact absurd hkept hstays
    | @store slot session hphase =>
      by_cases hslot : k = slot
      · rw [hslot] at hk'
        exact nomatch (Function.update_self _ _ _).symm.trans hk'
      · exact absurd ((Function.update_of_ne hslot _ _).trans hk) hstays
    | release => exact absurd hrelease hstays
    | retire =>
      split at hstays
      · exact absurd hrelease hstays
      · exact absurd hk hstays
    | @abandon slot result reply hphase hr =>
      by_cases hslot : k = slot
      · refine ⟨i, reply, rfl, .inl ?_, hr⟩
        simp only [Invocation.stage, hphase, hr, hslot]
        rfl
      · exact absurd ((Function.update_of_ne hslot _ _).trans hk) hstays

/-- An invocation that no longer has its slot changes none. -/
theorem Takes.late {system system' : System ι σ} {i : ι} {action : Action σ} (hgood : system.Good)
    (h : Takes system (.act i action) system') {k : Fin 16}
    (hphase : (∃ session initial final, (system.invocations i).phase = .releasing k session initial
      final) ∨ ∃ result, (system.invocations i).phase = .leaving k result)
    (hlost : ¬ Holds system i k) : system'.custody.slots = system.custody.slots := by
  obtain ⟨custody', invocation', heffect, rfl⟩ := h.effect hgood
  dsimp only
  -- the slot does not retain the session any more
  have hgone : ∀ {session}, (system.invocations i).retained = some session →
      system.custody.slots k ≠ .retained session := fun hr hk => hlost (.inr ⟨_, hr, hk⟩)
  cases heffect with
  | wait | prepare => rfl
  | claim hs =>
    rcases hphase with ⟨session, initial, final, hphase⟩ | ⟨result, hphase⟩
    · simp only [Invocation.stage, hphase] at hs
      exact nomatch hs
    · simp only [Invocation.stage, hphase] at hs
      split at hs <;> exact nomatch hs
  | store hstoring =>
    rcases hphase with ⟨session, initial, final, hphase⟩ | ⟨result, hphase⟩
    · exact nomatch hstoring.symm.trans hphase
    · exact nomatch hstoring.symm.trans hphase
  | @release slot session _ _ reply _ hreleasing =>
    rcases hphase with ⟨session', initial, final, hphase⟩ | ⟨result, hphase⟩
    · cases hreleasing.symm.trans hphase
      have hs : (system.invocations i).stage = .stored k
        session := by simp only [Invocation.stage, hphase]
      exact releaseSlot_late (hgone ((hgood.coherent i).retained_of_stored hs))
    · exact nomatch hreleasing.symm.trans hphase
  | @retire slot session result' reply hleaving hr =>
    rcases hphase with ⟨session', initial, final, hphase⟩ | ⟨result, hphase⟩
    · exact nomatch hleaving.symm.trans hphase
    · cases hleaving.symm.trans hphase
      split
      · exact releaseSlot_late (hgone hr)
      · rfl
  | @abandon slot result' reply hleaving hr =>
    rcases hphase with ⟨session', initial, final, hphase⟩ | ⟨result, hphase⟩
    · exact nomatch hleaving.symm.trans hphase
    · cases hleaving.symm.trans hphase
      refine absurd (.inl ?_) hlost
      simp only [Invocation.stage, hphase, hr]
      rfl

/-- What a step may do to the slots, for every step of a state in which the invariant holds. -/
theorem Takes.keepsCustody {system system' : System ι σ} {label : Label ι σ} (hgood : system.Good)
    (h : Takes system label system') : KeepsCustody system label system' where
  retained _ _ hk := h.retained hgood hk
  claimed _ hk hk' := h.claimed hgood hk hk'
  late i action k hlabel hphase hlost := by
    subst hlabel
    exact h.late hgood hphase hlost

end

/-! ## Two invocations that overlap -/

/-- A result of a process that is still running. -/
def running : TextExecutionResult where
  process := ⟨.notRequested, .other, .unknown, .unknown, none, []⟩
  text := ⟨false, none, ⟨[], 0, .unknown⟩, ⟨[], 0, .unknown⟩⟩

/-- The first invocation observes its session, which settles.  The second then claims a slot: its
    sweep releases the session, and it takes the slot. -/
def overlap : List (Label Bool Nat) :=
  [.act false (.budget (.ok (.ok ⟨false⟩)) false),
    .act false (.claim fun _ => .ok .releaseRefused),
    .act false (.prepare (.ok (.ok 7))),
    .act false .store,
    .act false (.run (.ok running)),
    .settle 7,
    .act true (.budget (.ok (.ok ⟨false⟩)) false),
    .act true (.claim fun slot => if slot = 0 then .ok .resourcesReleased else .ok .releaseRefused)]

/-- What makes no session needs none that is fresh. -/
theorem fresh_of_made_none {system : System ι σ} {label : Label ι σ} (h : label.made = none) :
    Fresh system label := by
  intro session hs
  rw [h] at hs
  cases hs

/-- **The takeover happens**: the sweep of the second invocation releases the session that the first
    still observes, and it has no final snapshot. -/
theorem steps_overlap : ∃ system : System Bool Nat,
    Steps (fun s label t => Takes s label t ∧ Honest s label) {} overlap system ∧
      system.custody.released = [7] ∧ system.custody.slots 0 = .claimed ∧
      (system.invocations false).phase = .observing 0 7 running ∧
      (system.invocations false).retained = some 7 ∧
      (system.invocations false).snapshot = none := by
  refine ⟨_, .cons ⟨⟨fresh_of_made_none rfl, rfl⟩, trivial⟩
    (.cons ⟨⟨fresh_of_made_none rfl, rfl⟩, ?_⟩ (.cons ⟨⟨?_, rfl⟩, trivial⟩
    (.cons ⟨⟨fresh_of_made_none rfl, rfl⟩, trivial⟩
    (.cons ⟨⟨fresh_of_made_none rfl, rfl⟩, trivial⟩ (.cons ⟨⟨fresh_of_made_none rfl, rfl⟩, trivial⟩
      (.cons ⟨⟨fresh_of_made_none rfl, rfl⟩, trivial⟩ (.cons ⟨⟨fresh_of_made_none rfl, rfl⟩, ?_⟩ .refl))))))), rfl, rfl,
      rfl, rfl, rfl⟩
  · exact fun k session hk _ => nomatch hk
  · rintro session - (_ | _) <;> exact nofun
  · -- the first slot retains the session that has settled
    intro k session hk hreply
    by_cases hzero : k = 0
    · subst hzero
      have hseven : 7 = session := Slot.retained.inj hk
      exact List.mem_singleton.mpr hseven.symm
    · have hrefused := (if_neg hzero).symm.trans hreply
      exact nomatch hrefused

/-- **Nothing is lost, duplicated or overwritten**, in any interleaving of any number of invocations. -/
theorem custody_kept {ι σ : Type} [DecidableEq ι] [DecidableEq σ] {system : System ι σ} (h : Reachable system) :
    Kept system ∧ ∀ label system', Takes system label system' → KeepsCustody system label system' :=
  ⟨h.good.kept, fun _ _ htakes => htakes.keepsCustody h.good⟩

/-- After the takeover the first invocation has no slot, and every session is accounted for. -/
theorem custody_kept_overlap : ∃ system : System Bool Nat, system.custody.slots 0 = .claimed ∧
    (system.invocations false).retained = some 7 ∧ Kept system ∧
      ∀ label system', Takes system label system' → KeepsCustody system label system' := by
  obtain ⟨system, hsteps, -, hslot, -, hretained, -⟩ := steps_overlap
  exact ⟨system, hslot, hretained, custody_kept ⟨overlap, hsteps.mono And.left⟩⟩

end FsQuint
