/-
  An invocation comes back.

  `executeText` loops: it observes its session, and pauses, until the local tasks have settled or
  `Budget.clip` grants no further delay.  The budget of the cleanup is finite, so that the loop ends,
  and every other place of an invocation is left after one call.

  1. **The calls as they come** (`Moment`, `calls`): what each call would do at each moment, with the
     pool as other invocations have left it.  The script of an invocation follows from these, since
     the place of the invocation says which call it makes.
  2. **A behaviour of the world** (`Behaviour`): moments for ever, and the moment from which the
     budget grants no delay.  Exceptions, refusals and unsettled tasks are all behaviours.
  3. **The rank** (`Phase.remaining`) bounds the calls that are left.  Every step lowers it
     (`Advance.remaining_lt`), and so every behaviour ends in an answer (`Behaviour.answers`).
-/
import FsQuint.InvocationSteps

namespace FsQuint

open Utf16

variable {σ : Type}

/-! ## Moments -/

/-- What each of the calls of `executeText` would do at one moment. -/
structure Moment (σ : Type) where
  /-- the pool, which other invocations share -/
  custody : Custody σ := {}
  budget : Outcome (Except Unit BudgetView)
  cancelled : Bool
  /-- `TryRelease` of the sessions that `claimSlot` finds -/
  claim : Fin 16 → Outcome ReleaseReply
  prepare : Outcome (Except (List UString) σ)
  run : Outcome TextExecutionResult
  observe : Outcome TextExecutionResult
  /-- `Budget.clip` -/
  pause : Outcome (Except Unit Int)
  /-- `TryRelease` of the owner, before the `finally` block and in it -/
  release : Outcome ReleaseReply
  leave : Outcome ReleaseReply

/-- The call that an invocation makes in a place; one that has ended makes none. -/
def Moment.action (moment : Moment σ) : Phase σ → Option (Action σ)
  | .entered => some (.budget moment.budget moment.cancelled)
  | .claiming => some (.claim moment.claim)
  | .preparing _ => some (.prepare moment.prepare)
  | .storing _ _ => some .store
  | .running _ _ => some (.run moment.run)
  | .observing _ _ _ | .finishing _ _ _ => some (.observe moment.observe)
  | .pausing _ _ _ => some (.pause moment.pause)
  | .releasing _ _ _ _ => some (.release moment.release)
  | .leaving _ _ => some (.leave moment.leave)
  | .ended _ => none

/-- A place that pauses asks the budget. -/
theorem Moment.action_pause {moment : Moment σ} {phase : Phase σ} {reply : Outcome (Except Unit Int)}
    (h : moment.action phase = some (.pause reply)) : moment.pause = reply := by
  unfold Moment.action at h
  split at h <;> cases h
  rfl

section

variable [DecidableEq σ]

/-- What an invocation meets from the `k`-th moment on, for at most `fuel` calls. -/
def calls (moment : Nat → Moment σ) : Nat → Nat → Invocation σ → Script σ
  | 0, _, _ => []
  | fuel + 1, k, invocation =>
    match (moment k).action invocation.phase with
    | none => []
    | some action =>
      ((moment k).custody, action) ::
        match invocation.step (moment k).custody action with
        | none => []
        | some (_, next) => calls moment fuel (k + 1) next

end

/-- How the execution package and the other invocations behave, for as long as an invocation lasts. -/
structure Behaviour (σ : Type) where
  moment : Nat → Moment σ
  /-- the moment at which the cleanup budget has run out -/
  window : Nat
  /-- an expired budget clips every delay to nothing -/
  expires : ∀ k ticks, window ≤ k → (moment k).pause = .ok (.ok ticks) → ticks ≤ 0

/-- The script of an invocation in a world that behaves so. -/
def Behaviour.script [DecidableEq σ] (behaviour : Behaviour σ) : Script σ :=
  calls behaviour.moment (2 * behaviour.window + 10) 0 {}

/-! ## The rank -/

/-- A bound on the calls that are left at the `k`-th moment.  A round of the loop takes two calls, and
    no round begins after the window. -/
def Phase.remaining (window k : Nat) : Phase σ → Nat
  | .entered => 2 * (window - k) + 10
  | .claiming => 2 * (window - k) + 9
  | .preparing _ => 2 * (window - k) + 8
  | .storing _ _ => 2 * (window - k) + 7
  | .running _ _ => 2 * (window - k) + 6
  | .observing _ _ _ => 2 * (window - k) + 5
  | .pausing _ _ _ => 2 * (window - k) + 4
  | .finishing _ _ _ => 3
  | .releasing _ _ _ _ => 2
  | .leaving _ _ => 1
  | .ended _ => 0

/-- Nothing is left only when the invocation has ended. -/
theorem Phase.remaining_eq_zero {window k : Nat} {phase : Phase σ}
    (h : phase.remaining window k = 0) : ∃ answer, phase = .ended answer := by
  cases phase <;> first | exact ⟨_, rfl⟩ | exact absurd h (by simp [remaining])

/-- Where the handler of `executeText` takes an exception, more than the `finally` block is left. -/
theorem Interrupts.remaining_gt {window k : Nat} {phase : Phase σ} {slot : Fin 16} {action : Action σ}
    (h : Interrupts phase slot action) : 1 < phase.remaining window k := by
  cases h <;> simp only [Phase.remaining] <;> omega

section

variable [DecidableEq σ] {invocation invocation' : Invocation σ} {custody custody' : Custody σ}
  {action : Action σ}

/-- **Every step lowers the rank.**  The loop is the only place that goes back, from a pause to an
    observation, and a pause before the end of the window costs the window a moment. -/
theorem Invocation.Advance.remaining_lt {window k : Nat}
    (h : invocation.Advance custody action custody' invocation')
    (hexpires : ∀ ticks, window ≤ k → action = .pause (.ok (.ok ticks)) → ticks ≤ 0) :
    invocation'.phase.remaining window (k + 1) < invocation.phase.remaining window k := by
  cases h with
  | escape hphase | decline hphase _ | proceed hphase | crowd hphase _ _ | claim hphase _
  | refuse hphase _ | prepare hphase | store hphase | run hphase | finish hphase
  | release hphase _ | leave hphase =>
    rw [hphase]
    simp only [enter, conclude, quit, judged, Phase.remaining]
    omega
  | observe hphase hnext =>
    rw [hphase]
    rcases hnext with rfl | rfl <;> simp only [enter, Phase.remaining] <;> omega
  | pause hphase hnext =>
    rw [hphase]
    rcases hnext with ⟨rfl, ticks, rfl, hticks⟩ | rfl
    · -- a delay was granted, so that the window has not passed
      have hbefore : k < window := by
        by_contra hpassed
        have hnothing := hexpires ticks (by omega) rfl
        omega
      simp only [enter, Phase.remaining]
      omega
    · simp only [enter, Phase.remaining]
      omega
  | interrupt hinterrupt => exact hinterrupt.remaining_gt

/-- The call that a place makes is one that the place can take. -/
theorem Moment.step_isSome {moment : Moment σ} (h : moment.action invocation.phase = some action) :
    ∃ custody' invocation', invocation.step custody action = some (custody', invocation') := by
  unfold Invocation.step
  cases hphase : invocation.phase with
  | claiming =>
    rw [hphase] at h
    obtain rfl := Option.some.inj h
    generalize hclaim : Quint.claimSlot moment.claim custody = pair
    obtain ⟨pool, slot⟩ := pair
    cases slot <;> (simp only [hclaim]; exact ⟨_, _, rfl⟩)
  | running slot session =>
    rw [hphase] at h
    obtain rfl := Option.some.inj h
    cases moment.run <;> exact ⟨_, _, rfl⟩
  | observing slot session initial | finishing slot session initial =>
    rw [hphase] at h
    obtain rfl := Option.some.inj h
    cases moment.observe <;> exact ⟨_, _, rfl⟩
  | pausing slot session initial =>
    rw [hphase] at h
    obtain rfl := Option.some.inj h
    cases moment.pause <;> exact ⟨_, _, rfl⟩
  | entered | preparing | storing | releasing | leaving =>
    rw [hphase] at h
    obtain rfl := Option.some.inj h
    exact ⟨_, _, rfl⟩
  | ended => rw [hphase] at h; cases h

end

/-! ## An answer -/

section

variable [DecidableEq σ]

/-- With enough fuel for its rank, an invocation follows its calls to the end. -/
theorem Behaviour.ends (behaviour : Behaviour σ) : ∀ (fuel k : Nat) (invocation : Invocation σ),
    invocation.phase.remaining behaviour.window k ≤ fuel →
      ∃ last answer, (calls behaviour.moment fuel k invocation).foldlM Invocation.follow invocation =
        some last ∧ last.phase = .ended answer := by
  intro fuel
  induction fuel with
  | zero =>
    intro k invocation hfuel
    obtain ⟨answer, hended⟩ := Phase.remaining_eq_zero (Nat.le_zero.mp hfuel)
    exact ⟨invocation, answer, rfl, hended⟩
  | succ fuel ih =>
    intro k invocation hfuel
    unfold calls
    cases haction : (behaviour.moment k).action invocation.phase with
    | none =>
      -- only an invocation that has ended makes no call
      have hended : ∃ answer, invocation.phase = .ended answer := by
        cases hphase : invocation.phase <;> rw [hphase] at haction <;>
          first | exact ⟨_, rfl⟩ | cases haction
      obtain ⟨answer, hended⟩ := hended
      exact ⟨invocation, answer, rfl, hended⟩
    | some action =>
      obtain ⟨custody', next, hstep⟩ : ∃ custody' next,
          invocation.step (behaviour.moment k).custody action = some (custody', next) :=
        Moment.step_isSome haction
      have hlower : next.phase.remaining behaviour.window (k + 1) <
          invocation.phase.remaining behaviour.window k := by
        refine (Invocation.step_cases hstep).remaining_lt ?_
        rintro ticks hpassed rfl
        exact behaviour.expires k ticks hpassed (Moment.action_pause haction)
      obtain ⟨last, answer, hfold, hended⟩ := ih (k + 1) next (by omega)
      refine ⟨last, answer, ?_, hended⟩
      have hfollow : invocation.follow ((behaviour.moment k).custody, action) = some next := by
        rw [Invocation.follow, hstep]
        rfl
      simp only [hstep, List.foldlM_cons, hfollow]
      exact hfold

/-- **Whatever the calls do, `executeText` comes back.** -/
theorem Behaviour.answers (behaviour : Behaviour σ) :
    ∃ answer, executeText behaviour.script = some answer := by
  obtain ⟨last, answer, hfold, hended⟩ :=
    behaviour.ends (2 * behaviour.window + 10) 0 {} (Nat.le_refl _)
  refine ⟨answer, ?_⟩
  show (behaviour.script.foldlM Invocation.follow {}).bind _ = _
  rw [Behaviour.script, hfold]
  show last.phase.answer = _
  rw [hended]
  rfl

/-- Every invocation that the tool begins meets a world that behaves. -/
def World.Responsive (world : World σ) : Prop :=
  ∀ call, ∃ behaviour : Behaviour σ, world.sessions call = behaviour.script

/-- Every call of `executeText` in such a world comes back. -/
theorem World.Responsive.answers {world : World σ} (h : world.Responsive) (call : Launch) :
    ∃ answer, executeText (world.sessions call) = some answer := by
  obtain ⟨behaviour, hsessions⟩ := h call
  rw [hsessions]
  exact behaviour.answers

/-- So does the body of the tool, which calls it at most twice. -/
theorem World.Responsive.attempt {world : World σ} (h : world.Responsive) (request : QuintRequest)
    (path : UString) : ∃ reply, (Quint.attempt world request path).answer = some reply := by
  obtain ⟨probe, hprobe⟩ := h.answers (Quint.versionLaunch request path)
  obtain ⟨work, hwork⟩ := h.answers (Quint.workLaunch request path)
  unfold Quint.attempt Quint.workload Quint.execute
  simp only [hprobe, hwork]
  cases world.hash path with
  | error e => exact ⟨_, rfl⟩
  | ok digest =>
    dsimp only
    split
    · exact ⟨_, rfl⟩
    · cases probe with
      | error e => exact ⟨_, rfl⟩
      | ok result =>
        dsimp only
        split
        · exact ⟨_, rfl⟩
        · split
          · exact ⟨_, rfl⟩
          · cases work <;> exact ⟨_, rfl⟩

end

end FsQuint
