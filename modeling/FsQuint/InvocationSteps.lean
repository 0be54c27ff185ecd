/-
  The ways in which one step of an invocation can go.

  `Invocation.step` is a match over the place of the invocation and what happens in it, with further
  matches in what follows the budget, `Prepare`, an observation and the delay.  `Advance` has one
  constructor for each way through them, with the place before it, the pool and the invocation after
  it.  A property that every step keeps is shown for the constructors (`step_cases`).

  Where the code returns, raises or goes on is decided here once.  Custody, the order of the
  snapshots, the evidence of a report and the end of every invocation are shown on top of this, each
  by one case for each constructor.
-/
import FsQuint.Tooling

namespace FsQuint

open Utf16

variable {σ : Type}

/-- The outcomes with which an invocation is turned away before its session runs. -/
inductive Declined : ToolOutcome → Prop
  | cancelled : Declined .cancelled
  | timedOut : Declined .timedOut
  | launchFailure (message : UString) : Declined (.launchFailure message)

/-- An exception that the handler of `executeText` takes, in a place with this slot. -/
inductive Interrupts : Phase σ → Fin 16 → Action σ → Prop
  | prepare {slot : Fin 16} {e : Exn} : Interrupts (.preparing slot) slot (.prepare (.error e))
  | run {slot : Fin 16} {session : σ} {e : Exn} :
      Interrupts (.running slot session) slot (.run (.error e))
  | observe {slot : Fin 16} {session : σ} {initial : TextExecutionResult} {e : Exn} :
      Interrupts (.observing slot session initial) slot (.observe (.error e))
  | pause {slot : Fin 16} {session : σ} {initial : TextExecutionResult} {e : Exn} :
      Interrupts (.pausing slot session initial) slot (.pause (.error e))
  | finish {slot : Fin 16} {session : σ} {initial : TextExecutionResult} {e : Exn} :
      Interrupts (.finishing slot session initial) slot (.observe (.error e))

namespace Invocation

variable [DecidableEq σ]

/-- What one step does. -/
inductive Advance (invocation : Invocation σ) (custody : Custody σ) :
    Action σ → Custody σ → Invocation σ → Prop
  | escape {e : Exn} {cancelled : Bool} : invocation.phase = .entered →
      Advance invocation custody (.budget (.error e) cancelled) custody
        (invocation.enter (.ended (.error e)))
  | decline {remaining : Outcome (Except Unit BudgetView)} {cancelled : Bool}
      {outcome : ToolOutcome} : invocation.phase = .entered → Declined outcome →
      Advance invocation custody (.budget remaining cancelled) custody (invocation.conclude outcome)
  | proceed {view : BudgetView} {cancelled : Bool} : invocation.phase = .entered →
      Advance invocation custody (.budget (.ok (.ok view)) cancelled) custody
        (invocation.enter .claiming)
  /-- no slot is vacant -/
  | crowd {replies : Fin 16 → Outcome ReleaseReply} {custody' : Custody σ} {outcome : ToolOutcome} :
      invocation.phase = .claiming → Quint.claimSlot replies custody = (custody', none) →
      Declined outcome →
      Advance invocation custody (.claim replies) custody' (invocation.conclude outcome)
  | claim {replies : Fin 16 → Outcome ReleaseReply} {custody' : Custody σ} {slot : Fin 16} :
      invocation.phase = .claiming → Quint.claimSlot replies custody = (custody', some slot) →
      Advance invocation custody (.claim replies) custody' (invocation.enter (.preparing slot))
  | refuse {slot : Fin 16} {errors : List UString} {outcome : ToolOutcome} :
      invocation.phase = .preparing slot → Declined outcome →
      Advance invocation custody (.prepare (.ok (.error errors))) custody
        (invocation.quit slot outcome)
  | prepare {slot : Fin 16} {session : σ} : invocation.phase = .preparing slot →
      Advance invocation custody (.prepare (.ok (.ok session))) custody
        { invocation with phase := .storing slot session, retained := some session }
  | store {slot : Fin 16} {session : σ} : invocation.phase = .storing slot session →
      Advance invocation custody .store (custody.put slot (.retained session))
        (invocation.enter (.running slot session))
  | run {slot : Fin 16} {session : σ} {initial : TextExecutionResult} :
      invocation.phase = .running slot session →
      Advance invocation custody (.run (.ok initial)) custody
        ((invocation.rememberStop initial).enter (.observing slot session initial))
  /-- the process has settled, or the loop goes on -/
  | observe {slot : Fin 16} {session : σ} {initial latest : TextExecutionResult} {next : Phase σ} :
      invocation.phase = .observing slot session initial →
      next = .finishing slot session initial ∨ next = .pausing slot session initial →
      Advance invocation custody (.observe (.ok latest)) custody
        ((invocation.rememberStop latest).enter next)
  /-- the budget grants a delay for another round, or there is none -/
  | pause {slot : Fin 16} {session : σ} {initial : TextExecutionResult} {delay : Except Unit Int}
      {next : Phase σ} : invocation.phase = .pausing slot session initial →
      (next = .observing slot session initial ∧ ∃ ticks, delay = .ok ticks ∧ 0 < ticks) ∨
        next = .finishing slot session initial →
      Advance invocation custody (.pause (.ok delay)) custody (invocation.enter next)
  | finish {slot : Fin 16} {session : σ} {initial final : TextExecutionResult} :
      invocation.phase = .finishing slot session initial →
      Advance invocation custody (.observe (.ok final)) custody
        { invocation.rememberStop final with
          phase := .releasing slot session initial final, snapshot := some final }
  | release {slot : Fin 16} {session : σ} {initial final : TextExecutionResult}
      {reply : Outcome ReleaseReply} {custody' : Custody σ} {released : Bool} :
      invocation.phase = .releasing slot session initial final →
      Quint.releaseSlot slot session reply custody = (custody', released) →
      Advance invocation custody (.release reply) custody'
        (invocation.judged slot initial final released)
  | leave {slot : Fin 16} {result : TextResult} {reply : Outcome ReleaseReply} :
      invocation.phase = .leaving slot result →
      Advance invocation custody (.leave reply) (invocation.cleanUp slot reply custody)
        (invocation.enter (.ended (.ok result)))
  | interrupt {slot : Fin 16} {action : Action σ} : Interrupts invocation.phase slot action →
      Advance invocation custody action custody (invocation.rescue slot)

variable {invocation invocation' : Invocation σ} {custody custody' : Custody σ} {action : Action σ}

/-- The budget is one of three ways. -/
theorem advance_admission {remaining : Outcome (Except Unit BudgetView)} {cancelled : Bool}
    (hphase : invocation.phase = .entered) :
    Advance invocation custody (.budget remaining cancelled) custody
      (invocation.admission remaining cancelled) := by
  unfold admission
  split
  · exact .escape hphase
  · split
    · exact .decline hphase .cancelled
    · split
      · exact .decline hphase .timedOut
      · exact .proceed hphase
  · exact .decline hphase (.launchFailure _)

/-- The preparation is one of four. -/
theorem advance_prepared {slot : Fin 16} {reply : Outcome (Except (List UString) σ)}
    (hphase : invocation.phase = .preparing slot) :
    Advance invocation custody (.prepare reply) custody (invocation.prepared slot reply) := by
  unfold prepared
  split
  · refine .interrupt ?_
    rw [hphase]
    exact .prepare
  · split
    · exact .refuse hphase .timedOut
    · exact .refuse hphase (.launchFailure _)
  · exact .prepare hphase

/-- An observation leads on, or into the delay. -/
theorem advance_observed {slot : Fin 16} {session : σ} {initial latest : TextExecutionResult}
    (hphase : invocation.phase = .observing slot session initial) :
    Advance invocation custody (.observe (.ok latest)) custody
      (invocation.observed slot session initial latest) := by
  unfold observed
  split
  · exact .observe hphase (.inl rfl)
  · exact .observe hphase (.inr rfl)

/-- And the delay back to the observation, or on. -/
theorem advance_paused {slot : Fin 16} {session : σ} {initial : TextExecutionResult}
    {delay : Except Unit Int} (hphase : invocation.phase = .pausing slot session initial) :
    Advance invocation custody (.pause (.ok delay)) custody
      (invocation.paused slot session initial delay) := by
  unfold paused
  split
  · split
    · rename_i ticks hticks
      exact .pause hphase (.inl ⟨rfl, ticks, rfl, hticks⟩)
    · exact .pause hphase (.inr rfl)
  · exact .pause hphase (.inr rfl)

/-- **What a step can do.** -/
theorem step_cases (h : invocation.step custody action = some (custody', invocation')) :
    Advance invocation custody action custody' invocation' := by
  have hinterrupt : ∀ {phase slot}, invocation.phase = phase → Interrupts phase slot action →
      Advance invocation custody action custody (invocation.rescue slot) := by
    rintro _ slot rfl hi
    exact .interrupt hi
  unfold step at h
  split at h
  case h_1 remaining cancelled hphase =>
    cases h
    exact advance_admission hphase
  case h_2 replies hphase =>
    split at h <;> cases h
    · rename_i hclaim
      exact .crowd hphase hclaim (.launchFailure _)
    · rename_i hclaim
      exact .claim hphase hclaim
  case h_3 slot reply hphase =>
    cases h
    exact advance_prepared hphase
  case h_4 slot session hphase =>
    cases h
    exact .store hphase
  case h_5 slot session e hphase =>
    cases h
    exact hinterrupt hphase .run
  case h_6 slot session initial hphase =>
    cases h
    exact .run hphase
  case h_7 slot session initial e hphase =>
    cases h
    exact hinterrupt hphase .observe
  case h_8 slot session initial latest hphase =>
    cases h
    exact advance_observed hphase
  case h_9 slot session initial e hphase =>
    cases h
    exact hinterrupt hphase .pause
  case h_10 slot session initial delay hphase =>
    cases h
    exact advance_paused hphase
  case h_11 slot session initial e hphase =>
    cases h
    exact hinterrupt hphase .finish
  case h_12 slot session initial final hphase =>
    cases h
    exact .finish hphase
  case h_13 slot session initial final reply hphase =>
    generalize hrelease : Quint.releaseSlot slot session reply custody = pair at h
    obtain ⟨pool, released⟩ := pair
    cases h
    exact .release hphase hrelease
  case h_14 slot result reply hphase =>
    cases h
    exact .leave hphase
  case h_15 => cases h

end Invocation

end FsQuint
