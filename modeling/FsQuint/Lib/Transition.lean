/-
  Transition systems whose steps carry labels.

  1. **Runs** (`Steps`): the labels of the steps of a run, in order, and the state it ends in.
  2. **Invariants**: what a step preserves, a run preserves (`invariant`); a fact about a state and
     the labels before it is proved by extending the past by one label (`history`).
  3. **Partial functions as steps** (`of_foldlM`): running a list of labels through a function that
     may refuse one gives a run.
-/
import Mathlib.Data.List.Basic

namespace Transition

variable {State Label : Type} {step step' : State → Label → State → Prop}

variable (step) in
/-- A run from a state, with the labels of its steps. -/
inductive Steps (start : State) : List Label → State → Prop
  | refl : Steps start [] start
  | snoc {past : List Label} {label : Label} {s t : State} :
      Steps start past s → step s label t → Steps start (past ++ [label]) t

/-- The last step of a run. -/
theorem Steps.of_snoc {start t : State} {past : List Label} {label : Label} (h : Steps step start (past ++ [label]) t) :
    ∃ s, Steps step start past s ∧ step s label t := by
  generalize hpast : past ++ [label] = labels at h
  cases h with
  | refl => exact absurd hpast (by simp)
  | snoc h hs =>
    obtain ⟨rfl, rfl⟩ := List.append_singleton_inj.mp hpast
    exact ⟨_, h, hs⟩

/-- **What every step preserves holds at the end of a run.** -/
theorem Steps.invariant {start s : State} {past : List Label} (h : Steps step start past s)
    (P : State → Prop) (hstep : ∀ {s label t}, P s → step s label t → P t) (hstart : P start) :
    P s := by
  induction h with
  | refl => exact hstart
  | snoc _ hs ih => exact hstep ih hs

/-- A fact about the past and the state, along a run. -/
theorem Steps.history {start s : State} {past : List Label} (h : Steps step start past s)
    (P : List Label → State → Prop)
    (hstep : ∀ {past s label t}, P past s → step s label t → P (past ++ [label]) t)
    (hstart : P [] start) : P past s := by
  induction h with
  | refl => exact hstart
  | snoc _ hs ih => exact hstep ih hs

/-- A run of one system is a run of every system that has its steps. -/
theorem Steps.mono {start s : State} {past : List Label} (h : Steps step start past s)
    (hstep : ∀ {s label t}, step s label t → step' s label t) : Steps step' start past s := by
  induction h with
  | refl => exact .refl
  | snoc _ hs ih => exact .snoc ih (hstep hs)

/-- A run of one step. -/
theorem Steps.single {s t : State} {label : Label} (h : step s label t) : Steps step s [label] t :=
  @Steps.snoc _ _ step s [] label s t .refl h

/-- A run after a run. -/
theorem Steps.trans {start s t : State} {past future : List Label} (h : Steps step start past s)
    (h' : Steps step s future t) : Steps step start (past ++ future) t := by
  induction h' with
  | refl => rwa [List.append_nil]
  | snoc _ hs ih =>
    rw [← List.append_assoc]
    exact .snoc ih hs

/-- A run after a step. -/
theorem Steps.cons {s t u : State} {label : Label} {labels : List Label} (h : step s label t)
    (h' : Steps step t labels u) : Steps step s (label :: labels) u := (Steps.single h).trans h'

/-- Labels run through a partial function. -/
theorem Steps.of_foldlM {next : State → Label → Option State} {labels : List Label} :
    ∀ {s t : State}, labels.foldlM next s = some t →
      Steps (fun s label t => next s label = some t) s labels t := by
  induction labels with
  | nil =>
    intro s t h
    rw [List.foldlM_nil] at h
    cases h
    exact .refl
  | cons label labels ih =>
    intro s t h
    rw [List.foldlM_cons] at h
    obtain ⟨u, hu, h⟩ := Option.bind_eq_some_iff.mp h
    exact .cons hu (ih h)

end Transition
