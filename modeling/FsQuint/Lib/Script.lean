/-
  Runs that follow a script and stop at the first failure.

  A script lists the steps of a run in which nothing goes wrong.  `occurs step history event` says
  which event a step gives rise to, after the events so far; `fails` says which events end the run.

  1. **The relation** (`Follows`): the run takes the steps in order, up to the end of the script or
     up to and including the first event that fails.
  2. **Building runs** (`append`, `extend`): a clean run of one script goes on with the next one; a
     run that has stopped is a run of every longer script.
  3. **Taking runs apart** (`of_append`, `split_at`, `pass`): what precedes an event is clean, and is
     a run of what precedes its step.
  4. **What an observer sees** (`filterMap_isPrefix`, `filterMap_of_clean`): a prefix of what the
     script shows, and all of it when nothing failed.  `latest` is what was seen last.
-/
import Mathlib.Data.List.Basic

namespace Script

variable {Step Event : Type} {occurs : Step → List Event → Event → Prop} {fails : Event → Bool}

variable (occurs fails) in
/-- After `history`, the run goes through the steps of the script in order, and ends with the script
    or right after the first event that fails. -/
inductive Follows : List Event → List Step → List Event → Prop
  | finish {history : List Event} : Follows history [] []
  | stop {history : List Event} {step : Step} {script : List Step} {event : Event} :
      occurs step history event → fails event = true → Follows history (step :: script) [event]
  | advance {history : List Event} {step : Step} {script : List Step} {event : Event} {events : List Event} :
      occurs step history event → fails event = false → Follows (history ++ [event]) script events →
        Follows history (step :: script) (event :: events)

variable (fails) in
/-- Nothing failed. -/
def Clean (events : List Event) : Prop := ∀ e ∈ events, fails e = false

/-- Nothing has failed where nothing has happened. -/
theorem clean_nil : Clean fails [] := fun _ h => absurd h List.not_mem_nil

/-- Cleanness, event by event. -/
theorem clean_cons {e : Event} {events : List Event} :
    Clean fails (e :: events) ↔ fails e = false ∧ Clean fails events := List.forall_mem_cons

/-- And part by part. -/
theorem clean_append {first second : List Event} :
    Clean fails (first ++ second) ↔ Clean fails first ∧ Clean fails second := List.forall_mem_append

/-! ## Building runs -/

/-- A clean run goes on with the next script. -/
theorem Follows.append {history first : List Event} {script : List Step}
    (h : Follows occurs fails history script first) (hc : Clean fails first) {script' : List Step}
    {second : List Event} (h' : Follows occurs fails (history ++ first) script' second) :
    Follows occurs fails history (script ++ script') (first ++ second) := by
  induction h with
  | finish => simpa using h'
  | stop ho hf =>
    have hfalse := (clean_cons.mp hc).1
    rw [hf] at hfalse
    exact absurd hfalse (by decide)
  | advance ho hf _ ih =>
    refine .advance ho hf (ih (clean_cons.mp hc).2 ?_)
    simpa using h'

/-- A run that has stopped is a run of every longer script. -/
theorem Follows.extend {history events : List Event} {script : List Step}
    (h : Follows occurs fails history script events) (hc : ¬ Clean fails events)
    (script' : List Step) :
    Follows occurs fails history (script ++ script') events := by
  induction h with
  | finish => exact absurd clean_nil hc
  | stop ho hf => exact .stop ho hf
  | advance ho hf _ ih => exact .advance ho hf (ih fun htail => hc (clean_cons.mpr ⟨hf, htail⟩))

/-! ## Taking runs apart -/

/-- A run of two scripts stops in the first, or completes it and goes on with the second. -/
theorem Follows.of_append {script script' : List Step} : ∀ {history events : List Event},
    Follows occurs fails history (script ++ script') events →
      (Follows occurs fails history script events ∧ ¬ Clean fails events) ∨
      ∃ first second, events = first ++ second ∧ Follows occurs fails history script first ∧
        Clean fails first ∧ Follows occurs fails (history ++ first) script' second := by
  induction script with
  | nil =>
    intro history events h
    refine .inr ⟨[], events, rfl, .finish, clean_nil, ?_⟩
    simpa using h
  | cons step script ih =>
    intro history events h
    cases h with
    | stop ho hf =>
      refine .inl ⟨.stop ho hf, fun hc => ?_⟩
      rw [(clean_cons.mp hc).1] at hf
      exact absurd hf (by decide)
    | advance ho hf htail =>
      rcases ih htail with ⟨hstop, hc⟩ | ⟨first, second, rfl, hfirst, hclean, hsecond⟩
      · exact .inl ⟨.advance ho hf hstop, fun h => hc (clean_cons.mp h).2⟩
      · refine .inr ⟨_ :: first, second, rfl, .advance ho hf hfirst,
          clean_cons.mpr ⟨hf, hclean⟩, ?_⟩
        simpa using hsecond

/-- **What precedes an event is clean, and is a run of what precedes its step.**  Nothing follows an
    event that fails; after any other the run goes on with the rest of the script. -/
theorem Follows.split_at {history before after : List Event} {event : Event} {script : List Step}
    (h : Follows occurs fails history script (before ++ event :: after)) :
    ∃ script₁ step script₂, script = script₁ ++ step :: script₂ ∧
      Follows occurs fails history script₁ before ∧ Clean fails before ∧
      occurs step (history ++ before) event ∧
      ((fails event = true ∧ after = []) ∨
        (fails event = false ∧ Follows occurs fails (history ++ before ++ [event])
          script₂ after)) := by
  induction before generalizing history script with
  | nil =>
    cases h with
    | stop ho hf => exact ⟨[], _, _, rfl, .finish, clean_nil, by simpa using ho, .inl ⟨hf, rfl⟩⟩
    | advance ho hf htail =>
      exact ⟨[], _, _, rfl, .finish, clean_nil, by simpa using ho, .inr ⟨hf, by simpa using htail⟩⟩
  | cons first before ih =>
    generalize hevents : first :: before ++ event :: after = events at h
    cases h with
    | finish => exact absurd hevents (by simp)
    | stop ho hf => exact absurd (List.cons.inj hevents).2 (by simp)
    | @advance _ step _ _ _ ho hf htail =>
      obtain ⟨rfl, rfl⟩ := List.cons.inj hevents
      obtain ⟨script₁, step', script₂, rfl, hbefore, hclean, hoccurs, hlast⟩ := ih htail
      refine ⟨step :: script₁, step', script₂, rfl, .advance ho hf hbefore,
        clean_cons.mpr ⟨hf, hclean⟩, ?_, ?_⟩
      · simpa using hoccurs
      · simpa using hlast

/-- A clean run of two scripts is a clean run of one and then of the other. -/
theorem Follows.append_of_clean {history events : List Event} {script script' : List Step}
    (h : Follows occurs fails history (script ++ script') events) (hc : Clean fails events) :
    ∃ first second, events = first ++ second ∧ Follows occurs fails history script first ∧
      Clean fails first ∧ Follows occurs fails (history ++ first) script' second ∧
      Clean fails second := by
  rcases h.of_append with ⟨-, hdirty⟩ | ⟨first, second, rfl, hfirst, hclean, hsecond⟩
  · exact absurd hc hdirty
  · exact ⟨first, second, rfl, hfirst, hclean, hsecond, (clean_append.mp hc).2⟩

/-- A clean run of a script that is not empty begins with an event of its first step. -/
theorem Follows.cons_of_clean {history events : List Event} {step : Step} {script : List Step}
    (h : Follows occurs fails history (step :: script) events) (hc : Clean fails events) :
    ∃ event rest, events = event :: rest ∧ occurs step history event ∧ fails event = false ∧
      Follows occurs fails (history ++ [event]) script rest ∧ Clean fails rest := by
  cases h with
  | stop ho hf =>
    rw [(clean_cons.mp hc).1] at hf
    exact absurd hf (by decide)
  | advance ho hf htail => exact ⟨_, _, rfl, ho, hf, htail, (clean_cons.mp hc).2⟩

/-- Every event arises from a step of the script. -/
theorem Follows.exists_step {history events : List Event} {script : List Step}
    (h : Follows occurs fails history script events) :
    ∀ event ∈ events, ∃ step ∈ script, ∃ past, occurs step past event := by
  induction h with
  | finish => exact fun event he => absurd he List.not_mem_nil
  | @stop history step script event ho hf =>
    intro event' he
    rw [List.mem_singleton.mp he]
    exact ⟨step, List.mem_cons_self, history, ho⟩
  | @advance history step script event events ho hf _ ih =>
    intro event' he
    rcases List.mem_cons.mp he with rfl | he
    · exact ⟨step, List.mem_cons_self, history, ho⟩
    · obtain ⟨step', hs, past, hpast⟩ := ih event' he
      exact ⟨step', List.mem_cons_of_mem step hs, past, hpast⟩

/-- A clean run is as long as its script. -/
theorem Follows.length_of_clean {history events : List Event} {script : List Step}
    (h : Follows occurs fails history script events) (hc : Clean fails events) :
    events.length = script.length := by
  induction h with
  | finish => rfl
  | stop ho hf =>
    rw [(clean_cons.mp hc).1] at hf
    exact absurd hf (by decide)
  | advance ho hf _ ih => rw [List.length_cons, List.length_cons, ih (clean_cons.mp hc).2]

/-- A step that cannot fail is passed. -/
theorem Follows.pass {history events : List Event} {step : Step} {script : List Step}
    (h : Follows occurs fails history (step :: script) events)
    (hpass : ∀ event, occurs step history event → fails event = false) :
    ∃ event rest, events = event :: rest ∧ occurs step history event ∧
      Follows occurs fails (history ++ [event]) script rest := by
  cases h with
  | stop ho hf =>
    rw [hpass _ ho] at hf
    exact absurd hf (by decide)
  | advance ho hf htail => exact ⟨_, _, rfl, ho, htail⟩

/-- A script of one step gives rise to one event. -/
theorem Follows.singleton {history events : List Event} {step : Step}
    (h : Follows occurs fails history [step] events) :
    ∃ event, events = [event] ∧ occurs step history event := by
  cases h with
  | stop ho _ => exact ⟨_, rfl, ho⟩
  | advance ho _ h =>
    cases h
    exact ⟨_, rfl, ho⟩

/-- A step that cannot but fail is the last. -/
theorem Follows.last {history events : List Event} {step : Step} {script : List Step}
    (h : Follows occurs fails history (step :: script) events)
    (hlast : ∀ event, occurs step history event → fails event = true) :
    ∃ event, events = [event] ∧ occurs step history event := by
  cases h with
  | stop ho _ => exact ⟨_, rfl, ho⟩
  | advance ho hf _ =>
    rw [hlast _ ho] at hf
    exact absurd hf (by decide)

/-- A run that is not clean ends with its only failure. -/
theorem Follows.exists_failure {history events : List Event} {script : List Step}
    (h : Follows occurs fails history script events) (hc : ¬ Clean fails events) :
    ∃ before event, events = before ++ [event] ∧ Clean fails before ∧ fails event = true := by
  induction h with
  | finish => exact absurd clean_nil hc
  | stop ho hf => exact ⟨[], _, rfl, clean_nil, hf⟩
  | @advance _ _ _ event _ ho hf _ ih =>
    obtain ⟨before, last, rfl, hclean, hlast⟩ := ih fun htail => hc (clean_cons.mpr ⟨hf, htail⟩)
    exact ⟨event :: before, last, rfl, clean_cons.mpr ⟨hf, hclean⟩, hlast⟩

/-- A search for a failure finds none. -/
theorem find?_of_clean {events : List Event} (h : Clean fails events) :
    events.find? fails = none := by
  rw [List.find?_eq_none]
  intro e he
  rw [h e he]
  decide

/-- And finds the failure after what is clean. -/
theorem find?_failure {before : List Event} {event : Event} (h : Clean fails before)
    (hf : fails event = true) (after : List Event) :
    (before ++ event :: after).find? fails = some event := by
  rw [List.find?_append, find?_of_clean h, Option.none_or, List.find?_cons_of_pos hf]

/-! ## What an observer sees -/

section Views

variable {View : Type} {ofStep : Step → Option View} {ofEvent : Event → Option View}

/-- A run shows a prefix of what its script shows. -/
theorem Follows.filterMap_isPrefix {history events : List Event} {script : List Step}
    (h : Follows occurs fails history script events)
    (view : ∀ step history event, occurs step history event → ofEvent event = ofStep step) :
    events.filterMap ofEvent <+: script.filterMap ofStep := by
  induction h with
  | finish => exact List.prefix_rfl
  | @stop history step script event ho hf =>
    rw [List.filterMap_cons, List.filterMap_cons, view _ _ _ ho]
    cases ofStep step with
    | none => exact List.nil_prefix
    | some v => exact ⟨_, rfl⟩
  | @advance history step script event events ho hf _ ih =>
    rw [List.filterMap_cons, List.filterMap_cons, view _ _ _ ho]
    cases ofStep step with
    | none => exact ih
    | some v => exact List.cons_prefix_cons.mpr ⟨rfl, ih⟩

/-- A clean run shows all that its script shows. -/
theorem Follows.filterMap_of_clean {history events : List Event} {script : List Step}
    (h : Follows occurs fails history script events) (hc : Clean fails events)
    (view : ∀ step history event, occurs step history event → ofEvent event = ofStep step) :
    events.filterMap ofEvent = script.filterMap ofStep := by
  induction h with
  | finish => rfl
  | stop ho hf =>
    rw [(clean_cons.mp hc).1] at hf
    exact absurd hf (by decide)
  | @advance history step script event events ho hf _ ih =>
    rw [List.filterMap_cons, List.filterMap_cons, view _ _ _ ho, ih (clean_cons.mp hc).2]

end Views

/-! ## The latest view -/

section Latest

variable {View : Type} (view : Event → Option View)

/-- What the last visible event shows. -/
def latest (events : List Event) : Option View := (events.filterMap view).getLast?

/-- What was seen last: at the last event, or before it. -/
theorem latest_append_singleton (events : List Event) (event : Event) :
    latest view (events ++ [event]) = (view event).or (latest view events) := by
  rw [latest, latest, List.filterMap_append, List.getLast?_append, List.filterMap_cons,
    List.filterMap_nil]
  cases view event <;> rfl

end Latest

end Script
