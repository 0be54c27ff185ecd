/-
  The path of a divergence.

  A live replay compares the encodings of two whole states, and looks for the path to report by
  another computation: name by name, in order, over the names that either state binds.

  1. **Pointers** (`pointer_inj`): a path says which name it is for.
  2. **The search** (`encoded_cases`): what the lookup of a name finds in a valid state.
  3. **Some name is found** (`stateText_eq_of_agree`): states that agree on every name have one
     encoding.
  4. **Reports** (`diverged_states`, `run_path`): what a run reports as diverged are valid states, and
     the path is that of the first name on which they do not agree.
-/
import FsQuint.ReplayContract

set_option linter.unusedVariables false

namespace FsQuint.Replay

open Utf16 Collections Decimal Json Unordered ReplayInternal QuintReplay Script

/-! ## Pointers -/

/-- The path that is reported for a name. -/
def pointer (name : UString) : UString :=
  lit "$/bindings/" ++ replace 0x2F "~1" (replace 0x7E "~0" name)

/-- The two replacements, character by character. -/
def pointerChar (c : UInt16) : UString :=
  if c = 0x7E then [0x7E, 0x30] else if c = 0x2F then [0x7E, 0x31] else [c]

/-- The two replacements at once, character by character. -/
theorem replace_replace (name : UString) :
    replace 0x2F "~1" (replace 0x7E "~0" name) = name.flatMap pointerChar := by
  rw [replace, replace, List.flatMap_assoc]
  refine congrArg (name.flatMap ·) (funext fun c => ?_)
  rw [pointerChar]
  by_cases htilde : c = 0x7E
  · rw [if_pos htilde, if_pos htilde]
    decide
  · rw [if_neg htilde, if_neg htilde, List.flatMap_singleton]
    rfl

/-- What is read back from an escaped name. -/
def unescape : UString → UString
  | c :: d :: rest =>
    if c = 0x7E then (if d = 0x30 then 0x7E else 0x2F) :: unescape rest else c :: unescape (d :: rest)
  | short => short

/-- A character other than a tilde stands for itself. -/
theorem unescape_cons {c : UInt16} (h : c ≠ 0x7E) (rest : UString) :
    unescape (c :: rest) = c :: unescape rest := by
  cases rest with
  | nil => rfl
  | cons d rest => rw [unescape, if_neg h]

/-- **The escaping of a name can be undone.** -/
theorem unescape_flatMap : ∀ name : UString, unescape (name.flatMap pointerChar) = name
  | [] => rfl
  | c :: name => by
    rw [List.flatMap_cons, pointerChar]
    by_cases htilde : c = 0x7E
    · rw [if_pos htilde, List.cons_append, List.cons_append, List.nil_append, unescape, if_pos rfl,
        if_pos rfl, unescape_flatMap name, htilde]
    · by_cases hslash : c = 0x2F
      · rw [if_neg htilde, if_pos hslash, List.cons_append, List.cons_append, List.nil_append,
          unescape, if_pos rfl, if_neg (by decide), unescape_flatMap name, hslash]
      · rw [if_neg htilde, if_neg hslash, List.singleton_append, unescape_cons htilde,
          unescape_flatMap name]

/-- **A path says which name it is for.** -/
theorem pointer_inj {name other : UString} (h : pointer name = pointer other) : name = other := by
  have htail := List.append_cancel_left h
  rw [replace_replace, replace_replace] at htail
  rw [← unescape_flatMap name, htail, unescape_flatMap]

/-- The path of a binding is not that of the state. -/
theorem pointer_ne_root (name : UString) : pointer name ≠ lit "$" := by
  intro h
  have hlength := congrArg List.length h
  rw [pointer, List.length_append, show (lit "$/bindings/").length = 11 from by decide,
    show (lit "$").length = 1 from by decide] at hlength
  omega

/-! ## What a name is bound to -/

/-- A state binds a name to a value with a given encoding. -/
def BindsTo (state : QuintReplayState) (name : NString) (text : UString) : Prop :=
  ∃ v, (name, v) ∈ state.bindings ∧ encodeValue v = .ok (.ok text)

/-- Both states bind a name, and to one encoding. -/
def AgreeOn (expected actual : QuintReplayState) (name : NString) : Prop :=
  ∃ text, BindsTo expected name text ∧ BindsTo actual name text

/-- The names that one of two states binds. -/
def boundNames (expected actual : QuintReplayState) : List NString :=
  (expected.bindings ++ actual.bindings).map Prod.fst

/-- A name is the first on which two states do not agree: one of them binds it, they do not both bind
    it to one encoding, and they do so with every smaller name that one of them binds. -/
structure FirstDiffers (expected actual : QuintReplayState) (name : UString) : Prop where
  bound : some name ∈ boundNames expected actual
  differs : ¬ AgreeOn expected actual (some name)
  before : ∀ other ∈ boundNames expected actual, other ≠ some name →
    ordinal.nullFirst.le other (some name) = true → AgreeOn expected actual other

/-- In a valid state a name is bound to the text of the value that it is bound to. -/
theorem bindsTo_iff {state : QuintReplayState} (h : ValidContent state) {name : NString}
    {text : UString} :
    BindsTo state name text ↔ ∃ v, (name, v) ∈ state.bindings ∧ valueText v = text := by
  refine exists_congr fun v => and_congr_right fun hmem => ?_
  rcases encodeAt_spec "$" v with ⟨-, he⟩ | ⟨hv, -⟩
  · rw [encodeValue, he, Except.ok.injEq, Except.ok.injEq]
  · exact absurd (validFields_iff.mp h.2 _ hmem) hv

/-- A valid state binds a name once. -/
theorem BindsTo.unique {state : QuintReplayState} (h : ValidContent state) {name : NString}
    {text other : UString} (ht : BindsTo state name text) (ho : BindsTo state name other) :
    text = other := by
  obtain ⟨v, hv, rfl⟩ := (bindsTo_iff h).mp ht
  obtain ⟨w, hw, rfl⟩ := (bindsTo_iff h).mp ho
  have hvw := List.inj_on_of_nodup_map h.1.1 hv hw rfl
  rw [(Prod.mk.inj hvw).2]

/-- What the lookup of a name finds in a valid state: the encoding of its binding, or nothing. -/
theorem encoded_cases {state : QuintReplayState} (h : ValidContent state) (name : NString) :
    (∃ text, BindsTo state name text ∧ encoded name state.bindings = .ok (some (.ok text))) ∨
    (name ∉ state.bindings.map Prod.fst ∧ encoded name state.bindings = .ok none) := by
  rw [encoded]
  cases hfind : state.bindings.find? fun binding => binding.1 = name with
  | none =>
    refine .inr ⟨fun hmem => ?_, rfl⟩
    obtain ⟨binding, hb, hname⟩ := List.mem_map.mp hmem
    exact absurd (decide_eq_true hname) (List.find?_eq_none.mp hfind binding hb)
  | some binding =>
    have hmem := List.mem_of_find?_eq_some hfind
    have hname : binding.1 = name := by simpa using List.find?_some hfind
    rcases encodeAt_spec "$" binding.2 with ⟨-, he⟩ | ⟨hv, -⟩
    · refine .inl ⟨valueText binding.2, ⟨binding.2, hname ▸ hmem, he⟩, ?_⟩
      simp only [encodeValue, he]
      rfl
    · exact absurd (validFields_iff.mp h.2 binding hmem) hv

/-- What is bound is among the names of the state. -/
theorem BindsTo.mem_names {state : QuintReplayState} {name : NString} {text : UString}
    (h : BindsTo state name text) :
    name ∈ state.bindings.map Prod.fst := by
  obtain ⟨v, hv, -⟩ := h
  exact List.mem_map_of_mem hv

/-- Where a name is bound, the lookups come out equal exactly when the states agree on it. -/
theorem encoded_eq_iff {expected actual : QuintReplayState} (he : ValidContent expected)
    (ha : ValidContent actual) {name : NString} (hname : name ∈ boundNames expected actual) :
    encoded name expected.bindings = encoded name actual.bindings ↔
      AgreeOn expected actual name := by
  rcases encoded_cases he name with ⟨text, ht, hte⟩ | ⟨hne, hte⟩
  · rcases encoded_cases ha name with ⟨other, ho, hoe⟩ | ⟨hna, hoe⟩
    · rw [hte, hoe, Except.ok.injEq, Option.some.injEq, Except.ok.injEq]
      constructor
      · rintro rfl
        exact ⟨text, ht, ho⟩
      · rintro ⟨both, hb, hb'⟩
        rw [ht.unique he hb, ho.unique ha hb']
    · rw [hte, hoe]
      refine iff_of_false (by simp) ?_
      rintro ⟨both, -, hb⟩
      exact hna hb.mem_names
  · rcases encoded_cases ha name with ⟨other, ho, hoe⟩ | ⟨hna, hoe⟩
    · rw [hte, hoe]
      refine iff_of_false (by simp) ?_
      rintro ⟨both, hb, -⟩
      exact hne hb.mem_names
    · rw [boundNames, List.map_append, List.mem_append] at hname
      exact absurd hname (not_or.mpr ⟨hne, hna⟩)

/-! ## Some name is found -/

/-- The names of a valid state, with the encodings to which it binds them. -/
def boundTexts (state : QuintReplayState) : List (UString × UString) :=
  state.bindings.map fun f => (printed f.1, valueText f.2)

/-- A valid state binds each printed name once. -/
theorem nodup_boundTexts {state : QuintReplayState} (h : ValidContent state) :
    ((boundTexts state).map Prod.fst).Nodup := by
  have hnodup := nodup_printed h.1
  rw [List.map_map] at hnodup
  rw [boundTexts, List.map_map]
  exact hnodup

/-- States that agree on the names of one of them: its entries are entries of the other. -/
theorem mem_boundTexts {state other : QuintReplayState} (hs : ValidContent state)
    (ho : ValidContent other)
    (hagree : ∀ name ∈ state.bindings.map Prod.fst, AgreeOn state other name)
    {entry : UString × UString} (h : entry ∈ boundTexts state) : entry ∈ boundTexts other := by
  obtain ⟨f, hf, rfl⟩ := List.mem_map.mp h
  obtain ⟨text, hst, hot⟩ := hagree f.1 (List.mem_map_of_mem hf)
  have htext : valueText f.2 = text := ((bindsTo_iff hs).mpr ⟨f.2, hf, rfl⟩).unique hs hst
  obtain ⟨w, hw, hwt⟩ := (bindsTo_iff ho).mp hot
  exact List.mem_map.mpr ⟨(f.1, w), hw, by rw [hwt, htext]⟩

/-- Agreement is symmetric. -/
theorem AgreeOn.symm {expected actual : QuintReplayState} {name : NString}
    (h : AgreeOn expected actual name) :
    AgreeOn actual expected name := by
  obtain ⟨text, he, ha⟩ := h
  exact ⟨text, ha, he⟩

/-- **States that agree on every name have one encoding.** -/
theorem stateText_eq_of_agree {expected actual : QuintReplayState} (he : ValidContent expected)
    (ha : ValidContent actual)
    (hagree : ∀ name ∈ boundNames expected actual, AgreeOn expected actual name) :
    stateText expected = stateText actual := by
  have hperm : (boundTexts expected).Perm (boundTexts actual) := by
    rw [List.perm_ext_iff_of_nodup (nodup_boundTexts he).of_map (nodup_boundTexts ha).of_map]
    intro entry
    refine ⟨mem_boundTexts he ha fun name hn => hagree name ?_,
      mem_boundTexts ha he fun name hn => (hagree name ?_).symm⟩
    · rw [boundNames, List.map_append]
      exact List.mem_append_left _ hn
    · rw [boundNames, List.map_append]
      exact List.mem_append_right _ hn
  have hsort := sortOn_eq_of_perm ordinal Prod.fst hperm (nodup_boundTexts he)
  rw [stateText, stateText, valueText_record, valueText_record]
  exact congrArg (fun sorted => 0x7B ::
    (concat [0x2C] (sorted.map (fieldText jsonQuoting)) ++ [0x7D])) hsort

variable {platform : Platform}

/-- **The search finds the first name on which the states do not agree.** -/
theorem differingPath_spec {expected actual : QuintReplayState}
    (he : ValidState platform expected) (ha : ValidState platform actual)
    (hne : stateText expected ≠ stateText actual) :
    ∃ name, differingPath expected actual = .ok (pointer name) ∧
      FirstDiffers expected actual name := by
  have hdecide : ∀ name ∈ boundNames expected actual,
      decide (encoded name expected.bindings ≠ encoded name actual.bindings) = false ↔
        AgreeOn expected actual name := by
    intro name hname
    rw [decide_eq_false_iff_not, not_not, encoded_eq_iff he.content ha.content hname]
  rw [differingPath, firstDiffering_eq, ok_bind]
  cases hfind : (sortOn ordinal.nullFirst id (distinct (boundNames expected actual))).find?
      fun name => encoded name expected.bindings ≠ encoded name actual.bindings with
  | none =>
    refine absurd (stateText_eq_of_agree he.content ha.content fun name hname => ?_) hne
    have hmem : name ∈ sortOn ordinal.nullFirst id (distinct (boundNames expected actual)) :=
      mem_sortOn.mpr (mem_distinct.mpr hname)
    exact (hdecide name hname).mp (by simpa using List.find?_eq_none.mp hfind name hmem)
  | some found =>
    have hmem := mem_distinct.mp (mem_sortOn.mp (List.mem_of_find?_eq_some hfind))
    have hdiffers : ¬ AgreeOn expected actual found := by
      rw [← hdecide found hmem, List.find?_some hfind]
      exact Bool.noConfusion
    have hbefore := find?_sortOn_least hfind
    cases found with
    | none =>
      -- no valid state binds the null name
      rw [boundNames, List.map_append, List.mem_append] at hmem
      rcases hmem with hmem | hmem
      · exact absurd rfl (he.content.1.2 none hmem).ne_none
      · exact absurd rfl (ha.content.1.2 none hmem).ne_none
    | some name =>
      refine ⟨name, ?_, hmem, hdiffers, fun other hother hne hle => ?_⟩
      · rw [boundNames] at hfind
        simp only [hfind]
        rfl
      · exact (hdecide other hother).mp (hbefore other (mem_distinct.mpr hother) hne hle)

/-! ## Reports -/

section Reports

variable {ρ : Type} {cancellation : Cancellation ρ} {driver : ReplayDriver ρ} {trace : QuintReplayTrace}

/-- Only a comparison with a valid state decides a divergence. -/
theorem decides_eq_diverged {history : History ρ} {e : Event ρ} {step : Int}
    {action : Option NString} {source : Option QuintReplaySourceBinding} {path : UString}
    {expected actual : QuintReplayState}
    (h : decides platform cancellation history e = .diverged step action source path
      expected actual) :
    e.what = .compared action source expected actual ∧ ValidState platform actual ∧
      differingPath expected actual = .ok path := by
  have hdecision : Decision platform e (decides platform cancellation history e) :=
    decides_cases history e
  rw [h] at hdecision
  cases hdecision with
  | diverged hwhat hv hpath => exact ⟨hwhat, hv, hpath⟩

/-- The comparison of an observation is with the state that the stage expects. -/
theorem comparison_mem_observing {index index' : Int} {action action' : Option NString}
    {source source' : Option QuintReplaySourceBinding} {expected expected' : QuintReplayState}
    (h : .comparison index action source expected ∈ observing index' action' source' expected') :
    expected = expected' := by
  simp only [observing, List.mem_cons, List.not_mem_nil, or_false, reduceCtorEq, false_or,
    Stage.comparison.injEq] at h
  exact h.2.2.2

/-- The states that the script compares with are those of the trace. -/
theorem comparison_mem_rounds {index : Int} {action : Option NString}
    {source : Option QuintReplaySourceBinding} {expected : QuintReplayState} :
    ∀ {before : Int} {steps : List QuintReplayStep},
      .comparison index action source expected ∈ rounds before steps →
      ∃ step ∈ steps, expected = step.expected
  | _, [], h => nomatch h
  | before, step :: steps, h => by
    rw [rounds, List.mem_append, List.mem_append] at h
    rcases h with (h | h) | h
    · simp [applying] at h
    · exact ⟨step, List.mem_cons_self, comparison_mem_observing h⟩
    · obtain ⟨other, hmem, heq⟩ := comparison_mem_rounds h
      exact ⟨other, List.mem_cons_of_mem step hmem, heq⟩

/-- The expected state of a comparison in the script of a valid trace is valid. -/
theorem validState_of_comparison (hv : ValidTrace platform trace) {index : Int}
    {action : Option NString} {source : Option QuintReplaySourceBinding}
    {expected : QuintReplayState} (h : .comparison index action source expected ∈ script trace) :
    ValidState platform expected := by
  rw [script, List.mem_append, List.mem_append] at h
  rcases h with (h | h) | h
  · simp [opening] at h
  · exact comparison_mem_observing h ▸ hv.initial
  · obtain ⟨step, hmem, rfl⟩ := comparison_mem_rounds h
    obtain ⟨i, hstep⟩ := hv.toValidStructure.step_of_mem hmem
    exact hstep.expected

/-- The record of a comparison was made by a comparison. -/
theorem comparison_of_occurs {stage : Stage} {history : History ρ} {e : Event ρ}
    {action : Option NString} {source : Option QuintReplaySourceBinding}
    {expected actual : QuintReplayState}
    (ho : occurs platform cancellation driver trace stage history e)
    (hwhat : e.what = .compared action source expected actual) :
    ∃ index, stage = .comparison index action source expected := by
  cases stage with
  | comparison index action' source' expected' =>
    obtain ⟨actual', -, rfl⟩ := ho
    obtain ⟨rfl, rfl, rfl, rfl⟩ := Happening.compared.inj hwhat
    exact ⟨index, rfl⟩
  | checkpoint | initializeCall =>
    obtain rfl := ho
    exact nomatch hwhat
  | _ =>
    obtain ⟨_, -, rfl⟩ := ho
    exact nomatch hwhat

/-- **What a run reports as diverged are two valid states with different encodings**, and the path is
    what the search over them comes back with. -/
theorem diverged_states {events : History ρ}
    (h : Follows (occurs platform cancellation driver trace) (fails platform)
      [] (script trace) events)
    {step : Int} {action : Option NString} {source : Option QuintReplaySourceBinding}
    {path : UString} {expected actual : QuintReplayState}
    (hverdict : verdict platform cancellation events = .diverged step action source path
      expected actual) :
    ValidState platform expected ∧ ValidState platform actual ∧
    stateText expected ≠ stateText actual ∧
      differingPath expected actual = .ok path := by
  rw [verdict] at hverdict
  split at hverdict
  · rename_i e he
    obtain ⟨hwhat, hactual, hpath⟩ := decides_eq_diverged hverdict
    have hmem := List.mem_of_find?_eq_some he
    obtain ⟨stage, hstage, past, ho⟩ := h.exists_step e hmem
    obtain ⟨index, rfl⟩ := comparison_of_occurs ho hwhat
    -- a trace that is not valid is not compared with anything
    have hvalid : ValidTrace platform trace := by
      by_contra hinvalid
      obtain ⟨found, -, rfl⟩ := rejected_events h fun hnil =>
        hinvalid ((validateTrace_eq_nil_iff platform).mp hnil)
      rw [List.mem_singleton.mp hmem] at hwhat
      cases hwhat
    have hexpected := validState_of_comparison hvalid hstage
    have hfails := List.find?_some he
    rw [fails, hwhat] at hfails
    refine ⟨hexpected, hactual, fun htext => ?_, hpath⟩
    simp [(encodeAlike_iff hexpected hactual).mpr htext] at hfails
  · cases hverdict

/-- A comparison of two valid states with different encodings. -/
theorem compareStates_diverged {cells : Cells ρ} {expected actual : QuintReplayState}
    {path : UString} (action : Option NString) (source : Option QuintReplaySourceBinding)
    (he : ValidState platform expected) (ha : ValidState platform actual)
    (hne : stateText expected ≠ stateText actual)
    (hpath : differingPath expected actual = .ok path) :
    (compareStates platform expected action source actual cells).2.outcome =
      .diverged cells.index action source path expected actual := by
  rw [compareStates, note_bind, (encodeState_eq_ok_iff platform).mpr ⟨he, rfl⟩,
    (encodeState_eq_ok_iff platform).mpr ⟨ha, rfl⟩, calculate_bind, calculate_bind]
  simp only [if_neg hne, hpath]
  rfl

end Reports

/-- **A reported path names the first binding that differs.**  Comparing two valid states with different
    encodings reports the path of the first name on which they do not agree; whatever a run reports as
    diverged comes with such a path; the path is never that of the whole state, and says which name
    it is for. -/
theorem run_path (platform : Platform) :
    (∀ {ρ : Type} (cells : Cells ρ) (expected : QuintReplayState) (action : Option NString)
      (source : Option QuintReplaySourceBinding) (actual : QuintReplayState) (a b : UString),
      encodeState platform expected = .ok (.ok a) → encodeState platform actual = .ok (.ok b) → a ≠ b →
      ∃ name, (compareStates platform expected action source actual cells).2.outcome =
          .diverged cells.index action source (pointer name) expected actual ∧
        FirstDiffers expected actual name) ∧
    (∀ {ρ : Type} (cancellation : Cancellation ρ) (driver : ReplayDriver ρ) (timeout : Int)
      (trace : QuintReplayTrace) (report : ReplayReport) (step : Int) (action : Option NString)
      (source : Option QuintReplaySourceBinding) (path : UString) (expected actual : QuintReplayState),
      run platform cancellation driver timeout trace = .ok report →
      report.outcome = .diverged step action source path expected actual →
      ∃ name, path = pointer name ∧ FirstDiffers expected actual name) ∧
    (∀ name other, pointer name = pointer other → name = other) ∧
    ∀ name, pointer name ≠ lit "$" := by
  refine ⟨?_, ?_, fun name other => pointer_inj, pointer_ne_root⟩
  · intro ρ cells expected action source actual a b hea hab hne
    obtain ⟨he, rfl⟩ := (encodeState_eq_ok_iff platform).mp hea
    obtain ⟨ha, rfl⟩ := (encodeState_eq_ok_iff platform).mp hab
    obtain ⟨name, hpath, hfirst⟩ := differingPath_spec he ha hne
    exact ⟨name, compareStates_diverged action source he ha hne hpath, hfirst⟩
  -- the outcome is the verdict, and only a comparison of valid states decides a divergence
  · intro ρ cancellation driver timeout trace report step action source path expected
      actual hrun houtcome
    rw [run] at hrun
    split at hrun
    · obtain ⟨hfollows, -, hverdict⟩ := @guarded_follows ρ platform cancellation driver trace
      obtain ⟨-, hcleanup, -, -⟩ := cleanup_spec driver (guarded platform cancellation driver trace)
      rw [← Except.ok.inj hrun, final, hcleanup, hverdict] at houtcome
      obtain ⟨he, ha, hne, hpath⟩ := diverged_states hfollows houtcome
      obtain ⟨name, hname, hfirst⟩ := differingPath_spec he ha hne
      exact ⟨name, Except.ok.inj (hpath.symm.trans hname), hfirst⟩
    · cases hrun

/-- Two states that bind `x` to different integers. -/
theorem run_path_sample :
    ∃ name, (compareStates samplePlatform (sampleState (.integer "1")) none none (sampleState (.integer "2"))
          ({} : Cells Unit)).2.outcome =
        .diverged 0 none none (pointer name) (sampleState (.integer "1")) (sampleState (.integer "2")) ∧
      FirstDiffers (sampleState (.integer "1")) (sampleState (.integer "2")) name :=
  (run_path samplePlatform).1 {} (sampleState (.integer "1"))
  none none (sampleState (.integer "2")) _ _
    ((encodeState_eq_ok_iff samplePlatform).mpr ⟨validState_sampleState rfl, rfl⟩)
    ((encodeState_eq_ok_iff samplePlatform).mpr ⟨validState_sampleState rfl, rfl⟩) (by decide)

end FsQuint.Replay
