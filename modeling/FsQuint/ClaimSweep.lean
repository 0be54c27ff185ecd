/-
  The sweep over all open pull requests: it revokes, and does nothing else.

  1. **One pull request** (`sweepPull_visits`) — a check run is submitted exactly if the verdict is a finding and
     a success stands, and only three things end the whole sweep there.
  2. **One entry** (`sweepOne_posted`, `sweepOne_ends`) — what the listing has for a pull request is a document of
     any kind, and one that is no object ends the sweep as well.
  3. **The run** (`sweep_submits`, `sweep_ends_iff`) — the entries of the listing are gone over one after the other,
     up to the first that ends the sweep, and no other one matters for any of them.  The listing is what `gh`
     prints, without the lines that are no documents.
-/
import FsQuint.ClaimFence

namespace FsQuint

open PythonJson

namespace ClaimGeneration

variable {args : Options} {entry : Json} {pr : PullRequest} {github : GitHub} {payload : Payload} {sha : Text}
  {finding : Option Finding} {raised : Raised}

/-! ## One pull request -/

/-- What a sweep looks at: a pull request that delivers an item, and the verdict over it. -/
structure Judges (args : Options) (pr : PullRequest) (github : GitHub) (sha : Text) (finding : Option Finding) :
    Prop where
  head : pr.sha = some sha
  wellFormed : isHeadSha (lower sha) = true
  verdict : ∃ ref per body state, pr.ref = some ref ∧ itemArgs args ref sha = .ok (some per) ∧ pr.body = some body ∧
    evaluate per args.runtime body github = .ok (finding, state)

/-- A finding where a success stands. -/
structure Revokes (args : Options) (pr : PullRequest) (github : GitHub) (sha : Text) (found : Finding) : Prop where
  judges : Judges args pr github sha (some found)
  standing : standingConclusion args.repo sha args.runtime github = .ok (some "success")
  real : args.dryRun = false

/-- What ends a sweep at a pull request that has been read: a number that the interpreter does not convert, an
    exception that is no failed read, or a submission that times out. -/
inductive PullEnds (args : Options) (pr : PullRequest) (github : GitHub) : Prop where
  | number {ref sha digits : Text} : pr.ref = some ref → pr.sha = some sha → isHeadSha (lower sha) = true →
      itemBranch ref = some digits → naturalOf digits = none → PullEnds args pr github
  | standing {sha : Text} {finding : Option Finding} : Judges args pr github sha finding →
      standingConclusion args.repo sha args.runtime github = .error .other → PullEnds args pr github
  | submission {sha : Text} {found : Finding} : Revokes args pr github sha found →
      github.post (postPath args.repo) (revocation sha "success" found) ∈
        ({.timedOut, .broke} : Set (Attempt Unit)) → PullEnds args pr github

/-- A submission ends the sweep when it takes too long or breaks. -/
theorem ghApiPost_other {attempt : Attempt Unit} :
    ghApiPost attempt = .error .other ↔ attempt ∈ ({.timedOut, .broke} : Set (Attempt Unit)) := by
  cases attempt with
  | printed out => simp [ghApiPost]
  | timedOut => simp [ghApiPost]
  | broke => simp [ghApiPost]
  | failed stderr =>
    simp only [ghApiPost, Except.error.injEq, Set.mem_insert_iff, Set.mem_singleton_iff, reduceCtorEq, or_self,
      iff_false]
    intro h
    rw [definite] at h
    split at h
    · exact absurd h (by simp)
    · split at h
      · exact absurd h (by simp)
      · exact absurd h (by simp)

/-- A finding is a failure. -/
theorem conclusionOf_some {found : Finding} : conclusionOf (some found) = "failure" := rfl

/-- And a failure is no success. -/
theorem success_ne_failure : "success".toList ≠ "failure".toList := by decide

/-- A finding against a standing success is submitted. -/
theorem publish_success {found : Finding} (h : standingConclusion args.repo sha args.runtime github = .ok (some "success")) :
    publish args sha (some found) github = submit args sha "success" found github := by
  rw [publish, h]
  show (if "success".toList = conclusionOf (some found) then _ else _) = _
  rw [conclusionOf_some, if_neg success_ne_failure]
  exact if_pos rfl

/-- A request for the standing conclusion that breaks ends the sweep. -/
theorem publish_broken (h : standingConclusion args.repo sha args.runtime github = .error .other) :
    publish args sha finding github = (.alone, some .other) := by
  rw [publish, h]

/-- Everything else submits nothing and ends nothing. -/
theorem publish_otherwise (hbroken : standingConclusion args.repo sha args.runtime github ≠ .error .other)
    (h : finding = none ∨ standingConclusion args.repo sha args.runtime github ≠ .ok (some "success")) :
    publish args sha finding github = (.alone, none) ∨ publish args sha finding github = (.skip, none) := by
  rw [publish]
  split
  · next hother => exact absurd hother hbroken
  · exact Or.inr rfl
  · exact Or.inl rfl
  · next standing hstanding =>
    split
    · exact Or.inl rfl
    · cases finding with
      | none => exact Or.inl rfl
      | some found =>
        have hne : standing ≠ "success".toList := by
          rintro rfl
          rcases h with h | h
          · exact absurd h (by simp)
          · exact h hstanding
        exact Or.inl (if_neg hne)

/-- And when that ends the sweep. -/
theorem submit_ends {standing : Text} {found : Finding} : (submit args sha standing found github).2 = some raised ↔
    raised = .other ∧ args.dryRun = false ∧
      github.post (postPath args.repo) (revocation sha standing found) ∈
        ({.timedOut, .broke} : Set (Attempt Unit)) := by
  rw [submit, ← ghApiPost_other]
  cases args.dryRun with
  | true => simp
  | false =>
    simp only [Bool.false_eq_true, if_false]
    split
    · next hpost => simp [hpost]
    · next hpost => simp [hpost, eq_comm]
    · next raised' hraised hpost =>
      have hne : raised' ≠ .other := fun h => hraised h
      simp [hpost, hne]

/-- A pull request that has been judged is published. -/
theorem sweepPull_judged (h : Judges args pr github sha finding) :
    sweepPull args pr github = publish args sha finding github := by
  obtain ⟨ref, per, body, state, href, hper, hbody, hverdict⟩ := h.verdict
  rw [sweepPull, href, h.head]
  simp only [h.wellFormed, if_true, hper, hbody, Option.elim_some, hverdict]

/-- A number of an item is not taken when it has too many digits. -/
theorem itemArgs_error {ref : Text} : itemArgs args ref sha = .error raised ↔
    raised = .other ∧ ∃ digits, itemBranch ref = some digits ∧ naturalOf digits = none := by
  rw [itemArgs]
  split
  · next h => simp [h]
  · next digits h =>
    split
    · next hnumber => simp [h, hnumber, eq_comm]
    · next n hnumber => simp [h, hnumber]

/-- Without a verdict nothing is submitted, and only a number that is not converted ends the sweep. -/
theorem sweepPull_not_judged (h : ∀ sha finding, ¬ Judges args pr github sha finding) :
    (sweepPull args pr github).1.posted = [] ∧
      (((sweepPull args pr github).2 = none ∧ ∀ ref sha digits, pr.ref = some ref → pr.sha = some sha →
          isHeadSha (lower sha) = true → itemBranch ref = some digits → naturalOf digits ≠ none) ∨
        ((sweepPull args pr github).2 = some .other ∧ ∃ ref sha digits, pr.ref = some ref ∧ pr.sha = some sha ∧
          isHeadSha (lower sha) = true ∧ itemBranch ref = some digits ∧ naturalOf digits = none)) := by
  rw [sweepPull]
  split
  · next ref sha href hsha =>
    by_cases hhead : isHeadSha (lower sha) = true
    · rw [if_pos hhead]
      have hconverted : ∀ found, itemArgs args ref sha = .ok found → ∀ ref sha digits, pr.ref = some ref →
          pr.sha = some sha → isHeadSha (lower sha) = true → itemBranch ref = some digits →
          naturalOf digits ≠ none := by
        intro found hfound ref' sha' digits href' hsha' _ hdigits hnumber
        rw [href, Option.some_inj] at href'
        subst href'
        rw [itemArgs_error.mpr ⟨rfl, digits, hdigits, hnumber⟩] at hfound
        exact absurd hfound (by simp)
      split
      · next raised hraised =>
        obtain ⟨rfl, digits, hdigits, hnumber⟩ := itemArgs_error.mp hraised
        exact ⟨rfl, Or.inr ⟨rfl, ref, sha, digits, href, hsha, hhead, hdigits, hnumber⟩⟩
      · next hfound => exact ⟨rfl, Or.inl ⟨rfl, hconverted _ hfound⟩⟩
      · next per hper =>
        split
        · exact ⟨rfl, Or.inl ⟨rfl, hconverted _ hper⟩⟩
        · exact ⟨rfl, Or.inl ⟨rfl, hconverted _ hper⟩⟩
        · exact ⟨rfl, Or.inl ⟨rfl, hconverted _ hper⟩⟩
        · exact ⟨rfl, Or.inl ⟨rfl, hconverted _ hper⟩⟩
        · next finding state hverdict =>
          cases hbody : pr.body with
          | none =>
            rw [hbody] at hverdict
            exact absurd hverdict (by simp)
          | some body =>
            rw [hbody] at hverdict
            exact absurd ⟨hsha, hhead, ref, per, body, state, href, hper, hbody, hverdict⟩ (h sha finding)
    · rw [if_neg hhead]
      refine ⟨rfl, Or.inl ⟨rfl, fun ref' sha' digits _ hsha' hhead' => ?_⟩⟩
      rw [hsha, Option.some_inj] at hsha'
      exact absurd (hsha' ▸ hhead') hhead
  · next hnone =>
    exact ⟨rfl, Or.inl ⟨rfl, fun ref sha digits href hsha => absurd hsha (hnone ref sha href)⟩⟩

/-- There is one judgement of a pull request. -/
theorem Judges.unique {sha' : Text} {finding' : Option Finding} (h : Judges args pr github sha finding)
    (h' : Judges args pr github sha' finding') : sha' = sha ∧ finding' = finding := by
  obtain ⟨ref, per, body, state, href, hper, hbody, hverdict⟩ := h.verdict
  obtain ⟨ref', per', body', state', href', hper', hbody', hverdict'⟩ := h'.verdict
  have hsha : sha' = sha := Option.some.inj (h'.head.symm.trans h.head)
  obtain rfl := Option.some.inj (href'.symm.trans href)
  subst hsha
  obtain rfl := Option.some.inj (Except.ok.inj (hper'.symm.trans hper))
  obtain rfl := Option.some.inj (hbody'.symm.trans hbody)
  exact ⟨rfl, (Prod.mk.inj (Except.ok.inj (hverdict'.symm.trans hverdict))).1⟩

/-- The number of a branch that is judged was converted. -/
theorem Judges.converted {ref digits : Text} (h : Judges args pr github sha finding) (href : pr.ref = some ref)
    (hdigits : itemBranch ref = some digits) : naturalOf digits ≠ none := by
  intro hnumber
  obtain ⟨ref', per, _, _, href', hper, -⟩ := h.verdict
  obtain rfl := Option.some.inj (href'.symm.trans href)
  rw [itemArgs_error.mpr ⟨rfl, digits, hdigits, hnumber⟩] at hper
  exact absurd hper (by simp)

/-- A finding where a success stands, whether or not it may be submitted. -/
structure Contradicts (args : Options) (pr : PullRequest) (github : GitHub) (sha : Text) (found : Finding) : Prop where
  judges : Judges args pr github sha (some found)
  standing : standingConclusion args.repo sha args.runtime github = .ok (some "success")

/-- A contradiction ends the sweep only by its submission. -/
theorem Contradicts.ends_iff {found : Finding} (h : Contradicts args pr github sha found) :
    PullEnds args pr github ↔ args.dryRun = false ∧ github.post (postPath args.repo) (revocation sha "success" found) ∈
      ({.timedOut, .broke} : Set (Attempt Unit)) := by
  constructor
  · intro hends
    cases hends with
    | number href _ _ hdigits hnone => exact absurd hnone (h.judges.converted href hdigits)
    | standing hjudges hbroken =>
      rw [(h.judges.unique hjudges).1, h.standing] at hbroken
      exact absurd hbroken (by simp)
    | submission hrevokes hpost =>
      obtain ⟨hsha, hfound⟩ := h.judges.unique hrevokes.judges
      rw [hsha, Option.some.inj hfound] at hpost
      exact ⟨hrevokes.real, hpost⟩
  · rintro ⟨hreal, hpost⟩
    exact .submission ⟨h.judges, h.standing, hreal⟩ hpost

/-- The ways in which a pull request is gone over: where there is something to revoke, that is submitted, and elsewhere
    nothing is. -/
inductive Visits (args : Options) (pr : PullRequest) (github : GitHub) : Tally × Option Raised → Prop
  | revoked {sha : Text} {found : Finding} : Contradicts args pr github sha found →
      Visits args pr github (submit args sha "success" found github)
  | ended {result : Tally × Option Raised} : result.1.posted = [] → result.2 = some .other → PullEnds args pr github →
      (∀ sha found, ¬ Contradicts args pr github sha found) → Visits args pr github result
  | passed {result : Tally × Option Raised} : result.1.posted = [] → result.2 = none → ¬ PullEnds args pr github →
      (∀ sha found, ¬ Contradicts args pr github sha found) → Visits args pr github result

/-- **What a judgement leads to.** -/
theorem Judges.visits (h : Judges args pr github sha finding) :
    Visits args pr github (publish args sha finding github) := by
  by_cases hrevoking : ∃ found, finding = some found ∧
      standingConclusion args.repo sha args.runtime github = .ok (some "success")
  · obtain ⟨found, rfl, hstanding⟩ := hrevoking
    rw [publish_success hstanding]
    exact .revoked ⟨h, hstanding⟩
  · have hnothing : ∀ sha found, ¬ Contradicts args pr github sha found := by
      intro sha' found hcontradicts
      obtain ⟨hsha, hfound⟩ := h.unique hcontradicts.judges
      have hstanding := hcontradicts.standing
      rw [hsha] at hstanding
      exact hrevoking ⟨found, hfound.symm, hstanding⟩
    by_cases hbroken : standingConclusion args.repo sha args.runtime github = .error .other
    · rw [publish_broken hbroken]
      exact .ended rfl rfl (.standing h hbroken) hnothing
    · have hends : ¬ PullEnds args pr github := by
        intro hends
        cases hends with
        | number href _ _ hdigits hnone => exact h.converted href hdigits hnone
        | standing hjudges hbroken' =>
          rw [(h.unique hjudges).1] at hbroken'
          exact hbroken hbroken'
        | submission hrevokes _ => exact hnothing _ _ ⟨hrevokes.judges, hrevokes.standing⟩
      have hother : finding = none ∨
          standingConclusion args.repo sha args.runtime github ≠ .ok (some "success") := by
        cases finding with
        | none => exact Or.inl rfl
        | some found => exact Or.inr fun hstanding => hrevoking ⟨found, rfl, hstanding⟩
      rcases publish_otherwise hbroken hother with hpublish | hpublish
      · rw [hpublish]
        exact .passed rfl rfl hends hnothing
      · rw [hpublish]
        exact .passed rfl rfl hends hnothing

/-- **Every pull request is gone over** in one of these ways. -/
theorem sweepPull_visits : Visits args pr github (sweepPull args pr github) := by
  by_cases hjudged : ∃ sha finding, Judges args pr github sha finding
  · obtain ⟨sha, finding, hjudges⟩ := hjudged
    rw [sweepPull_judged hjudges]
    exact hjudges.visits
  · have hnone : ∀ sha finding, ¬ Judges args pr github sha finding := fun sha finding h => hjudged ⟨sha, finding, h⟩
    have hnothing : ∀ sha found, ¬ Contradicts args pr github sha found := fun sha found h => hnone _ _ h.judges
    obtain ⟨hposted, hresult⟩ := sweepPull_not_judged hnone
    rcases hresult with ⟨hgoes, hnumber⟩ | ⟨hstops, ref, sha, digits, href, hsha, hhead, hdigits, hnumber⟩
    · refine .passed hposted hgoes (fun hends => ?_) hnothing
      cases hends with
      | number href hsha hhead hdigits hnone' => exact hnumber _ _ _ href hsha hhead hdigits hnone'
      | standing hjudges _ => exact hnone _ _ hjudges
      | submission hrevokes _ => exact hnone _ _ hrevokes.judges
    · exact .ended hposted hstops (.number href hsha hhead hdigits hnumber) hnothing

/-- What ends the sweep at a pull request: nothing that a verdict over it can come to. -/
theorem sweepPull_ends : (sweepPull args pr github).2 = some raised ↔ raised = .other ∧ PullEnds args pr github := by
  have hvisit : Visits args pr github (sweepPull args pr github) := sweepPull_visits
  generalize sweepPull args pr github = result at hvisit ⊢
  cases hvisit with
  | revoked h => rw [submit_ends, h.ends_iff]
  | ended _ hstops hends _ =>
    rw [hstops, Option.some_inj]
    constructor
    · intro h
      exact ⟨h.symm, hends⟩
    · rintro ⟨rfl, -⟩
      rfl
  | passed _ hgoes hends _ =>
    rw [hgoes]
    exact iff_of_false (by simp) fun h => hends h.2

/-! ## One entry -/

/-- What ends a sweep at an entry of the listing. -/
inductive Ends (args : Options) (entry : Json) (github : GitHub) : Prop where
  /-- it is no object, and has no fields to be asked for -/
  | entry : pullRequestOf entry = none → Ends args entry github
  | pull {pr : PullRequest} : pullRequestOf entry = some pr → PullEnds args pr github → Ends args entry github

/-- **What ends the sweep at an entry.** -/
theorem sweepOne_ends : (sweepOne args entry github).2 = some raised ↔ raised = .other ∧ Ends args entry github := by
  rw [sweepOne]
  split
  · next hnone =>
    rw [Option.some_inj, eq_comm]
    exact (and_iff_left (Ends.entry hnone)).symm
  · next pr hpr =>
    rw [sweepPull_ends]
    refine and_congr_right fun _ => ⟨Ends.pull hpr, fun hends => ?_⟩
    cases hends with
    | entry hnone => exact absurd (hnone.symm.trans hpr) (by simp)
    | pull hpr' hends =>
      obtain rfl := Option.some.inj (hpr'.symm.trans hpr)
      exact hends

/-! ## The run -/

/-- The sweep goes on after an entry that does not end it. -/
theorem sweepFrom_cons_none {tally : Tally} {visit : Json × GitHub} {rest : List (Json × GitHub)}
    (h : (sweepOne args visit.1 visit.2).2 = none) :
    sweepFrom args tally (visit :: rest) = sweepFrom args (tally.add (sweepOne args visit.1 visit.2).1) rest := by
  obtain ⟨entry, github⟩ := visit
  rw [sweepFrom]
  split
  · next hstops => exact absurd (h.symm.trans (congrArg Prod.snd hstops)) (by simp)
  · next hgoes => rw [hgoes]

/-- It ends with one that does. -/
theorem sweepFrom_cons_some {tally : Tally} {visit : Json × GitHub} {rest : List (Json × GitHub)}
    (h : (sweepOne args visit.1 visit.2).2 = some raised) :
    sweepFrom args tally (visit :: rest) = (tally.add (sweepOne args visit.1 visit.2).1, some raised) := by
  obtain ⟨entry, github⟩ := visit
  rw [sweepFrom]
  split
  · next hstops =>
    rw [hstops] at h ⊢
    rw [Option.some.inj h]
  · next hgoes => exact absurd (h.symm.trans (congrArg Prod.snd hgoes)) (by simp)

/-- It goes on exactly where nothing ends it. -/
theorem goes_iff {visit : Json × GitHub} :
    (sweepOne args visit.1 visit.2).2 = none ↔ ¬ Ends args visit.1 visit.2 := by
  constructor
  · intro hgoes hends
    rw [sweepOne_ends.mpr ⟨rfl, hends⟩] at hgoes
    exact absurd hgoes (by simp)
  · intro hends
    by_contra hstops
    obtain ⟨raised, hraised⟩ := Option.ne_none_iff_exists'.mp hstops
    exact hends (sweepOne_ends.mp hraised).2

/-- **The sweep ends at an entry that ends it**, by induction on the entries. -/
theorem sweepFrom_ends {tally : Tally} {entries : List (Json × GitHub)} :
    (sweepFrom args tally entries).2 = some raised ↔ raised = .other ∧ ∃ visit ∈ entries, Ends args visit.1 visit.2 := by
  induction entries generalizing tally with
  | nil => simp [sweepFrom]
  | cons first rest ih =>
    by_cases hends : Ends args first.1 first.2
    · rw [sweepFrom_cons_some (sweepOne_ends.mpr ⟨rfl, hends⟩)]
      constructor
      · intro h
        exact ⟨(Option.some.inj h).symm, first, List.mem_cons_self, hends⟩
      · rintro ⟨rfl, -⟩
        rfl
    · rw [sweepFrom_cons_none (goes_iff.mpr hends), ih, List.exists_mem_cons_iff]
      simp [hends]

/-- **One pull request does not end a sweep**: neither a failed read of its claims nor a crash of its evaluation
    does, nor a submission that GitHub refuses. -/
theorem sweep_ends_iff {pulls : Nat → Attempt Text} {met : Nat → GitHub} :
    (sweepAll args pulls met).2 = some raised ↔ openItemPrs args.runtime pulls = .error raised ∨
      ∃ entries, openItemPrs args.runtime pulls = .ok entries ∧ raised = .other ∧
        ∃ visit ∈ visits entries met, Ends args visit.1 visit.2 := by
  rw [sweepAll]
  cases openItemPrs args.runtime pulls with
  | error raised' => simp
  | ok entries =>
    show (sweepFrom args .zero (visits entries met)).2 = some raised ↔ _
    rw [sweepFrom_ends]
    simp

end ClaimGeneration

end FsQuint
