/-
  What the exit codes of the gate mean.

  1. **Requests** (`ghApi_eq_iff`): a request is tried until an answer is final.  It comes back with the first
     final one, and only without any does it say that GitHub cannot be reached.
  2. **Items** (`item_exit`): for a pull request that delivers an item, the gate is green, finds something, or
     has no verdict, according to what was finally read and to nothing else.
  3. **The envelope** (`validatorArgs_eq_some`): what has to hold of an event for the gate to be called for it
     (`Trusted`), as a condition on the event and the repository.
  4. **Routine pull requests** (`eligible_iff`): the envelope and the gate together are green exactly if the
     event is trusted and the policy and the marker admit the change (`Admitted`).
-/
import FsQuint.RoutineEligibility

namespace FsQuint

open PythonJson

namespace ClaimGeneration

variable {α : Type}

/-! ## Requests -/

/-- What a try comes to, unless it is made again. -/
def final : Attempt α → Option (Except Raised α)
  | .printed out => some (.ok out)
  | .failed stderr => (definite stderr).map .error
  | .timedOut => none
  | .broke => some (.error .other)

/-- A final answer is the last one. -/
theorem tryFrom_final {attempt : Nat → Attempt α} {number left : Nat} {result : Except Raised α}
    (h : final (attempt number) = some result) : tryFrom attempt number (left + 1) = result := by
  rw [tryFrom]
  split
  · next out hout =>
    rw [hout] at h
    exact Option.some.inj h
  · next hout =>
    rw [hout] at h
    exact Option.some.inj h
  · next hout =>
    rw [hout] at h
    exact absurd h (by simp [final])
  · next stderr hout =>
    rw [hout, final] at h
    split
    · next raised hraised =>
      rw [hraised] at h
      exact Option.some.inj h
    · next hnone =>
      rw [hnone] at h
      exact absurd h (by simp)

/-- Any other leads to the next try. -/
theorem tryFrom_again {attempt : Nat → Attempt α} {number left : Nat} (h : final (attempt number) = none) :
    tryFrom attempt number (left + 1) = tryFrom attempt (number + 1) left := by
  have hlast : (if left = 0 then Except.error Raised.unreachable else tryFrom attempt (number + 1) left) =
      tryFrom attempt (number + 1) left := by
    cases left with
    | zero => rfl
    | succ left => rfl
  rw [tryFrom]
  split
  · next out hout =>
    rw [hout] at h
    exact absurd h (by simp [final])
  · next hout =>
    rw [hout] at h
    exact absurd h (by simp [final])
  · exact hlast
  · next stderr hout =>
    rw [hout, final, Option.map_eq_none_iff] at h
    rw [h]
    exact hlast

/-- **The first final answer counts**, and without one the answer is unknown. -/
theorem tryFrom_eq_iff {attempt : Nat → Attempt α} {number left : Nat} {result : Except Raised α} :
    tryFrom attempt number left = result ↔
      (∃ k < left, final (attempt (number + k)) = some result ∧ ∀ j < k, final (attempt (number + j)) = none) ∨
        ((∀ k < left, final (attempt (number + k)) = none) ∧ result = .error .unreachable) := by
  induction left generalizing number with
  | zero =>
    rw [tryFrom]
    constructor
    · intro h
      exact Or.inr ⟨fun k hk => absurd hk (Nat.not_lt_zero k), h.symm⟩
    · rintro (⟨k, hk, -⟩ | ⟨-, h⟩)
      · exact absurd hk (Nat.not_lt_zero k)
      · exact h.symm
  | succ left ih =>
    cases hfirst : final (attempt number) with
    | some answer =>
      rw [tryFrom_final hfirst]
      constructor
      · rintro rfl
        exact Or.inl ⟨0, Nat.succ_pos left, hfirst, fun j hj => absurd hj (Nat.not_lt_zero j)⟩
      · rintro (⟨k, -, hk, hbefore⟩ | ⟨hnone, -⟩)
        · cases k with
          | zero => exact Option.some.inj (hfirst.symm.trans hk)
          | succ k => exact absurd (hfirst.symm.trans (hbefore 0 (Nat.succ_pos k))) (by simp)
        · exact absurd (hfirst.symm.trans (hnone 0 (Nat.succ_pos left))) (by simp)
    | none =>
      have hshift : ∀ k, number + 1 + k = number + (k + 1) := fun k => by omega
      rw [tryFrom_again hfirst, ih]
      constructor
      · rintro (⟨k, hk, hanswer, hbefore⟩ | ⟨hnone, hresult⟩)
        · refine Or.inl ⟨k + 1, Nat.succ_lt_succ hk, ?_, fun j hj => ?_⟩
          · rw [← hshift]
            exact hanswer
          · cases j with
            | zero => exact hfirst
            | succ j =>
              rw [← hshift]
              exact hbefore j (Nat.lt_of_succ_lt_succ hj)
        · refine Or.inr ⟨fun k hk => ?_, hresult⟩
          cases k with
          | zero => exact hfirst
          | succ k =>
            rw [← hshift]
            exact hnone k (Nat.lt_of_succ_lt_succ hk)
      · rintro (⟨k, hk, hanswer, hbefore⟩ | ⟨hnone, hresult⟩)
        · cases k with
          | zero => exact absurd (hfirst.symm.trans hanswer) (by simp)
          | succ k =>
            refine Or.inl ⟨k, Nat.lt_of_succ_lt_succ hk, ?_, fun j hj => ?_⟩
            · rw [hshift]
              exact hanswer
            · rw [hshift]
              exact hbefore (j + 1) (Nat.succ_lt_succ hj)
        · refine Or.inr ⟨fun k hk => ?_, hresult⟩
          rw [hshift]
          exact hnone (k + 1) (Nat.succ_lt_succ hk)

/-! ## Pull requests that deliver an item -/

variable {args : CommandLine} {world : World} {opts : Options} {per : ItemArgs} {body headRef headSha : Text}

/-- A call over the pull request of an item, with arguments that pass their checks. -/
structure ItemCall (args : CommandLine) (world : World) (opts : Options) (per : ItemArgs) (body : Text) : Prop where
  options : options args world = .ok opts
  noSweep : args.sweep = false
  body : readBody args world = .ok body
  call : ∃ headRef headSha, given args.headRef = some headRef ∧ given args.headSha = some headSha ∧
    isHeadSha (lower headSha) = true ∧ itemArgs opts headRef headSha = .ok (some per)

/-- What follows a prefix. -/
theorem after_eq_some {start : String} {text rest : Text} (h : after start text = some rest) :
    text = start.toList ++ rest := by
  obtain ⟨front, hfront, hsame⟩ := List.dropPrefix?_eq_some_iff.mp h
  rw [hfront, eq_of_beq hsame]

/-- A branch that delivers an item is no routine branch. -/
theorem not_isRoutineBranch {digits : Text} (h : itemBranch headRef = some digits) : isRoutineBranch headRef = false := by
  rw [itemBranch] at h
  split at h
  · exact absurd h (by simp)
  · next rest hitem =>
    rw [isRoutineBranch]
    split
    · rfl
    · next rest' hroutine =>
      have hboth := (after_eq_some hitem).symm.trans (after_eq_some hroutine)
      exact absurd (List.cons.inj hboth).1 (by decide)

/-- The arguments do not change the runtime. -/
theorem options_runtime (h : options args world = .ok opts) : opts.runtime = world.runtime := by
  obtain ⟨_, -, h⟩ := bind_ok_iff.mp h
  obtain ⟨_, -, h⟩ := bind_ok_iff.mp h
  obtain ⟨_, -, h⟩ := bind_ok_iff.mp h
  obtain ⟨_, -, h⟩ := bind_ok_iff.mp h
  rw [← Except.ok.inj h]

/-- A condition that holds. -/
theorem check_true {p : Bool} (h : p = true) : check p = .ok () := by
  rw [check, h]
  rfl

/-- **The gate for an item** does what the verdict over it says. -/
theorem main_item (h : ItemCall args world opts per body) : main args world =
    match evaluate per world.runtime body world.github with
    | .error .forbidden => .error .gateError
    | .error raised => .error raised
    | .ok (none, _) => .ok .ok
    | .ok (some _, _) => .ok .finding := by
  obtain ⟨headRef, headSha, hheadRef, hheadSha, hhex, hper⟩ := h.call
  obtain ⟨digits, hdigits⟩ : ∃ digits, itemBranch headRef = some digits := by
    by_contra hnone
    have hbranch : itemBranch headRef = none := Option.eq_none_iff_forall_ne_some.mpr fun digits hd => hnone ⟨digits, hd⟩
    rw [itemArgs, hbranch] at hper
    exact absurd hper (by simp)
  have hroutine : ¬ (isRoutineBranch headRef = true ∧ (given args.routinePolicyRef).isSome = true) := by
    rw [not_isRoutineBranch hdigits]
    exact fun hboth => absurd hboth.1 (by decide)
  have hjudge : main args world = judgeItem opts headRef headSha body world.github := by
    rw [main, h.options]
    simp only [bind, Except.bind, h.noSweep, Bool.false_eq_true, if_false, hheadRef, hheadSha, check_true hhex, h.body,
      if_neg hroutine]
  rw [hjudge, judgeItem, hper, ← options_runtime h.options]
  rfl

/-- The first final answer to the request for the comments of the item. -/
def Answers (per : ItemArgs) (tries : Nat) (github : GitHub) (answer : Except Raised Text) : Prop :=
  ∃ k < tries, final (github.comments (commentsPath per.repo per.itemNumber) (1 + k)) = some answer ∧
    ∀ j < k, final (github.comments (commentsPath per.repo per.itemNumber) (1 + j)) = none

/-- None of the tries was final. -/
def Unanswered (per : ItemArgs) (tries : Nat) (github : GitHub) : Prop :=
  ∀ k < tries, final (github.comments (commentsPath per.repo per.itemNumber) (1 + k)) = none

variable {gen : Text} {github : GitHub} {tries : Nat} {runtime : Runtime} {answer : Except Raised Text} {raised : Raised}

/-- No definite answer says that GitHub cannot be reached. -/
theorem definite_ne_unreachable {stderr : Text} : definite stderr ≠ some .unreachable := by
  rw [definite]
  split
  · simp
  · split
    · simp
    · simp

/-- So no final one does. -/
theorem Answers.ne_unreachable (h : Answers per tries github answer) : answer ≠ .error .unreachable := by
  obtain ⟨k, -, hanswer, -⟩ := h
  rintro rfl
  cases hattempt : github.comments (commentsPath per.repo per.itemNumber) (1 + k) with
  | printed out => rw [hattempt] at hanswer; exact absurd hanswer (by simp [final])
  | timedOut => rw [hattempt] at hanswer; exact absurd hanswer (by simp [final])
  | broke => rw [hattempt] at hanswer; exact absurd hanswer (by simp [final])
  | failed stderr =>
    rw [hattempt, final, Option.map_eq_some_iff] at hanswer
    obtain ⟨raised, hraised, hsame⟩ := hanswer
    rw [Except.error.inj hsame] at hraised
    exact definite_ne_unreachable hraised

/-- **The answer is the first final one** among the tries. -/
theorem ghApi_answers (hanswer : answer ≠ .error .unreachable) :
    ghApi tries (github.comments (commentsPath per.repo per.itemNumber)) = answer ↔ Answers per tries github answer := by
  rw [ghApi, tryFrom_eq_iff]
  constructor
  · rintro (h | ⟨-, h⟩)
    · exact h
    · exact absurd h hanswer
  · exact Or.inl

/-- **There is none when no try brings one.** -/
theorem ghApi_unanswered :
    ghApi tries (github.comments (commentsPath per.repo per.itemNumber)) = .error .unreachable ↔
      Unanswered per tries github := by
  rw [ghApi, tryFrom_eq_iff]
  constructor
  · rintro (h | ⟨h, -⟩)
    · exact absurd rfl (Answers.ne_unreachable h)
    · exact h
  · intro h
    exact Or.inr ⟨h, rfl⟩

/-- A comment that cannot be read is an input that cannot be. -/
theorem readClaimant_error {fallback : Int} {cliOverride : Bool} {now : Instant} {comment : Comment}
    (h : readClaimant fallback cliOverride now comment = .error raised) : raised = .gateError := by
  rw [readClaimant] at h
  split at h
  · simp only at h
    split at h
    · exact absurd h (by simp)
    · rw [usableLease] at h
      split at h
      · exact absurd h (by simp [bind, Except.bind])
      · split at h
        · exact absurd h (by simp [bind, Except.bind])
        · exact (Except.error.inj h).symm
  · exact absurd h (by simp)

/-- A loop over lines raises what its body does, or that a line cannot be taken. -/
theorem readLines_error {maxDepth : Nat} {f : Json → Except Raised (Option α)} {p : Raised → Prop} (hother : p .other)
    (hf : ∀ json raised, f json = .error raised → p raised) : ∀ {text : List Text},
    readLines maxDepth f text = .error raised → p raised
  | [], h => absurd h (by simp [readLines])
  | line :: rest, h => by
    cases hline : loads maxDepth line with
    | error failure =>
      cases failure with
      | decodeError =>
        rw [readLines_skip hline] at h
        exact readLines_error hother hf h
      | otherError =>
        rw [readLines_break hline] at h
        exact Except.error.inj h ▸ hother
    | ok json =>
      rw [readLines_read hline] at h
      cases hfirst : f json with
      | error raised' =>
        rw [hfirst] at h
        obtain rfl : raised' = raised := Except.error.inj h
        exact hf json raised' hfirst
      | ok found =>
        cases hrest : readLines maxDepth f rest with
        | error raised' =>
          rw [hfirst, hrest] at h
          have hsame : raised' = raised := Except.error.inj h
          exact readLines_error hother hf (hsame ▸ hrest)
        | ok others =>
          rw [hfirst, hrest] at h
          exact absurd h (by simp [bind, Except.bind])

/-- Comments that cannot be read are no verdict, and not an item that does not exist. -/
theorem readClaimState_error {out : Text} {fallback : Int} {cliOverride : Bool} {now : Instant}
    (h : readClaimState runtime out fallback cliOverride now = .error raised) : raised = .gateError ∨ raised = .other := by
  cases hclaimants : readLines runtime.maxDepth
      (fun json => commentOf runtime json >>= readClaimant fallback cliOverride now) (lines out) with
  | ok claimants =>
    rw [readClaimState, hclaimants] at h
    exact absurd h (by simp [bind, Except.bind])
  | error raised' =>
    rw [readClaimState, hclaimants] at h
    obtain rfl : raised' = raised := Except.error.inj h
    refine readLines_error (p := fun raised => raised = .gateError ∨ raised = .other) (Or.inr rfl) ?_ hclaimants
    intro json raised hjson
    rw [commentOf] at hjson
    split at hjson
    · exact Or.inl (readClaimant_error hjson)
    · exact Or.inr (Except.error.inj hjson).symm

/-- A finding in the body needs no claims. -/
theorem evaluate_body {finding : Finding} (h : classifyBody per body = .error finding) :
    evaluate per runtime body github = .ok (some finding, none) := by
  rw [evaluate, classify, h]

/-- The state that an evaluation reads from an output. -/
abbrev Reading (per : ItemArgs) (runtime : Runtime) (github : GitHub) (out : Text) : Except Raised ClaimState :=
  readClaimState runtime out per.leaseMinutes per.leaseFromCli (per.now.getD github.clock)

/-- The evaluation of a body that names a generation goes by the answer. -/
theorem evaluate_answer (h : classifyBody per body = .ok gen)
    (hanswer : ghApi runtime.tries (github.comments (commentsPath per.repo per.itemNumber)) = answer) :
    evaluate per runtime body github =
      match answer with
      | .error .missing =>
        .ok (some (.mismatched, per.expectedItem ++ " does not exist, so this PR's authorization cannot correspond to " ++
          "any live claim generation."), none)
      | .error raised => .error raised
      | .ok out =>
        match Reading per runtime github out with
        | .error raised => .error raised
        | .ok state => .ok (classifyState per gen state, some state) := by
  rw [evaluate, classify, h]
  simp only [hanswer, bind, Except.bind]
  cases answer with
  | error raised => cases raised <;> rfl
  | ok out =>
    simp only [Reading]
    cases hread : readClaimState runtime out per.leaseMinutes per.leaseFromCli (per.now.getD github.clock) with
    | error raised => rcases readClaimState_error hread with rfl | rfl <;> rfl
    | ok state => rfl

/-- A body that names a generation is green under comments that were read and have it for their winner. -/
theorem green_answer (h : classifyBody per body = .ok gen)
    (hanswer : ghApi runtime.tries (github.comments (commentsPath per.repo per.itemNumber)) = answer) :
    Green per runtime body github ↔ ∃ out state, answer = .ok out ∧ Reading per runtime github out = .ok state ∧
      classifyState per gen state = none := by
  rw [Green, classify, h]
  constructor
  · rintro ⟨_, hstate⟩
    obtain ⟨out, hout, hstate⟩ := bind_ok_iff.mp hstate
    obtain ⟨state, hread, hstate⟩ := bind_ok_iff.mp hstate
    exact ⟨out, state, hanswer.symm.trans hout, hread, (Prod.mk.inj (Except.ok.inj hstate)).1⟩
  · rintro ⟨out, state, rfl, hread, hfinding⟩
    refine ⟨some state, bind_ok_iff.mpr ⟨out, hanswer, bind_ok_iff.mpr ⟨state, hread, ?_⟩⟩⟩
    rw [hfinding]

/-- **The exit code over the pull request of an item.**  It is green exactly if the pull request is.  It is a finding
    exactly if the body says so by itself, or GitHub finally answered that there is no item, or printed comments that
    can be read and under which the named generation is not current.  It is a retryable failure exactly if no try was
    final, so that in every other case the failure is permanent. -/
theorem item_exit (h : ItemCall args world opts per body) :
    (run (main args world) = .ok ↔ Green per world.runtime body world.github) ∧
      (run (main args world) = .finding ↔
        (∃ finding, classifyBody per body = .error finding) ∨ ∃ gen, classifyBody per body = .ok gen ∧
          (Answers per world.runtime.tries world.github (.error .missing) ∨
            ∃ out state, Answers per world.runtime.tries world.github (.ok out) ∧
              Reading per world.runtime world.github out = .ok state ∧ classifyState per gen state ≠ none)) ∧
      (run (main args world) = .noVerdictRetryable ↔
        (∃ gen, classifyBody per body = .ok gen) ∧ Unanswered per world.runtime.tries world.github) := by
  rw [main_item h]
  cases hbody : classifyBody per body with
  | error finding =>
    rw [evaluate_body hbody]
    refine ⟨⟨fun hrun => absurd hrun (by simp [run]), fun hgreen => ?_⟩, ⟨fun _ => Or.inl ⟨finding, rfl⟩, fun _ => rfl⟩,
      ⟨fun hrun => absurd hrun (by simp [run]), fun hgen => absurd hgen.1 (by simp)⟩⟩
    obtain ⟨state, hstate⟩ := hgreen
    rw [classify, hbody] at hstate
    exact absurd hstate (by simp)
  | ok gen =>
    obtain ⟨answer, hanswer⟩ : ∃ answer,
      ghApi world.runtime.tries (world.github.comments (commentsPath per.repo per.itemNumber)) = answer := ⟨_, rfl⟩
    have hmissing : Answers per world.runtime.tries world.github (.error .missing) ↔ answer = .error .missing := by
      rw [← ghApi_answers (by simp), hanswer]
    have hprinted : ∀ out, Answers per world.runtime.tries world.github (.ok out) ↔ answer = .ok out := by
      intro out
      rw [← ghApi_answers (by simp), hanswer]
    have hunanswered : Unanswered per world.runtime.tries world.github ↔ answer = .error .unreachable := by
      rw [← ghApi_unanswered, hanswer]
    rw [evaluate_answer hbody hanswer, green_answer hbody hanswer, hunanswered]
    simp only [hmissing, hprinted, Except.ok.injEq, reduceCtorEq, exists_false, false_or, exists_eq_left']
    cases answer with
    | error raised => cases raised <;> simp [run]
    | ok out =>
      cases hread : Reading per world.runtime world.github out with
      | error raised => rcases readClaimState_error hread with rfl | rfl <;> simp [run, hread]
      | ok state =>
        cases hfinding : classifyState per gen state with
        | none => simp [run, hread, hfinding]
        | some finding => simp [run, hread, hfinding]

/-- A call for the sample. -/
def sampleCall : CommandLine where
  repo := "o/r"
  headRef := some "item/7-x"
  headSha := some sampleHead
  baseSha := none
  routinePolicy := ".fsgg/routine-development.json"
  routinePolicyRef := none
  routinePreviousHead := none
  body := none
  leaseMinutes := none
  now := none
  sweep := false
  dryRun := false

/-- The body comes in on the standard input, and the comments of the item from GitHub. -/
def sampleWorld : World where
  leaseEnv := none
  clock := sampleInstant 1010
  file _ := .refused
  stdin := some sampleBody
  git := ⟨fun _ => .refused, fun _ _ => .refused, fun _ _ => .refused, fun _ _ => .refused, fun _ _ => .refused⟩
  github := sampleGitHub sampleOut 1010
  pulls _ := .printed []
  met _ := sampleGitHub "" 1010
  runtime := sampleRuntime

/-- It is green. -/
theorem item_exit_sample : run (main sampleCall sampleWorld) = .ok := by
  have hcall : ItemCall sampleCall sampleWorld ⟨"o/r", 120, false, none, false, sampleRuntime⟩ sampleArgs sampleBody :=
    ⟨rfl, rfl, rfl, "item/7-x", sampleHead, rfl, rfl, by decide +kernel, by rfl⟩
  exact (item_exit hcall).1.mpr ⟨some (.held sampleWinner), sample_green⟩

/-! ## Routine pull requests -/

variable {event : Envelope} {git : Git} {liveBase measuredFrom : Text}

/-- The event is that of the repository: what it names is there, and the change is measured from a commit that the
    history proves to be the base. -/
structure Trusted (event : Envelope) (git : Git) (liveBase measuredFrom : Text) : Prop where
  target : event.baseRef = event.defaultBranch
  baseSha : isSha event.baseSha = true
  headSha : isSha event.headSha = true
  liveSha : isSha liveBase = true
  live : ∃ out, git.revParse event.baseRevision = .loaded out ∧ strip out = liveBase
  head : ∃ out, git.revParse event.headRevision = .loaded out ∧ strip out = event.headSha
  branch : "routine/".toList.isPrefixOf event.headRef = true
  files : event.filesExist = true
  parent : ∀ previous, event.previousHead = some previous →
    isSha previous = true ∧ previous ≠ event.headSha ∧ git.isAncestor previous event.headSha = .loaded true
  measured : (liveBase = event.baseSha ∧ measuredFrom = event.baseSha) ∨
    (liveBase ≠ event.baseSha ∧ git.isAncestor event.baseSha liveBase = .loaded true ∧
      git.isAncestor event.headSha liveBase = .loaded false ∧
      git.mergeBases liveBase event.headSha = .loaded [measuredFrom] ∧ isSha measuredFrom = true)

/-- The envelope goes on when the condition holds. -/
theorem require_eq_some {p : Bool} : require p = some () ↔ p = true := by
  cases p with
  | true => simp [require]
  | false => simp [require]

/-- With what follows. -/
theorem require_bind {β : Type} {p : Bool} {f : Unit → Option β} {b : β} :
    (require p >>= f) = some b ↔ p = true ∧ f () = some b := by
  cases p with
  | true => simp [require]
  | false => simp [require]

/-- It goes on with an answer. -/
theorem answered_bind {β : Type} {x : Load α} {f : α → Option β} {b : β} :
    (x.answered >>= f) = some b ↔ ∃ a, x = .loaded a ∧ f a = some b := by
  cases x with
  | loaded content => simp [Load.answered]
  | refused => simp [Load.answered]
  | broke => simp [Load.answered]

/-- **What the change is measured from**: the base of the event, or the merge base when the branch has
    only moved on. -/
theorem diffBase_eq_some {eventBase head base : Text} : diffBase git eventBase liveBase head = some base ↔
    (liveBase = eventBase ∧ base = eventBase) ∨
      (liveBase ≠ eventBase ∧ git.isAncestor eventBase liveBase = .loaded true ∧
        git.isAncestor head liveBase = .loaded false ∧ git.mergeBases liveBase head = .loaded [base] ∧
        isSha base = true) := by
  rw [diffBase]
  by_cases hmoved : liveBase = eventBase
  · rw [if_pos hmoved]
    constructor
    · intro h
      exact Or.inl ⟨hmoved, (Option.some.inj h).symm⟩
    · rintro (⟨-, rfl⟩ | ⟨hne, -⟩)
      · rfl
      · exact absurd hmoved hne
  · rw [if_neg hmoved]
    constructor
    · intro h
      obtain ⟨forward, hforward, h⟩ := answered_bind.mp h
      obtain ⟨rfl, h⟩ := require_bind.mp h
      obtain ⟨contained, hcontained, h⟩ := answered_bind.mp h
      obtain ⟨hnot, h⟩ := require_bind.mp h
      rw [Bool.not_eq_true'] at hnot
      rw [hnot] at hcontained
      split at h
      · next only hbases =>
        obtain ⟨hsha, h⟩ := require_bind.mp h
        rw [Option.some.inj h] at hsha hbases
        exact Or.inr ⟨hmoved, hforward, hcontained, hbases, hsha⟩
      · exact absurd h (by simp)
    · rintro (⟨hsame, -⟩ | ⟨-, hforward, hcontained, hbases, hsha⟩)
      · exact absurd hsame hmoved
      · refine answered_bind.mpr ⟨true, hforward, require_bind.mpr ⟨rfl, answered_bind.mpr ⟨false, hcontained,
          require_bind.mpr ⟨rfl, ?_⟩⟩⟩⟩
        rw [hbases]
        exact require_bind.mpr ⟨hsha, rfl⟩

/-- The head before a push, where one is named, is an ancestor. -/
theorem checkParent_eq_some : checkParent event git = some () ↔ ∀ previous, event.previousHead = some previous →
    isSha previous = true ∧ previous ≠ event.headSha ∧ git.isAncestor previous event.headSha = .loaded true := by
  rw [checkParent]
  cases event.previousHead with
  | none => simp
  | some previous =>
    constructor
    · intro h
      obtain ⟨hboth, h⟩ := require_bind.mp h
      rw [Bool.and_eq_true, decide_eq_true_eq] at hboth
      obtain ⟨ancestor, hancestor, h⟩ := answered_bind.mp h
      obtain rfl := require_eq_some.mp h
      intro previous' hsame
      rw [← Option.some.inj hsame]
      exact ⟨hboth.1, hboth.2, hancestor⟩
    · intro h
      obtain ⟨hsha, hne, hancestor⟩ := h previous rfl
      refine require_bind.mpr ⟨?_, answered_bind.mpr ⟨true, hancestor, rfl⟩⟩
      rw [hsha, Bool.true_and, decide_eq_true_eq]
      exact hne

/-- The gate is called for a trusted event, and as that event has it. -/
theorem validatorArgs_eq_some : validatorArgs event git = some args ↔
    ∃ liveBase measuredFrom, Trusted event git liveBase measuredFrom ∧
      args = validatorCall event liveBase measuredFrom := by
  rw [validatorArgs]
  constructor
  · intro h
    obtain ⟨htarget, h⟩ := require_bind.mp h
    obtain ⟨hbase, h⟩ := require_bind.mp h
    obtain ⟨hhead, h⟩ := require_bind.mp h
    obtain ⟨live, hlive, h⟩ := answered_bind.mp h
    obtain ⟨hliveSha, h⟩ := require_bind.mp h
    obtain ⟨fetched, hfetched, h⟩ := answered_bind.mp h
    obtain ⟨hsame, h⟩ := require_bind.mp h
    obtain ⟨hbranch, h⟩ := require_bind.mp h
    obtain ⟨hfiles, h⟩ := require_bind.mp h
    obtain ⟨_, hparent, h⟩ := Option.bind_eq_some_iff.mp h
    obtain ⟨measured, hmeasured, h⟩ := Option.bind_eq_some_iff.mp h
    exact ⟨strip live, measured, ⟨of_decide_eq_true htarget, hbase, hhead, hliveSha, ⟨live, hlive, rfl⟩,
      ⟨fetched, hfetched, of_decide_eq_true hsame⟩, hbranch, hfiles, checkParent_eq_some.mp hparent,
      diffBase_eq_some.mp hmeasured⟩, (Option.some.inj h).symm⟩
  · rintro ⟨liveBase, measured, h, rfl⟩
    obtain ⟨live, hlive, rfl⟩ := h.live
    obtain ⟨fetched, hfetched, hsame⟩ := h.head
    exact require_bind.mpr ⟨decide_eq_true h.target, require_bind.mpr ⟨h.baseSha, require_bind.mpr ⟨h.headSha,
      answered_bind.mpr ⟨live, hlive, require_bind.mpr ⟨h.liveSha, answered_bind.mpr ⟨fetched, hfetched,
      require_bind.mpr ⟨decide_eq_true hsame, require_bind.mpr ⟨h.branch, require_bind.mpr ⟨h.files,
      Option.bind_eq_some_iff.mpr ⟨(), checkParent_eq_some.mpr h.parent,
      Option.bind_eq_some_iff.mpr ⟨measured, diffBase_eq_some.mpr h.measured, rfl⟩⟩⟩⟩⟩⟩⟩⟩⟩⟩⟩

/-- Hexadecimal digits in lower case stay as they are. -/
theorem toLower_of_isLowerHex {c : Char} (h : isLowerHex c = true) : c.toLower = c := by
  rw [isLowerHex, isDigit] at h
  simp only [Bool.or_eq_true, Bool.and_eq_true, decide_eq_true_eq, Char.le_def, UInt32.le_iff_toNat_le] at h
  rw [Char.toLower, dif_neg]
  simp only [ge_iff_le, UInt32.le_iff_toNat_le]
  have h9 : ('9' : Char).val.toNat = 57 := rfl
  have ha : ('a' : Char).val.toNat = 97 := rfl
  have hA : ('A' : Char).val.toNat = 65 := rfl
  have hZ : ('Z' : Char).val.toNat = 90 := rfl
  omega

/-- So do the names of commits. -/
theorem lower_of_isSha {text : Text} (h : isSha text = true) : lower text = text := by
  rw [isSha, Bool.and_eq_true, List.all_eq_true] at h
  exact (List.map_congr_left fun c hc => toLower_of_isLowerHex (h.2 c hc)).trans (List.map_id text)

/-- These are not empty. -/
theorem given_of_isSha {text : Text} (h : isSha text = true) : given (some text) = some text := by
  cases text with
  | nil => exact absurd h (by decide)
  | cons c cs => rfl

/-- And they are names of heads. -/
theorem isHeadSha_of_isSha {text : Text} (h : isSha text = true) : isHeadSha (lower text) = true := by
  rw [lower_of_isSha h, isHeadSha, matchesAtEnd, Bool.or_eq_true]
  exact Or.inl h

/-- What the change is measured from is a commit. -/
theorem Trusted.measuredSha (h : Trusted event git liveBase measuredFrom) : isSha measuredFrom = true := by
  rcases h.measured with ⟨-, hsame⟩ | ⟨-, -, -, -, hsha⟩
  · rw [hsame]
    exact h.baseSha
  · exact hsha

/-- The marker names the head that is judged, or the one that the push was made on. -/
def NamesHead (event : Envelope) (head : Text) : Prop :=
  lower head = event.headSha ∨ event.previousHead = some (lower head)

/-- The head is bound when the marker names it, or its parent. -/
theorem boundHead_of_trusted {head : Text} (h : Trusted event git liveBase measuredFrom) :
    ∃ bound, boundHead event.previousHead git head event.headSha = .ok bound ∧
      (bound.isSome = true ↔ NamesHead event head) := by
  rw [boundHead, NamesHead, lower_of_isSha h.headSha]
  by_cases hhead : lower head = event.headSha
  · rw [if_pos hhead]
    exact ⟨_, rfl, iff_of_true rfl (Or.inl hhead)⟩
  · rw [if_neg hhead]
    cases hprevious : event.previousHead with
    | none => exact ⟨none, rfl, iff_of_false (by simp) (by simp [hhead])⟩
    | some previous =>
      obtain ⟨hsha, -, hancestor⟩ := h.parent previous hprevious
      simp only [given_of_isSha hsha, lower_of_isSha hsha]
      by_cases hparent : lower head = previous
      · rw [if_pos hparent, routineIsAncestor, lower_of_isSha hsha, lower_of_isSha h.headSha, hancestor]
        exact ⟨some true, rfl, iff_of_true rfl (Or.inr (by rw [hparent]))⟩
      · rw [if_neg hparent]
        refine ⟨none, rfl, iff_of_false (by simp) ?_⟩
        rintro (hsame | hsame)
        · exact hhead hsame
        · exact hparent (Option.some.inj hsame).symm

/-- The policy of the live base admits the body: its one marker repeats nothing, is bound to the head, names an
    operation that is allowed and not protected, and the change is not empty. -/
def Admitted (event : Envelope) (git : Git) (liveBase measuredFrom body : Text) : Prop :=
  ∃ json policy fields head operation changed,
    git.showFile liveBase ".fsgg/routine-development.json" = .loaded json ∧ checkPolicy json = .ok policy ∧
    policy.branchPrefix.any (Json.isStr "routine/") = true ∧ markerFields routineName body = [(fields, [])] ∧
    fields.get "head" = some head ∧ fields.get "operation" = some operation ∧ NamesHead event head ∧
    operation ∉ policy.protectedOperations ∧ operation ∈ policy.allowedOperations ∧
    git.diff measuredFrom event.headSha = .loaded changed ∧ changed ≠ []

/-- A content that was loaded. -/
theorem get_eq_ok {x : Load α} {a : α} : x.get = .ok a ↔ x = .loaded a := by
  cases x with
  | loaded content => simp [Load.get]
  | refused => simp [Load.get]
  | broke => simp [Load.get]

/-- The gate goes on when the condition holds. -/
theorem check_eq_ok {p : Bool} : check p = .ok () ↔ p = true := by
  cases p with
  | true => simp [check]
  | false => simp [check]

/-- A routine that is admitted, at once or until its marker is bound again. -/
def Routine.green (routine : Routine) : Prop := routine = .admitted ∨ routine = .provisional

/-- A step that succeeds. -/
theorem bind_ok {β γ : Type} {b : β} {f : β → Except Raised γ} : (Except.ok b >>= f) = f b := rfl

/-- **A marker is green** for an allowed operation and a change that is not empty. -/
theorem evaluateMarker_green {policy : Policy} {fields : Fields} (h : Trusted event git liveBase measuredFrom) :
    (∃ routine, evaluateMarker (validatorCall event liveBase measuredFrom) event.headSha measuredFrom git policy fields =
      .ok routine ∧ routine.green) ↔
    ∃ head operation changed, fields.get "head" = some head ∧ fields.get "operation" = some operation ∧
      NamesHead event head ∧ operation ∉ policy.protectedOperations ∧ operation ∈ policy.allowedOperations ∧
      git.diff measuredFrom event.headSha = .loaded changed ∧ changed ≠ [] := by
  rw [evaluateMarker]
  cases hhead : fields.get "head" with
  | none => simp [Routine.green]
  | some head =>
    cases hoperation : fields.get "operation" with
    | none => simp [Routine.green]
    | some operation =>
      have hexists : ∃ bound, boundHead event.previousHead git head event.headSha = .ok bound ∧
          (bound.isSome = true ↔ NamesHead event head) := boundHead_of_trusted h
      obtain ⟨bound, hbound, hnames⟩ := hexists
      simp only [validatorCall, hbound, bind_ok, lower_of_isSha h.headSha, lower_of_isSha h.measuredSha]
      cases bound with
      | none =>
        have hnot : ¬ NamesHead event head := fun hn => absurd (hnames.mpr hn) (by simp)
        simp [Routine.green, hnot]
      | some provisional =>
        have hyes : NamesHead event head := hnames.mp rfl
        by_cases hprotected : operation ∈ policy.protectedOperations ∨ operation ∉ policy.allowedOperations
        · simp only [if_pos hprotected]
          constructor
          · rintro ⟨routine, hroutine, hgreen⟩
            rw [← Except.ok.inj hroutine] at hgreen
            exact absurd hgreen (by simp [Routine.green])
          · rintro ⟨_, _, _, -, hsame, -, hfree, hallowed, -⟩
            rw [← Option.some.inj hsame] at hfree hallowed
            rcases hprotected with hin | hout
            · exact absurd hin hfree
            · exact absurd hallowed hout
        · simp only [if_neg hprotected]
          have hfree : operation ∉ policy.protectedOperations := fun hin => hprotected (Or.inl hin)
          have hallowed : operation ∈ policy.allowedOperations := by
            by_contra hout
            exact hprotected (Or.inr hout)
          constructor
          · rintro ⟨routine, hroutine, hgreen⟩
            obtain ⟨changed, hchanged, hroutine⟩ := bind_ok_iff.mp hroutine
            refine ⟨head, operation, changed, rfl, rfl, hyes, hfree, hallowed, get_eq_ok.mp hchanged, ?_⟩
            rintro rfl
            rw [← Except.ok.inj hroutine] at hgreen
            exact absurd hgreen (by simp [Routine.green])
          · rintro ⟨_, _, changed, -, -, -, -, -, hchanged, hne⟩
            refine ⟨_, bind_ok_iff.mpr ⟨changed, get_eq_ok.mpr hchanged, rfl⟩, ?_⟩
            rw [if_neg hne]
            cases provisional with
            | true => exact Or.inr rfl
            | false => exact Or.inl rfl

/-- **What the gate admits in a trusted call** is what the policy of the live base does. -/
theorem evaluateRoutine_green {body : Text} (h : Trusted event git liveBase measuredFrom) :
    (∃ routine, evaluateRoutine (validatorCall event liveBase measuredFrom) event.headRef event.headSha body git =
      .ok routine ∧ routine.green) ↔ Admitted event git liveBase measuredFrom body := by
  have hbase : given (validatorCall event liveBase measuredFrom).baseSha = some measuredFrom :=
    given_of_isSha h.measuredSha
  have href : (given (validatorCall event liveBase measuredFrom).routinePolicyRef).getD [] = liveBase :=
    congrArg (fun text => Option.getD text []) (given_of_isSha h.liveSha)
  rw [evaluateRoutine, hbase]
  simp only [isHeadSha_of_isSha h.measuredSha, Bool.not_true, Bool.false_eq_true, if_false, href]
  constructor
  · rintro ⟨routine, hroutine, hgreen⟩
    obtain ⟨json, hjson, hroutine⟩ := bind_ok_iff.mp hroutine
    obtain ⟨policy, hpolicy, hroutine⟩ := bind_ok_iff.mp hroutine
    obtain ⟨_, hroot, hroutine⟩ := bind_ok_iff.mp hroutine
    have hboth := check_eq_ok.mp hroot
    rw [Bool.and_eq_true] at hboth
    split at hroutine
    · next fields hfields =>
      obtain ⟨head, operation, changed, hmarker⟩ := (evaluateMarker_green h).mp ⟨routine, hroutine, hgreen⟩
      exact ⟨json, policy, fields, head, operation, changed, get_eq_ok.mp hjson, hpolicy, hboth.1, hfields, hmarker⟩
    · rw [← Except.ok.inj hroutine] at hgreen
      exact absurd hgreen (by simp [Routine.green])
    · rw [← Except.ok.inj hroutine] at hgreen
      exact absurd hgreen (by simp [Routine.green])
  · rintro ⟨json, policy, fields, head, operation, changed, hjson, hpolicy, hroot, hfields, hmarker⟩
    obtain ⟨routine, hroutine, hgreen⟩ := (evaluateMarker_green h).mpr ⟨head, operation, changed, hmarker⟩
    refine ⟨routine, bind_ok_iff.mpr ⟨json, get_eq_ok.mpr hjson, bind_ok_iff.mpr ⟨policy, hpolicy,
      bind_ok_iff.mpr ⟨(), check_eq_ok.mpr ?_, ?_⟩⟩⟩, hgreen⟩
    · rw [Bool.and_eq_true]
      exact ⟨hroot, h.branch⟩
    · rw [hfields]
      exact hroutine

/-- The checks of a trusted call come down to the lease that the environment sets. -/
theorem options_of_trusted (h : Trusted event git liveBase measuredFrom) :
    (∃ opts, options (validatorCall event liveBase measuredFrom) world = .ok opts) ↔
      ∃ lease, leaseMinutes none world.leaseEnv = .ok lease ∧ (expiryOf world.clock lease).isSome = true := by
  constructor
  · rintro ⟨opts, hopts⟩
    obtain ⟨lease, hlease, hopts⟩ := bind_ok_iff.mp hopts
    obtain ⟨now, hnow, hopts⟩ := bind_ok_iff.mp hopts
    obtain rfl : none = now := Except.ok.inj hnow
    obtain ⟨_, hexpiry, -⟩ := bind_ok_iff.mp hopts
    exact ⟨lease, hlease, check_eq_ok.mp hexpiry⟩
  · rintro ⟨lease, hlease, hexpiry⟩
    refine ⟨_, bind_ok_iff.mpr ⟨lease, hlease, bind_ok_iff.mpr ⟨none, rfl, bind_ok_iff.mpr
      ⟨(), check_eq_ok.mpr hexpiry, bind_ok_iff.mpr ⟨(), ?_, rfl⟩⟩⟩⟩⟩
    -- a previous head, if there is one, comes with a policy
    cases hprevious : event.previousHead with
    | none => simp only [validatorCall, hprevious, check_true]
    | some previous =>
      simp only [validatorCall, hprevious, given_of_isSha h.liveSha, isHeadSha_of_isSha (h.parent previous hprevious).1,
        Option.isSome_some, Bool.and_self, check_true]

/-- A routine branch is no item’s. -/
theorem itemBranch_of_routine (h : "routine/".toList.isPrefixOf headRef = true) : itemBranch headRef = none := by
  obtain ⟨rest, rfl⟩ := List.isPrefixOf_iff_prefix.mp h
  rw [itemBranch]
  split
  · rfl
  · next rest' hitem => exact absurd (List.cons.inj (after_eq_some hitem)).1 (by decide)

/-- What the gate does with a trusted call, once its checks have passed and the body was read. -/
theorem main_trusted (h : Trusted event world.git liveBase measuredFrom)
    (hopts : options (validatorCall event liveBase measuredFrom) world = .ok opts) :
    main (validatorCall event liveBase measuredFrom) world = (do
      let body ← readBody (validatorCall event liveBase measuredFrom) world
      if isRoutineBranch event.headRef = true then
        judgeRoutine (validatorCall event liveBase measuredFrom) event.headRef event.headSha body world.git
      else .ok .ok) := by
  have hsha : given (validatorCall event liveBase measuredFrom).headSha = some event.headSha :=
    given_of_isSha h.headSha
  have hrefs : (given (validatorCall event liveBase measuredFrom).routinePolicyRef).isSome = true :=
    congrArg Option.isSome (given_of_isSha h.liveSha)
  have href : given (validatorCall event liveBase measuredFrom).headRef = some event.headRef := by
    obtain ⟨rest, hrest⟩ := List.isPrefixOf_iff_prefix.mp h.branch
    show given (some event.headRef) = some event.headRef
    rw [← hrest]
    rfl
  have hitem : ∀ body, judgeItem opts event.headRef event.headSha body world.github = .ok .ok := by
    intro body
    rw [judgeItem, itemArgs, itemBranch_of_routine h.branch]
    rfl
  rw [main, hopts, bind_ok]
  simp only [hsha, href, hrefs, check_true (isHeadSha_of_isSha h.headSha), bind_ok, hitem, and_true]
  rfl

/-- **The verdict over a routine pull request whose event is trusted.** -/
theorem judgeRoutine_ok {body : Text} (h : Trusted event git liveBase measuredFrom) :
    judgeRoutine (validatorCall event liveBase measuredFrom) event.headRef event.headSha body git = .ok .ok ↔
      Admitted event git liveBase measuredFrom body := by
  rw [← evaluateRoutine_green h, judgeRoutine, bind_ok_iff]
  constructor
  · rintro ⟨routine, hroutine, hcode⟩
    refine ⟨routine, hroutine, ?_⟩
    by_contra hgreen
    rw [if_neg (show ¬ (routine = .admitted ∨ routine = .provisional) from hgreen)] at hcode
    exact absurd hcode (by simp)
  · rintro ⟨routine, hroutine, hgreen⟩
    exact ⟨routine, hroutine, by rw [if_pos (show routine = .admitted ∨ routine = .provisional from hgreen)]⟩

/-- Zero is the exit code of a green verdict alone. -/
theorem value_eq_zero {outcome : Except Raised ExitCode} : (run outcome).value = 0 ↔ outcome = .ok .ok := by
  cases outcome with
  | ok code => cases code <;> simp [run, ExitCode.value]
  | error raised => cases raised <;> simp [run, ExitCode.value]

/-- **When a routine pull request is eligible**: the event is that of the repository, and the policy of the live base
    admits what the body says, or the branch is none of those that the gate takes for routine. -/
theorem eligible_iff : envelope event world = 0 ↔
    ∃ liveBase measuredFrom lease body, Trusted event world.git liveBase measuredFrom ∧
      leaseMinutes none world.leaseEnv = .ok lease ∧ (expiryOf world.clock lease).isSome = true ∧
      readBody (validatorCall event liveBase measuredFrom) world = .ok body ∧
      (isRoutineBranch event.headRef = false ∨ Admitted event world.git liveBase measuredFrom body) := by
  rw [envelope]
  constructor
  · intro hgreen
    cases hargs : validatorArgs event world.git with
    | none =>
      rw [hargs] at hgreen
      exact absurd hgreen (by simp)
    | some args =>
      rw [hargs] at hgreen
      obtain ⟨liveBase, measuredFrom, h, rfl⟩ := validatorArgs_eq_some.mp hargs
      have hmain := value_eq_zero.mp hgreen
      obtain ⟨opts, hopts, -⟩ := bind_ok_iff.mp hmain
      obtain ⟨lease, hlease, hexpiry⟩ := (options_of_trusted h).mp ⟨opts, hopts⟩
      rw [main_trusted h hopts] at hmain
      obtain ⟨body, hbody, hverdict⟩ := bind_ok_iff.mp hmain
      refine ⟨liveBase, measuredFrom, lease, body, h, hlease, hexpiry, hbody, ?_⟩
      cases hbranch : isRoutineBranch event.headRef with
      | false => exact Or.inl rfl
      | true =>
        rw [if_pos hbranch] at hverdict
        exact Or.inr ((judgeRoutine_ok h).mp hverdict)
  · rintro ⟨liveBase, measuredFrom, lease, body, h, hlease, hexpiry, hbody, hadmits⟩
    obtain ⟨opts, hopts⟩ := (options_of_trusted h).mpr ⟨lease, hlease, hexpiry⟩
    rw [validatorArgs_eq_some.mpr ⟨liveBase, measuredFrom, h, rfl⟩]
    refine value_eq_zero.mpr ?_
    rw [main_trusted h hopts]
    refine bind_ok_iff.mpr ⟨body, hbody, ?_⟩
    rcases hadmits with hbranch | hadmitted
    · rw [if_neg (by rw [hbranch]; exact Bool.false_ne_true)]
    · by_cases hbranch : isRoutineBranch event.headRef = true
      · rw [if_pos hbranch]
        exact (judgeRoutine_ok h).mpr hadmitted
      · rw [if_neg hbranch]

end ClaimGeneration

end FsQuint
