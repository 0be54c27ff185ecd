/-
  The gate that holds the fence and admits routine pull requests, with the envelope around it.

  1. **The policy** (`checkPolicy`): a document in the repository, of which every field that the gate relies on
     has to be exactly what the gate was written for.  What the policy says of paths and checks is only
     required to be there.
  2. **Routine pull requests** (`evaluateRoutine`): they are evaluated from the repository alone, by their
     marker, the policy, and the paths that they change.  A marker is bound to the head that it names, or for
     one push to its parent, provisionally.
  3. **The gate** (`main`, `run`): it tells by its exit code that it looked and found nothing, that it found
     something, or that it could not look.  What can be read again is a code of its own.
  4. **The envelope** (`envelope`): it resolves the live base, checks the event against it, and calls the gate
     with what it resolved.  A base that moved is accepted where the history proves that it only moved on.

  Files, standard input, `git` and GitHub are what the world answers (`World`, `Git`, `GitHub`).
-/
import FsQuint.ClaimSweep

namespace FsQuint

open PythonJson

namespace ClaimGeneration

/-! ## The policy -/

/-- What a file or a command has to say, or the exceptions that loading it raises. -/
inductive Load (α : Type) where
  | loaded (content : α)
  /-- an exception that is taken for an unreadable input -/
  | refused
  | broke

/-- The content, or the exception as the gate has it. -/
def Load.get {α : Type} : Load α → Except Raised α
  | .loaded content => .ok content
  | .refused => .error .gateError
  | .broke => .error .other

/-- `set(value)`, as far as it can be taken. -/
def setOf : Option Json → Except Raised (List Json)
  | none => .ok []
  | some (.list items) => if items.all Json.hashable then .ok items else .error .other
  | some (.str s) => .ok (s.map fun c => .str [c])
  | some (.dict entries) => .ok (entries.map fun entry => .str entry.1)
  | some _ => .error .other

/-- `set(…) == {…}`, for a set of texts. -/
def isSet (names : List String) (items : List Json) : Bool :=
  items.all (fun item => names.any fun name => item.isStr name) && names.all fun name => items.any (Json.isStr name)

/-- What a routine pull request is spared. -/
def notRequired : List String :=
  ["issue", "claim", "sdd-artifacts", "phase-lifecycle-ledger", "independent-critic", "feedback-report",
   "receipt-cycle", "metadata-done", "projection-pr"]

/-- What does not select heavy process. -/
def heavyNonTriggers : List String :=
  ["strict-label", "gs2-registration", "protected-path", "policy-change", "modeled-work", "protected-operation",
   "existing-strict-state"]

/-- The one way in which heavy process is selected. -/
def isHeavySelection : Json → Bool
  | .dict entries =>
    entries.length = 3 && ((Json.dict entries).get "trigger").any (Json.isStr "recorded-explicit-human-instruction") &&
      ((Json.dict entries).get "namedScopeRequired").any Json.isTrue &&
      ((Json.dict entries).get "absenceOrAmbiguity").any (Json.isStr "routine")
  | _ => false

/-- A list of texts that are not empty, and not empty itself. -/
def stringList : Option Json → Option (List Text)
  | some (.list items) =>
    let texts := items.filterMap fun item => match item with
      | .str s => if s = [] then none else some s
      | _ => none
    if items ≠ [] ∧ texts.length = items.length then some texts else none
  | _ => none

/-- What a policy that has passed its checks is used for. -/
structure Policy where
  branchPrefix : Option Json
  allowedOperations : List Text
  protectedOperations : List Text

/-- A condition that the gate does not go on without. -/
def check (p : Bool) : Except Raised Unit := if p then .ok () else .error .gateError

/-- **The checks of a policy**: it has to be the one that this gate was written for. -/
def checkPolicy (policy : Json) : Except Raised Policy := do
  let reads (key text : String) : Bool := (policy.get key).any (Json.isStr text)
  check (policy.isDict && reads "schema" "fsgg.routine-development-policy/v1")
  check (reads "status" "active" && reads "defaultRoute" "routine")
  check ((policy.get "heavyProcessSelection").any isHeavySelection)
  let nonTriggers ← setOf (policy.get "heavyProcessNonTriggers")
  check (isSet heavyNonTriggers nonTriggers)
  let reduced ← setOf (policy.get "notRequired")
  check (isSet notRequired reduced)
  check (reads "safeguardRule" "technical-checks-and-operation-authority-remain-independent-and-fail-closed")
  check (reads "protectedOperationDisposition" "affected-effect-remains-pending-until-authorized")
  check (reads "legacyAuthority" "evidence-retained-not-a-route-selector")
  match stringList (policy.get "allowedOperations"), stringList (policy.get "protectedOperations"),
      stringList (policy.get "sensitivePaths"), stringList (policy.get "requiredChecks") with
  | some allowedOperations, some protectedOperations, some _, some _ =>
    .ok ⟨policy.get "branchPrefix", allowedOperations, protectedOperations⟩
  | _, _, _, _ => .error .gateError

/-! ## Routine pull requests -/

/-- What the repository answers.  An ancestry is refused where the history is missing. -/
structure Git where
  revParse : Text → Load Text
  /-- of a revision, or of the working directory -/
  showFile : Text → Text → Load Json
  isAncestor : Text → Text → Load Bool
  mergeBases : Text → Text → Load (List Text)
  diff : Text → Text → Load (List Text)

/-- The arguments of the gate. -/
structure CommandLine where
  repo : Text
  headRef : Option Text
  headSha : Option Text
  baseSha : Option Text
  routinePolicy : Text
  routinePolicyRef : Option Text
  routinePreviousHead : Option Text
  body : Option Text
  leaseMinutes : Option Int
  now : Option Text
  sweep : Bool
  dryRun : Bool

/-- An argument that was given and is not empty. -/
def given : Option Text → Option Text
  | some [] => none
  | text => text

/-- The fields of a marker, and those of them that it repeats. -/
def markerFields (name : String) (body : Text) : List (Fields × List Text) :=
  (Scan.finditer (marker name) body).map fun inner =>
    let found := Scan.finditer field inner
    (fieldsOf inner, (found.map Prod.fst).filter fun key => 1 < (found.map Prod.fst).count key)

/-- The name of the marker of a routine pull request. -/
def routineName : String := "fsgg:routine-development/v1"

/-- What a routine pull request is found to be; the last two are green. -/
inductive Routine where
  | missing
  | ambiguous
  | changedHead
  | protectedOperation
  | empty
  | admitted
  | provisional
  deriving DecidableEq

/-- Missing history is never an ancestor. -/
def routineIsAncestor (git : Git) (ancestor head : Text) : Except Raised Bool :=
  match git.isAncestor (lower ancestor) (lower head) with
  | .loaded answer => .ok answer
  | .refused => .ok false
  | .broke => .error .other

/-- The marker names the head, or only its parent; otherwise it names neither. -/
def boundHead (previous : Option Text) (git : Git) (head headSha : Text) : Except Raised (Option Bool) :=
  if lower head = lower headSha then .ok (some false)
  else
    match given previous with
    | none => .ok none
    | some previous =>
      if lower head = lower previous then do
        let ancestor ← routineIsAncestor git previous headSha
        .ok (if ancestor then some true else none)
      else .ok none

/-- The marker, the operation that it names, and the paths that changed. -/
def evaluateMarker (args : CommandLine) (headSha baseSha : Text) (git : Git) (policy : Policy) (fields : Fields) :
    Except Raised Routine :=
  match fields.get "head", fields.get "operation" with
  | some head, some operation => do
    let bound ← boundHead args.routinePreviousHead git head headSha
    match bound with
    | none => .ok .changedHead
    | some provisional =>
      if operation ∈ policy.protectedOperations ∨ operation ∉ policy.allowedOperations then .ok .protectedOperation
      else do
        let changed ← (git.diff (lower baseSha) (lower headSha)).get
        .ok (if changed = [] then .empty else if provisional then .provisional else .admitted)
  | _, _ => .ok .missing

/-- **`evaluate_routine`**: the base, the policy there, the branch, and the only marker. -/
def evaluateRoutine (args : CommandLine) (headRef headSha body : Text) (git : Git) : Except Raised Routine :=
  match given args.baseSha with
  | none => .error .gateError
  | some baseSha =>
    if !isHeadSha (lower baseSha) then .error .gateError
    else do
      let policy ← (git.showFile ((given args.routinePolicyRef).getD []) args.routinePolicy).get
      let policy ← checkPolicy policy
      check (policy.branchPrefix.any (Json.isStr "routine/") && "routine/".toList.isPrefixOf headRef)
      match markerFields routineName body with
      | [(fields, [])] => evaluateMarker args headSha baseSha git policy fields
      | [(_, _ :: _)] => .ok .ambiguous
      | _ => .ok .missing

/-! ## The gate -/

/-- The exit codes: nothing was found, something was, or there is no verdict. -/
inductive ExitCode where
  | ok
  | finding
  | noVerdictRetryable
  | noVerdictPermanent
  deriving DecidableEq

/-- The numbers of the exit codes. -/
def ExitCode.value : ExitCode → Nat
  | .ok => 0
  | .finding => 1
  | .noVerdictRetryable => 2
  | .noVerdictPermanent => 3

/-- Everything that the gate is not given on its command line.  Each pull request of a sweep meets a GitHub of its
    own. -/
structure World where
  leaseEnv : Option Text
  clock : Instant
  file : Text → Load Text
  /-- nothing for a terminal -/
  stdin : Option Text
  git : Git
  github : GitHub
  pulls : Nat → Attempt Text
  met : Nat → GitHub
  runtime : Runtime

/-- The lease of the command line, or that of the environment, which has to be positive. -/
def leaseMinutes (cliValue : Option Int) (env : Option Text) : Except Raised Int :=
  match cliValue with
  | some n => .ok n
  | none =>
    match env with
    | none => .ok defaultLeaseMinutes
    | some raw =>
      if strip raw = [] then .ok defaultLeaseMinutes
      else
        match intOf (strip raw) with
        | none => .error .gateError
        | some n => if n ≤ 0 then .error .gateError else .ok n

/-- `routine/` and a name in lower case. -/
def isRoutineBranch (headRef : Text) : Bool :=
  match after "routine/" headRef with
  | none => false
  | some rest =>
    matchesAtEnd (fun s => s.head?.any (fun c => isDigit c || ('a' ≤ c && c ≤ 'z')) && s.all fun c =>
      isDigit c || ('a' ≤ c && c ≤ 'z') || c = '.' || c = '_' || c = '-') rest

/-- The body, from its file or from standard input, which is not read from a terminal. -/
def readBody (args : CommandLine) (world : World) : Except Raised Text :=
  match given args.body with
  | some path => (world.file path).get
  | none =>
    match world.stdin with
    | some body => .ok body
    | none => .error .gateError

/-- The instant that was given, if one was; it has to be one. -/
def givenNow (args : CommandLine) (runtime : Runtime) : Except Raised (Option Instant) :=
  match given args.now with
  | none => .ok none
  | some raw => (parseInstant runtime raw).elim (.error .gateError) fun now => .ok (some now)

/-- The arguments once they have been checked. -/
def options (args : CommandLine) (world : World) : Except Raised Options := do
  let lease ← leaseMinutes args.leaseMinutes world.leaseEnv
  let now ← givenNow args world.runtime
  check (expiryOf (now.getD world.clock) lease).isSome
  check (match args.routinePreviousHead with
    | none => true
    | some previous => (given args.routinePolicyRef).isSome && isHeadSha (lower previous))
  .ok ⟨args.repo, lease, args.leaseMinutes.isSome, now, args.dryRun, world.runtime⟩

/-- The verdict over a routine pull request. -/
def judgeRoutine (args : CommandLine) (headRef headSha body : Text) (git : Git) : Except Raised ExitCode := do
  let routine ← evaluateRoutine args headRef headSha body git
  .ok (if routine = .admitted ∨ routine = .provisional then .ok else .finding)

/-- The verdict over a pull request for an item, if it is one. -/
def judgeItem (args : Options) (headRef headSha body : Text) (github : GitHub) : Except Raised ExitCode := do
  match ← itemArgs args headRef headSha with
  | none => .ok .ok
  | some per =>
    match evaluate per args.runtime body github with
    | .error .forbidden => .error .gateError
    | .error raised => .error raised
    | .ok (none, _) => .ok .ok
    | .ok (some _, _) => .ok .finding

/-- **`main`**: the sweep, or one pull request, which is routine by its branch and by the policy that
    the command line names. -/
def main (args : CommandLine) (world : World) : Except Raised ExitCode := do
  let opts ← options args world
  if args.sweep then
    check ((given args.headRef).isNone && (given args.headSha).isNone && (given args.baseSha).isNone &&
      (given args.body).isNone)
    match sweepAll opts world.pulls world.met with
    | (_, some raised) => .error raised
    | (_, none) => .ok .ok
  else
    match given args.headRef, given args.headSha with
    | some headRef, some headSha =>
      check (isHeadSha (lower headSha))
      let body ← readBody args world
      if isRoutineBranch headRef ∧ (given args.routinePolicyRef).isSome then
        judgeRoutine args headRef headSha body world.git
      else judgeItem opts headRef headSha body world.github
    | _, _ => .error .gateError

/-- No exception comes out as a finding. -/
def run (outcome : Except Raised ExitCode) : ExitCode :=
  match outcome with
  | .ok code => code
  | .error .unreachable => .noVerdictRetryable
  | .error _ => .noVerdictPermanent

/-! ## The envelope -/

/-- The event that the envelope is called for, and the names of what it refers to. -/
structure Envelope where
  repository : Text
  defaultBranch : Text
  baseRef : Text
  baseRevision : Text
  baseSha : Text
  headRef : Text
  headRevision : Text
  headSha : Text
  body : Text
  previousHead : Option Text
  /-- the validator and the body are there -/
  filesExist : Bool

/-- Forty hexadecimal digits in lower case. -/
def isSha (text : Text) : Bool := text.length = 40 && text.all isLowerHex

/-- What goes on, unless the envelope fails. -/
def require (p : Bool) : Option Unit := if p then some () else none

/-- An answer, where every exception is a failure of the envelope. -/
def Load.answered {α : Type} : Load α → Option α
  | .loaded content => some content
  | _ => none

/-- The commit that a change is measured from, if the history proves that the base only moved on. -/
def diffBase (git : Git) (eventBase liveBase head : Text) : Option Text :=
  if liveBase = eventBase then some eventBase
  else do
    require (← (git.isAncestor eventBase liveBase).answered)
    require (!(← (git.isAncestor head liveBase).answered))
    match git.mergeBases liveBase head with
    | .loaded [base] => do
      require (isSha base)
      some base
    | _ => none

/-- The command line with which the gate is called. -/
def validatorCall (event : Envelope) (liveBase measuredFrom : Text) : CommandLine where
  repo := event.repository
  headRef := some event.headRef
  headSha := some event.headSha
  baseSha := some measuredFrom
  routinePolicy := ".fsgg/routine-development.json"
  routinePolicyRef := some liveBase
  routinePreviousHead := event.previousHead
  body := some event.body
  leaseMinutes := none
  now := none
  sweep := false
  dryRun := false

/-- A push that only added commits to the head before it, where one is named. -/
def checkParent (event : Envelope) (git : Git) : Option Unit :=
  match event.previousHead with
  | none => some ()
  | some previous => do
    require (isSha previous && previous ≠ event.headSha)
    require (← (git.isAncestor previous event.headSha).answered)

/-- The gate is called if the event is that of the repository. -/
def validatorArgs (event : Envelope) (git : Git) : Option CommandLine := do
  require (event.baseRef = event.defaultBranch)
  require (isSha event.baseSha)
  require (isSha event.headSha)
  let liveBase := strip (← (git.revParse event.baseRevision).answered)
  require (isSha liveBase)
  require (strip (← (git.revParse event.headRevision).answered) = event.headSha)
  require ("routine/".toList.isPrefixOf event.headRef)
  require event.filesExist
  checkParent event git
  let measuredFrom ← diffBase git event.baseSha liveBase event.headSha
  some (validatorCall event liveBase measuredFrom)

/-- The exit code of the envelope: that of the gate, if it gets to call it. -/
def envelope (event : Envelope) (world : World) : Nat :=
  match validatorArgs event world.git with
  | some args => (run (main args world)).value
  | none => 1

end ClaimGeneration

end FsQuint
