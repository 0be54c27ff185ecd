/-
  The merge fence: a pull request for an item is green only under the claim generation that is live.

  1. **Markers** — an item is claimed with a comment that carries a marker (`claimMarker`), and a pull request
     carries the generation that it was authorized under, the number of such a comment (`findAuthorizations`).
     Both are read with the same grammar of fields (`fieldsOf`).
  2. **Requests** — what GitHub answers is asked of the outside, in tries that can fail (`ghApi`).  An answer is
     a text of one JSON document a line.  A line that is no document is skipped, and anything else that cannot
     be read is an exception (`readLines`); an exception carries its class and not its text.
  3. **Claims** — what the comments of an item say at an instant (`readClaimState`): the generation that is live
     is the lowest of those whose lease has not run out.  The age of a claim goes through a floating point
     number (`secondsFrom`), as in the source, and what is rounded there is rounded here.
  4. **The verdict** over a pull request (`classify`) compares the two, and publishes how long it holds
     (`deadlineLines`).
  5. **The sweep** (`sweepAll`) compares again later, and revokes what has gone stale.

  What differs from one interpreter to another is a parameter of the whole (`Runtime`), and so are the tries of
  a request.
-/
import FsQuint.Lib.PythonJson
import FsQuint.Lib.Calendar

namespace FsQuint

open PythonJson

namespace ClaimGeneration

/-! ## Texts -/

/-- A text, as the list of its code points. -/
abbrev Text := List Char

instance : Coe String Text := ⟨String.toList⟩

/-- `str(n)`. -/
def decimal (n : Nat) : Text := Nat.toDigits 10 n

/-- `str(n)`, with its sign. -/
def decimalInt : Int → Text
  | .ofNat n => decimal n
  | .negSucc n => '-' :: decimal (n + 1)

/-- What `\s` matches. -/
def isSpace (c : Char) : Bool :=
  let n := c.toNat
  (9 ≤ n && n ≤ 13) || (28 ≤ n && n ≤ 32) || n = 0x85 || n = 0xA0 || n = 0x1680 || (0x2000 ≤ n && n ≤ 0x200A) ||
    n = 0x2028 || n = 0x2029 || n = 0x202F || n = 0x205F || n = 0x3000

/-- `[A-Za-z]`. -/
def isLetter (c : Char) : Bool := ('a' ≤ c && c ≤ 'z') || ('A' ≤ c && c ≤ 'Z')

/-- `[0-9a-f]`. -/
def isLowerHex (c : Char) : Bool := isDigit c || ('a' ≤ c && c ≤ 'f')

/-- Nothing but an ASCII letter is a hexadecimal digit in lower case. -/
def lower (text : Text) : Text := text.map Char.toLower

/-- `text.strip()`. -/
def strip (text : Text) : Text := ((text.dropWhile isSpace).reverse.dropWhile isSpace).reverse

/-- `$` also matches before a line feed at the end. -/
def matchesAtEnd (p : Text → Bool) (text : Text) : Bool :=
  p text || (text.getLast? = some '\n' && p text.dropLast)

/-- `HEAD_SHA_RE`: forty digits. -/
def isHeadSha (text : Text) : Bool := matchesAtEnd (fun s => s.length = 40 && s.all isLowerHex) text

/-- `GEN_RE`. -/
def isGen (text : Text) : Bool := matchesAtEnd (fun s => s ≠ [] && s.all isDigit) text

/-- `owner/repo#n`: neither blanks nor another `#` in what stands before. -/
def isItem (text : Text) : Bool :=
  let repo := text.takeWhile fun c => !isSpace c && c ≠ '#'
  let rest := text.drop repo.length
  repo ≠ [] && rest.head? = some '#' && matchesAtEnd (fun s => s ≠ [] && s.all isDigit) rest.tail

/-- The zeros of the decimal digits, each followed by its one to nine. -/
def zeros : List Nat :=
  [0x30, 0x660, 0x6F0, 0x7C0, 0x966, 0x9E6, 0xA66, 0xAE6, 0xB66, 0xBE6, 0xC66, 0xCE6, 0xD66, 0xDE6, 0xE50, 0xED0,
   0xF20, 0x1040, 0x1090, 0x17E0, 0x1810, 0x1946, 0x19D0, 0x1A80, 0x1A90, 0x1B50, 0x1BB0, 0x1C40, 0x1C50, 0xA620,
   0xA8D0, 0xA900, 0xA9D0, 0xA9F0, 0xAA50, 0xABF0, 0xFF10, 0x104A0, 0x10D30, 0x11066, 0x110F0, 0x11136, 0x111D0,
   0x112F0, 0x11450, 0x114D0, 0x11650, 0x116C0, 0x11730, 0x118E0, 0x11950, 0x11C50, 0x11D50, 0x11DA0, 0x16A60,
   0x16AC0, 0x16B50, 0x1D7CE, 0x1D7D8, 0x1D7E2, 0x1D7EC, 0x1D7F6, 0x1E140, 0x1E2F0, 0x1E950, 0x1FBF0]

/-- The value of a decimal digit of any script. -/
def digitOf (c : Char) : Option Nat :=
  (zeros.find? fun z => z ≤ c.toNat && c.toNat < z + 10).map fun z => c.toNat - z

/-- Digits, with at most one underscore between two of them. -/
def digits : Text → Option (List Nat)
  | [] => none
  | [c] => (digitOf c).map fun d => [d]
  | c :: '_' :: rest => do
    let d ← digitOf c
    let ds ← digits rest
    some (d :: ds)
  | c :: rest => do
    let d ← digitOf c
    let ds ← digits rest
    some (d :: ds)

/-- The value of a run of digits, if there are not too many of them. -/
def naturalOf (text : Text) : Option Nat := do
  let ds ← digits text
  if ds.length ≤ maxStrDigits then some (ds.foldl (fun n d => 10 * n + d) 0) else none

/-- `int(text)`: a number with its sign, between blanks. -/
def intOf (text : Text) : Option Int :=
  match strip text with
  | '-' :: rest => (naturalOf rest).map fun n => -(n : Int)
  | '+' :: rest => (naturalOf rest).map fun n => (n : Int)
  | rest => (naturalOf rest).map fun n => (n : Int)

/-! ## Markers -/

/-- What is left of a text after a prefix. -/
def after (start : String) (text : Text) : Option Text := text.dropPrefix? start.toList

/-- The letters in front. -/
def key (text : Text) : Text := text.takeWhile isLetter

/-- What stands before the next blank. -/
def value (text : Text) : Text := text.takeWhile fun c => !isSpace c

/-- A `key=value` where a text starts. -/
def field (text : Text) : Option ((Text × Text) × Text) :=
  match text.dropWhile isLetter with
  | '=' :: rest =>
    if key text ≠ [] ∧ value rest ≠ [] then some ((key text, value rest), rest.dropWhile fun c => !isSpace c) else none
  | _ => none

/-- The fields of a marker, in the order in which their keys first came. -/
abbrev Fields := List (Text × Text)

/-- Of two fields with one key the later counts. -/
def fieldsOf (text : Text) : Fields :=
  (Scan.finditer field text).foldl (fun fields field => Table.store Prod.fst field fields) []

/-- The value of a key. -/
def Fields.get (fields : Fields) (key : String) : Option Text := (Table.lookup Prod.fst key.toList fields).map Prod.snd

/-- A marker where a text starts: the comment opens, has the name in front, and ends at the first `-->`. -/
def marker (name : String) (text : Text) : Option (Text × Text) := do
  let opened ← after "<!--" text
  let named ← after name (opened.dropWhile isSpace)
  if named.head?.any isSpace then (named.dropWhile isSpace).dropInfix? ("-->" : Text) else none

/-- The name of the marker that a pull request carries. -/
def authorizationName : String := "fsgg:pr-authorization"

/-- Every authorization in a body. -/
def findAuthorizations (body : Text) : List Fields := (Scan.finditer (marker authorizationName) body).map fieldsOf

/-- The fields of a comment that starts with a claim marker. -/
def claimMarker (body : Text) : Option Fields := (marker "fsgg:claim" body).map fun found => fieldsOf found.1

/-! ## Exceptions and requests -/

/-- The classes of exceptions that some handler tells apart. -/
inductive Raised where
  | missing
  | forbidden
  | unreachable
  | gateError
  | other
  deriving DecidableEq

/-- How one try of a request ends. -/
inductive Attempt (α : Type) where
  | printed (out : α)
  | failed (stderr : Text)
  | timedOut
  /-- an exception other than a timeout -/
  | broke

/-- `" ".join(stderr.split())`. -/
def flattened (stderr : Text) : Text := List.intercalate [' '] ((stderr.splitOnP isSpace).filter (· ≠ []))

/-- `re.search`, of a text that stands for itself. -/
def occursIn (part : String) (text : Text) : Bool := (text.dropInfix? part.toList).isSome

/-- An answer of GitHub that it is no use to ask for again. -/
def definite (stderr : Text) : Option Raised :=
  let err := flattened stderr
  if occursIn "(HTTP 404)" err then some .missing
  else if occursIn "(HTTP 401)" err || occursIn "(HTTP 403)" err then some .forbidden
  else none

/-- The tries of a request, from one of them on, while some are left. -/
def tryFrom {α : Type} (attempt : Nat → Attempt α) : Nat → Nat → Except Raised α
  | _, 0 => .error .unreachable
  | number, left + 1 =>
    match attempt number with
    | .printed out => .ok out
    | .broke => .error .other
    | .timedOut => if left = 0 then .error .unreachable else tryFrom attempt (number + 1) left
    | .failed stderr =>
      match definite stderr with
      | some raised => .error raised
      | none => if left = 0 then .error .unreachable else tryFrom attempt (number + 1) left

/-- A read, with as many tries as the run allows. -/
def ghApi {α : Type} (tries : Nat) (attempt : Nat → Attempt α) : Except Raised α := tryFrom attempt 1 tries

/-- A submission: one try, of which a timeout is not handled. -/
def ghApiPost (attempt : Attempt Unit) : Except Raised Unit :=
  match attempt with
  | .printed () => .ok ()
  | .broke | .timedOut => .error .other
  | .failed stderr => .error ((definite stderr).getD .unreachable)

/-! ## Instants -/

/-- The microseconds of a second. -/
def microseconds : Int := 1000000

/-- The microseconds of a day. -/
def oneDay : Int := 86400 * microseconds

/-- The end of the year 9999. -/
def endOfTime : Int := 3652059 * oneDay

/-- An instant, in microseconds since the beginning of the year 1, with the offset that it is written in.  The
    date that is written is one of the years 1 to 9999, and the offset is less than a day. -/
structure Instant where
  utc : Int
  offset : Int
  dated : 0 ≤ utc + offset ∧ utc + offset < endOfTime
  near : -oneDay < offset ∧ offset < oneDay
  deriving DecidableEq

/-- The time on the clock that an instant is written with. -/
def Instant.local (t : Instant) : Int := t.utc + t.offset

/-- The instant a lease after another one, if that is a date. -/
def expiryOf (since : Instant) (leaseMinutes : Int) : Option Instant :=
  let utc := since.utc + leaseMinutes * 60 * microseconds
  if h : 0 ≤ utc + since.offset ∧ utc + since.offset < endOfTime then some ⟨utc, since.offset, h, since.near⟩
  else none

/-- `int((now - since).total_seconds())`: the seconds are a floating point number before they are cut off. -/
def secondsFrom (since now : Instant) : Int :=
  (now.utc - since.utc).sign * Binary64.whole (now.utc - since.utc).natAbs 1000000

/-- `%02d`. -/
def twoDigits (n : Int) : Text := if n < 10 then '0' :: decimalInt n else decimalInt n

/-- `%Y-%m-%dT%H:%M:%SZ`. -/
def Instant.strftime (t : Instant) : Text :=
  let second := t.local / microseconds
  let (year, month, day) := Calendar.civil (second / 86400)
  decimalInt year ++ "-" ++ twoDigits month ++ "-" ++ twoDigits day ++ "T" ++ twoDigits (second % 86400 / 3600) ++ ":" ++
    twoDigits (second % 3600 / 60) ++ ":" ++ twoDigits (second % 60) ++ "Z"

/-! ## Answers -/

/-- How a run is set up: the tries of a request, and what depends on the interpreter: how deep a document may
    nest, which texts are read as an instant (in UTC where they name no offset), and how a value that is no text
    is written, if it is. -/
structure Runtime where
  tries : Nat
  maxDepth : Nat
  fromisoformat : Text → Option Instant
  str : Json → Option Text

/-- `parse_instant`, with nothing for its exception. -/
def parseInstant (runtime : Runtime) (raw : Text) : Option Instant :=
  runtime.fromisoformat (raw.flatMap fun c => if c = 'Z' then "+00:00".toList else [c])

/-- Where `splitlines` cuts.  Of two that belong together the second leaves an empty line, which is skipped. -/
def isLineBreak (c : Char) : Bool :=
  let n := c.toNat
  (10 ≤ n && n ≤ 13) || (28 ≤ n && n ≤ 30) || n = 0x85 || n = 0x2028 || n = 0x2029

/-- The lines of an output that are not empty, without the blanks around them. -/
def lines (out : Text) : List Text := ((out.splitOnP isLineBreak).map strip).filter (· ≠ [])

/-- A loop over the lines of an output: what is no document is skipped, and every other failure is an exception. -/
def readLines {α : Type} (maxDepth : Nat) (f : Json → Except Raised (Option α)) : List Text → Except Raised (List α)
  | [] => .ok []
  | line :: rest =>
    match loads maxDepth line with
    | .error .decodeError => readLines maxDepth f rest
    | .error .otherError => .error .other
    | .ok json => do
      let found ← f json
      let others ← readLines maxDepth f rest
      .ok (found.toList ++ others)

/-- A value, if it is a text. -/
def textOf : Option Json → Option Text
  | some (.str s) => some s
  | _ => none

/-! ## Claims -/

/-- What is a number to the interpreter: a truth value is one too, but is written otherwise. -/
inductive CommentId where
  | int (n : Int)
  | bool (b : Bool)
  deriving DecidableEq

/-- The number that claims are ordered by. -/
def CommentId.value : CommentId → Int
  | .int n => n
  | .bool b => if b then 1 else 0

/-- `str(id)`. -/
def CommentId.text : CommentId → Text
  | .int n => decimalInt n
  | .bool b => if b then "True" else "False"

/-- A value, if it is a number. -/
def idOf : Option Json → Option CommentId
  | some (.number n) => some (.int n)
  | some (.bool b) => some (.bool b)
  | _ => none

/-- A comment of an item: the number if it is one, the body if it is a text, and the time of its last change if
    it can be read. -/
structure Comment where
  id : Option CommentId
  body : Option Text
  updatedAt : Option Instant
  deriving DecidableEq

/-- The comment that a document is; only an object has fields. -/
def commentOf (runtime : Runtime) (json : Json) : Except Raised Comment :=
  if json.isDict then
    .ok ⟨idOf (json.get "id"), textOf (json.get "body"), (textOf (json.get "updated_at")).bind (parseInstant runtime)⟩
  else .error .other

/-- A claim, reduced to what a verdict needs. -/
structure Claimant where
  id : CommentId
  worker : Option Text
  lease : Int
  leaseSource : Text
  expiresAt : Option Instant
  ageSeconds : Int
  deriving DecidableEq

/-- What the claims of an item say at an instant. -/
inductive ClaimState where
  | held (winner : Claimant)
  | expired (lapsed : Claimant)
  | released
  deriving DecidableEq

/-- The lease of a claim where nothing says another. -/
def defaultLeaseMinutes : Int := 120

/-- The lease that a marker runs under, with where that comes from. -/
def markerLease (fields : Fields) (fallback : Int) (cliOverride : Bool) : Int × Text :=
  if cliOverride then (fallback, "set by --lease-minutes")
  else
    match fields.get "lease" with
    | none => (fallback, "this gate's fallback — the marker declares no `lease=`")
    | some raw =>
      match intOf raw with
      | none => (fallback, "this gate's fallback — the marker's `lease=" ++ raw ++ "` is not a number")
      | some n =>
        if n ≤ 0 then (fallback, "this gate's fallback — the marker's `lease=" ++ raw ++ "` is not positive")
        else (n, "declared by that marker")

/-- The lease of a claim that was last changed at an instant, and when it runs out: what cannot be counted from
    there falls back. -/
def usableLease (lease : Int × Text) (fallback : Int) (since : Instant) : Except Raised ((Int × Text) × Instant) :=
  match expiryOf since lease.1 with
  | some expires => .ok (lease, expires)
  | none =>
    match expiryOf since fallback with
    | some expires =>
      .ok ((fallback, "this gate's fallback — the marker's `lease=" ++ decimalInt lease.1 ++
        "` is too large to compute an expiry instant from"), expires)
    | none => .error .gateError

/-- The claim that a comment makes, if it makes one that can be ordered. -/
def readClaimant (fallback : Int) (cliOverride : Bool) (now : Instant) (comment : Comment) :
    Except Raised (Option Claimant) :=
  match comment.body.bind claimMarker, comment.id with
  | some fields, some id =>
    let lease := markerLease fields fallback cliOverride
    let worker := fields.get "worker"
    match comment.updatedAt with
    | none => .ok (some ⟨id, worker, lease.1, lease.2, none, -1⟩)
    | some since => do
      let (lease, expires) ← usableLease lease fallback since
      .ok (some ⟨id, worker, lease.1, lease.2, some expires, secondsFrom since now⟩)
  | _, _ => .ok none

/-- The lease is outlived; an age that could not be read is negative and outlives nothing. -/
def Claimant.hasLapsed (c : Claimant) : Bool := 0 ≤ c.ageSeconds && c.lease * 60 < c.ageSeconds

/-- The first of those items that no other one is before. -/
def firstBy {α : Type} (before : α → α → Bool) : List α → Option α
  | [] => none
  | a :: rest =>
    match firstBy before rest with
    | none => some a
    | some b => if before b a then some b else some a

/-- When a claim lapsed. -/
def Claimant.lapse (c : Claimant) : Int := (c.expiresAt.map Instant.utc).getD 0

/-- A claim lapsed after another one, or at once with it and has the higher number. -/
def Claimant.lapsedAfter (c d : Claimant) : Bool :=
  d.lapse < c.lapse || (d.lapse = c.lapse && d.id.value < c.id.value)

/-- The lowest claim that is live, and otherwise the one that lapsed last. -/
def stateOf (claimants : List Claimant) : ClaimState :=
  match firstBy (fun c d => c.id.value < d.id.value) (claimants.filter fun c => !c.hasLapsed) with
  | some winner => .held winner
  | none =>
    match firstBy Claimant.lapsedAfter (claimants.filter Claimant.hasLapsed) with
    | some lapsed => .expired lapsed
    | none => .released

/-- What the comments of an item say, as GitHub prints them. -/
def readClaimState (runtime : Runtime) (out : Text) (fallback : Int) (cliOverride : Bool) (now : Instant) :
    Except Raised ClaimState := do
  let claimants ← readLines runtime.maxDepth
    (fun json => commentOf runtime json >>= readClaimant fallback cliOverride now) (lines out)
  .ok (stateOf claimants)

/-! ## The verdict over a pull request -/

/-- What can be wrong with an authorization. -/
inductive Kind where
  | missing
  | stale
  | expired
  | mismatched
  deriving DecidableEq

/-- A kind, as it is reported. -/
def Kind.text : Kind → Text
  | .missing => "missing"
  | .stale => "stale"
  | .expired => "expired"
  | .mismatched => "mismatched"

/-- A kind, with its message. -/
abbrev Finding := Kind × Text

/-- The pull request of an item, and how its claims are to be counted. -/
structure ItemArgs where
  repo : Text
  headRef : Text
  headSha : Text
  itemNumber : Nat
  leaseMinutes : Int
  leaseFromCli : Bool
  now : Option Instant

/-- The item, as an authorization has to name it. -/
def ItemArgs.expectedItem (args : ItemArgs) : Text := args.repo ++ "#" ++ decimal args.itemNumber

/-- The generation that is live, as it is compared. -/
def ClaimState.generation : ClaimState → Text
  | .held winner => winner.id.text
  | _ => "released"

/-- The fields that an authorization has to have. -/
def requiredFields : List String := ["v", "item", "gen", "head"]

/-- The version that an authorization has to be of. -/
def supportedVersion : Text := "1"

/-- What the one marker of a body says, if it says it for this pull request. -/
def classifyFields (args : ItemArgs) (fields : Fields) : Except Finding Text :=
  match fields.get "v", fields.get "item", fields.get "gen", fields.get "head" with
  | some v, some item, some gen, some head =>
    if v ≠ supportedVersion then
      .error (.missing, "the `fsgg:pr-authorization` marker names `v=" ++ v ++ "`, which this gate does not " ++
        "understand (supported: v=" ++ supportedVersion ++ ").")
    else if !isGen gen then
      .error (.mismatched, "`gen=" ++ gen ++ "` is not shaped like a claim-marker comment id (expected decimal " ++
        "digits only) — this authorization cannot correspond to any real claim generation.")
    else if lower head ≠ lower args.headSha then
      .error (.mismatched, "`head=" ++ head ++ "` does not equal this PR's current head SHA " ++
        "(" ++ args.headSha ++ "). A push after the authorization was written means the authorization is " ++
        "for a different artifact — the same rule `delivery --apply` already enforces client-side " ++
        "(`src/FS.GG.Coord.Cli/Client.fs`: a merge is refused because \"the PR is no longer at the " ++
        "inspected head\").")
    else if !isItem item then
      .error (.mismatched, "`item=" ++ item ++ "` is not shaped like `owner/repo#n` — this authorization cannot " ++
        "be resolved to any item at all.")
    else if item ≠ args.expectedItem then
      .error (.mismatched, "`item=" ++ item ++ "` does not match " ++ args.expectedItem ++ ", the item this PR's own " ++
        "branch (`" ++ args.headRef ++ "`) declares it delivers.")
    else .ok gen
  | _, _, _, _ =>
    .error (.missing, "the `fsgg:pr-authorization` marker is missing required field(s): " ++
      List.intercalate ", ".toList ((requiredFields.filter fun f => (fields.get f).isNone).map String.toList) ++ ".")

/-- The findings that are decided from the body alone; otherwise the generation that it names. -/
def classifyBody (args : ItemArgs) (body : Text) : Except Finding Text :=
  match findAuthorizations body with
  | [] =>
    .error (.missing, "no `fsgg:pr-authorization` marker in the PR body. This branch claims to deliver " ++
      args.expectedItem ++ " (its name matches `item/<n>-`), but the PR carries no authorization " ++
      "naming the claim generation it was written under — exactly the `#1853` shape: an executor " ++
      "that never held a claim has nothing to write into one.")
  | [fields] => classifyFields args fields
  | fields =>
    .error (.missing, decimal fields.length ++ " `fsgg:pr-authorization` markers in the PR body — exactly one is " ++
      "required. An ambiguous PR cannot be resolved to a single authorization, so this is treated the same " ++
      "as none.")

/-- What is said about an item whose claims have all lapsed. -/
def expiredText (args : ItemArgs) (gen : Text) (c : Claimant) : Text :=
  let who : Text := match c.worker with
    | some worker => "`" ++ worker ++ "`"
    | none => "an unnamed worker"
  let when' : Text := match c.expiresAt with
    | some expires => expires.strftime
    | none => "an unreadable instant"
  let overdue := max 0 (c.ageSeconds - c.lease * 60) / 60
  args.expectedItem ++ "'s claim LEASE HAS LAPSED. Its `fsgg:claim` marker (comment " ++
    c.id.text ++ ") is still there and still names " ++ who ++ ", but its " ++ decimalInt c.lease ++
    "-minute lease (" ++ c.leaseSource ++ ") ran out at " ++ when' ++ " — " ++ decimalInt overdue ++
    " minute(s) ago — and nothing has renewed it. This PR's " ++
    "authorization names generation `gen=" ++ gen ++ "`, which is no longer live.\n" ++
    "READ THIS AS EXPIRY, NOT AS A LOST RACE: nobody stole, reaped, or released the item, so " ++
    "`heartbeat` renews the SAME generation and this verdict is true again the moment it is " ++
    "re-evaluated. Only if the holder is genuinely gone does the item need re-`take`ing — which " ++
    "mints a HIGHER generation and requires a fresh `delivery` call to re-author this PR.\n" ++
    "TO CLEAR THIS CHECK after renewing: any push re-runs it, and so does a `delivery` call " ++
    "that actually PATCHes the PR body. A heartbeat alone changes no fact about the pull " ++
    "request and therefore fires no event, so re-run the `claim-generation` job to pick the " ++
    "renewal up. That step is deliberate rather than automatic: the scheduled sweep " ++
    "(.github/workflows/claim-freshness-sweep.yml) only ever REVOKES this check, and never " ++
    "grants it — a required merge gate is not something a cron should be able to turn green."

/-- The generation that a body names, against what the comments of the item say. -/
def classifyState (args : ItemArgs) (gen : Text) (state : ClaimState) : Option Finding :=
  match state with
  | .released =>
    some (.mismatched, args.expectedItem ++ " carries no `fsgg:claim` marker at all, but this PR's authorization " ++
      "names generation `gen=" ++ gen ++ "`. There is no tenancy for that generation to " ++
      "correspond to — the claim was RELEASED or reaped away, and nothing has reclaimed it. This " ++
      "is EVICTION, not expiry: an expired lease leaves its marker in place and is reported as " ++
      "`[expired]`, naming the worker who held it.")
  | .expired lapsed => some (.expired, expiredText args gen lapsed)
  | .held _ =>
    if state.generation ≠ gen then
      some (.stale, args.expectedItem ++ " is currently held under claim generation " ++ state.generation ++
        ", but this PR's authorization names generation `gen=" ++ gen ++ "`. The claim has moved on since this " ++
        "PR was authorized (released and reclaimed, stolen, or reaped) — re-take the item and " ++
        "re-author the authorization; comment ids are monotone, so the old generation can never " ++
        "become current again.")
    else none

/-- A check run, reduced to what the sweep asks of it. -/
structure CheckRun where
  id : Int
  conclusion : Option Text
  startedAt : Text
  deriving DecidableEq

/-- A check run that is submitted. -/
structure Payload where
  name : Text
  headSha : Text
  status : Text
  conclusion : Text
  title : Text
  summary : Text
  deriving DecidableEq

/-- What GitHub answers to the requests of one evaluation, by path and try, and the clock at that time. -/
structure GitHub where
  comments : Text → Nat → Attempt Text
  checkRuns : Text → Nat → Attempt Text
  post : Text → Payload → Attempt Unit
  clock : Instant

/-- Where the comments of an item are. -/
def commentsPath (repo : Text) (number : Nat) : Text := "repos/" ++ repo ++ "/issues/" ++ decimal number ++ "/comments"

/-- The verdict over a pull request, with the state of the claims that it was taken over. -/
def classify (args : ItemArgs) (runtime : Runtime) (body : Text) (github : GitHub) :
    Except Raised (Option Finding × Option ClaimState) :=
  match classifyBody args body with
  | .error finding => .ok (some finding, none)
  | .ok gen => do
    let out ← ghApi runtime.tries (github.comments (commentsPath args.repo args.itemNumber))
    let state ← readClaimState runtime out args.leaseMinutes args.leaseFromCli (args.now.getD github.clock)
    .ok (classifyState args gen state, some state)

/-- An item that does not exist is an answer, and not a read that failed. -/
def evaluate (args : ItemArgs) (runtime : Runtime) (body : Text) (github : GitHub) :
    Except Raised (Option Finding × Option ClaimState) :=
  match classify args runtime body github with
  | .error .missing =>
    .ok (some (.mismatched, args.expectedItem ++ " does not exist, so this PR's authorization cannot correspond to " ++
      "any live claim generation."), none)
  | result => result

/-- The line that tells a reader of the output when the verdict runs out. -/
def expiresLine : Option Instant → Text
  | some expires => "check-claim-generation: verdict-expires-at=" ++ expires.strftime
  | none => "check-claim-generation: verdict-expires-at=unknown — the winning claim marker has no " ++
      "readable `updated_at`, so this verdict has no computable deadline."

/-- The deadline that is published with a verdict. -/
def deadlineLines (args : ItemArgs) (state : Option ClaimState) (clock : Instant) : List Text :=
  match state with
  | some (.held ⟨_, worker, lease, leaseSource, some expires, _⟩) =>
    let left := secondsFrom (args.now.getD clock) expires / 60
    let who : Text := match worker with
      | some worker => "`" ++ worker ++ "`"
      | none => "an unnamed worker"
    [expiresLine (some expires),
     "check-claim-generation: this verdict is BOUNDED — it stops being true at " ++ expires.strftime ++ " " ++
      "(in ~" ++ decimalInt left ++ "m), when " ++ who ++ "'s " ++ decimalInt lease ++ "-minute claim lease (" ++
      leaseSource ++ ") lapses unless it is renewed. " ++
      "No GitHub event fires on that instant, so this check run does not re-evaluate itself " ++
      "(.github#2656); the `claim-freshness-sweep` job in " ++
      "`.github/workflows/claim-freshness-sweep.yml` is what revokes this green if the lease " ++
      "lapses before the merge."]
  | _ => [expiresLine none]

/-! ## Applicability -/

/-- The arguments of a run, once they have been checked. -/
structure Options where
  repo : Text
  leaseMinutes : Int
  leaseFromCli : Bool
  now : Option Instant
  dryRun : Bool
  runtime : Runtime

/-- The digits of a branch `item/<n>-…`. -/
def itemBranch (headRef : Text) : Option Text :=
  match after "item/" headRef with
  | none => none
  | some rest =>
    let number := rest.takeWhile isDigit
    if number ≠ [] ∧ (rest.drop number.length).head? = some '-' then some number else none

/-- Nothing for a branch that delivers no item. -/
def itemArgs (args : Options) (headRef headSha : Text) : Except Raised (Option ItemArgs) :=
  match itemBranch headRef with
  | none => .ok none
  | some number =>
    match naturalOf number with
    | none => .error .other
    | some n => .ok (some ⟨args.repo, headRef, headSha, n, args.leaseMinutes, args.leaseFromCli, args.now⟩)

/-! ## The sweep -/

/-- A pull request as it is listed: the branch and the commit if they are texts, and the body if it can be
    searched. -/
structure PullRequest where
  ref : Option Text
  sha : Option Text
  body : Option Text

/-- `pr.get("body") or ""`, if that is a text. -/
def bodyOf : Option Json → Option Text
  | none => some []
  | some json => if json.truth then textOf (some json) else some []

/-- The pull request that an entry of the listing is; only an object has fields. -/
def pullRequestOf (entry : Json) : Option PullRequest :=
  if entry.isDict then some ⟨textOf (entry.get "ref"), textOf (entry.get "sha"), bodyOf (entry.get "body")⟩ else none

/-- Every open pull request, as the listing has it. -/
def openItemPrs (runtime : Runtime) (pulls : Nat → Attempt Text) : Except Raised (List Json) := do
  let out ← ghApi runtime.tries pulls
  readLines runtime.maxDepth (fun json => .ok (some json)) (lines out)

/-- The name that the verdict is published under. -/
def checkRunName : Text := "claim-generation"

/-- Where the check runs of a commit are. -/
def checkRunsPath (repo sha : Text) : Text :=
  "repos/" ++ repo ++ "/commits/" ++ sha ++ "/check-runs?check_name=" ++ checkRunName ++ "&per_page=100"

/-- Texts are compared by code points. -/
def textLt : Text → Text → Bool
  | _, [] => false
  | [], _ :: _ => true
  | c :: s, d :: t => c.toNat < d.toNat || (c = d && textLt s t)

/-- Runs are ordered by the text of their start, and those that start at once by their number. -/
def CheckRun.startedAfter (run other : CheckRun) : Bool :=
  textLt other.startedAt run.startedAt || (other.startedAt = run.startedAt && other.id < run.id)

/-- `str(value or "")`. -/
def strOr (runtime : Runtime) (value : Option Json) : Except Raised Text :=
  match value.filter Json.truth with
  | none => .ok []
  | some (.str s) => .ok s
  | some json => (runtime.str json).elim (.error .other) .ok

/-- `int(value or 0)`. -/
def intOr (value : Option Json) : Except Raised Int :=
  match value.filter Json.truth with
  | none => .ok 0
  | some (.number n) => .ok n
  | some (.bool _) => .ok 1
  | some (.float x) => x.toInt.elim (.error .other) .ok
  | some (.str s) => (intOf s).elim (.error .other) .ok
  | some _ => .error .other

/-- The check run that a document is.  It does not matter here which of two exceptions comes first, for all are
    of one class. -/
def checkRunOf (runtime : Runtime) (json : Json) : Except Raised CheckRun :=
  if json.isDict then do
    let startedAt ← strOr runtime (json.get "started_at")
    let id ← intOr (json.get "id")
    .ok ⟨id, textOf (json.get "conclusion"), startedAt⟩
  else .error .other

/-- The conclusion of the most recent run, if there is one. -/
def standingConclusion (repo sha : Text) (runtime : Runtime) (github : GitHub) : Except Raised (Option Text) := do
  let out ← ghApi runtime.tries (github.checkRuns (checkRunsPath repo sha))
  let runs ← readLines runtime.maxDepth (fun json => (checkRunOf runtime json).map some) (lines out)
  .ok ((firstBy CheckRun.startedAfter runs).bind CheckRun.conclusion)

/-- The failure that takes a standing verdict back. -/
def revocation (sha standing : Text) (finding : Finding) : Payload where
  name := checkRunName
  headSha := sha
  status := "completed"
  conclusion := "failure"
  title := "claim-generation re-evaluated and REVOKED: " ++ finding.1.text
  summary := finding.2 ++ "\n\nRevoked by `check-claim-generation.py --sweep` (.github#2656) " ++
    "because a claim lease expiring fires no GitHub event, so the standing " ++
    "`" ++ standing ++ "` verdict could not have noticed. This sweep only ever revokes: it " ++
    "cannot turn this check green again, and will not try. Re-run the " ++
    "`claim-generation` job once the claim is live again (`heartbeat` renews the same " ++
    "generation; a re-`take` mints a new one and needs a fresh `delivery` call)."

/-- What a sweep counts, and the check runs that it submits. -/
structure Tally where
  looked : Nat
  changed : Nat
  skipped : Nat
  crashed : Nat
  posted : List Payload

/-- Before the first pull request. -/
def Tally.zero : Tally := ⟨0, 0, 0, 0, []⟩

/-- What two parts of a sweep come to. -/
def Tally.add (a b : Tally) : Tally :=
  ⟨a.looked + b.looked, a.changed + b.changed, a.skipped + b.skipped, a.crashed + b.crashed, a.posted ++ b.posted⟩

/-- A pull request that is looked at and left as it was. -/
def Tally.alone : Tally := ⟨1, 0, 0, 0, []⟩

/-- A pull request that could not be evaluated or published. -/
def Tally.skip : Tally := ⟨1, 0, 1, 0, []⟩

/-- The conclusion that a verdict comes to. -/
def conclusionOf (finding : Option Finding) : Text := if finding.isNone then "success" else "failure"

/-- Where check runs are submitted. -/
def postPath (repo : Text) : Text := "repos/" ++ repo ++ "/check-runs"

/-- What a sweep does where it has found something to revoke. -/
def submit (args : Options) (sha standing : Text) (found : Finding) (github : GitHub) : Tally × Option Raised :=
  if args.dryRun then (⟨1, 1, 0, 0, []⟩, none)
  else
    let payload := revocation sha standing found
    match ghApiPost (github.post (postPath args.repo) payload) with
    | .ok () => (⟨1, 1, 0, 0, [payload]⟩, none)
    | .error .other => (⟨1, 0, 0, 0, [payload]⟩, some .other)
    | .error _ => (⟨1, 0, 1, 0, [payload]⟩, none)

/-- What a verdict changes: the one transition that the sweep may publish is from success to failure. -/
def publish (args : Options) (sha : Text) (finding : Option Finding) (github : GitHub) : Tally × Option Raised :=
  match standingConclusion args.repo sha args.runtime github with
  | .error .other => (.alone, some .other)
  | .error _ => (.skip, none)
  | .ok none => (.alone, none)
  | .ok (some standing) =>
    if standing = conclusionOf finding then (.alone, none)
    else
      match finding with
      | none => (.alone, none)
      | some found => if standing = "success".toList then submit args sha standing found github else (.alone, none)

/-- What a sweep does about one pull request, and the exception that ends it there.  A body that cannot be
    searched is an exception of the evaluation, as every one that is no failed read. -/
def sweepPull (args : Options) (pr : PullRequest) (github : GitHub) : Tally × Option Raised :=
  match pr.ref, pr.sha with
  | some ref, some sha =>
    if isHeadSha (lower sha) then
      match itemArgs args ref sha with
      | .error raised => (.zero, some raised)
      | .ok none => (.zero, none)
      | .ok (some per) =>
        match pr.body.elim (.error .other) fun body => evaluate per args.runtime body github with
        | .error .forbidden | .error .unreachable | .error .gateError => (.skip, none)
        | .error _ => (⟨1, 0, 1, 1, []⟩, none)
        | .ok (finding, _) => publish args sha finding github
    else (.zero, none)
  | _, _ => (.zero, none)

/-- An entry of the listing that is no object has no fields to be asked for. -/
def sweepOne (args : Options) (entry : Json) (github : GitHub) : Tally × Option Raised :=
  match pullRequestOf entry with
  | none => (.zero, some .other)
  | some pr => sweepPull args pr github

/-- The entries one after another, each with the GitHub that is met there. -/
def sweepFrom (args : Options) : Tally → List (Json × GitHub) → Tally × Option Raised
  | tally, [] => (tally, none)
  | tally, (entry, github) :: rest =>
    match sweepOne args entry github with
    | (change, some raised) => (tally.add change, some raised)
    | (change, none) => sweepFrom args (tally.add change) rest

/-- The entries of a listing, each with the GitHub that is met when the sweep gets to it. -/
def visits (entries : List Json) (met : Nat → GitHub) : List (Json × GitHub) :=
  entries.zipIdx.map fun entry => (entry.1, met entry.2)

/-- The sweep over every open pull request, unless they cannot be listed. -/
def sweepAll (args : Options) (pulls : Nat → Attempt Text) (met : Nat → GitHub) : Tally × Option Raised :=
  match openItemPrs args.runtime pulls with
  | .error raised => (.zero, some raised)
  | .ok entries => sweepFrom args .zero (visits entries met)

end ClaimGeneration

end FsQuint
