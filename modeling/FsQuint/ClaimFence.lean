/-
  The fence over whole histories of an item.

  1. **The verdict and the lock** — a pull request is green exactly under the generation that holds the lock
     (`green_iff`).  What an evaluation gets of the comments is what the output of `gh` decodes to, line by line
     (`Shows`).
  2. **Histories** — comments come and go between two evaluations (`Step`).  GitHub numbers them in the order in
     which they are written, so that a new claim comes after every old one; what else happens to which comment
     is a parameter.
  3. **The guarantees** — a green verdict lasts exactly as long as the lease that it was given under, and says
     so (`green_until`); meanwhile no other generation is green (`green_exclusive`); a generation that has been
     lost is not green again unless its claim is renewed (`lost_for_good`); no comment but its own greens it
     (`forged_greens_nothing`); and a renewal brings it back (`renewal_greens`).

  A generation is the id of a claim comment, and ids are never given out twice; so what a history
  can do to a claim is to delete it, to edit it, or to leave it.  Which comments may be edited or
  deleted between two evaluations is a parameter of a history, and each guarantee is for all
  histories in which the comments that it speaks of are left alone.
-/
import Mathlib.Logic.Relation
import FsQuint.ClaimState
import FsQuint.ClaimStamps

namespace FsQuint

open Lease PythonJson

namespace ClaimGeneration

variable {args : ItemArgs} {runtime : Runtime} {body gen : Text} {github : GitHub}
  {comments comments' : List Comment} {now now' : Instant} {i j : Int}

/-! ## The verdict and the lock -/

/-- GitHub numbers its comments: no number is a truth value. -/
def Numeric (comments : List Comment) : Prop := ∀ comment ∈ comments, ∀ b, comment.id ≠ some (.bool b)

/-- The comments of the item and the time, as an evaluation gets them: every line that `gh` prints is skipped or
    read as one of them. -/
structure Shows (args : ItemArgs) (runtime : Runtime) (github : GitHub) (comments : List Comment) (now : Instant) :
    Prop where
  printed : ∃ out, ghApi runtime.tries (github.comments (commentsPath args.repo args.itemNumber)) = .ok out ∧
    commentsOf runtime out = .ok comments
  numeric : Numeric comments
  now : args.now.getD github.clock = now

/-- The pull request is green. -/
def Green (args : ItemArgs) (runtime : Runtime) (body : Text) (github : GitHub) : Prop :=
  ∃ state, classify args runtime body github = .ok (none, state)

/-- The lock of the item belongs to a generation. -/
def Current (args : ItemArgs) (comments : List Comment) (now : Instant) (i : Int) : Prop :=
  HeldBy number (deadline args.leaseMinutes args.leaseFromCli) (claims comments) now.utc i

/-- The state that the comments of an item are read as. -/
abbrev StateOf (args : ItemArgs) (comments : List Comment) (now : Instant) (state : ClaimState) : Prop :=
  readComments args.leaseMinutes args.leaseFromCli now comments = .ok state

/-- Nothing is found when the winner has the generation that the marker names. -/
theorem classifyState_eq_none {state : ClaimState} :
    classifyState args gen state = none ↔ ∃ winner, state = .held winner ∧ winner.id.text = gen := by
  cases state with
  | held winner =>
    rw [classifyState, ite_eq_right_iff]
    constructor
    · intro h
      refine ⟨winner, rfl, ?_⟩
      by_contra hne
      exact absurd (h hne) (Option.some_ne_none _)
    · rintro ⟨winner', hwinner, hgen⟩ hne
      rw [← hgen, ← ClaimState.held.inj hwinner] at hne
      exact absurd rfl hne
  | expired lapsed =>
    constructor
    · intro h
      rw [classifyState] at h
      exact absurd h (Option.some_ne_none _)
    · rintro ⟨_, hheld, -⟩
      exact absurd hheld (by simp)
  | released =>
    constructor
    · intro h
      rw [classifyState] at h
      exact absurd h (Option.some_ne_none _)
    · rintro ⟨_, hheld, -⟩
      exact absurd hheld (by simp)

/-- What a verdict was taken over: the generation that the body names, and the state of the claims. -/
theorem classify_eq_ok {finding : Option Finding} {state : ClaimState} (hshows : Shows args runtime github comments now)
    (h : classify args runtime body github = .ok (finding, some state)) :
    ∃ gen, classifyBody args body = .ok gen ∧ classifyState args gen state = finding ∧
      StateOf args comments now state := by
  obtain ⟨out, hout, hcomments⟩ := hshows.printed
  rw [classify] at h
  split at h
  · exact absurd h (by simp)
  · next gen hgen =>
    obtain ⟨out', hout', h⟩ := bind_ok_iff.mp h
    obtain rfl := Except.ok.inj (hout.symm.trans hout')
    obtain ⟨state', hstate, h⟩ := bind_ok_iff.mp h
    obtain ⟨hfinding, hstate'⟩ := Prod.mk.inj (Except.ok.inj h)
    obtain rfl := Option.some.inj hstate'
    rw [hshows.now, readClaimState_eq hcomments] at hstate
    exact ⟨gen, hgen, hfinding, hstate⟩

/-- A verdict is taken over a generation that the body names and a state that is read. -/
theorem Shows.classify {state : ClaimState} (hshows : Shows args runtime github comments now)
    (hgen : classifyBody args body = .ok gen) (hread : StateOf args comments now state) :
    classify args runtime body github = .ok (classifyState args gen state, some state) := by
  obtain ⟨out, hout, hcomments⟩ := hshows.printed
  rw [ClaimGeneration.classify, hgen]
  refine bind_ok_iff.mpr ⟨out, hout, bind_ok_iff.mpr ⟨state, ?_, rfl⟩⟩
  rw [hshows.now, readClaimState_eq hcomments]
  exact hread

/-- A green verdict is over a state that was read. -/
theorem Green.state (h : Green args runtime body github) :
    ∃ state, classify args runtime body github = .ok (none, some state) := by
  obtain ⟨state, hstate⟩ := h
  cases state with
  | some state => exact ⟨state, hstate⟩
  | none =>
    rw [classify] at hstate
    split at hstate
    · exact absurd hstate (by simp)
    · obtain ⟨_, _, hstate⟩ := bind_ok_iff.mp hstate
      obtain ⟨_, _, hstate⟩ := bind_ok_iff.mp hstate
      exact absurd hstate (by simp)

/-- The winner among numbered comments is written as its number. -/
theorem Numeric.winner {winner : Claimant} (hnumeric : Numeric comments)
    (hread : StateOf args comments now (.held winner)) : winner.id.text = decimalInt winner.id.value := by
  obtain ⟨comment, hholds, hreads⟩ := readComments_spec hread
  cases hid : winner.id with
  | int n => rfl
  | bool b => exact absurd (hreads.id.trans (congrArg some hid)) (hnumeric comment hholds.claimed.1 b)

/-- The generation that a green pull request names is current. -/
theorem Green.current (hshows : Shows args runtime github comments now) (h : Green args runtime body github) :
    ∃ i, classifyBody args body = .ok (decimalInt i) ∧ Current args comments now i := by
  obtain ⟨state, hstate⟩ := h.state
  obtain ⟨gen, hgen, hfinding, hread⟩ := classify_eq_ok hshows hstate
  obtain ⟨winner, rfl, htext⟩ := classifyState_eq_none.mp hfinding
  refine ⟨winner.id.value, ?_, (heldBy_iff_of_read hread).mpr ⟨winner, rfl, rfl⟩⟩
  rw [← hshows.numeric.winner hread, htext, hgen]

/-- **A pull request is green exactly under the generation that is current**, where the claims can be read. -/
theorem green_iff {state : ClaimState} (hshows : Shows args runtime github comments now)
    (hread : StateOf args comments now state) : Green args runtime body github ↔
      ∃ i, classifyBody args body = .ok (decimalInt i) ∧ Current args comments now i := by
  constructor
  · exact Green.current hshows
  · rintro ⟨i, hgen, hcurrent⟩
    obtain ⟨winner, rfl, hid⟩ := (heldBy_iff_of_read hread).mp hcurrent
    have htext : winner.id.text = decimalInt i := by rw [hshows.numeric.winner hread, hid]
    refine ⟨some (.held winner), ?_⟩
    rw [hshows.classify hgen hread, classifyState_eq_none.mpr ⟨winner, rfl, htext⟩]

/-! ## Histories -/

/-- The comments of an item, and a bound below which their numbers are. -/
structure Thread where
  comments : List Comment
  next : Int

/-- What can happen to the comments: numbers are given out in order, and which comments are changed or deleted
    is up to their writers. -/
inductive Step (renewable withdrawable : Int → Prop) : Thread → Thread → Prop
  | written {comments : List Comment} {next next' i : Int} {comment : Comment} : comment.id = some (.int i) →
      next ≤ i → i < next' → Step renewable withdrawable ⟨comments, next⟩ ⟨comments ++ [comment], next'⟩
  | changed {before after : List Comment} {next i : Int} {comment comment' : Comment} : comment.id = some (.int i) →
      comment'.id = some (.int i) → renewable i →
      Step renewable withdrawable ⟨before ++ comment :: after, next⟩ ⟨before ++ comment' :: after, next⟩
  | deleted {before after : List Comment} {next i : Int} {comment : Comment} : comment.id = some (.int i) → withdrawable i →
      Step renewable withdrawable ⟨before ++ comment :: after, next⟩ ⟨before ++ after, next⟩

/-- What happens to the comments in some time. -/
abbrev History (renewable withdrawable : Int → Prop) : Thread → Thread → Prop :=
  Relation.ReflTransGen (Step renewable withdrawable)

/-- GitHub's numbering: every number is below the bound, and no two comments have the same. -/
structure Thread.Numbered (thread : Thread) : Prop where
  below : ∀ comment ∈ thread.comments, ∀ i, comment.id = some (.int i) → i < thread.next
  unique : ∀ comment ∈ thread.comments, ∀ comment' ∈ thread.comments, comment.id = comment'.id →
    comment.id.isSome → comment = comment'

/-- A number is its own. -/
theorem number_of_int {comment : Comment} (h : comment.id = some (.int i)) : number comment = i := number_of_id h

/-- A comment, or one of those around it. -/
theorem mem_around {before after : List Comment} {comment other : Comment} :
    other ∈ before ++ comment :: after ↔ other = comment ∨ other ∈ before ++ after :=
  List.perm_middle.mem_iff.trans List.mem_cons

/-- One step: old claims that nobody may renew are as they were, and those that nobody may withdraw either are
    still there. -/
theorem Step.follows {renewable withdrawable : Int → Prop} {thread thread' : Thread} {bound : Int}
    (h : Step renewable withdrawable thread thread') (hbound : bound ≤ thread.next) :
    bound ≤ thread'.next ∧
      Follows number (fun i => i < bound ∧ ¬ renewable i) (fun i => ¬ renewable i ∧ ¬ withdrawable i)
        (claims thread.comments) (claims thread'.comments) := by
  cases h with
  | @written comments next next' i comment hid hnext hnext' =>
    have hle : bound ≤ next := hbound
    refine ⟨by show bound ≤ next'; omega, ?_, ?_⟩
    · rintro c ⟨hc, hclaims⟩ ⟨hlt, -⟩
      rcases List.mem_append.mp hc with hold | hnew
      · exact ⟨hold, hclaims⟩
      · rw [List.mem_singleton.mp hnew, number_of_int hid] at hlt
        omega
    · rintro c ⟨hc, hclaims⟩ -
      exact ⟨List.mem_append_left [comment] hc, hclaims⟩
  | @changed before after next i comment comment' hid hid' hrenewable =>
    refine ⟨hbound, ?_, ?_⟩
    · rintro c ⟨hc, hclaims⟩ ⟨-, hkept⟩
      rcases mem_around.mp hc with rfl | hin
      · rw [number_of_int hid'] at hkept
        exact absurd hrenewable hkept
      · exact ⟨mem_around.mpr (Or.inr hin), hclaims⟩
    · rintro c ⟨hc, hclaims⟩ ⟨hkept, -⟩
      rcases mem_around.mp hc with rfl | hin
      · rw [number_of_int hid] at hkept
        exact absurd hrenewable hkept
      · exact ⟨mem_around.mpr (Or.inr hin), hclaims⟩
  | @deleted before after next i comment hid hwithdrawable =>
    refine ⟨hbound, ?_, ?_⟩
    · rintro c ⟨hc, hclaims⟩ -
      exact ⟨mem_around.mpr (Or.inr hc), hclaims⟩
    · rintro c ⟨hc, hclaims⟩ ⟨-, hstays⟩
      rcases mem_around.mp hc with rfl | hin
      · rw [number_of_int hid] at hstays
        exact absurd hwithdrawable hstays
      · exact ⟨hin, hclaims⟩

/-- A history does as its steps do. -/
theorem history_follows {renewable withdrawable : Int → Prop} {thread thread' : Thread}
    (h : History renewable withdrawable thread thread') :
    Follows number (fun i => i < thread.next ∧ ¬ renewable i) (fun i => ¬ renewable i ∧ ¬ withdrawable i)
      (claims thread.comments) (claims thread'.comments) := by
  have hrun : thread.next ≤ thread'.next ∧
      Follows number (fun i => i < thread.next ∧ ¬ renewable i) (fun i => ¬ renewable i ∧ ¬ withdrawable i)
        (claims thread.comments) (claims thread'.comments) := by
    induction h with
    | refl => exact ⟨le_rfl, Follows.refl⟩
    | tail _ hstep ih =>
      obtain ⟨hnext, hfollows⟩ := hstep.follows ih.1
      exact ⟨hnext, ih.2.trans hfollows⟩
  exact hrun.2

/-! ## The guarantees -/

/-- The same pull request at another time. -/
def ItemArgs.evaluatedAt (args : ItemArgs) (now : Option Instant) : ItemArgs := { args with now }

/-- Another evaluation over the same item, with the same lease settings. -/
structure SameLease (args args' : ItemArgs) : Prop where
  minutes : args'.leaseMinutes = args.leaseMinutes
  fromCli : args'.leaseFromCli = args.leaseFromCli

/-- Whether a generation is current depends on the lease settings of a pull request alone. -/
theorem SameLease.current {args' : ItemArgs} (h : SameLease args args') :
    Current args' comments now i ↔ Current args comments now i := by
  rw [Current, Current, h.minutes, h.fromCli]

/-! ## A sample item -/

/-- The seconds of the sample are in the calendar. -/
theorem sampleInstant_dated (second : Nat) : 0 ≤ (second % 86400 : Nat) * microseconds + 0 ∧
    (second % 86400 : Nat) * microseconds + 0 < endOfTime := by
  have hlt : second % 86400 < 86400 := Nat.mod_lt second (by decide)
  simp only [endOfTime, oneDay, microseconds]
  omega

/-- Its offset is less than a day. -/
theorem sampleInstant_near : -oneDay < 0 ∧ 0 < oneDay := by decide

/-- A second of the first day that there is. -/
def sampleInstant (second : Nat) : Instant :=
  ⟨(second % 86400 : Nat) * microseconds, 0, sampleInstant_dated second, sampleInstant_near⟩

/-- The instants of that day that are read, as GitHub writes them. -/
def sampleIso (text : Text) : Option Instant :=
  match after "0001-01-01T" text with
  | some [h, h', ':', m, m', ':', s, s', '+', '0', '0', ':', '0', '0'] =>
    let second := valueOf [h, h'] * 3600 + valueOf [m, m'] * 60 + valueOf [s, s']
    if second < 86400 then some (sampleInstant second) else none
  | _ => none

/-- A decoder and a parser of instants for it. -/
def sampleRuntime : Runtime := ⟨3, 900, sampleIso, fun _ => none⟩

/-- The head of the sample. -/
def sampleHead : Text := List.replicate 40 'a'

/-- Its body, with a marker for it. -/
def sampleBody : Text := "<!-- fsgg:pr-authorization v=1 item=o/r#7 gen=12 head=" ++ sampleHead ++ " -->"

/-- And its arguments. -/
def sampleArgs : ItemArgs := ⟨"o/r", "item/7-x", sampleHead, 7, 120, false, none⟩

/-- A claim for one minute. -/
def sampleClaim (id : Int) (second : Nat) : Comment :=
  ⟨some (.int id), some "<!-- fsgg:claim worker=w lease=1 -->", some (sampleInstant second)⟩

/-- Such a claim, as `gh` prints it. -/
def sampleLine (id time : String) : Text :=
  (["\x7b\"id\":", id, ",\"body\":\"", "<!-- fsgg:claim ", "worker=w lease=1 -->", "\",\"updated_at\":\"",
    "0001-01-01T", time, "Z\"\x7d\n"].map String.toList).flatten

/-- A GitHub that prints some comments at some second. -/
def sampleGitHub (out : Text) (second : Nat) : GitHub where
  comments _ _ := .printed out
  checkRuns _ _ := .printed []
  post _ _ := .printed ()
  clock := sampleInstant second

/-- The claim of the comment 12, ten seconds after it was made. -/
def sampleWinner : Claimant := ⟨.int 12, some "w", 1, "declared by that marker", some (sampleInstant 1060), 10⟩

/-- The comments at first. -/
def sampleThread : Thread := ⟨[sampleClaim 12 1000], 13⟩

/-- The comments with a second claim. -/
def sampleLater : Thread := ⟨[sampleClaim 12 1000, sampleClaim 13 1020], 14⟩

/-- What `gh` prints of the one and of the other. -/
def sampleOut : Text := sampleLine "12" "00:16:40"

/-- What is printed of the later ones. -/
def sampleLaterOut : Text := sampleOut ++ sampleLine "13" "00:17:00"

/-- GitHub has numbered them. -/
theorem sampleThread_numbered : sampleThread.Numbered where
  below := by
    intro comment hcomment i hi
    rw [List.mem_singleton.mp hcomment] at hi
    show i < 13
    have hid : (12 : Int) = i := CommentId.int.inj (Option.some.inj hi)
    omega
  unique := by
    intro comment hcomment comment' hcomment' _ _
    rw [List.mem_singleton.mp hcomment, List.mem_singleton.mp hcomment']

/-- The second claim is added to the first. -/
theorem sampleThread_history {renewable withdrawable : Int → Prop} :
    History renewable withdrawable sampleThread sampleLater :=
  Relation.ReflTransGen.single (.written (i := 13) rfl (by decide) (by decide))

/-- The claim of the sample once it has been renewed, as `gh` prints it. -/
def sampleRenewedOut : Text := sampleLine "12" "00:18:20"

/-- What is printed is what there is. -/
theorem sample_comments : commentsOf sampleRuntime sampleOut = .ok sampleThread.comments ∧
    commentsOf sampleRuntime sampleLaterOut = .ok sampleLater.comments ∧
    commentsOf sampleRuntime sampleRenewedOut = .ok [sampleClaim 12 1100] := by
  decide +kernel

/-- The ids are numbers. -/
theorem sample_numeric {l : List (Int × Nat)} : Numeric (l.map fun c => sampleClaim c.1 c.2) := by
  intro comment hcomment b hb
  obtain ⟨c, -, rfl⟩ := List.mem_map.mp hcomment
  exact absurd (Option.some.inj hb) (by simp)

/-- The first output shows the first comments. -/
theorem sample_shows {second : Nat} {args : ItemArgs} (h : args.now = none) :
    Shows args sampleRuntime (sampleGitHub sampleOut second) sampleThread.comments (sampleInstant second) where
  printed := ⟨sampleOut, rfl, sample_comments.1⟩
  numeric := sample_numeric (l := [(12, 1000)])
  now := by
    rw [h]
    rfl

/-- The later output shows the later ones. -/
theorem sample_showsLater {second : Nat} {args : ItemArgs} (h : args.now = none) :
    Shows args sampleRuntime (sampleGitHub sampleLaterOut second) sampleLater.comments (sampleInstant second) where
  printed := ⟨sampleLaterOut, rfl, sample_comments.2.1⟩
  numeric := sample_numeric (l := [(12, 1000), (13, 1020)])
  now := by
    rw [h]
    rfl

/-- Another pull request for the item, under the same claim. -/
def sampleOther : ItemArgs := ⟨"o/r", "item/7-y", List.replicate 40 'b', 7, 120, false, none⟩

/-- Its body. -/
def sampleOtherBody : Text := "<!-- fsgg:pr-authorization v=1 item=o/r#7 gen=12 head=" ++ sampleOther.headSha ++ " -->"

/-- Both name the generation of the claim. -/
theorem sample_gen : classifyBody sampleArgs sampleBody = .ok (decimalInt 12) ∧
    classifyBody sampleOther sampleOtherBody = .ok (decimalInt 12) := by
  decide +kernel

/-- The winner of the sample a while later. -/
def sampleHolder : Claimant := { sampleWinner with ageSeconds := 30 }

/-- The claim of the sample once it has lapsed. -/
def sampleLapsed : Claimant := { sampleWinner with ageSeconds := 61 }

/-- What the claims are read as at three instants, by whoever has the lease settings of the sample. -/
theorem sample_state :
    readComments 120 false (sampleInstant 1010) sampleThread.comments = .ok (.held sampleWinner) ∧
      readComments 120 false (sampleInstant 1030) sampleLater.comments = .ok (.held sampleHolder) ∧
      readComments 120 false (sampleInstant 1061) sampleThread.comments = .ok (.expired sampleLapsed) := by
  decide +kernel

/-- **The sample is green.** -/
theorem sample_green : classify sampleArgs sampleRuntime sampleBody (sampleGitHub sampleOut 1010) =
    .ok (none, some (.held sampleWinner)) := (sample_shows rfl).classify sample_gen.1 sample_state.1

/-- All its deadlines are in the calendar. -/
theorem sample_countable {l : List (Int × Nat)} :
    Countable sampleArgs.leaseMinutes (l.map fun c => sampleClaim c.1 c.2) := by
  -- the last second of the day is not before any of them
  have hcheck : (expiryOf (sampleInstant 86399) sampleArgs.leaseMinutes).isSome := by decide
  refine countable_of_past (by decide) rfl hcheck ?_
  intro comment hcomment since hsince
  obtain ⟨c, -, rfl⟩ := List.mem_map.mp hcomment
  rw [← Option.some.inj hsince]
  refine ⟨rfl, ?_⟩
  have hlt : c.2 % 86400 < 86400 := Nat.mod_lt c.2 (by decide)
  simp only [sampleInstant, microseconds]
  omega

section

variable {args' : ItemArgs} {n : Option Instant} {runtime' : Runtime} {body' : Text} {github' : GitHub}
  {thread thread' : Thread} {winner : Claimant}

/-- The generation of the winner stays current until its deadline, and not longer. -/
theorem current_until (hnumbered : thread.Numbered) (hnumeric : Numeric thread.comments)
    (hread : StateOf args thread.comments now (.held winner))
    (hhistory : History (winner.id.value < ·) (· ≠ winner.id.value) thread thread') (hnow : now.utc ≤ now'.utc) :
    Current args thread'.comments now' winner.id.value ↔ (now'.utc : WithTop Int) < winner.until := by
  obtain ⟨comment, hholds, hreads⟩ := readComments_spec hread
  -- numbers are unique among the comments that claim
  have hint : ∀ other ∈ claims thread.comments, other.id = some (.int (number other)) := by
    rintro other ⟨hother, hclaims⟩
    obtain ⟨id, hid⟩ := Option.isSome_iff_exists.mp hclaims.2
    cases id with
    | int n => rw [hid, number_of_int hid]
    | bool b => exact absurd hid (hnumeric other hother b)
  have hunique : ∀ other ∈ claims thread.comments, number other = number comment → other = comment := by
    intro other hother hnumber
    refine hnumbered.unique other hother.1 comment hholds.claimed.1 ?_ hother.2.2
    rw [hint other hother, hint comment hholds.claimed, hnumber]
  have hbound : winner.id.value < thread.next := by
    rw [← hreads.number_eq]
    exact hnumbered.below comment hholds.claimed.1 _ (hint comment hholds.claimed)
  have hfollows : Follows number (· ≤ number comment) (· = number comment)
      (claims thread.comments) (claims thread'.comments) := by
    refine (history_follows hhistory).mono ?_ ?_
    · intro i hi
      rw [hreads.number_eq] at hi
      exact ⟨by omega, by omega⟩
    · intro i hi
      rw [hreads.number_eq] at hi
      exact ⟨by omega, by omega⟩
  have hreign := hholds.reign hunique hfollows (WithTop.coe_le_coe.mpr hnow)
  rw [hreads.number_eq, hreads.until] at hreign
  exact hreign

/-- **A green verdict lasts exactly until the deadline that was published with it**: comments may be added, later
    ones be changed, and all but the winner's be deleted.  The line for that deadline is the line of no other. -/
theorem green_until {clock : Instant} (hnumbered : thread.Numbered)
    (hshows : Shows args runtime github thread.comments now)
    (hgreen : classify args runtime body github = .ok (none, some (.held winner)))
    (hhistory : History (winner.id.value < ·) (· ≠ winner.id.value) thread thread') (hnow : now.utc ≤ now'.utc)
    (hshows' : Shows (args.evaluatedAt n) runtime' github' thread'.comments now')
    (hcountable : Countable args.leaseMinutes thread'.comments) :
    (deadlineLines args (some (.held winner)) clock).head? = some (expiresLine winner.expiresAt) ∧
      (∀ expires, expiresLine expires = expiresLine winner.expiresAt →
        expires.map Instant.second = winner.expiresAt.map Instant.second) ∧
      (Green (args.evaluatedAt n) runtime' body github' ↔ (now'.utc : WithTop Int) < winner.until) := by
  obtain ⟨gen, hgen, hfinding, hread⟩ := classify_eq_ok hshows hgreen
  obtain ⟨winner', hheld, htext⟩ := classifyState_eq_none.mp hfinding
  obtain rfl := ClaimState.held.inj hheld
  rw [hshows.numeric.winner hread] at htext
  obtain ⟨state', hread'⟩ : ∃ state, StateOf args thread'.comments now' state := readComments_total hcountable
  have hiff : Green (args.evaluatedAt n) runtime' body github' ↔
      ∃ i, classifyBody args body = .ok (decimalInt i) ∧ Current args thread'.comments now' i :=
    green_iff hshows' hread'
  refine ⟨deadlineLines_head, fun expires => expiresLine_injective, ?_⟩
  rw [← current_until hnumbered hshows.numeric hread hhistory hnow, hiff]
  constructor
  · rintro ⟨i, hbody, hcurrent⟩
    have hi : decimalInt i = decimalInt winner.id.value := by
      rw [htext]
      exact Except.ok.inj (hbody.symm.trans hgen)
    rwa [decimalInt_injective hi] at hcurrent
  · intro hcurrent
    exact ⟨winner.id.value, by rw [htext]; exact hgen, hcurrent⟩

/-- It is green up to the published deadline, and not a second longer. -/
theorem green_until_sample :
    (deadlineLines sampleArgs (some (.held sampleWinner)) (sampleInstant 1010)).head? =
        some "check-claim-generation: verdict-expires-at=1-01-01T00:17:40Z".toList ∧
      Green (sampleArgs.evaluatedAt none) sampleRuntime sampleBody (sampleGitHub sampleLaterOut 1060) ∧
      ¬ Green (sampleArgs.evaluatedAt none) sampleRuntime sampleBody (sampleGitHub sampleLaterOut 1061) := by
  have hthen : (deadlineLines sampleArgs (some (.held sampleWinner)) (sampleInstant 1010)).head? =
        some (expiresLine sampleWinner.expiresAt) ∧
      (∀ expires, expiresLine expires = expiresLine sampleWinner.expiresAt →
        expires.map Instant.second = sampleWinner.expiresAt.map Instant.second) ∧
      (Green (sampleArgs.evaluatedAt none) sampleRuntime sampleBody (sampleGitHub sampleLaterOut 1060) ↔
        ((sampleInstant 1060).utc : WithTop Int) < sampleWinner.until) :=
    green_until sampleThread_numbered (sample_shows rfl) sample_green sampleThread_history (by decide)
      (sample_showsLater rfl) (sample_countable (l := [(12, 1000), (13, 1020)]))
  have hlater : (deadlineLines sampleArgs (some (.held sampleWinner)) (sampleInstant 1010)).head? =
        some (expiresLine sampleWinner.expiresAt) ∧
      (∀ expires, expiresLine expires = expiresLine sampleWinner.expiresAt →
        expires.map Instant.second = sampleWinner.expiresAt.map Instant.second) ∧
      (Green (sampleArgs.evaluatedAt none) sampleRuntime sampleBody (sampleGitHub sampleLaterOut 1061) ↔
        ((sampleInstant 1061).utc : WithTop Int) < sampleWinner.until) :=
    green_until sampleThread_numbered (sample_shows rfl) sample_green sampleThread_history (by decide)
      (sample_showsLater rfl) (sample_countable (l := [(12, 1000), (13, 1020)]))
  refine ⟨hthen.1.trans (by decide +kernel), hthen.2.2.mpr (WithTop.coe_lt_coe.mpr (by decide)), ?_⟩
  rw [hlater.2.2]
  exact not_lt.mpr (WithTop.coe_le_coe.mpr (by decide))

/-- **Two generations are never green at once**: as long as the lease of a green verdict runs, every pull request
    for the item that is green names the same generation. -/
theorem green_exclusive (hnumbered : thread.Numbered) (hshows : Shows args runtime github thread.comments now)
    (hgreen : classify args runtime body github = .ok (none, some (.held winner)))
    (hhistory : History (winner.id.value < ·) (· ≠ winner.id.value) thread thread') (hnow : now.utc ≤ now'.utc)
    (huntil : (now'.utc : WithTop Int) < winner.until) (hsame : SameLease args args')
    (hshows' : Shows args' runtime' github' thread'.comments now') (hgreen' : Green args' runtime' body' github') :
    classifyBody args' body' = classifyBody args body := by
  obtain ⟨gen, hgen, hfinding, hread⟩ := classify_eq_ok hshows hgreen
  obtain ⟨winner', hheld, htext⟩ := classifyState_eq_none.mp hfinding
  obtain rfl := ClaimState.held.inj hheld
  rw [hshows.numeric.winner hread] at htext
  have hcurrent := (current_until hnumbered hshows.numeric hread hhistory hnow).mpr huntil
  obtain ⟨i, hbody, hcurrent'⟩ := hgreen'.current hshows'
  obtain ⟨comment, hholds, hnumber⟩ := hsame.current.mp hcurrent'
  rw [hbody, ← hnumber, hholds.heldBy_iff.mp hcurrent, htext, hgen]

/-- What is green meanwhile names its generation. -/
theorem green_exclusive_sample : classifyBody sampleOther sampleOtherBody = classifyBody sampleArgs sampleBody := by
  have hnow : (sampleInstant 1010).utc ≤ (sampleInstant 1030).utc := by decide
  have hgreen : Green sampleOther sampleRuntime sampleOtherBody (sampleGitHub sampleLaterOut 1030) :=
    ⟨some (.held sampleHolder), (sample_showsLater rfl).classify sample_gen.2 sample_state.2.1⟩
  exact green_exclusive sampleThread_numbered (sample_shows rfl) sample_green sampleThread_history hnow
    (WithTop.coe_lt_coe.mpr (by decide)) ⟨rfl, rfl⟩ (sample_showsLater rfl) hgreen

/-- A generation before the winner's, or one where nobody holds the lock, has lapsed or was withdrawn. -/
theorem lapsed_of_read {state : ClaimState} (hread : StateOf args comments now state)
    (hlater : ∀ winner, state = .held winner → i < winner.id.value) :
    Lapsed number (deadline args.leaseMinutes args.leaseFromCli) (claims comments) now.utc i := by
  intro comment hcomment hnumber
  have hdescribes := readComments_spec hread
  cases state with
  | held winner =>
    obtain ⟨holder, hholds, hreads⟩ := hdescribes
    by_contra hlive
    have hfirst := hholds.first comment hcomment (not_le.mp hlive)
    have := hlater winner rfl
    rw [hreads.number_eq, hnumber] at hfirst
    omega
  | expired lapsed => exact hdescribes.1 comment hcomment
  | released =>
    rw [show claims comments = ∅ from hdescribes] at hcomment
    exact absurd hcomment (Set.notMem_empty comment)

/-- **A generation that was lost is not green again**, unless its own claim is renewed: once the claims say that it
    has lapsed, was withdrawn, or made way for a later one, neither time nor other claims bring it back, for no pull
    request that names it. -/
theorem lost_for_good {finding : Finding} {state : ClaimState} (hshows : Shows args runtime github thread.comments now)
    (hred : classify args runtime body github = .ok (some finding, some state)) (hi : i < thread.next)
    (hlater : ∀ winner, state = .held winner → i < winner.id.value)
    (hhistory : History (· ≠ i) (fun _ => True) thread thread') (hnow : now.utc ≤ now'.utc)
    (hsame : SameLease args args') (hshows' : Shows args' runtime' github' thread'.comments now')
    (hgen : classifyBody args' body' = .ok (decimalInt i)) : ¬ Green args' runtime' body' github' := by
  obtain ⟨_, -, -, hread⟩ := classify_eq_ok hshows hred
  have hlapsed := lapsed_of_read hread hlater
  have hfollows : Follows number (· = i) (fun _ => False) (claims thread.comments) (claims thread'.comments) :=
    (history_follows hhistory).mono (fun j hj => ⟨by omega, by omega⟩) fun j hj => hj.elim
  have hlost := hlapsed.stays hfollows (WithTop.coe_le_coe.mpr hnow)
  intro hgreen
  obtain ⟨j, hbody, hcurrent⟩ := hgreen.current hshows'
  have hj : decimalInt j = decimalInt i := Except.ok.inj (hbody.symm.trans hgen)
  rw [decimalInt_injective hj] at hcurrent
  exact hlost.not_heldBy (hsame.current.mp hcurrent)

/-- At 1061 its claim has lapsed. -/
theorem sample_expired : classify sampleArgs sampleRuntime sampleBody (sampleGitHub sampleOut 1061) =
    .ok (some (.expired, expiredText sampleArgs (decimalInt 12) sampleLapsed), some (.expired sampleLapsed)) :=
  (sample_shows rfl).classify sample_gen.1 sample_state.2.2

/-- So nothing that names it is green a second later. -/
theorem lost_for_good_sample :
    ¬ Green sampleOther sampleRuntime sampleOtherBody (sampleGitHub sampleLaterOut 1062) := by
  refine lost_for_good (sample_shows rfl) sample_expired (by decide) ?_ sampleThread_history (by decide) ⟨rfl, rfl⟩
    (sample_showsLater rfl) sample_gen.2
  intro winner hheld
  exact absurd hheld (by simp)

end

/-! ## Forgery -/

/-- A comment that claims is one more claim. -/
theorem claims_cons {before after : List Comment} {comment : Comment} (h : comment.Claims) :
    claims (before ++ comment :: after) = insert comment (claims (before ++ after)) := by
  ext other
  constructor
  · rintro ⟨hin, hclaims⟩
    rcases mem_around.mp hin with rfl | hin
    · exact Or.inl rfl
    · exact Or.inr ⟨hin, hclaims⟩
  · rintro (rfl | ⟨hin, hclaims⟩)
    · exact ⟨mem_around.mpr (Or.inl rfl), h⟩
    · exact ⟨mem_around.mpr (Or.inr hin), hclaims⟩

/-- A comment that does not claim is none. -/
theorem claims_cons_of_not {before after : List Comment} {comment : Comment} (h : ¬ comment.Claims) :
    claims (before ++ comment :: after) = claims (before ++ after) := by
  ext other
  constructor
  · rintro ⟨hin, hclaims⟩
    rcases mem_around.mp hin with rfl | hin
    · exact absurd hclaims h
    · exact ⟨hin, hclaims⟩
  · rintro ⟨hin, hclaims⟩
    exact ⟨mem_around.mpr (Or.inr hin), hclaims⟩

/-- **A forged claim greens nothing**: a comment that is not the one which a pull request names can only take its
    green away, wherever and whatever it is. -/
theorem forged_greens_nothing {before after : List Comment} {comment : Comment} {github' : GitHub}
    (hshows : Shows args runtime github (before ++ after) now)
    (hshows' : Shows args runtime github' (before ++ comment :: after) now)
    (hother : ∀ i, comment.id = some (.int i) → classifyBody args body ≠ .ok (decimalInt i))
    (hgreen : Green args runtime body github') : Green args runtime body github := by
  obtain ⟨i, hbody, hcurrent⟩ := hgreen.current hshows'
  -- what could be read with the comment can be read without it
  obtain ⟨state, hstate⟩ := hgreen.state
  obtain ⟨_, -, -, hread⟩ := classify_eq_ok hshows' hstate
  obtain ⟨_, hclaimants, -⟩ := readComments_eq_ok.mp hread
  obtain ⟨_, hclaimants'⟩ := readClaimants_of_each fun c (hc : c ∈ before ++ after) =>
    (readClaimants_spec hclaimants).1 c (mem_around.mpr (Or.inr hc))
  refine (green_iff hshows (readComments_eq_ok.mpr ⟨_, hclaimants', rfl⟩)).mpr ⟨i, hbody, ?_⟩
  by_cases hclaims : comment.Claims
  · rw [Current, claims_cons hclaims] at hcurrent
    obtain ⟨holder, hholds, hnumber⟩ := hcurrent
    rcases hholds.of_insert with rfl | hholds
    · obtain ⟨id, hid⟩ := Option.isSome_iff_exists.mp hclaims.2
      cases id with
      | int n =>
        rw [number_of_int hid] at hnumber
        exact absurd hbody (hother i (by rw [hid, hnumber]))
      | bool b => exact absurd hid (hshows'.numeric holder (mem_around.mpr (Or.inl rfl)) b)
    · exact ⟨holder, hholds, hnumber⟩
  · rwa [Current, claims_cons_of_not hclaims] at hcurrent

/-- What is green beside a later claim of another is green without it. -/
theorem forged_greens_nothing_sample :
    Green sampleArgs sampleRuntime sampleBody (sampleGitHub sampleOut 1030) := by
  have hgreen : Green sampleArgs sampleRuntime sampleBody (sampleGitHub sampleLaterOut 1030) :=
    ⟨some (.held sampleHolder), (sample_showsLater rfl).classify sample_gen.1 sample_state.2.1⟩
  have hwithout : Shows sampleArgs sampleRuntime (sampleGitHub sampleOut 1030) ([sampleClaim 12 1000] ++ [])
      (sampleInstant 1030) := sample_shows rfl
  have hwith : Shows sampleArgs sampleRuntime (sampleGitHub sampleLaterOut 1030)
      ([sampleClaim 12 1000] ++ sampleClaim 13 1020 :: []) (sampleInstant 1030) := sample_showsLater rfl
  refine forged_greens_nothing hwithout hwith ?_ hgreen
  intro i hi hbody
  have hsame : decimalInt 12 = decimalInt i := Except.ok.inj (sample_gen.1.symm.trans hbody)
  have hid : (13 : Int) = i := CommentId.int.inj (Option.some.inj hi)
  have := decimalInt_injective hsame
  omega

/-! ## Renewal -/

/-- Where every claim had lapsed, a renewed one is current as long as its own lease runs. -/
theorem current_renewed {before after : List Comment} {comment renewed : Comment}
    (hlapsed : ∀ c ∈ claims (before ++ comment :: after), deadline args.leaseMinutes args.leaseFromCli c ≤ now.utc)
    (hclaims : renewed.Claims) (hid : renewed.id = some (.int i)) (hnow : now.utc ≤ now'.utc) :
    Current args (before ++ renewed :: after) now' i ↔
      (now'.utc : WithTop Int) < deadline args.leaseMinutes args.leaseFromCli renewed := by
  -- the other claims are still there, and have lapsed long since
  have hother : ∀ c ∈ claims (before ++ after), deadline args.leaseMinutes args.leaseFromCli c ≤ now'.utc := by
    rintro c ⟨hc, hcclaims⟩
    have hthen := hlapsed c ⟨mem_around.mpr (Or.inr hc), hcclaims⟩
    exact hthen.trans (WithTop.coe_le_coe.mpr hnow)
  rw [Current, claims_cons hclaims]
  constructor
  · rintro ⟨c, hholds, -⟩
    rcases hholds.claimed with rfl | hc
    · exact hholds.live
    · exact absurd hholds.live (not_lt.mpr (hother c hc))
  · intro hlive
    refine ⟨renewed, ⟨Set.mem_insert renewed _, hlive, ?_⟩, number_of_int hid⟩
    rintro d (rfl | hd) hdlive
    · exact le_rfl
    · exact absurd hdlive (not_lt.mpr (hother d hd))

/-- **A renewal brings an expired verdict back**: once the claim that a pull request names is renewed, where all claims
    had lapsed, the pull request is green exactly as long as the renewed lease runs. -/
theorem renewal_greens {n : Option Instant} {runtime' : Runtime} {github' : GitHub} {before after : List Comment}
    {comment renewed : Comment} {finding : Finding} {lapsed : Claimant}
    (hshows : Shows args runtime github (before ++ comment :: after) now)
    (hexpired : classify args runtime body github = .ok (some finding, some (.expired lapsed)))
    (hgen : classifyBody args body = .ok (decimalInt i)) (hclaims : renewed.Claims) (hid : renewed.id = some (.int i))
    (hnow : now.utc ≤ now'.utc)
    (hshows' : Shows (args.evaluatedAt n) runtime' github' (before ++ renewed :: after) now')
    (hcountable : Countable args.leaseMinutes (before ++ renewed :: after)) :
    Green (args.evaluatedAt n) runtime' body github' ↔
      (now'.utc : WithTop Int) < deadline args.leaseMinutes args.leaseFromCli renewed := by
  obtain ⟨_, -, -, hread⟩ := classify_eq_ok hshows hexpired
  have hdescribes : Describes args.leaseMinutes args.leaseFromCli (before ++ comment :: after) now (.expired lapsed) :=
    readComments_spec hread
  obtain ⟨state', hread'⟩ : ∃ state, StateOf args (before ++ renewed :: after) now' state :=
    readComments_total hcountable
  have hiff : Green (args.evaluatedAt n) runtime' body github' ↔
      ∃ j, classifyBody args body = .ok (decimalInt j) ∧ Current args (before ++ renewed :: after) now' j :=
    green_iff hshows' hread'
  rw [hiff, ← current_renewed hdescribes.1 hclaims hid hnow]
  constructor
  · rintro ⟨j, hbody, hcurrent⟩
    have hj : decimalInt j = decimalInt i := Except.ok.inj (hbody.symm.trans hgen)
    rwa [decimalInt_injective hj] at hcurrent
  · intro hcurrent
    exact ⟨i, hgen, hcurrent⟩

/-- What is printed of the renewed claim. -/
theorem sample_showsRenewed {second : Nat} {args : ItemArgs} (h : args.now = none) :
    Shows args sampleRuntime (sampleGitHub sampleRenewedOut second) [sampleClaim 12 1100] (sampleInstant second) where
  printed := ⟨sampleRenewedOut, rfl, sample_comments.2.2⟩
  numeric := sample_numeric (l := [(12, 1100)])
  now := by
    rw [h]
    rfl

/-- The renewal brings it back. -/
theorem renewal_greens_sample :
    Green (sampleArgs.evaluatedAt none) sampleRuntime sampleBody (sampleGitHub sampleRenewedOut 1130) := by
  have hfacts : deadline 120 false (sampleClaim 12 1100) = ((1161 * 1000000 : Int) : WithTop Int) ∧
      ((sampleClaim 12 1100).body.bind claimMarker).isSome = true := by
    decide +kernel
  have hclaims : (sampleClaim 12 1100).Claims := ⟨hfacts.2, rfl⟩
  have hcountable : Countable sampleArgs.leaseMinutes [sampleClaim 12 1100] := sample_countable (l := [(12, 1100)])
  have hbefore : Shows sampleArgs sampleRuntime (sampleGitHub sampleOut 1061) ([] ++ sampleClaim 12 1000 :: [])
      (sampleInstant 1061) := sample_shows rfl
  have hafter : Shows (sampleArgs.evaluatedAt none) sampleRuntime (sampleGitHub sampleRenewedOut 1130)
      ([] ++ sampleClaim 12 1100 :: []) (sampleInstant 1130) := sample_showsRenewed rfl
  refine (renewal_greens hbefore sample_expired sample_gen.1 hclaims rfl (by decide) hafter hcountable).mpr ?_
  show ((1130 * 1000000 : Int) : WithTop Int) < deadline 120 false (sampleClaim 12 1100)
  rw [hfacts.1, WithTop.coe_lt_coe]
  decide

end ClaimGeneration

end FsQuint
