/-
  The number of tests that the tool reports.

  1. **A place** (`Says`): a line of the output says that `n` tests passed.  The search of the tool
     finds the first such place, and fails only where there is none (`matchPassing_cases`).
  2. **The number**: it has any number of digits in the output and 31 bits in the report.  From
     `2 ^ 31` on its conversion throws, and the handler makes a launch failure of the workload that
     has succeeded, without its output (`run_misreads_count`).
  3. Up to there the report is exact (`run_reads_count_iff`).

  The pattern of the tool is anchored to the beginning of a line and not to its end, so that a line
  may go on after the count.  Which digits are captured is a question of the text alone; which number
  they are is one of `Int32.Parse`, and that is where a suite with too many tests is lost.
-/
import FsQuint.FirstStop
import FsQuint.ValueEncoding

namespace FsQuint

open Utf16 Decimal ReplayInternal

/-! ## Places -/

/-- A text says, behind `k` characters of white space, that `n` tests passed. -/
def LineSays (line : UString) (k n : Nat) : Prop :=
  ∃ space rest, line = space ++ (natText n ++ (lit " passing" ++ rest)) ∧ space.length = k ∧
    space.all isWhiteSpace = true ∧ 0 < n ∧ rest.head?.all isWhiteSpace = true

/-- At position `position`, behind the beginning of a line and white space, a text says that `n`
    tests passed.  `lineStart` is whether the text begins a line. -/
def Says (lineStart : Bool) (text : UString) (position n : Nat) : Prop :=
  ∃ before line k, text = before ++ line ∧
    (before = [] ∧ lineStart = true ∨ before.getLast? = some 0x0A) ∧
    LineSays line k n ∧ position = before.length + k

/-- The first place where an output says how many tests passed says `n`. -/
def Counts (output : UString) (n : Nat) : Prop :=
  ∃ position, Says true output position n ∧
    ∀ earlier m, Says true output earlier m → position ≤ earlier

/-- White space comes first, and then a digit. -/
theorem LineSays.at {text : UString} {k n : Nat} (h : LineSays text k n) :
    (∀ i < k, ∃ c, text[i]? = some c ∧ isWhiteSpace c = true) ∧
      ∃ c, text[k]? = some c ∧ isDigit c = true := by
  obtain ⟨space, rest, rfl, rfl, hspace, hn, _⟩ := h
  constructor
  · intro i hi
    refine ⟨space[i], ?_, List.all_eq_true.mp hspace _ (List.getElem_mem hi)⟩
    rw [List.getElem?_append_left hi, List.getElem?_eq_getElem hi]
  · obtain ⟨c, digits, hdigits, _⟩ := natText_head hn
    refine ⟨c, ?_, isDigit_of_mem_natText n c (hdigits ▸ List.mem_cons_self)⟩
    rw [List.getElem?_append_right (Nat.le_refl _), Nat.sub_self, hdigits]
    rfl

/-- The digits end in front of the word. -/
theorem takeWhile_natText (n : Nat) (rest : UString) :
    (natText n ++ (lit " passing" ++ rest)).takeWhile isDigit = natText n := by
  rw [List.takeWhile_append_of_pos (isDigit_of_mem_natText n)]
  exact List.append_nil _

/-- A text that says a count has a digit where the count begins. -/
theorem Says.at {lineStart : Bool} {text : UString} {position n : Nat}
    (h : Says lineStart text position n) : ∃ c, text[position]? = some c ∧ isDigit c = true := by
  obtain ⟨before, line, k, rfl, _, hline, rfl⟩ := h
  obtain ⟨c, hc, hdigit⟩ := hline.at.2
  refine ⟨c, ?_, hdigit⟩
  rw [List.getElem?_append_right (Nat.le_add_right _ _), Nat.add_sub_cancel_left]
  exact hc

/-- What stands at a place determines the number. -/
theorem Says.digits {lineStart : Bool} {text : UString} {position n : Nat}
    (h : Says lineStart text position n) : (text.drop position).takeWhile isDigit = natText n := by
  obtain ⟨before, line, k, rfl, _, ⟨space, rest, rfl, rfl, _⟩, rfl⟩ := h
  rw [← List.drop_drop, List.drop_left, List.drop_left, takeWhile_natText]

/-- No place lies within the white space in front of another. -/
theorem LineSays.first {lineStart : Bool} {line : UString} {k n position m : Nat}
    (h : LineSays line k n) (hplace : Says lineStart line position m) : k ≤ position := by
  by_contra hlt
  obtain ⟨c, hc, hspace⟩ := h.at.1 position (by omega)
  obtain ⟨d, hd, hdigit⟩ := hplace.at
  rw [hc] at hd
  cases hd
  rw [(isDigit_of_isWhiteSpace hspace).1] at hdigit
  cases hdigit

/-- The empty text says none. -/
theorem not_says_nil {lineStart : Bool} {position n : Nat} : ¬ Says lineStart [] position n := by
  intro h
  obtain ⟨c, hc, _⟩ := h.at
  cases hc

/-- A place is behind the beginning of the text, or it is one of the text that follows. -/
theorem says_cons_iff {lineStart : Bool} {c : UInt16} {rest : UString} {position n : Nat} :
    Says lineStart (c :: rest) position n ↔
      lineStart = true ∧ LineSays (c :: rest) position n ∨
      ∃ next, position = next + 1 ∧ Says (c = 0x0A) rest next n := by
  constructor
  · rintro ⟨before, line, k, htext, hstart, hline, rfl⟩
    cases before with
    | nil =>
      refine .inl ⟨?_, ?_⟩
      · rcases hstart with ⟨_, hstart⟩ | hlast
        · exact hstart
        · cases hlast
      · rw [htext, List.length_nil, Nat.zero_add]
        exact hline
    | cons d before =>
      obtain ⟨rfl, rfl⟩ := List.cons.inj htext
      refine .inr ⟨before.length + k, by rw [List.length_cons]; omega,
        before, line, k, rfl, ?_, hline, rfl⟩
      rcases hstart with ⟨hnil, _⟩ | hlast
      · cases hnil
      · cases before with
        | nil => exact .inl ⟨rfl, decide_eq_true (Option.some.inj hlast)⟩
        | cons e before => exact .inr hlast
  · rintro (⟨hstart, hline⟩ | ⟨next, rfl, before, line, k, rfl, hstart, hline, rfl⟩)
    · exact ⟨[], c :: rest, position, rfl, .inl ⟨rfl, hstart⟩, hline, by simp⟩
    · refine ⟨c :: before, line, k, rfl, .inr ?_, hline, by rw [List.length_cons]; omega⟩
      rcases hstart with ⟨rfl, hc⟩ | hlast
      · rw [of_decide_eq_true hc]
        rfl
      · rw [List.getLast?_cons, hlast]
        rfl

/-! ## The search -/

/-- **A line that says a count is captured with its digits.** -/
theorem passingAt_of_lineSays {line : UString} {k n : Nat} (h : LineSays line k n) :
    Quint.passingAt line = some (natText n) := by
  obtain ⟨space, rest, rfl, rfl, hspace, hn, hrest⟩ := h
  obtain ⟨c, digits, hdigits, hc⟩ := natText_head hn
  have hall := isDigit_of_mem_natText n
  -- the white space ends at the digits, and these at the word
  have hskip : (space ++ (natText n ++ (lit " passing" ++ rest))).dropWhile isWhiteSpace =
      natText n ++ (lit " passing" ++ rest) := by
    have hnot : ¬ isWhiteSpace c = true := by
      intro hwhite
      have hdigit := hall c (hdigits ▸ List.mem_cons_self)
      rw [(isDigit_of_isWhiteSpace hwhite).1] at hdigit
      cases hdigit
    rw [List.dropWhile_append_of_pos (List.all_eq_true.mp hspace), hdigits, List.cons_append,
      List.dropWhile_cons_of_neg hnot]
  have hdrop : (natText n ++ (lit " passing" ++ rest)).dropWhile isDigit =
      lit " passing" ++ rest := by
    rw [List.dropWhile_append_of_pos hall]
    rfl
  have hafter : (lit " passing" ++ rest).drop 8 = rest := rfl
  have hhead : (natText n).head?.any (· ≠ 0x30) = true := by
    rw [hdigits]
    exact decide_eq_true hc
  rw [Quint.passingAt, hskip, takeWhile_natText, hdrop, hafter,
    if_pos ⟨hhead, List.prefix_append _ _, hrest⟩]

/-- **The pattern matches at a place and gives its number**, and it matches nowhere else. -/
theorem passingAt_eq_some_iff {line digits : UString} :
    Quint.passingAt line = some digits ↔ ∃ k n, LineSays line k n ∧ digits = natText n := by
  constructor
  · intro h
    obtain ⟨space, rest, rfl, hspace, hdigits, hhead, hrest⟩ := passingAt_spec h
    obtain ⟨n, hn, rfl⟩ := exists_natText (List.all_eq_true.mp hdigits) hhead
    exact ⟨space.length, n, ⟨space, rest, rfl, rfl, hspace, hn, hrest⟩, rfl⟩
  · rintro ⟨k, n, h, rfl⟩
    exact passingAt_of_lineSays h

/-- **The search finds the first place**, or there is none. -/
theorem matchPassing_cases : ∀ (text : UString) (lineStart : Bool),
    (Quint.matchPassing lineStart text = none ∧ ∀ position n, ¬ Says lineStart text position n) ∨
    ∃ position n, Quint.matchPassing lineStart text = some (natText n) ∧
      Says lineStart text position n ∧
      ∀ earlier m, Says lineStart text earlier m → position ≤ earlier
  | [], _ => .inl ⟨rfl, fun _ _ => not_says_nil⟩
  | c :: rest, lineStart => by
    -- without a match here the search goes on behind the first character
    have hlater : (∀ k n, ¬ (lineStart = true ∧ LineSays (c :: rest) k n)) →
        Quint.matchPassing lineStart (c :: rest) = Quint.matchPassing (c = 0x0A) rest →
        (Quint.matchPassing lineStart (c :: rest) = none ∧
          ∀ position n, ¬ Says lineStart (c :: rest) position n) ∨
        ∃ position n, Quint.matchPassing lineStart (c :: rest) = some (natText n) ∧
          Says lineStart (c :: rest) position n ∧
          ∀ earlier m, Says lineStart (c :: rest) earlier m → position ≤ earlier := by
      intro hhere hsearch
      rw [hsearch]
      rcases matchPassing_cases rest (c = 0x0A) with ⟨hnone, hno⟩ | ⟨next, n, hsome, hplace, hfirst⟩
      · refine .inl ⟨hnone, fun position n h => ?_⟩
        rcases says_cons_iff.mp h with hline | ⟨next, _, hnext⟩
        · exact hhere position n hline
        · exact hno next n hnext
      · refine .inr ⟨next + 1, n, hsome, says_cons_iff.mpr (.inr ⟨next, rfl, hplace⟩), ?_⟩
        intro earlier m h
        rcases says_cons_iff.mp h with hline | ⟨other, rfl, hother⟩
        · exact absurd hline (hhere earlier m)
        · exact Nat.succ_le_succ (hfirst other m hother)
    by_cases hstart : lineStart = true
    · cases hhere : Quint.passingAt (c :: rest) with
      | some digits =>
        obtain ⟨k, n, hline, rfl⟩ := passingAt_eq_some_iff.mp hhere
        refine .inr ⟨k, n, ?_, says_cons_iff.mpr (.inl ⟨hstart, hline⟩), fun _ _ h => hline.first h⟩
        rw [Quint.matchPassing, if_pos hstart, hhere, Option.some_or]
      | none =>
        refine hlater ?_ ?_
        · rintro k n ⟨_, hline⟩
          rw [passingAt_of_lineSays hline] at hhere
          cases hhere
        · rw [Quint.matchPassing, if_pos hstart, hhere, Option.none_or]
    · refine hlater (fun k n h => hstart h.1) ?_
      rw [Quint.matchPassing, if_neg hstart]

/-- Only one number stands at the first place, and the search finds it. -/
theorem matchPassing_of_counts {output : UString} {n : Nat} (h : Counts output n) :
    Quint.matchPassing true output = some (natText n) := by
  obtain ⟨position, hplace, hfirst⟩ := h
  rcases matchPassing_cases output true with ⟨_, hno⟩ | ⟨found, m, hsome, hfound, hleast⟩
  · exact absurd hplace (hno position n)
  · have hsame : found = position :=
      Nat.le_antisymm (hleast position n hplace) (hfirst found m hfound)
    rw [hsome, ← hfound.digits, ← hplace.digits, hsame]

/-- What the pattern captures is the count of the output. -/
theorem counts_of_matchPassing {output digits : UString} {n : Nat}
    (h : Quint.matchPassing true output = some digits) (hn : parseNat digits = some n) :
    Counts output n := by
  rcases matchPassing_cases output true with ⟨hnone, _⟩ | ⟨position, m, hsome, hplace, hfirst⟩
  · rw [hnone] at h
    cases h
  · rw [hsome] at h
    rw [← Option.some.inj h, parseNat_natText] at hn
    obtain rfl := Option.some.inj hn
    exact ⟨position, hplace, hfirst⟩

/-! ## The report -/

section Report

variable {σ : Type} [DecidableEq σ]

/-- The workload was started, and ended with code zero on complete evidence (`executeText_failed`); it
    wrote `output` and `errors`. -/
def EndedWithZero (world : World σ) (request : QuintRequest) (output errors : UString) : Prop :=
  ∃ path, Quint.workLaunch request path ∈ (Quint.run world request).launched ∧
    executeText (world.sessions (Quint.workLaunch request path)) = some (.ok (.failed 0, output, errors))

/-- The answer is what the output says about the number of tests, with the captured texts. -/
structure ReadsCount (answer : Option (Outcome ToolReport)) (output errors : UString) : Prop where
  count : ∀ n, Counts output n → answer = some (.ok ⟨.testsPassed n, output, errors⟩)
  noPlace : (∀ position n, ¬ Says true output position n) →
    answer = some (.ok ⟨.incomplete, output, errors⟩)
  noFailure : ∀ message standardOutput standardError,
    answer ≠ some (.ok ⟨.launchFailure message, standardOutput, standardError⟩)

variable {world : World σ} {request : QuintRequest} {path : UString} {output errors : UString}

/-- Once the workload is started, the answer is that of the workload. -/
theorem attempt_of_launched {path' : UString}
    (h : Quint.workLaunch request path ∈ (Quint.attempt world request path').launched) :
    path' = path ∧
      (Quint.attempt world request path').answer = (Quint.workload world request path').answer := by
  -- the version probe has another ordinal than the workload
  have hprobe : Quint.workLaunch request path ≠ Quint.versionLaunch request path' := by
    intro heq
    cases congrArg Launch.ordinal heq
  have hcases := attempt_cases world request path'
  generalize Quint.attempt world request path' = progress at hcases h ⊢
  cases hcases with
  | unreadable | otherFile => cases h
  | probing | thrown | refused | otherVersion => exact absurd (List.mem_singleton.mp h) hprobe
  | worked =>
    rcases List.mem_cons.mp h with heq | hwork
    · exact absurd heq hprobe
    · exact ⟨(congrArg Launch.path (List.mem_singleton.mp hwork)).symm, rfl⟩

/-- The handlers of the tool see the status of the workload, and a report that is no cancellation is
    left as it is. -/
theorem run_of_ended (h : EndedWithZero world request output errors) :
    (Quint.run world request).answer = some ((Quint.handled
      ((Quint.statusOf request.command (.failed 0) output errors).map fun status =>
        Quint.report status output errors)).map (Quint.retimed world)) := by
  obtain ⟨path, hlaunched, hresult⟩ := h
  obtain ⟨path', hrun⟩ := run_of_launched hlaunched
  rw [hrun] at hlaunched
  obtain ⟨rfl, hanswer⟩ := attempt_of_launched hlaunched
  rw [hrun, hanswer, Quint.workload, Quint.execute, hresult]
  rfl

variable {pattern : NString}

/-- So the outcome is that of parsing the digits. -/
theorem statusOf_counts {n : Nat} (hcounts : Counts output n) :
    Quint.statusOf (.test pattern) (.failed 0) output errors =
      (Quint.parseInt32 (natText n)).map .testsPassed := by
  simp only [Quint.statusOf, matchPassing_of_counts hcounts, if_true]

/-- **A count below 2 ^ 31 is reported.** -/
theorem run_of_small_count (hcommand : request.command = .test pattern)
    (h : EndedWithZero world request output errors) {n : Nat} (hcounts : Counts output n)
    (hn : n < 2 ^ 31) :
    (Quint.run world request).answer = some (.ok ⟨.testsPassed n, output, errors⟩) := by
  have hparse : Quint.parseInt32 (natText n) = .ok (n : Int) := by
    simp only [Quint.parseInt32, parseNat_natText, if_pos hn]
  rw [run_of_ended h, hcommand, statusOf_counts hcounts, hparse]
  rfl

/-- The exception of the conversion is handled as one of the launch. -/
theorem run_of_large_count (hcommand : request.command = .test pattern)
    (h : EndedWithZero world request output errors) {n : Nat} (hcounts : Counts output n)
    (hn : ¬ n < 2 ^ 31) :
    (Quint.run world request).answer = some (.ok
      ⟨.launchFailure "Value was either too large or too small for an Int32.", [], []⟩) := by
  have hparse : Quint.parseInt32 (natText n) =
      .error ⟨.other, "Value was either too large or too small for an Int32."⟩ := by
    simp only [Quint.parseInt32, parseNat_natText, if_neg hn]
  rw [run_of_ended h, hcommand, statusOf_counts hcounts, hparse]
  rfl

/-- An output without a count is incomplete. -/
theorem run_of_no_count (hcommand : request.command = .test pattern)
    (h : EndedWithZero world request output errors)
    (hno : ∀ position n, ¬ Says true output position n) :
    (Quint.run world request).answer = some (.ok ⟨.incomplete, output, errors⟩) := by
  have hsearch : Quint.matchPassing true output = none := by
    rcases matchPassing_cases output true with ⟨hnone, _⟩ | ⟨position, n, _, hplace, _⟩
    · exact hnone
    · exact absurd hplace (hno position n)
  have hstatus : Quint.statusOf (.test pattern) (.failed 0) output errors = .ok .incomplete := by
    simp only [Quint.statusOf, hsearch, if_true]
  rw [run_of_ended h, hcommand, hstatus]
  rfl

/-- **The number of tests is read exactly from the output, as long as it fits 32 bits.** -/
theorem run_reads_count_iff (hcommand : request.command = .test pattern)
    (h : EndedWithZero world request output errors) :
    ReadsCount (Quint.run world request).answer output errors ↔ ∀ n, Counts output n → n < 2 ^ 31 := by
  constructor
  · intro hreads n hcounts
    by_contra hn
    exact hreads.noFailure _ _ _ (run_of_large_count hcommand h hcounts hn)
  · intro hsmall
    refine ⟨fun n hcounts => run_of_small_count hcommand h hcounts (hsmall n hcounts),
      run_of_no_count hcommand h, ?_⟩
    intro message standardOutput standardError hfailure
    rcases matchPassing_cases output true with ⟨_, hno⟩ | ⟨position, n, _, hplace, hfirst⟩
    · rw [run_of_no_count hcommand h hno] at hfailure
      cases hfailure
    · have hcounts : Counts output n := ⟨position, hplace, hfirst⟩
      rw [run_of_small_count hcommand h hcounts (hsmall n hcounts)] at hfailure
      cases hfailure

end Report

/-! ## At the limit -/

/-- The tool prints its version, and the workload prints a text. -/
def testWorld (output : UString) : World Nat :=
  { printingWorld with
    sessions := fun call => (printing (if call.ordinal = 0 then "0.32.0" else output)).script }

/-- A request for all tests. -/
def testRequest : QuintRequest := { typecheckRequest "/quint" with command := .test "all" }

/-- The checks before the body pass, whatever the sessions do. -/
theorem run_testRequest_launched (sessions : Launch → Script Nat) :
    (Quint.run { printingWorld with sessions := sessions } testRequest).launched =
      (Quint.attempt { printingWorld with sessions := sessions } testRequest "/quint").launched := rfl

/-- The version is right, so that the workload follows. -/
theorem attempt_testWorld (output : UString) : Quint.attempt (testWorld output) testRequest "/quint" =
    ⟨[Quint.versionLaunch testRequest "/quint", Quint.workLaunch testRequest "/quint"],
      (Quint.workload (testWorld output) testRequest "/quint").answer⟩ := by
  have hprobe : executeText ((testWorld output).sessions (Quint.versionLaunch testRequest "/quint")) =
      some (.ok (.failed 0, [lit "0.32.0"].flatten, [])) := executeText_printing "0.32.0"
  have htrim : some (Quint.trim [lit "0.32.0"].flatten) = testRequest.version := by decide
  have hhash : (testWorld output).hash "/quint" = .ok (Vector.replicate 32 0) := rfl
  have hdigest : some (lowerHex (Vector.replicate 32 0)) = testRequest.sha256 := rfl
  unfold Quint.attempt Quint.execute
  simp only [hhash, hdigest, hprobe, htrim, ne_eq, not_true, if_false]
  rw [workload_launched]

/-- And its process ends with zero. -/
theorem endedWithZero_testWorld (output : UString) :
    EndedWithZero (testWorld output) testRequest output [] := by
  refine ⟨"/quint", ?_, ?_⟩
  · have hlaunched : (Quint.run (testWorld output) testRequest).launched =
        (Quint.attempt (testWorld output) testRequest "/quint").launched := run_testRequest_launched _
    rw [hlaunched, attempt_testWorld]
    exact List.mem_cons_of_mem _ List.mem_cons_self
  · have hprinted := executeText_printing output
    rw [List.flatten_singleton] at hprinted
    exact hprinted

/-- The largest count that is read. -/
theorem run_reads_count_iff_limit :
    ReadsCount (Quint.run (testWorld "2147483647 passing") testRequest).answer
      "2147483647 passing" [] := by
  refine (run_reads_count_iff rfl (endedWithZero_testWorld _)).mpr fun n hcounts => ?_
  have hfound : some (lit "2147483647") = some (natText n) := matchPassing_of_counts hcounts
  have hn := parseNat_natText n
  rw [← Option.some.inj hfound] at hn
  cases hn
  decide

/-- **A larger number makes a launch failure of the workload**, and its output is lost. -/
theorem run_misreads_count :
    EndedWithZero (testWorld "2147483648 passing") testRequest "2147483648 passing" [] ∧
      Counts "2147483648 passing" 2147483648 ∧
      (Quint.run (testWorld "2147483648 passing") testRequest).answer = some (.ok
        ⟨.launchFailure "Value was either too large or too small for an Int32.", [], []⟩) ∧
      ¬ ReadsCount (Quint.run (testWorld "2147483648 passing") testRequest).answer
        "2147483648 passing" [] := by
  have hcounts : Counts "2147483648 passing" 2147483648 :=
    @counts_of_matchPassing "2147483648 passing" "2147483648" _ rfl rfl
  have hanswer := run_of_large_count rfl (endedWithZero_testWorld "2147483648 passing") hcounts
    (by decide)
  refine ⟨endedWithZero_testWorld _, hcounts, hanswer, fun hreads => ?_⟩
  exact hreads.noFailure _ _ _ hanswer

end FsQuint
