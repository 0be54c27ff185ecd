/-
  What `read` reports of a check that fails.

  A check raises its code, its path and its message as one text, joined by line feeds, and `read` takes
  the text apart at the first two line feeds.  A key of the document that holds a line feed is written
  to the path as it is, so the text is then taken apart in the wrong place.

  1. **Splitting** (`splitLine_append`): what is found before the first line feed.
  2. **Reports** (`read_reports_iff`): the failure is reported as it was raised exactly when no segment
     of its path holds a line feed.
-/
import FsQuint.ItfExceptions

set_option linter.unusedVariables false

namespace FsQuint.Itf

open Utf16 Collections Decimal Json

/-! ## Splitting -/

/-- The first line of a text is what precedes its first line feed. -/
theorem splitLine_append : ∀ {first : UString} (rest : UString), 0x0A ∉ first →
    splitLine (first ++ 0x0A :: rest) = some (first, rest)
  | [], _, _ => rfl
  | c :: first, rest, h => by
    rw [List.mem_cons, not_or] at h
    rw [List.cons_append, splitLine, if_neg (Ne.symm h.1), splitLine_append rest h.2]
    rfl

/-- A text with a line feed, at the first of them. -/
theorem exists_splitLine : ∀ {text : UString}, 0x0A ∈ text →
    ∃ first rest, text = first ++ 0x0A :: rest ∧ (0x0A : UInt16) ∉ first
  | c :: text, h => by
    by_cases hc : c = 0x0A
    · exact ⟨[], text, by rw [hc, List.nil_append], List.not_mem_nil⟩
    · obtain ⟨first, rest, rfl, hfirst⟩ :=
        exists_splitLine ((List.mem_cons.mp h).resolve_left (Ne.symm hc))
      refine ⟨c :: first, rest, rfl, ?_⟩
      rw [List.mem_cons, not_or]
      exact ⟨Ne.symm hc, hfirst⟩

/-- The codes and the messages of the checks are single lines. -/
theorem Check.singleLine {code message : UString} (h : Check code message) :
    (0x0A : UInt16) ∉ code := by
  cases h <;> decide

/-- A path holds a line feed exactly when one of its segments does. -/
theorem mem_pathOf {segments : List UString} :
    0x0A ∈ pathOf segments ↔ ∃ segment ∈ segments, 0x0A ∈ segment := by
  rw [pathOf, List.mem_append, List.mem_flatMap]
  constructor
  · rintro (h | ⟨segment, hmem, h⟩)
    · exact absurd h (by decide)
    · exact ⟨segment, hmem, (List.mem_cons.mp h).resolve_left (by decide)⟩
  · rintro ⟨segment, hmem, h⟩
    exact .inr ⟨segment, hmem, List.mem_cons_of_mem _ h⟩

/-- What is made of the exception of a check. -/
theorem caught_fail {code path message : UString} (hcode : 0x0A ∉ code) :
    caught (fail code path message) =
      match splitLine (path ++ 0x0A :: message) with
      | some (path', message') => some ⟨code, path', message'⟩
      | none => some ⟨lit "ITF-INPUT", lit "$", lit "Invalid input or UTF-8."⟩ := by
  unfold caught
  have hargument : (fail code path message).type.isArgument = true := rfl
  rw [if_pos hargument, fail, splitLine_append _ hcode, Option.bind_some]
  dsimp only
  cases splitLine (path ++ 0x0A :: message) with
  | none => rfl
  | some p => rfl

/-- **The diagnostic has the path that was raised exactly when the path is a single line.** -/
theorem caught_fail_eq_iff {code path : UString} (message : UString) (hcode : 0x0A ∉ code) :
    caught (fail code path message) = some ⟨code, path, message⟩ ↔ 0x0A ∉ path := by
  rw [caught_fail hcode]
  constructor
  · intro h hpath
    obtain ⟨first, rest, rfl, hfirst⟩ := exists_splitLine hpath
    rw [List.append_assoc, List.cons_append, splitLine_append _ hfirst] at h
    simp only [Option.some.injEq, QuintReplayDiagnostic.mk.injEq, true_and] at h
    -- the part before the line feed is shorter than the path
    have hlength := congrArg List.length h.1
    rw [List.length_append, List.length_cons] at hlength
    omega
  · intro hpath
    rw [splitLine_append _ hpath]

/-! ## Reports -/

/-- One of the checks of `read` rejects the input, and is raised with these three texts. -/
structure Raises (limits : ItfLimits) (bytes : Option ByteArray) (code path message : UString) : Prop where
  check : Check code message
  raised : readUnguarded limits bytes = .error (fail code path message)

/-- **A failing check is reported in place exactly when its path holds no line feed.** -/
theorem Raises.reported_iff {limits : ItfLimits} {bytes : Option ByteArray}
    {code path message : UString} (h : Raises limits bytes code path message) :
    read limits bytes = .ok (.error [⟨code, path, message⟩]) ↔ 0x0A ∉ path := by
  obtain ⟨finding, hfinding⟩ := caught_isSome (.inl rfl :
    (fail code path message).type.isArgument = true ∨ _)
  rw [← caught_fail_eq_iff message h.check.singleLine, read, h.raised, hfinding]
  simp only [hfinding, Except.ok.injEq, Except.error.injEq, List.cons.injEq, and_true,
    Option.some.injEq]

/-- **When `read` reports exactly the failure it found.**  Every argument exception that is not about the
    bytes is raised by a check, with a path whose segments hold no line feed unless they are keys of
    the document; and what a check was raised with is reported exactly when no segment of its path
    holds a line feed. -/
theorem read_reports_iff (limits : ItfLimits) (bytes : Option ByteArray) :
    (∀ e, readUnguarded limits bytes = .error e → e.type = .argument →
      ∃ code segments message, e = fail code (pathOf segments) message ∧
        Raises limits bytes code (pathOf segments) message ∧
        ∀ segment ∈ segments, 0x0A ∈ segment → HasKey limits bytes segment) ∧
    ∀ code segments message, Raises limits bytes code (pathOf segments) message →
      (read limits bytes = .ok (.error [⟨code, pathOf segments, message⟩]) ↔
        ∀ segment ∈ segments, 0x0A ∉ segment) := by
  constructor
  · intro e he htype
    rcases fails_readUnguarded limits bytes e he with h | h | h |
      ⟨code, path, message, hcheck, ⟨segments, rfl, hs⟩, rfl⟩
    · rw [htype] at h
      exact nomatch h
    · rw [htype] at h
      exact nomatch h
    · rw [htype] at h
      exact nomatch h
    · refine ⟨code, segments, message, rfl, ⟨hcheck, he⟩, fun segment hmem hfeed => ?_⟩
      exact (hs segment hmem).resolve_right (not_not.mpr hfeed)
  · intro code segments message h
    rw [h.reported_iff, mem_pathOf]
    simp only [not_exists, not_and]

/-- The exception that a call comes back with. -/
def exceptionOf {α : Type} : Outcome α → Option Exn
  | .ok _ => none
  | .error e => some e

/-- A check that is seen to be raised with its texts. -/
theorem raises_of_exception {limits : ItfLimits} {bytes : Option ByteArray} {code path message : UString}
    (hcheck : Check code message)
    (h : exceptionOf (readUnguarded limits bytes) = some (fail code path message)) :
    Raises limits bytes code path message := by
  refine ⟨hcheck, ?_⟩
  cases hread : readUnguarded limits bytes with
  | ok document =>
    rw [hread] at h
    cases h
  | error e =>
    rw [hread] at h
    rw [Option.some.inj h]

/-- A document with a field that the root does not have. -/
def plainKey : Option ByteArray := some (getBytesLossy (lit "\x7b\"a\":1\x7d"))

/-- A key without a line feed is reported as it was raised. -/
theorem read_reports_iff_key : read defaultLimits plainKey =
    .ok (.error [⟨lit "ITF-FIELD", pathOf [lit "a"], lit "Unsupported root field."⟩]) := by
  have hraised : exceptionOf (readUnguarded defaultLimits plainKey) =
      some (fail "ITF-FIELD" (pathOf [lit "a"]) "Unsupported root field.") := by decide +kernel
  have hraises : Raises defaultLimits plainKey (lit "ITF-FIELD") (pathOf [lit "a"]) (lit "Unsupported root field.") :=
    raises_of_exception .rootField hraised
  refine ((read_reports_iff defaultLimits plainKey).2 _ [lit "a"] _ hraises).mpr ?_
  intro segment hmem
  rw [List.mem_singleton.mp hmem]
  decide

/-- A document whose only key is a line feed. -/
def lineFeedKey : Option ByteArray := some (getBytesLossy (lit "\x7b\"\\n\":1\x7d"))

/-- The key ends the path: what is reported is an empty segment, and the rest of the path as a part of
    the message. -/
theorem read_misreports : ¬ ∀ limits bytes code path message, Raises limits bytes code path message →
    read limits bytes = .ok (.error [⟨code, path, message⟩]) := by
  intro h
  have hraised : exceptionOf (readUnguarded defaultLimits lineFeedKey) =
      some (fail "ITF-FIELD" (pathOf [[0x0A]]) "Unsupported root field.") := by decide +kernel
  have hraises : Raises defaultLimits lineFeedKey "ITF-FIELD" (pathOf [[0x0A]])
      "Unsupported root field." := raises_of_exception .rootField hraised
  exact absurd (hraises.reported_iff.mp (h _ _ _ _ _ hraises)) (by decide)

end FsQuint.Itf
