/-
  Scanning a text for a pattern.

  A pattern is given the rest of a text and says whether it matches there: what it read, and what is left.

  1. **The scan** (`finditer`): the matches from the left, each from where the one before it ended.
  2. **Skipping** (`finditer_skip`): what no match starts in does not count.
  3. **Separators** (`StopsAt`): a text that is cut at a symbol over which no match reaches is scanned piece
     by piece (`finditer_append`).
-/
import Mathlib.Data.List.Basic

namespace Scan

variable {α β : Type} {pattern : List α → Option (β × List α)} {c : α} {s t rest : List α} {b : β}

/-! ## The scan -/

/-- The matches in a text, of which a number of symbols belong to the match before. -/
def finditerFrom (pattern : List α → Option (β × List α)) : Nat → List α → List β
  | _, [] => []
  | skip + 1, _ :: s => finditerFrom pattern skip s
  | 0, c :: s =>
    match pattern (c :: s) with
    | none => finditerFrom pattern 0 s
    | some (b, rest) => b :: finditerFrom pattern (s.length - rest.length) s

/-- All matches of a pattern, from left to right and without overlap, as `re.finditer` finds them. -/
def finditer (pattern : List α → Option (β × List α)) (s : List α) : List β := finditerFrom pattern 0 s

/-- There is no match in nothing. -/
@[simp] theorem finditer_nil : finditer pattern [] = [] := rfl

/-- What a match has taken up is skipped. -/
theorem finditerFrom_eq_drop (skip : Nat) : finditerFrom pattern skip s = finditer pattern (s.drop skip) := by
  induction s generalizing skip with
  | nil => rw [List.drop_nil, finditer_nil, finditerFrom]
  | cons c s ih =>
    cases skip with
    | zero => rfl
    | succ skip => exact ih skip

/-- Where nothing matches, the search goes on at the next character. -/
theorem finditer_cons_none (h : pattern (c :: s) = none) : finditer pattern (c :: s) = finditer pattern s := by
  rw [finditer, finditerFrom, h]
  rfl

/-- Where something does, it goes on after the match. -/
theorem finditer_cons_some (h : pattern (c :: s) = some (b, rest)) (hrest : rest <:+ s) :
    finditer pattern (c :: s) = b :: finditer pattern rest := by
  obtain ⟨skipped, rfl⟩ := hrest
  rw [finditer, finditerFrom, h]
  show b :: finditerFrom pattern ((skipped ++ rest).length - rest.length) (skipped ++ rest) = _
  rw [finditerFrom_eq_drop, List.length_append, Nat.add_sub_cancel, List.drop_left]

/-! ## Skipping -/

/-- No match starts in the text before. -/
theorem finditer_skip (h : ∀ x, x <:+ s → x ≠ [] → pattern (x ++ t) = none) :
    finditer pattern (s ++ t) = finditer pattern t := by
  induction s with
  | nil => rfl
  | cons c s ih =>
    have hc : pattern (c :: (s ++ t)) = none := h (c :: s) List.suffix_rfl (List.cons_ne_nil c s)
    rw [List.cons_append, finditer_cons_none hc]
    exact ih fun x hx => h x (hx.trans (List.suffix_cons c s))

/-! ## Separators -/

/-- No match reaches over a symbol, and what stands behind it makes no difference before it. -/
structure StopsAt (pattern : List α → Option (β × List α)) (c : α) : Prop where
  empty : pattern [] = none
  shrinks : ∀ {d s b rest}, pattern (d :: s) = some (b, rest) → rest <:+ s
  miss : ∀ {s t}, pattern s = none → pattern (s ++ c :: t) = none
  hit : ∀ {s t b rest}, pattern s = some (b, rest) → pattern (s ++ c :: t) = some (b, rest ++ c :: t)

/-- **A character at which the pattern stops divides the search.** -/
theorem finditer_append (h : StopsAt pattern c) :
    finditer pattern (s ++ c :: t) = finditer pattern s ++ finditer pattern t := by
  induction hlength : s.length using Nat.strongRecOn generalizing s with
  | _ n ih =>
    cases s with
    | nil =>
      have hnone : pattern (c :: t) = none := h.miss (s := []) h.empty
      rw [List.nil_append, finditer_cons_none hnone, finditer_nil, List.nil_append]
    | cons d s =>
      cases hd : pattern (d :: s) with
      | none =>
        have hmiss : pattern (d :: (s ++ c :: t)) = none := h.miss hd
        rw [finditer_cons_none hd, List.cons_append, finditer_cons_none hmiss]
        exact ih s.length (by rw [← hlength, List.length_cons]; omega) rfl
      | some found =>
        obtain ⟨b, rest⟩ := found
        have hrest : rest <:+ s := h.shrinks hd
        have hlonger : rest ++ c :: t <:+ s ++ c :: t := by
          obtain ⟨skipped, rfl⟩ := hrest
          exact ⟨skipped, (List.append_assoc skipped rest (c :: t)).symm⟩
        have hhit : pattern (d :: (s ++ c :: t)) = some (b, rest ++ c :: t) := h.hit hd
        rw [finditer_cons_some hd hrest, List.cons_append, finditer_cons_some hhit hlonger, List.cons_append]
        have hshorter : rest.length < n := by
          have := hrest.length_le
          rw [← hlength, List.length_cons]
          omega
        rw [ih rest.length hshorter rfl]

/-- What does not contain a symbol and occurs in a text occurs before or behind the symbol. -/
theorem infix_append_cons {p : List α} (hp : p ≠ []) (hc : c ∉ p) (h : p <:+: s ++ c :: t) : p <:+: s ∨ p <:+: t := by
  obtain ⟨u, v, h⟩ := h
  rw [List.append_assoc] at h
  rcases List.append_eq_append_iff.mp h with ⟨w, hs, hpv⟩ | ⟨w, hu, hct⟩
  · rcases List.append_eq_append_iff.mp hpv with ⟨x, hw, -⟩ | ⟨x, hpx, hct⟩
    · exact Or.inl ⟨u, x, by rw [hs, hw, List.append_assoc]⟩
    · cases x with
      | nil => exact Or.inl ⟨u, [], by rw [hs, hpx, List.append_nil, List.append_nil]⟩
      | cons d x =>
        rw [hpx, (List.cons.inj hct).1] at hc
        exact absurd (List.mem_append_right w List.mem_cons_self) hc
  · cases w with
    | nil =>
      obtain ⟨d, p, rfl⟩ := List.exists_cons_of_ne_nil hp
      rw [List.nil_append, List.cons_append] at hct
      rw [(List.cons.inj hct).1] at hc
      exact absurd List.mem_cons_self hc
    | cons d w =>
      rw [List.cons_append] at hct
      exact Or.inr ⟨w, v, by rw [List.append_assoc, (List.cons.inj hct).2]⟩

end Scan
