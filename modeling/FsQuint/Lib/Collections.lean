/-
  Lists up to order: sorting by a key, removing duplicates, and equivalence of lists whose order
  does not matter.

  A *key order* (`KeyOrder`) is a Boolean comparison that carries its own proof of being a linear
  order.  `sortOn` sorts stably by a key, so that

  1. the result is a rearrangement of the input (`sortOn_perm`);
  2. sorting commutes with every map that keeps the keys (`map_sortOn`);
  3. with distinct keys the result no longer depends on the order of the input
     (`sortOn_eq_of_perm`), and for a list sorted by itself it never does
     (`sortOn_id_eq_of_perm`).

  `UpToOrder R xs ys` says that `ys` can be rearranged so that `R` relates the two lists position
  by position.  It is an equivalence when `R` is one, and it is what a sorted image detects
  (`upToOrder_of_map_perm`).
-/
import Mathlib.Data.List.Sort
import Mathlib.Data.List.Perm.Basic

namespace Collections

/-! ## Sorting by a key -/

/-- A Boolean comparison that is a linear order. -/
structure KeyOrder (κ : Type) where
  le : κ → κ → Bool
  total : ∀ a b, le a b = true ∨ le b a = true
  trans : ∀ {a b c}, le a b = true → le b c = true → le a c = true
  antisymm : ∀ {a b}, le a b = true → le b a = true → a = b

namespace KeyOrder

variable {κ ι : Type}

/-- The order of optional keys in which the missing key comes first. -/
def nullFirst (o : KeyOrder κ) : KeyOrder (Option κ) where
  le
    | none, _ => true
    | some _, none => false
    | some a, some b => o.le a b
  total
    | none, _ => Or.inl rfl
    | some _, none => Or.inr rfl
    | some a, some b => o.total a b
  trans {a b c} hab hbc := by
    cases a with
    | none => rfl
    | some a =>
      cases b with
      | none => simp at hab
      | some b =>
        cases c with
        | none => simp at hbc
        | some c => exact o.trans hab hbc
  antisymm {a b} hab hba := by
    cases a with
    | none =>
      cases b with
      | none => rfl
      | some b => simp at hba
    | some a =>
      cases b with
      | none => simp at hab
      | some b => rw [o.antisymm hab hba]

/-- The lexicographic order of pairs. -/
def lex [DecidableEq κ] (o : KeyOrder κ) (p : KeyOrder ι) : KeyOrder (κ × ι) where
  le x y := if x.1 = y.1 then p.le x.2 y.2 else o.le x.1 y.1
  total x y := by
    by_cases h : x.1 = y.1
    · simpa [h] using p.total x.2 y.2
    · simpa [h, Ne.symm h] using o.total x.1 y.1
  trans {x y z} hxy hyz := by
    by_cases h1 : x.1 = y.1
    · by_cases h2 : y.1 = z.1
      · simp only [h1, h2, if_true] at hxy hyz ⊢
        exact p.trans hxy hyz
      · simpa [h1, h2] using hyz
    · by_cases h2 : y.1 = z.1
      · simpa [h1, ← h2] using hxy
      · simp only [if_neg h1, if_neg h2] at hxy hyz
        have hxz : x.1 ≠ z.1 := by
          intro h
          rw [← h] at hyz
          exact h1 (o.antisymm hxy hyz)
        rw [if_neg hxz]
        exact o.trans hxy hyz
  antisymm {x y} hxy hyx := by
    by_cases h : x.1 = y.1
    · simp only [h, if_true] at hxy hyx
      exact Prod.ext h (p.antisymm hxy hyx)
    · simp only [if_neg h, if_neg (Ne.symm h)] at hxy hyx
      exact absurd (o.antisymm hxy hyx) h

end KeyOrder

variable {α β κ : Type}

/-- Stable sort by a key. -/
def sortOn (o : KeyOrder κ) (key : α → κ) (xs : List α) : List α :=
  xs.insertionSort fun a b => o.le (key a) (key b) = true

/-- **Sorting rearranges.** -/
theorem sortOn_perm (o : KeyOrder κ) (key : α → κ) (xs : List α) : (sortOn o key xs).Perm xs :=
  List.perm_insertionSort _ xs

/-- Sorting keeps the length. -/
theorem length_sortOn (o : KeyOrder κ) (key : α → κ) (xs : List α) :
    (sortOn o key xs).length = xs.length :=
  (sortOn_perm o key xs).length_eq

/-- Sorting keeps the members. -/
theorem mem_sortOn {o : KeyOrder κ} {key : α → κ} {xs : List α} {x : α} :
    x ∈ sortOn o key xs ↔ x ∈ xs :=
  (sortOn_perm o key xs).mem_iff

/-- Only the empty list is sorted into the empty list. -/
theorem sortOn_eq_nil {o : KeyOrder κ} {key : α → κ} {xs : List α} :
    sortOn o key xs = [] ↔ xs = [] := by
  rw [← List.length_eq_zero_iff, length_sortOn, List.length_eq_zero_iff]

/-- **The result is sorted.** -/
theorem sortOn_pairwise (o : KeyOrder κ) (key : α → κ) (xs : List α) :
    (sortOn o key xs).Pairwise fun a b => o.le (key a) (key b) = true := by
  have : Std.Total fun a b : α => o.le (key a) (key b) = true := ⟨fun a b => o.total _ _⟩
  have : IsTrans α fun a b : α => o.le (key a) (key b) = true := ⟨fun a b c => o.trans⟩
  exact List.pairwise_insertionSort _ xs

/-- Sorting commutes with a map under which the keys of the members are those of their images. -/
theorem map_sortOn_of_mem (o : KeyOrder κ) (key : α → κ) (key' : β → κ) (f : α → β) {xs : List α}
    (h : ∀ a ∈ xs, key' (f a) = key a) : (sortOn o key xs).map f = sortOn o key' (xs.map f) :=
  List.map_insertionSort _ _ f xs fun a ha b hb => by rw [h a ha, h b hb]

/-- Sorting commutes with a map under which the keys are those of the images. -/
theorem map_sortOn (o : KeyOrder κ) (key : α → κ) (key' : β → κ) (f : α → β)
    (h : ∀ a, key' (f a) = key a) (xs : List α) :
    (sortOn o key xs).map f = sortOn o key' (xs.map f) :=
  map_sortOn_of_mem o key key' f fun a _ => h a

/-- With distinct keys, the sorted list depends only on the members. -/
theorem sortOn_eq_of_perm (o : KeyOrder κ) (key : α → κ) {xs ys : List α} (hp : xs.Perm ys)
    (hn : (xs.map key).Nodup) : sortOn o key xs = sortOn o key ys := by
  refine ((sortOn_perm o key xs).trans (hp.trans (sortOn_perm o key ys).symm)).eq_of_pairwise ?_
    (sortOn_pairwise o key xs) (sortOn_pairwise o key ys)
  intro a b ha hb hab hba
  have hb' : b ∈ xs := hp.mem_iff.mpr (mem_sortOn.mp hb)
  exact List.inj_on_of_nodup_map hn (mem_sortOn.mp ha) hb' (o.antisymm hab hba)

/-- Lists that are sorted by distinct keys are equal when they have the same members. -/
theorem eq_of_sorted (o : KeyOrder κ) (key : α → κ) {xs ys : List α}
    (hx : xs.Pairwise fun a b => o.le (key a) (key b) = true)
    (hy : ys.Pairwise fun a b => o.le (key a) (key b) = true) (hxn : (xs.map key).Nodup)
    (hyn : (ys.map key).Nodup) (h : ∀ a, a ∈ xs ↔ a ∈ ys) : xs = ys := by
  have hp : xs.Perm ys := (List.perm_ext_iff_of_nodup hxn.of_map hyn.of_map).mpr h
  refine hp.eq_of_pairwise ?_ hx hy
  intro a b ha hb hab hba
  exact List.inj_on_of_nodup_map hxn ha ((h b).mpr hb) (o.antisymm hab hba)

/-- A list sorted by itself depends only on the members, repeated ones included. -/
theorem sortOn_id_eq_of_perm (o : KeyOrder κ) {xs ys : List κ} (hp : xs.Perm ys) :
    sortOn o id xs = sortOn o id ys :=
  ((sortOn_perm o id xs).trans (hp.trans (sortOn_perm o id ys).symm)).eq_of_pairwise
    (fun _ _ _ _ hab hba => o.antisymm hab hba) (sortOn_pairwise o id xs) (sortOn_pairwise o id ys)

/-- A search in order finds the least of what it looks for. -/
theorem find?_sortOn_least {o : KeyOrder κ} {key : α → κ} {p : α → Bool} {xs : List α} {a : α}
    (h : (sortOn o key xs).find? p = some a) :
    ∀ b ∈ xs, key b ≠ key a → o.le (key b) (key a) = true → p b = false := by
  obtain ⟨-, before, after, hsplit, hbefore⟩ := List.find?_eq_some_iff_append.mp h
  intro b hb hne hle
  have hpair := sortOn_pairwise o key xs
  rw [hsplit, List.pairwise_append] at hpair
  have hmem : b ∈ sortOn o key xs := mem_sortOn.mpr hb
  rw [hsplit, List.mem_append, List.mem_cons] at hmem
  rcases hmem with hmem | rfl | hmem
  · simpa using hbefore b hmem
  · exact absurd rfl hne
  · -- what comes after is no smaller
    have hge := List.rel_of_pairwise_cons hpair.2.1 hmem
    exact absurd (o.antisymm hle hge) hne

/-! ## Duplicates -/

/-- The members of a list, each at its first occurrence. -/
def distinct [DecidableEq α] : List α → List α
  | [] => []
  | x :: xs => x :: (distinct xs).filter (· ≠ x)

/-- Each member of a list with the number of its occurrences, in order of first occurrence. -/
def countBy [DecidableEq α] (xs : List α) : List (α × Nat) :=
  (distinct xs).map fun x => (x, xs.count x)

section Distinct

variable [DecidableEq α]

/-- The first occurrences have the members of the list. -/
@[simp] theorem mem_distinct {x : α} : ∀ {xs : List α}, x ∈ distinct xs ↔ x ∈ xs
  | [] => Iff.rfl
  | y :: ys => by
    by_cases h : x = y
    · simp [distinct, h]
    · simp [distinct, h, @mem_distinct x ys]

/-- And there are none only in the empty list. -/
theorem distinct_eq_nil {xs : List α} : distinct xs = [] ↔ xs = [] := by
  cases xs <;> simp [distinct]

/-- **No member occurs twice among them.** -/
theorem nodup_distinct : ∀ xs : List α, (distinct xs).Nodup
  | [] => List.nodup_nil
  | x :: xs => by
    rw [distinct, List.nodup_cons]
    exact ⟨by simp, (nodup_distinct xs).filter _⟩

/-- A list without repetition is left as it is. -/
theorem distinct_of_nodup : ∀ {xs : List α}, xs.Nodup → distinct xs = xs
  | [], _ => rfl
  | x :: xs, h => by
    obtain ⟨hx, hxs⟩ := List.nodup_cons.mp h
    rw [distinct, distinct_of_nodup hxs, List.filter_eq_self.mpr]
    intro y hy
    simpa using fun he : y = x => hx (he ▸ hy)

/-- And no list gets longer. -/
theorem length_distinct_le : ∀ xs : List α, (distinct xs).length ≤ xs.length
  | [] => Nat.le_refl 0
  | x :: xs => by
    have h := length_distinct_le xs
    have hf := List.length_filter_le (fun y => decide (y ≠ x)) (distinct xs)
    simp only [distinct, List.length_cons]
    omega

/-- Counting the distinct members decides whether there are duplicates. -/
theorem length_distinct_eq_iff {xs : List α} : (distinct xs).length = xs.length ↔ xs.Nodup := by
  constructor
  · intro h
    induction xs with
    | nil => exact List.nodup_nil
    | cons x xs ih =>
      have hle := length_distinct_le xs
      have hf := List.length_filter_le (fun y => decide (y ≠ x)) (distinct xs)
      simp only [distinct, List.length_cons] at h
      have hlen : (distinct xs).length = xs.length := by omega
      have hfilter : (distinct xs).filter (· ≠ x) = distinct xs :=
        List.filter_eq_self.mpr (List.length_filter_eq_length_iff.mp (by omega))
      refine List.nodup_cons.mpr ⟨fun hx => ?_, ih hlen⟩
      have := List.filter_eq_self.mp hfilter x (mem_distinct.mpr hx)
      simp at this
  · intro h
    rw [distinct_of_nodup h]

/-- Each member is counted once, with the number of its occurrences. -/
theorem mem_countBy {xs : List α} {p : α × Nat} :
    p ∈ countBy xs ↔ p.1 ∈ xs ∧ p.2 = xs.count p.1 := by
  constructor
  · intro h
    obtain ⟨x, hx, rfl⟩ := List.mem_map.mp h
    exact ⟨mem_distinct.mp hx, rfl⟩
  · rintro ⟨hx, hc⟩
    exact List.mem_map.mpr ⟨p.1, mem_distinct.mpr hx, Prod.ext rfl hc.symm⟩

/-- No member is counted twice exactly when there are no duplicates. -/
theorem forall_countBy_le_one {xs : List α} : (∀ p ∈ countBy xs, ¬ 1 < p.2) ↔ xs.Nodup := by
  rw [List.nodup_iff_count_le_one]
  constructor
  · intro h x
    by_cases hx : x ∈ xs
    · have := h (x, xs.count x) (mem_countBy.mpr ⟨hx, rfl⟩)
      simp only at this
      omega
    · rw [List.count_eq_zero_of_not_mem hx]
      omega
  · intro h p hp
    have := h p.1
    rw [(mem_countBy.mp hp).2]
    omega

end Distinct

/-- What is found at some position is found in the whole. -/
theorem flatten_mapIdx_eq_nil {f : Nat → α → List β} {xs : List α} :
    (xs.mapIdx f).flatten = [] ↔ ∀ (i : Nat) (h : i < xs.length), f i xs[i] = [] := by
  simp only [List.flatten_eq_nil_iff, List.mem_mapIdx]
  constructor
  · intro h i hi
    exact h _ ⟨i, hi, rfl⟩
  · rintro h _ ⟨i, hi, rfl⟩
    exact h i hi

/-! ## Lists whose order does not matter -/

/-- `UpToOrder R xs ys`: some rearrangement of `ys` is related to `xs` position by position. -/
def UpToOrder (R : α → β → Prop) (xs : List α) (ys : List β) : Prop :=
  ∃ zs, zs.Perm ys ∧ List.Forall₂ R xs zs

/-- Two lists have one image when their members do, position by position. -/
theorem map_eq_map_iff {γ : Type} {f : α → γ} {g : β → γ} {xs : List α} {ys : List β} :
    xs.map f = ys.map g ↔ List.Forall₂ (fun a b => f a = g b) xs ys := by
  rw [← List.forall₂_eq_eq_eq, List.forall₂_map_left_iff, List.forall₂_map_right_iff]

/-- What holds at every position counted from `k` holds of the head, and from `k + 1` on of the tail. -/
theorem forall_from_cons_iff {P : Nat → α → Prop} {x : α} {xs : List α} {k : Nat} :
    (∀ (i : Nat) (h : i < (x :: xs).length), P (k + i) (x :: xs)[i]) ↔
      P k x ∧ ∀ (i : Nat) (h : i < xs.length), P (k + 1 + i) xs[i] := by
  constructor
  · intro h
    refine ⟨h 0 (Nat.succ_pos _), fun i hi => ?_⟩
    have htail := h (i + 1) (Nat.succ_lt_succ hi)
    rwa [show k + (i + 1) = k + 1 + i by omega] at htail
  · rintro ⟨hx, hxs⟩ i hi
    cases i with
    | zero => exact hx
    | succ i =>
      have htail := hxs i (Nat.lt_of_succ_lt_succ hi)
      rwa [show k + 1 + i = k + (i + 1) by omega] at htail

/-- A relation between lists may be weakened at their members. -/
theorem forall₂_imp_of_mem {R S : α → β → Prop} {xs : List α} {ys : List β}
    (h : List.Forall₂ R xs ys) (hi : ∀ a ∈ xs, ∀ b ∈ ys, R a b → S a b) : List.Forall₂ S xs ys := by
  induction h with
  | nil => exact .nil
  | @cons a b as bs hab _ ih =>
    refine .cons (hi a List.mem_cons_self b List.mem_cons_self hab) (ih fun a' ha' b' hb' => ?_)
    exact hi a' (List.mem_cons_of_mem a ha') b' (List.mem_cons_of_mem b hb')

/-- Each member on the right is related to one on the left. -/
theorem forall₂_mem_right {R : α → β → Prop} {xs : List α} {ys : List β}
    (h : List.Forall₂ R xs ys) :
    ∀ y ∈ ys, ∃ x ∈ xs, R x y := by
  induction h with
  | nil => exact fun y hy => absurd hy List.not_mem_nil
  | @cons a b as bs hab _ ih =>
    refine List.forall_mem_cons.mpr ⟨⟨a, List.mem_cons_self, hab⟩, fun y hy => ?_⟩
    obtain ⟨x, hx, hxy⟩ := ih y hy
    exact ⟨x, List.mem_cons_of_mem a hx, hxy⟩

/-- And each on the left to one on the right. -/
theorem forall₂_mem_left {R : α → β → Prop} {xs : List α} {ys : List β} (h : List.Forall₂ R xs ys) :
    ∀ x ∈ xs, ∃ y ∈ ys, R x y := forall₂_mem_right h.flip

/-- What holds of the pairs of one list holds of the pairs of a related list. -/
theorem pairwise_of_forall₂ {R : α → β → Prop} {S : α → α → Prop} {T : β → β → Prop} {xs : List α}
    {ys : List β} (h : List.Forall₂ R xs ys) (hs : xs.Pairwise S)
    (ht : ∀ a ∈ xs, ∀ a' ∈ xs, ∀ b, R a b → ∀ b', R a' b' → S a a' → T b b') : ys.Pairwise T := by
  induction h with
  | nil => exact List.Pairwise.nil
  | @cons a b as bs hab hrest ih =>
    rw [List.pairwise_cons] at hs ⊢
    refine ⟨fun b' hb' => ?_, ih hs.2 fun x hx x' hx' => ?_⟩
    · obtain ⟨a', ha', hab'⟩ := forall₂_mem_right hrest b' hb'
      exact ht a List.mem_cons_self a' (List.mem_cons_of_mem a ha') b hab b' hab' (hs.1 a' ha')
    · exact ht x (List.mem_cons_of_mem a hx) x' (List.mem_cons_of_mem a hx')

/-- Two lists related to one list are related to a fourth, made member by member. -/
theorem exists_forall₂_of_forall₂ {γ δ : Type} {R : α → β → Prop} {S : α → γ → Prop}
    {S' : β → δ → Prop} {E : γ → δ → Prop} {xs : List α} {ys : List β} {cs : List γ}
    (h : List.Forall₂ R xs ys) (hs : List.Forall₂ S xs cs)
    (hm : ∀ x ∈ xs, ∀ y c, R x y → S x c → ∃ d, S' y d ∧ E c d) :
    ∃ ds, List.Forall₂ S' ys ds ∧ List.Forall₂ E cs ds := by
  induction h generalizing cs with
  | nil =>
    cases hs
    exact ⟨[], .nil, .nil⟩
  | @cons x y xs ys hxy _ ih =>
    cases hs with
    | @cons _ c _ cs hxc hs =>
      obtain ⟨d, hyd, hcd⟩ := hm x List.mem_cons_self y c hxy hxc
      obtain ⟨ds, hds, hcds⟩ := ih hs fun x hx => hm x (List.mem_cons_of_mem _ hx)
      exact ⟨d :: ds, .cons hyd hds, .cons hcd hcds⟩

/-- A list is made item by item. -/
theorem exists_list_of_forall {n : Nat} {P : (i : Nat) → i < n → β → Prop}
    (h : ∀ i hi, ∃ b, P i hi b) :
    ∃ bs : List β, bs.length = n ∧ ∀ i hi b, bs[i]? = some b → P i hi b := by
  choose f hf using h
  refine ⟨List.ofFn fun i : Fin n => f i i.isLt, List.length_ofFn, fun i hi b hb => ?_⟩
  obtain ⟨_, rfl⟩ := List.getElem?_eq_some_iff.mp hb
  rw [List.getElem_ofFn]
  exact hf i hi

/-- A permutation of one list takes the related list along. -/
theorem exists_perm_forall₂ {R : α → β → Prop} {xs xs' : List α} {ys : List β} (hp : xs'.Perm xs)
    (h : List.Forall₂ R xs ys) : ∃ ys', ys'.Perm ys ∧ List.Forall₂ R xs' ys' := by
  obtain ⟨ys', hys', hperm⟩ := List.perm_comp_forall₂ hp h
  exact ⟨ys', hperm, hys'⟩

/-- Each member on the left is related to one on the right, in whatever order. -/
theorem UpToOrder.mem_left {R : α → β → Prop} {xs : List α} {ys : List β} (h : UpToOrder R xs ys) :
    ∀ x ∈ xs, ∃ y ∈ ys, R x y := by
  obtain ⟨zs, hp, hf⟩ := h
  intro x hx
  obtain ⟨y, hy, hxy⟩ := forall₂_mem_left hf x hx
  exact ⟨y, hp.mem_iff.mp hy, hxy⟩

/-- And each on the right to one on the left. -/
theorem UpToOrder.mem_right {R : α → β → Prop} {xs : List α} {ys : List β} (h : UpToOrder R xs ys) :
    ∀ y ∈ ys, ∃ x ∈ xs, R x y := by
  obtain ⟨zs, hp, hf⟩ := h
  intro y hy
  exact forall₂_mem_right hf y (hp.mem_iff.mpr hy)

/-- The relation may be weakened at the members. -/
theorem UpToOrder.imp {R S : α → β → Prop} {xs : List α} {ys : List β} (h : UpToOrder R xs ys)
    (hi : ∀ a ∈ xs, ∀ b ∈ ys, R a b → S a b) : UpToOrder S xs ys := by
  obtain ⟨zs, hp, hf⟩ := h
  exact ⟨zs, hp, forall₂_imp_of_mem hf fun a ha b hb => hi a ha b (hp.mem_iff.mp hb)⟩

/-- Images related up to order come from lists related up to order. -/
theorem upToOrder_of_map {γ δ : Type} {R : γ → δ → Prop} {f : α → γ} {g : β → δ} {xs : List α}
    {ys : List β} (h : UpToOrder R (xs.map f) (ys.map g)) :
    UpToOrder (fun a b => R (f a) (g b)) xs ys := by
  obtain ⟨zs, hp, hf⟩ := h
  have hg : List.Forall₂ (fun c b => c = g b) (ys.map g) ys := by
    rw [List.forall₂_map_left_iff]
    exact List.forall₂_same.mpr fun _ _ => rfl
  obtain ⟨ws, hw, hperm⟩ := List.perm_comp_forall₂ hp hg
  obtain rfl : zs = ws.map g := by
    rw [← List.map_id zs, map_eq_map_iff]
    exact hw
  exact ⟨ws, hperm, List.forall₂_map_left_iff.mp (List.forall₂_map_right_iff.mp hf)⟩

/-- Two lists with the same image up to order are equal up to order and up to the map. -/
theorem upToOrder_of_map_perm {γ : Type} {f : α → γ} {g : β → γ} {xs : List α} {ys : List β}
    (h : (xs.map f).Perm (ys.map g)) : UpToOrder (fun a b => f a = g b) xs ys := by
  have hf : List.Forall₂ (fun a c => f a = c) xs (xs.map f) := by
    rw [List.forall₂_map_right_iff]
    exact List.forall₂_same.mpr fun _ _ => rfl
  have hg : List.Forall₂ (fun c b => c = g b) (ys.map g) ys := by
    rw [List.forall₂_map_left_iff]
    exact List.forall₂_same.mpr fun _ _ => rfl
  obtain ⟨zs, hz, hp⟩ := List.perm_comp_forall₂ h hg
  refine ⟨zs, hp, ?_⟩
  rw [List.forall₂_map_left_iff] at hz
  exact hz

/-- A map that sends related members to equal ones has the same image up to order. -/
theorem UpToOrder.map_perm {γ : Type} {R : α → β → Prop} {f : α → γ} {g : β → γ} {xs : List α}
    {ys : List β} (h : UpToOrder R xs ys) (hfg : ∀ a ∈ xs, ∀ b, R a b → f a = g b) :
    (xs.map f).Perm (ys.map g) := by
  obtain ⟨zs, hp, hf⟩ := h
  rw [map_eq_map_iff.mpr (forall₂_imp_of_mem hf fun a ha b _ => hfg a ha b)]
  exact hp.map g

/-- Images are related up to order when their members are. -/
theorem upToOrder_map_iff {f : α → β} {S : β → β → Prop} {R : α → α → Prop} {xs ys : List α}
    (h : ∀ x ∈ xs, ∀ y, S (f x) (f y) ↔ R x y) :
    UpToOrder S (xs.map f) (ys.map f) ↔ UpToOrder R xs ys := by
  constructor
  · intro hu
    exact (upToOrder_of_map hu).imp fun x hx y _ hxy => (h x hx y).mp hxy
  · rintro ⟨zs, hp, hf⟩
    refine ⟨zs.map f, hp.map f, ?_⟩
    rw [List.forall₂_map_left_iff, List.forall₂_map_right_iff]
    exact forall₂_imp_of_mem hf fun x hx y _ hxy => (h x hx y).mpr hxy

end Collections
