/-
  Tables: lists of rows that are told apart by a key.

  1. **Lookup and update** (`lookup`, `update`): of the first row with a key, as a search through a
     list of mutable rows finds it; and the replacement of a row, or its addition if there is none
     (`store`).
  2. **Tables whose keys are distinct** (`mem_update`, `update_eq_map`): there the first row is the
     only one, and an update touches nothing else.
  3. **Strictly growing keys** (`Numbered`): rows that are numbered in the order in which they came.
-/
import Mathlib.Data.List.Nodup
import Mathlib.Data.List.Range

namespace Table

variable {ρ κ β : Type} [DecidableEq κ] {key : ρ → κ} {k k' : κ} {f : ρ → ρ} {rows : List ρ} {r r' : ρ}

variable (key) in
/-- The first row with a key. -/
def lookup (k : κ) (rows : List ρ) : Option ρ := rows.find? fun r => key r = k

variable (key) in
/-- Changes the first row with a key. -/
def update (k : κ) (f : ρ → ρ) : List ρ → List ρ
  | [] => []
  | r :: rows => if key r = k then f r :: rows else r :: update k f rows

/-- What is found under a key is a row with that key. -/
theorem lookup_eq_some (h : lookup key k rows = some r) : r ∈ rows ∧ key r = k :=
  ⟨List.mem_of_find?_eq_some h, by simpa using List.find?_some h⟩

/-- Nothing is found exactly when no row has the key. -/
theorem lookup_eq_none_iff : lookup key k rows = none ↔ ∀ r ∈ rows, key r ≠ k := by
  simp [lookup]

/-- What an update leaves alone in the row that it changes, it leaves alone everywhere. -/
theorem map_update {g : ρ → β} (hg : ∀ r ∈ rows, key r = k → g (f r) = g r) :
    (update key k f rows).map g = rows.map g := by
  induction rows with
  | nil => rfl
  | cons r rows ih =>
    rw [update]
    split
    · next hr => rw [List.map_cons, List.map_cons, hg r List.mem_cons_self hr]
    · rw [List.map_cons, List.map_cons, ih fun r' hr' => hg r' (List.mem_cons_of_mem _ hr')]

variable (key) in
/-- Replaces the first row with the key of a row, or adds the row at the end. -/
def store (r : ρ) (rows : List ρ) : List ρ :=
  if rows.any fun r' => key r' = key r then update key (key r) (fun _ => r) rows else rows ++ [r]

/-- A row with a new key is appended. -/
theorem store_of_new (h : ∀ r' ∈ rows, key r' ≠ key r) : store key r rows = rows ++ [r] := by
  rw [store, if_neg]
  intro hany
  obtain ⟨r', hr', hkey⟩ := List.any_eq_true.mp hany
  exact h r' hr' (of_decide_eq_true hkey)

/-- And one with a key that is there takes the place of the rows with that key. -/
theorem store_of_old (hr : r' ∈ rows) (hkey : key r' = key r) :
    store key r rows = update key (key r) (fun _ => r) rows := by
  rw [store, if_pos]
  exact List.any_eq_true.mpr ⟨r', hr, decide_eq_true hkey⟩

/-- What a row has in common with the one that it replaces, the table keeps. -/
theorem map_store {g : ρ → β} (hr : r' ∈ rows) (hkey : key r' = key r)
    (hg : ∀ r'' ∈ rows, key r'' = key r → g r = g r'') : (store key r rows).map g = rows.map g := by
  rw [store_of_old hr hkey]
  exact map_update hg

/-- The search, row by row. -/
theorem lookup_cons : lookup key k (r :: rows) = if key r = k then some r else lookup key k rows := by
  rw [lookup, List.find?_cons]
  by_cases h : key r = k
  · simp [h]
  · simp [h, lookup]

/-- The search after a change under one key. -/
theorem lookup_update (hf : ∀ r, key (f r) = k) :
    lookup key k' (update key k f rows) = if k' = k then (lookup key k rows).map f else lookup key k' rows := by
  induction rows with
  | nil => simp [update, lookup]
  | cons r rows ih =>
    rw [update]
    by_cases hr : key r = k
    · rw [if_pos hr, lookup_cons, hf, lookup_cons, if_pos hr, lookup_cons, hr]
      by_cases hk : k = k'
      · rw [if_pos hk, if_pos hk.symm, Option.map_some]
      · rw [if_neg hk, if_neg (Ne.symm hk), if_neg hk]
    · rw [if_neg hr, lookup_cons, ih, lookup_cons, if_neg hr, lookup_cons]
      by_cases hk : k' = k
      · rw [if_neg (hk ▸ hr), if_pos hk, if_pos hk]
      · rw [if_neg hk, if_neg hk]

/-- **What a table holds after a row was stored.** -/
theorem lookup_store : lookup key k (store key r rows) = if k = key r then some r else lookup key k rows := by
  by_cases h : ∀ r' ∈ rows, key r' ≠ key r
  · rw [store_of_new h, lookup, List.find?_append]
    by_cases hk : k = key r
    · have hnone : lookup key k rows = none := lookup_eq_none_iff.mpr (hk ▸ h)
      rw [lookup] at hnone
      rw [hnone, if_pos hk]
      simp [hk]
    · rw [if_neg hk]
      simp [Ne.symm hk, lookup]
  · push Not at h
    obtain ⟨r', hr', hkey⟩ := h
    rw [store_of_old hr' hkey, lookup_update fun _ => rfl]
    by_cases hk : k = key r
    · rw [if_pos hk, if_pos hk]
      cases hlookup : lookup key (key r) rows with
      | none => exact absurd hkey (lookup_eq_none_iff.mp hlookup r' hr')
      | some => rfl
    · rw [if_neg hk, if_neg hk]

/-! ## Distinct keys -/

/-- Where keys are distinct each row is found under its key. -/
theorem lookup_of_mem (hnd : (rows.map key).Nodup) (hr : r ∈ rows) :
    lookup key (key r) rows = some r := by
  cases hlookup : lookup key (key r) rows with
  | none => exact absurd rfl (lookup_eq_none_iff.mp hlookup r hr)
  | some r' =>
    obtain ⟨hmem, hkey⟩ := lookup_eq_some hlookup
    rw [List.inj_on_of_nodup_map hnd hmem hr hkey]

/-- And nothing else is. -/
theorem lookup_eq_some_iff (hnd : (rows.map key).Nodup) :
    lookup key k rows = some r ↔ r ∈ rows ∧ key r = k := by
  constructor
  · exact lookup_eq_some
  · rintro ⟨hr, rfl⟩
    exact lookup_of_mem hnd hr

/-- Among distinct keys the row that an update changes is the only one with its key. -/
theorem update_eq_map (hnd : (rows.map key).Nodup) :
    update key k f rows = rows.map fun r => if key r = k then f r else r := by
  induction rows with
  | nil => rfl
  | cons r rows ih =>
    obtain ⟨hr, hnd⟩ := List.nodup_cons.mp hnd
    rw [update, List.map_cons]
    by_cases hk : key r = k
    · rw [if_pos hk, if_pos hk]
      refine congrArg (f r :: ·) (Eq.symm ?_)
      refine (List.map_congr_left fun r' hr' => if_neg ?_).trans rows.map_id
      rintro rfl
      exact hr (hk ▸ List.mem_map_of_mem hr')
    · rw [if_neg hk, if_neg hk, ih hnd]

/-- The rows after a change: the changed ones, and those with other keys. -/
theorem mem_update (hnd : (rows.map key).Nodup) :
    r' ∈ update key k f rows ↔
      (∃ r ∈ rows, key r = k ∧ r' = f r) ∨ (r' ∈ rows ∧ key r' ≠ k) := by
  rw [update_eq_map hnd, List.mem_map]
  constructor
  · rintro ⟨r, hr, rfl⟩
    by_cases hk : key r = k
    · rw [if_pos hk]
      exact .inl ⟨r, hr, hk, rfl⟩
    · rw [if_neg hk]
      exact .inr ⟨hr, hk⟩
  · rintro (⟨r, hr, hk, rfl⟩ | ⟨hr, hk⟩)
    · exact ⟨r, hr, if_pos hk⟩
    · exact ⟨r', hr, if_neg hk⟩

/-- The rows after a row is stored. -/
theorem mem_store (hnd : (rows.map key).Nodup) : r' ∈ store key r rows ↔ r' = r ∨ (r' ∈ rows ∧ key r' ≠ key r) := by
  by_cases h : ∀ r' ∈ rows, key r' ≠ key r
  · rw [store_of_new h, List.mem_append, List.mem_singleton, or_comm]
    exact or_congr_right ⟨fun hr' => ⟨hr', h r' hr'⟩, And.left⟩
  · push Not at h
    obtain ⟨r₀, hr₀, hkey⟩ := h
    rw [store_of_old hr₀ hkey, mem_update hnd]
    exact or_congr_left ⟨fun ⟨_, _, _, hr'⟩ => hr', fun hr' => ⟨r₀, hr₀, hkey, hr'⟩⟩

/-- A new value in a column keeps it without repetition. -/
theorem nodup_concat {g : ρ → β} (hnd : (rows.map g).Nodup) (hr : ∀ r' ∈ rows, g r' ≠ g r) :
    ((rows ++ [r]).map g).Nodup := by
  rw [List.map_append, List.nodup_append]
  refine ⟨hnd, List.nodup_singleton _, ?_⟩
  intro k hk k' hk'
  obtain ⟨r', hr', rfl⟩ := List.mem_map.mp hk
  rw [List.map_singleton, List.mem_singleton] at hk'
  exact hk' ▸ hr r' hr'

/-- **Storing keeps the keys distinct.** -/
theorem nodup_store (hnd : (rows.map key).Nodup) : ((store key r rows).map key).Nodup := by
  by_cases h : ∀ r' ∈ rows, key r' ≠ key r
  · rw [store_of_new h]
    exact nodup_concat hnd h
  · push Not at h
    obtain ⟨r', hr', hkey⟩ := h
    rw [map_store hr' hkey fun _ _ hk => hk.symm]
    exact hnd

/-! ## Rows numbered in the order of their arrival -/

variable {number : ρ → Nat} {n : Nat}

variable (number) in
/-- The rows bear the numbers from 1 on. -/
def Numbered (rows : List ρ) : Prop := rows.map number = List.range' 1 rows.length

/-- The empty table is numbered. -/
theorem numbered_nil : Numbered number [] := rfl

/-- Numbers are distinct. -/
theorem Numbered.nodup (h : Numbered number rows) : (rows.map number).Nodup := by
  rw [h]
  exact List.nodup_range'

/-- The next number may be appended. -/
theorem Numbered.append (h : Numbered number rows) (hr : number r = rows.length + 1) :
    Numbered number (rows ++ [r]) := by
  rw [Numbered, List.map_append, h, List.length_append, List.length_singleton, List.range'_concat,
    List.map_singleton, hr, Nat.one_mul, Nat.add_comm]

/-- Being numbered is a matter of the column of numbers. -/
theorem Numbered.of_map_eq {rows' : List ρ} (h : Numbered number rows)
    (hmap : rows'.map number = rows.map number) : Numbered number rows' := by
  have hlength : rows'.length = rows.length := by simpa using congrArg List.length hmap
  rw [Numbered, hmap, h, hlength]

/-- The row with a number stands at the index before it, and an update changes the row there. -/
theorem Numbered.getElem?_of_lookup (h : Numbered number rows) (hlookup : lookup number n rows = some r) :
    1 ≤ n ∧ rows[n - 1]? = some r ∧ ∀ f, update number n f rows = rows.set (n - 1) (f r) := by
  obtain ⟨hmem, hnumber⟩ := lookup_eq_some hlookup
  obtain ⟨i, hi, hir⟩ := List.mem_iff_getElem.mp hmem
  have hn : n = 1 + i := by
    have hget : (rows.map number)[i]? = some n := by
      rw [List.getElem?_map, List.getElem?_eq_getElem hi, hir, Option.map_some, hnumber]
    rw [h, List.getElem?_range' hi, Option.some_inj] at hget
    omega
  have hindex : n - 1 = i := by omega
  refine ⟨by omega, ?_, fun f => ?_⟩
  · rw [hindex, List.getElem?_eq_getElem hi, hir]
  · refine List.ext_getElem? fun j => ?_
    rw [update_eq_map h.nodup, List.getElem?_map, hindex]
    by_cases hij : i = j
    · rw [← hij, List.getElem?_set_self hi, List.getElem?_eq_getElem hi, hir, Option.map_some, if_pos hnumber]
    · rw [List.getElem?_set_ne hij]
      cases hj : rows[j]? with
      | none => rfl
      | some x =>
        have hne : number x ≠ n := by
          intro hx
          have hget : (rows.map number)[j]? = some n := by rw [List.getElem?_map, hj, Option.map_some, hx]
          rw [h, List.getElem?_range' (List.getElem?_eq_some_iff.mp hj).1, Option.some_inj] at hget
          omega
        rw [Option.map_some, if_neg hne]

/-- The numbers grow along the rows. -/
theorem Numbered.pairwise (h : Numbered number rows) : rows.Pairwise fun r r' => number r < number r' := by
  rw [← List.pairwise_map (R := (· < ·)) (f := number), h]
  exact List.pairwise_lt_range'

/-- No number exceeds the number of rows. -/
theorem Numbered.le_length (h : Numbered number rows) (hr : r ∈ rows) : number r ≤ rows.length := by
  have hmem : number r ∈ List.range' 1 rows.length := h ▸ List.mem_map_of_mem hr
  have := List.mem_range'_1.mp hmem
  omega

end Table
