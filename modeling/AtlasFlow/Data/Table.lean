import Mathlib.Data.List.Basic
import Mathlib.Data.List.Nodup

/-!
# Tables with a primary key

A table is the list of its rows. `upsert` is SQLite's `INSERT OR REPLACE`: the row with the same key,
if there is one, is deleted, and the new row goes to the end. Nothing below depends on the order
of the rows, which no unordered `SELECT` promises either.
-/

namespace Table

variable {ρ κ : Type} [DecidableEq κ] (key : ρ → κ)

def upsert (row : ρ) (rows : List ρ) : List ρ :=
  rows.filter (fun r => key r ≠ key row) ++ [row]

/-- The row under a key, if any. -/
def lookup (k : κ) (rows : List ρ) : Option ρ := rows.find? fun r => key r = k

/-- No two rows share a key. -/
def Keyed (rows : List ρ) : Prop := (rows.map key).Nodup

variable {key}

@[simp] theorem lookup_nil (k : κ) : lookup key k [] = none := rfl

theorem mem_of_lookup {k : κ} {rows : List ρ} {row : ρ} (h : lookup key k rows = some row) :
    row ∈ rows ∧ key row = k :=
  ⟨List.mem_of_find?_eq_some h, by simpa using List.find?_some h⟩

theorem lookup_eq_none {k : κ} {rows : List ρ} :
    lookup key k rows = none ↔ ∀ r ∈ rows, key r ≠ k := by
  simp [lookup]

theorem lookup_append (k : κ) (xs ys : List ρ) :
    lookup key k (xs ++ ys) = (lookup key k xs).or (lookup key k ys) := by
  simp [lookup, List.find?_append]

theorem lookup_filter_of_ne {k k' : κ} (h : k ≠ k') (rows : List ρ) :
    lookup key k (rows.filter fun r => key r ≠ k') = lookup key k rows := by
  induction rows with
  | nil => rfl
  | cons r rs ih =>
      simp only [lookup] at ih ⊢
      by_cases hr : key r = k'
      · have hrk : key r ≠ k := fun hk => h (hk.symm.trans hr)
        rw [List.filter_cons_of_neg (by simp [hr]), List.find?_cons_of_neg (by simp [hrk]), ih]
      · rw [List.filter_cons_of_pos (by simp [hr]), List.find?_cons, List.find?_cons, ih]

@[simp] theorem lookup_upsert_self (row : ρ) (rows : List ρ) :
    lookup key (key row) (upsert key row rows) = some row := by
  have hnone : lookup key (key row) (rows.filter fun r => key r ≠ key row) = none :=
    lookup_eq_none.mpr fun r hr => by simpa using List.of_mem_filter hr
  rw [upsert, lookup_append, hnone]
  simp [lookup]

theorem lookup_upsert_of_ne {k : κ} {row : ρ} (h : k ≠ key row) (rows : List ρ) :
    lookup key k (upsert key row rows) = lookup key k rows := by
  have hnone : lookup key k [row] = none := lookup_eq_none.mpr fun r hr => by
    rw [List.mem_singleton.mp hr]; exact Ne.symm h
  rw [upsert, lookup_append, lookup_filter_of_ne h, hnone, Option.or_none]

/-- Reading after `INSERT OR REPLACE`: the written row under its key, the old ones elsewhere. -/
theorem lookup_upsert (k : κ) (row : ρ) (rows : List ρ) :
    lookup key k (upsert key row rows) = if k = key row then some row else lookup key k rows := by
  by_cases h : k = key row
  · rw [if_pos h, h, lookup_upsert_self]
  · rw [if_neg h, lookup_upsert_of_ne h]

theorem mem_upsert {row r : ρ} {rows : List ρ} :
    r ∈ upsert key row rows ↔ (r ∈ rows ∧ key r ≠ key row) ∨ r = row := by
  simp [upsert]

theorem keyed_upsert {rows : List ρ} (h : Keyed key rows) (row : ρ) :
    Keyed key (upsert key row rows) := by
  unfold Keyed upsert
  rw [List.map_append, List.nodup_append]
  refine ⟨h.sublist (List.filter_sublist.map key), List.nodup_singleton _, ?_⟩
  intro k hk k' hk' heq
  obtain ⟨r, hr, rfl⟩ := List.mem_map.mp hk
  have hne : key r ≠ key row := by simpa using List.of_mem_filter hr
  exact hne (heq.trans (by simpa using hk'))

/-- In a keyed table, a row is what reading its key returns. -/
theorem lookup_of_mem {rows : List ρ} (h : Keyed key rows) {row : ρ} (hrow : row ∈ rows) :
    lookup key (key row) rows = some row := by
  induction rows with
  | nil => cases hrow
  | cons r rs ih =>
      have hnodup := List.nodup_cons.mp (show (key r :: rs.map key).Nodup from h)
      simp only [lookup]
      rcases List.mem_cons.mp hrow with rfl | hmem
      · simp
      · have hne : key r ≠ key row := fun heq =>
          hnodup.1 (heq ▸ List.mem_map_of_mem (f := key) hmem)
        rw [List.find?_cons_of_neg (by simpa using hne)]
        exact ih hnodup.2 hmem

/-! ### Rewriting the rows of a table -/

section Rewriting

variable {f : ρ → ρ} {rows₀ rows rows' rest : List ρ} {r : ρ}

/-- Every row is as it was, or rewritten by `f`. -/
structure Partly (key : ρ → κ) (f : ρ → ρ) (rows₀ rows : List ρ) : Prop where
  keyed : Keyed key rows
  read : ∀ k, lookup key k rows = lookup key k rows₀ ∨ lookup key k rows = (lookup key k rows₀).map f

/-- Every row is rewritten by `f`. -/
structure Mapped (key : ρ → κ) (f : ρ → ρ) (rows₀ rows : List ρ) : Prop where
  keyed : Keyed key rows
  read : ∀ k, lookup key k rows = (lookup key k rows₀).map f

/-- Every row is rewritten by `f`, but for those of `rest`, which are as they were. -/
structure Rewriting (key : ρ → κ) (f : ρ → ρ) (rows₀ rest rows : List ρ) : Prop where
  keyed : Keyed key rows
  read : ∀ k, lookup key k rows = (lookup key k rows₀).map f ∨
    lookup key k rows = lookup key k rows₀ ∧ ∃ r ∈ rest, key r = k

theorem Mapped.partly (h : Mapped key f rows₀ rows) : Partly key f rows₀ rows :=
  ⟨h.keyed, fun k => .inr (h.read k)⟩

theorem Rewriting.partly (h : Rewriting key f rows₀ rest rows) : Partly key f rows₀ rows :=
  ⟨h.keyed, fun k => (h.read k).symm.imp_left And.left⟩

theorem Rewriting.mapped (h : Rewriting key f rows₀ [] rows) : Mapped key f rows₀ rows := by
  refine ⟨h.keyed, fun k => ?_⟩
  rcases h.read k with hmapped | ⟨_, r, hr, _⟩
  · exact hmapped
  · exact absurd hr List.not_mem_nil

theorem Partly.refl (h : Keyed key rows) : Partly key f rows rows := ⟨h, fun _ => .inl rfl⟩

/-- Rewriting twice is rewriting once. -/
theorem Partly.trans (hf : ∀ r, f (f r) = f r) (h : Partly key f rows₀ rows) (h' : Partly key f rows rows') :
    Partly key f rows₀ rows' := by
  refine ⟨h'.keyed, fun k => ?_⟩
  rcases h'.read k with hsame | hmapped
  · rw [hsame]
    exact h.read k
  · right
    rw [hmapped]
    rcases h.read k with hsame | hmapped
    · rw [hsame]
    · rw [hmapped, Option.map_map]
      congr 1
      exact funext hf

theorem Partly.mapped_trans (hf : ∀ r, f (f r) = f r) (h : Partly key f rows₀ rows)
    (h' : Mapped key f rows rows') : Mapped key f rows₀ rows' := by
  refine ⟨h'.keyed, fun k => ?_⟩
  rw [h'.read]
  rcases h.read k with hsame | hmapped
  · rw [hsame]
  · rw [hmapped, Option.map_map]
    congr 1
    exact funext hf

theorem Rewriting.start (h : Keyed key rows) (hrest : ∀ r ∈ rows, f r = r ∨ r ∈ rest) :
    Rewriting key f rows rest rows := by
  refine ⟨h, fun k => ?_⟩
  cases hread : lookup key k rows with
  | none => exact .inl rfl
  | some r =>
      obtain ⟨hr, hk⟩ := mem_of_lookup hread
      rcases hrest r hr with hfixed | hmem
      · exact .inl (by rw [Option.map_some, hfixed])
      · exact .inr ⟨rfl, r, hmem, hk⟩

/-- A row of `rest` that `f` leaves alone is passed over. -/
theorem Rewriting.skip (h : Rewriting key f rows₀ (r :: rest) rows) (hr : lookup key (key r) rows₀ = some r)
    (hfixed : f r = r) : Rewriting key f rows₀ rest rows := by
  refine ⟨h.keyed, fun k => ?_⟩
  rcases h.read k with hmapped | ⟨hsame, r', hr', hk⟩
  · exact .inl hmapped
  · rcases List.mem_cons.mp hr' with rfl | hmem
    · left
      rw [hsame, ← hk, hr, Option.map_some, hfixed]
    · exact .inr ⟨hsame, r', hmem, hk⟩

/-- A row of `rest` is rewritten. -/
theorem Rewriting.write (h : Rewriting key f rows₀ (r :: rest) rows) (hr : lookup key (key r) rows₀ = some r)
    (hkey : key (f r) = key r) : Rewriting key f rows₀ rest (upsert key (f r) rows) := by
  refine ⟨keyed_upsert h.keyed (f r), fun k => ?_⟩
  rw [lookup_upsert, hkey]
  split
  · next heq =>
      left
      rw [heq, hr, Option.map_some]
  · next hne =>
      rcases h.read k with hmapped | ⟨hsame, r', hr', hk⟩
      · exact .inl hmapped
      · rcases List.mem_cons.mp hr' with rfl | hmem
        · exact absurd hk.symm hne
        · exact .inr ⟨hsame, r', hmem, hk⟩

/-- A table none of whose rows `f` changes reads as it did. -/
theorem Partly.unchanged (h : Partly key f rows₀ rows) (hfixed : ∀ r ∈ rows₀, f r = r) (k : κ) :
    lookup key k rows = lookup key k rows₀ := by
  rcases h.read k with hsame | hmapped
  · exact hsame
  · rw [hmapped]
    cases hread : lookup key k rows₀ with
    | none => rfl
    | some r => rw [Option.map_some, hfixed r (mem_of_lookup hread).1]

/-- A row of a rewritten table. -/
theorem Mapped.of_mem (h : Mapped key f rows₀ rows) (hr : r ∈ rows) : ∃ r₀ ∈ rows₀, r = f r₀ := by
  have hread := h.read (key r)
  rw [lookup_of_mem h.keyed hr] at hread
  obtain ⟨r₀, hr₀, heq⟩ := Option.map_eq_some_iff.mp hread.symm
  exact ⟨r₀, (mem_of_lookup hr₀).1, heq.symm⟩

theorem Partly.of_mem (h : Partly key f rows₀ rows) (hr : r ∈ rows) : ∃ r₀ ∈ rows₀, r = r₀ ∨ r = f r₀ := by
  have hread := lookup_of_mem h.keyed hr
  rcases h.read (key r) with hsame | hmapped
  · rw [hsame] at hread
    exact ⟨r, (mem_of_lookup hread).1, .inl rfl⟩
  · rw [hmapped] at hread
    obtain ⟨r₀, hr₀, heq⟩ := Option.map_eq_some_iff.mp hread
    exact ⟨r₀, (mem_of_lookup hr₀).1, .inr heq.symm⟩

end Rewriting

end Table
