import Mathlib.Algebra.Ring.Nat
import Mathlib.Data.List.Nodup
import Mathlib.Data.List.Pairwise

/-!
# Picking from a list

Two ways to go through a list and keep a part of it: one item for each key, the first one, and as many of the
first items as a limit on their weights allows.
-/

namespace Pick

variable {α κ π : Type}

/-! ## One item for each key -/

section Keys

variable [DecidableEq κ] (key : α → κ)

/-- Appends an item unless one with its key is there. -/
def add (items : List α) (x : α) : List α :=
  if ∀ item ∈ items, key item ≠ key x then items ++ [x] else items

/-- Appends the items of `xs`, one after another. -/
def addAll (items xs : List α) : List α := xs.foldl (add key) items

variable {key}

theorem add_of_mem {items : List α} {x : α} (h : key x ∈ items.map key) : add key items x = items := by
  obtain ⟨item, hitem, hkey⟩ := List.mem_map.mp h
  rw [add, if_neg]
  intro hfresh
  exact hfresh item hitem hkey

theorem add_of_not_mem {items : List α} {x : α} (h : key x ∉ items.map key) : add key items x = items ++ [x] := by
  rw [add, if_pos]
  intro item hitem hkey
  exact h (List.mem_map.mpr ⟨item, hitem, hkey⟩)

theorem addAll_append (items xs ys : List α) : addAll key items (xs ++ ys) = addAll key (addAll key items xs) ys :=
  List.foldl_append

/-- What is there stays. -/
theorem prefix_addAll (items xs : List α) : items <+: addAll key items xs := by
  induction xs generalizing items with
  | nil => exact List.prefix_rfl
  | cons x xs ih =>
      have hadd : items <+: add key items x := by
        by_cases h : key x ∈ items.map key
        · exact ⟨[], by rw [List.append_nil, add_of_mem h]⟩
        · rw [add_of_not_mem h]
          exact List.prefix_append _ _
      exact hadd.trans (ih _)

theorem nodup_addAll {items : List α} (h : (items.map key).Nodup) (xs : List α) :
    ((addAll key items xs).map key).Nodup := by
  induction xs generalizing items with
  | nil => exact h
  | cons x xs ih =>
      apply ih
      by_cases hx : key x ∈ items.map key
      · rwa [add_of_mem hx]
      · rw [add_of_not_mem hx, List.map_append]
        exact List.Nodup.append h (List.nodup_singleton _) (by simpa using hx)

theorem mem_of_mem_addAll {items xs : List α} {y : α} (h : y ∈ addAll key items xs) : y ∈ items ∨ y ∈ xs := by
  induction xs generalizing items with
  | nil => exact .inl h
  | cons x xs ih =>
      rcases ih h with hy | hy
      · by_cases hx : key x ∈ items.map key
        · rw [add_of_mem hx] at hy
          exact .inl hy
        · rw [add_of_not_mem hx] at hy
          grind
      · exact .inr (List.mem_cons_of_mem _ hy)

/-- Every key is there. -/
theorem exists_mem_addAll (items : List α) {xs : List α} {x : α} (h : x ∈ xs) :
    ∃ y ∈ addAll key items xs, key y = key x := by
  obtain ⟨before, after, rfl⟩ := List.append_of_mem h
  have hadd : key x ∈ (add key (addAll key items before) x).map key := by
    by_cases hx : key x ∈ (addAll key items before).map key
    · rwa [add_of_mem hx]
    · rw [add_of_not_mem hx]
      simp
  obtain ⟨y, hy, hkey⟩ := List.mem_map.mp hadd
  refine ⟨y, ?_, hkey⟩
  rw [addAll_append]
  exact (prefix_addAll (add key (addAll key items before) x) after).subset hy

theorem addAll_eq_append {items xs : List α} (h : ((items ++ xs).map key).Nodup) :
    addAll key items xs = items ++ xs := by
  induction xs generalizing items with
  | nil => exact (List.append_nil items).symm
  | cons x xs ih =>
      have hx : key x ∉ items.map key := by
        rw [List.map_append, List.map_cons] at h
        exact (List.nodup_middle.mp h |> List.nodup_cons.mp).1 ∘ List.mem_append_left _
      have hrest : addAll key items (x :: xs) = addAll key (items ++ [x]) xs := by
        rw [← add_of_not_mem hx]
        rfl
      rw [List.append_cons] at h ⊢
      rw [hrest, ih h]

/-- With one item for each key, no value of `f` is there twice iff it determines the key. -/
theorem nodup_filterMap_iff {items : List α} (h : (items.map key).Nodup) (f : α → Option π) :
    (items.filterMap f).Nodup ↔
      ∀ x ∈ items, ∀ y ∈ items, ∀ p, f x = some p → f y = some p → key x = key y := by
  rw [List.Nodup, List.pairwise_filterMap]
  constructor
  · intro hpair x hx y hy p hxp hyp
    by_contra hne
    have hsymm : Std.Symm fun a b : α => ∀ p, f a = some p → ∀ q, f b = some q → p ≠ q :=
      ⟨fun a b hab q hq p hp heq => hab p hp q hq heq.symm⟩
    have hxy : x ≠ y := by
      rintro rfl
      exact hne rfl
    exact hpair.forall hx hy hxy p hxp p hyp rfl
  · intro hkey
    have hne : items.Pairwise fun a b => key a ≠ key b := List.pairwise_map.mp h
    refine hne.imp_of_mem ?_
    intro a b ha hb hab p hp q hq heq
    subst heq
    exact hab (hkey a ha b hb p hp hq)

end Keys

/-! ## As many as fit -/

section Fill

variable (weight : α → Nat) (limit : Nat)

/-- The first items that fit over `total`, and what they come to with it. -/
def fill : Nat → List α → List α × Nat
  | total, [] => ([], total)
  | total, x :: xs =>
    if limit < total + weight x then ([], total)
    else
      let (items, total) := fill (total + weight x) xs
      (x :: items, total)

variable {weight limit}

theorem fill_of_lt {total : Nat} {x : α} (xs : List α) (h : limit < total + weight x) :
    fill weight limit total (x :: xs) = ([], total) := if_pos h

theorem fill_of_le {total : Nat} {x : α} (xs : List α) (h : total + weight x ≤ limit) :
    fill weight limit total (x :: xs) =
      (x :: (fill weight limit (total + weight x) xs).1, (fill weight limit (total + weight x) xs).2) :=
  if_neg (Nat.not_lt.mpr h)

theorem fill_total (total : Nat) (xs : List α) :
    (fill weight limit total xs).2 = total + ((fill weight limit total xs).1.map weight).sum := by
  induction xs generalizing total with
  | nil => rfl
  | cons x xs ih =>
      by_cases h : limit < total + weight x
      · rw [fill_of_lt xs h]
        rfl
      · rw [fill_of_le xs (by omega), List.map_cons, List.sum_cons, ih]
        omega

theorem fill_total_le {total : Nat} (h : total ≤ limit) (xs : List α) : (fill weight limit total xs).2 ≤ limit := by
  induction xs generalizing total with
  | nil => exact h
  | cons x xs ih =>
      by_cases hx : limit < total + weight x
      · rwa [fill_of_lt xs hx]
      · rw [fill_of_le xs (by omega)]
        exact ih (by omega)

theorem fill_prefix (total : Nat) (xs : List α) : (fill weight limit total xs).1 <+: xs := by
  induction xs generalizing total with
  | nil => exact List.prefix_rfl
  | cons x xs ih =>
      by_cases h : limit < total + weight x
      · rw [fill_of_lt xs h]
        exact List.nil_prefix
      · rw [fill_of_le xs (by omega)]
        exact (List.prefix_cons_inj x).mpr (ih _)

/-- `x` is in the list, and it fits with all that is before it. -/
def Fits (weight : α → Nat) (limit total : Nat) (xs : List α) (x : α) : Prop :=
  ∃ before after, xs = before ++ x :: after ∧ total + (before.map weight).sum + weight x ≤ limit

theorem mem_fill {total : Nat} {xs : List α} {x : α} :
    x ∈ (fill weight limit total xs).1 ↔ Fits weight limit total xs x := by
  induction xs generalizing total with
  | nil => simp [fill, Fits]
  | cons first xs ih =>
      constructor
      · intro hx
        by_cases h : limit < total + weight first
        · rw [fill_of_lt xs h] at hx
          cases hx
        · rw [fill_of_le xs (by omega)] at hx
          rcases List.mem_cons.mp hx with rfl | hx
          · exact ⟨[], xs, rfl, by simpa using h⟩
          · obtain ⟨before, after, heq, hfits⟩ := ih.mp hx
            refine ⟨first :: before, after, by rw [heq, List.cons_append], ?_⟩
            rw [List.map_cons, List.sum_cons]
            omega
      · rintro ⟨before, after, heq, hfits⟩
        cases before with
        | nil =>
            cases heq
            rw [fill_of_le xs (by simpa using hfits)]
            exact List.mem_cons_self
        | cons b before =>
            cases heq
            rw [List.map_cons, List.sum_cons] at hfits
            rw [fill_of_le _ (by omega)]
            exact List.mem_cons_of_mem _ (ih.mpr ⟨before, after, rfl, by omega⟩)

end Fill

end Pick
