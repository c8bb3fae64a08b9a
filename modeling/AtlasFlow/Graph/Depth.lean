import AtlasFlow.Data.Attempts
import AtlasFlow.Graph.Order

/-!
# Depths by memoised recursion

`depthOf` finds the depth of an item: zero without parents, one more than the greatest of theirs otherwise. It
remembers the depths it has found in a table that outlives it, and the items it has entered in a set that one
traversal shares; an item that was entered and is not in the table counts as zero. With more fuel than there are items
not entered yet it answers (`exists_depthOf`), and more fuel changes nothing (`depthOf_le`). Where no item is below
itself, what it answers is the length of the longest chain below (`depthOf_layer`): an item that is met again while it
is not in the table would be below itself.
-/

namespace Graph

variable {α κ : Type} [DecidableEq κ]

/-- The depths found, and the keys entered. -/
structure Depths (κ : Type) where
  depth : κ → Option Nat := fun _ => none
  seen : List κ := []

namespace Depths

/-- One after the other. -/
def each (resolve : α → Depths κ → Option (Nat × Depths κ)) : List α → Depths κ → Option (List Nat × Depths κ)
  | [], s => some ([], s)
  | a :: as, s =>
    match resolve a s with
    | none => none
    | some (value, s) =>
      match each resolve as s with
      | none => none
      | some (values, s) => some (value :: values, s)

/-- The depth of an item whose parents have these. -/
def above (values : List Nat) : Nat :=
  match values.max? with
  | none => 0
  | some value => value + 1

def enter (s : Depths κ) (k : κ) : Depths κ := { s with seen := k :: s.seen }

def found (s : Depths κ) (k : κ) (value : Nat) : Depths κ := { s with depth := Function.update s.depth k (some value) }

theorem found_depth (s : Depths κ) (k k' : κ) (value : Nat) :
    (s.found k value).depth k' = if k' = k then some value else s.depth k' := Function.update_apply ..

end Depths

open Depths

variable (key : α → κ) (parents : α → List α)

/-- The depth of an item; nothing when the fuel is out. -/
def depthOf : Nat → α → Depths κ → Option (Nat × Depths κ)
  | 0, _, _ => none
  | fuel + 1, a, s =>
    match s.depth (key a) with
    | some cached => some (cached, s)
    | none =>
      if key a ∈ s.seen then some (0, s)
      else
        match each (depthOf fuel) (parents a) (s.enter (key a)) with
        | none => none
        | some (values, s) => some (above values, s.found (key a) (above values))

variable {key parents}

/-- How a call can answer. -/
theorem depthOf_cases {fuel : Nat} {a : α} {s : Depths κ} {r : Nat × Depths κ}
    (h : depthOf key parents (fuel + 1) a s = some r) :
    (∃ cached, s.depth (key a) = some cached ∧ r = (cached, s)) ∨
      (s.depth (key a) = none ∧ key a ∈ s.seen ∧ r = (0, s)) ∨
      ∃ values s', s.depth (key a) = none ∧ key a ∉ s.seen ∧
        each (depthOf key parents fuel) (parents a) (s.enter (key a)) = some (values, s') ∧
        r = (above values, s'.found (key a) (above values)) := by
  unfold depthOf at h
  split at h
  · next cached hcached => exact .inl ⟨cached, hcached, (Option.some.inj h).symm⟩
  · next hnone =>
      split at h
      · next hseen => exact .inr (.inl ⟨hnone, hseen, (Option.some.inj h).symm⟩)
      · next hseen =>
          split at h
          · cases h
          · next values s' heach => exact .inr (.inr ⟨values, s', hnone, hseen, heach, (Option.some.inj h).symm⟩)

/-! ## Fuel -/

section Fuel

omit [DecidableEq κ] in
theorem each_imp {resolve resolve' : α → Depths κ → Option (Nat × Depths κ)} {as : List α}
    (h : ∀ a s r, resolve a s = some r → resolve' a s = some r) {s : Depths κ} {r : List Nat × Depths κ}
    (heach : each resolve as s = some r) : each resolve' as s = some r := by
  induction as generalizing s r with
  | nil => exact heach
  | cons a as ih =>
      unfold each at heach ⊢
      split at heach
      · cases heach
      · next value s₁ hresolve =>
          rw [h _ _ _ hresolve]
          dsimp only
          split at heach
          · cases heach
          · next values s₂ hrest =>
              rw [ih hrest]
              exact heach

theorem depthOf_succ {fuel : Nat} {a : α} {s : Depths κ} {r : Nat × Depths κ}
    (h : depthOf key parents fuel a s = some r) : depthOf key parents (fuel + 1) a s = some r := by
  induction fuel generalizing a s r with
  | zero => cases h
  | succ fuel ih =>
      unfold depthOf
      rcases depthOf_cases h with ⟨cached, hcached, rfl⟩ | ⟨hnone, hseen, rfl⟩ | ⟨values, s', hnone, hseen, heach, rfl⟩
      · rw [hcached]
      · rw [hnone]
        exact if_pos hseen
      · rw [hnone]
        dsimp only
        rw [if_neg hseen, each_imp (fun a s r => ih) heach]

/-- **More fuel changes nothing**. -/
theorem depthOf_le {fuel fuel' : Nat} (hle : fuel ≤ fuel') {a : α} {s : Depths κ} {r : Nat × Depths κ}
    (h : depthOf key parents fuel a s = some r) : depthOf key parents fuel' a s = some r := by
  induction hle with
  | refl => exact h
  | step _ ih => exact depthOf_succ ih

/-- The keys that are still to be entered; a traversal goes no deeper than they are many. -/
def unseenOf (keys : List κ) (s : Depths κ) : List κ := keys.filter (· ∉ s.seen)

theorem length_unseenOf_le {keys : List κ} {s s' : Depths κ} (h : s.seen ⊆ s'.seen) :
    (unseenOf keys s').length ≤ (unseenOf keys s).length := by
  refine (List.monotone_filter_right keys fun k hk => ?_).length_le
  have hk' : k ∉ s'.seen := of_decide_eq_true hk
  exact decide_eq_true fun hmem => hk' (h hmem)

theorem length_unseenOf_enter {keys : List κ} {s : Depths κ} {k : κ} (hk : k ∈ keys) (hseen : k ∉ s.seen) :
    (unseenOf keys (s.enter k)).length < (unseenOf keys s).length := by
  have hsub : (unseenOf keys (s.enter k)).Sublist (unseenOf keys s) := by
    refine List.monotone_filter_right keys fun k' hk' => ?_
    have hk' : k' ∉ (s.enter k).seen := of_decide_eq_true hk'
    exact decide_eq_true fun hmem => hk' (List.mem_cons_of_mem k hmem)
  refine Nat.lt_of_le_of_ne hsub.length_le fun hlength => ?_
  have hmem : k ∈ unseenOf keys s := List.mem_filter.mpr ⟨hk, decide_eq_true hseen⟩
  rw [← hsub.eq_of_length hlength] at hmem
  exact of_decide_eq_true (List.mem_filter.mp hmem).2 List.mem_cons_self

omit [DecidableEq κ] in
/-- Calls that answer, and forget no key entered, answer one after the other. -/
theorem exists_each {resolve : α → Depths κ → Option (Nat × Depths κ)} {as : List α} {s₀ : Depths κ}
    (h : ∀ a ∈ as, ∀ s, s₀.seen ⊆ s.seen → ∃ value s', resolve a s = some (value, s') ∧ s.seen ⊆ s'.seen)
    {s : Depths κ} (hs : s₀.seen ⊆ s.seen) :
    ∃ values s', each resolve as s = some (values, s') ∧ s.seen ⊆ s'.seen := by
  induction as generalizing s with
  | nil => exact ⟨[], s, rfl, fun _ hk => hk⟩
  | cons a as ih =>
      obtain ⟨value, s₁, hresolve, hs₁⟩ := h a List.mem_cons_self s hs
      obtain ⟨values, s₂, hrest, hs₂⟩ :=
        ih (fun b hb => h b (List.mem_cons_of_mem a hb)) (List.Subset.trans hs hs₁)
      refine ⟨value :: values, s₂, ?_, List.Subset.trans hs₁ hs₂⟩
      unfold each
      rw [hresolve]
      dsimp only
      rw [hrest]

/-- **It answers**, cycles or not. -/
theorem exists_depthOf {items : List α} (hclosed : ∀ a ∈ items, ∀ b ∈ parents a, b ∈ items) {fuel : Nat} {a : α}
    (ha : a ∈ items) {s : Depths κ} (hfuel : (unseenOf (items.map key) s).length < fuel) :
    ∃ value s', depthOf key parents fuel a s = some (value, s') ∧ s.seen ⊆ s'.seen := by
  induction fuel generalizing a s with
  | zero => exact absurd hfuel (Nat.not_lt_zero _)
  | succ fuel ih =>
      unfold depthOf
      split
      · next cached hcached => exact ⟨cached, s, rfl, fun _ hk => hk⟩
      · next hnone =>
          split
          · next hseen => exact ⟨0, s, rfl, fun _ hk => hk⟩
          · next hseen =>
              have henter : (unseenOf (items.map key) (s.enter (key a))).length < fuel := by
                have hlt := length_unseenOf_enter (List.mem_map_of_mem ha) hseen
                omega
              have hparents : ∀ b ∈ parents a, ∀ s₁ : Depths κ, (s.enter (key a)).seen ⊆ s₁.seen →
                  ∃ value s₂, depthOf key parents fuel b s₁ = some (value, s₂) ∧ s₁.seen ⊆ s₂.seen := fun b hb s₁ hs₁ =>
                ih (hclosed a ha b hb) (Nat.lt_of_le_of_lt (length_unseenOf_le hs₁) henter)
              obtain ⟨values, s', heach, hs'⟩ := exists_each hparents (List.Subset.refl _)
              rw [heach]
              exact ⟨_, _, rfl, fun k hk => hs' (List.mem_cons_of_mem _ hk)⟩

end Fuel

/-! ## What it answers -/

section Layers

open Relation

variable {edges : κ → List κ}

omit [DecidableEq κ] in
theorem layer_above {k : κ} {values : List Nat}
    (h : List.Forall₂ (fun d value => Layer edges (value + 1) d) (edges k) values) :
    Layer edges (above values + 1) k := by
  unfold above
  split
  · next hnone =>
      rw [List.max?_eq_none_iff.mp hnone, List.forall₂_nil_right_iff] at h
      refine ⟨trivial, ?_⟩
      rintro ⟨d, hd, _⟩
      rw [h] at hd
      exact List.not_mem_nil hd
  · next value hsome =>
      obtain ⟨hmem, hmax⟩ := List.max?_eq_some_iff.mp hsome
      obtain ⟨d, hd, hlayer⟩ := Attempts.exists_of_forall₂ h.flip hmem
      refine ⟨⟨d, hd, hlayer.1⟩, ?_⟩
      rintro ⟨d', hd', hchain⟩
      obtain ⟨value', hvalue', hlayer'⟩ := Attempts.exists_of_forall₂ h hd'
      refine hlayer'.2 (hchain.mono ?_)
      have hle := hmax value' hvalue'
      omega

/-- What a traversal does to the table: what is in it stays there and is right, and no key is left entered and
without a depth that was not before. -/
structure Resolved (edges : κ → List κ) (s s' : Depths κ) : Prop where
  right : ∀ k value, s'.depth k = some value → Layer edges (value + 1) k
  kept : ∀ k, s.depth k ≠ none → s'.depth k ≠ none
  left : ∀ k ∈ s'.seen, s'.depth k = none → k ∈ s.seen ∧ s.depth k = none

omit [DecidableEq κ] in
theorem Resolved.refl {s : Depths κ} (h : ∀ k value, s.depth k = some value → Layer edges (value + 1) k) :
    Resolved edges s s :=
  ⟨h, fun _ hk => hk, fun _ hk hnone => ⟨hk, hnone⟩⟩

omit [DecidableEq κ] in
theorem Resolved.trans {s₁ s₂ s₃ : Depths κ} (h₁ : Resolved edges s₁ s₂) (h₂ : Resolved edges s₂ s₃) :
    Resolved edges s₁ s₃ := by
  refine ⟨h₂.right, fun k hk => h₂.kept k (h₁.kept k hk), fun k hk hnone => ?_⟩
  obtain ⟨hk₂, hnone₂⟩ := h₂.left k hk hnone
  exact h₁.left k hk₂ hnone₂

omit [DecidableEq κ] in
theorem each_layers {resolve : α → Depths κ → Option (Nat × Depths κ)} {as : List α} {s₀ : Depths κ}
    (h : ∀ a ∈ as, ∀ s value s', Resolved edges s₀ s → resolve a s = some (value, s') →
      Resolved edges s s' ∧ Layer edges (value + 1) (key a))
    {s s' : Depths κ} {values : List Nat} (hs : Resolved edges s₀ s) (heach : each resolve as s = some (values, s')) :
    Resolved edges s₀ s' ∧ List.Forall₂ (fun d value => Layer edges (value + 1) d) (as.map key) values := by
  induction as generalizing s values with
  | nil =>
      cases heach
      exact ⟨hs, .nil⟩
  | cons a as ih =>
      unfold each at heach
      split at heach
      · cases heach
      · next value s₁ hresolve =>
          obtain ⟨hs₁, hlayer⟩ := h a List.mem_cons_self s value s₁ hs hresolve
          split at heach
          · cases heach
          · next values s₂ hrest =>
              cases heach
              obtain ⟨hs₂, hlayers⟩ := ih (fun b hb => h b (List.mem_cons_of_mem a hb)) (hs.trans hs₁) hrest
              exact ⟨hs₂, .cons hlayer hlayers⟩

/-- **The longest chain below**: in a graph without cycles, from a table that is right and has a depth for every key
entered at or below the item. -/
theorem depthOf_layer {items : List α} (hclosed : ∀ a ∈ items, ∀ b ∈ parents a, b ∈ items)
    (hedges : ∀ a ∈ items, edges (key a) = (parents a).map key)
    (hacyclic : ∀ k, ¬ TransGen (fun d n => d ∈ edges n) k k) {fuel : Nat} {a : α} (ha : a ∈ items) {s s' : Depths κ}
    {value : Nat} (hright : ∀ k value, s.depth k = some value → Layer edges (value + 1) k)
    (hopen : ∀ k ∈ s.seen, ReflTransGen (fun d n => d ∈ edges n) k (key a) → s.depth k ≠ none)
    (h : depthOf key parents fuel a s = some (value, s')) :
    Resolved edges s s' ∧ s'.depth (key a) ≠ none ∧ Layer edges (value + 1) (key a) := by
  induction fuel generalizing a s s' value with
  | zero => cases h
  | succ fuel ih =>
      rcases depthOf_cases h with ⟨cached, hcached, hr⟩ | ⟨hnone, hseen, hr⟩ | ⟨values, s₂, hnone, hseen, heach, hr⟩
      · cases hr
        exact ⟨.refl hright, by rw [hcached]; simp, hright _ _ hcached⟩
      · exact absurd hnone (hopen _ hseen .refl)
      · cases hr
        have hbelow : ∀ b ∈ parents a, key b ∈ edges (key a) := fun b hb => by
          rw [hedges a ha]
          exact List.mem_map_of_mem hb
        have hparents : ∀ b ∈ parents a, ∀ s₁ value s₂, Resolved edges (s.enter (key a)) s₁ →
            depthOf key parents fuel b s₁ = some (value, s₂) →
            Resolved edges s₁ s₂ ∧ Layer edges (value + 1) (key b) := by
          intro b hb s₁ value s₂ hs₁ hresolve
          refine (ih (hclosed a ha b hb) hs₁.right (fun k hk hreach hnone₁ => ?_) hresolve).imp_right And.right
          -- a key at or below the parent that is without a depth was entered before the item, or is the item
          obtain ⟨hk, hnone'⟩ := hs₁.left k hk hnone₁
          rcases List.mem_cons.mp hk with rfl | hk
          · exact hacyclic _ (TransGen.tail' hreach (hbelow b hb))
          · exact hopen k hk (hreach.tail (hbelow b hb)) hnone'
        obtain ⟨hs₂, hlayers⟩ := each_layers hparents (Resolved.refl hright) heach
        have hlayer : Layer edges (above values + 1) (key a) := layer_above (by rw [hedges a ha]; exact hlayers)
        refine ⟨⟨fun k value hk => ?_, fun k hk => ?_, fun k hk hk' => ?_⟩, ?_, hlayer⟩
        · rw [found_depth] at hk
          split at hk
          · next heq =>
              cases hk
              rw [heq]
              exact hlayer
          · exact hs₂.right k value hk
        · rw [found_depth]
          split
          · simp
          · exact hs₂.kept k hk
        · rw [found_depth] at hk'
          split at hk'
          · cases hk'
          · next hne =>
              obtain ⟨hk₁, hnone₁⟩ := hs₂.left k hk hk'
              exact ⟨(List.mem_cons.mp hk₁).resolve_left hne, hnone₁⟩
        · rw [found_depth, if_pos rfl]
          simp

end Layers

end Graph
