import Mathlib.Data.List.Count
import Mathlib.Data.List.Forall2
import Mathlib.Data.List.Induction
import Mathlib.Data.List.Nodup
import Mathlib.Logic.Function.Iterate
import AtlasFlow.Graph.Search

/-!
# Ordering by repeated extraction

Items have a key and name the keys they depend on. `order` takes out, pass after pass, every item whose
dependencies are done, and gives up on a pass that finds none. It is exact
(`order_isSome_iff`): it succeeds if and only if every dependency is the key of an item and no chain
of dependencies is infinite. What it returns is the items in another order, each after all its
dependencies (`order_perm`, `order_inOrder`), wave after wave (`order_waves`): pass `k` takes out the items
whose longest chain has `k + 1` nodes (`mem_wave`).
-/

namespace Graph

variable {α κ : Type} [DecidableEq α] [DecidableEq κ] (key : α → κ) (deps : α → List κ)

/-- What has been taken out so far. -/
structure Extraction (α κ : Type) where
  remaining : List α
  ordered : List α := []
  done : List κ := []

omit [DecidableEq α] in
/-- The dependencies of an item are all done. -/
def isReady (done : List κ) (t : α) : Bool := (deps t).all (· ∈ done)

namespace Extraction

/-- The remaining items whose dependencies are all done. -/
def ready (s : Extraction α κ) : List α := s.remaining.filter (isReady deps s.done)

/-- Move one item over. -/
def take (s : Extraction α κ) (t : α) : Extraction α κ :=
  { remaining := s.remaining.erase t, ordered := s.ordered ++ [t], done := key t :: s.done }

/-- Move the ready items over, one by one. -/
def pass (s : Extraction α κ) : Extraction α κ := (s.ready deps).foldl (take key) s

omit [DecidableEq κ] in
theorem foldl_take (ts : List α) (s : Extraction α κ) :
    ts.foldl (take key) s =
      { remaining := s.remaining.diff ts
        ordered := s.ordered ++ ts
        done := (ts.map key).reverse ++ s.done } := by
  induction ts generalizing s with
  | nil => simp
  | cons t ts ih => rw [List.foldl_cons, ih]; simp [take, List.diff_cons]

omit [DecidableEq α] in
theorem ready_sublist (s : Extraction α κ) : (s.ready deps).Sublist s.remaining :=
  List.filter_sublist

/-- A pass moves the ready items over and leaves the others. -/
theorem perm_diff_ready (s : Extraction α κ) :
    (s.ready deps ++ s.remaining.diff (s.ready deps)).Perm s.remaining :=
  List.subperm_append_diff_self_of_count_le fun t _ => (s.ready_sublist deps).count_le t

/-- A pass that finds an item ready leaves fewer. -/
theorem length_pass_lt {s : Extraction α κ} (h : s.ready deps ≠ []) :
    (s.pass key deps).remaining.length < s.remaining.length := by
  have hlength := (s.perm_diff_ready deps).length_eq
  have hpos := List.length_pos_of_ne_nil h
  rw [List.length_append] at hlength
  rw [pass, foldl_take]
  show (s.remaining.diff (s.ready deps)).length < _
  omega

end Extraction

/-- Pass after pass until nothing remains; `none` when something remains and nothing is ready. -/
def orderFrom (s : Extraction α κ) : Option (List α) :=
  if s.remaining = [] then some s.ordered
  else if s.ready deps = [] then none
  else orderFrom (s.pass key deps)
termination_by s.remaining.length
decreasing_by exact Extraction.length_pass_lt key deps ‹_›

def order (items : List α) : Option (List α) := orderFrom key deps { remaining := items }

/-- Every item stands after all its dependencies. -/
def InOrder (items : List α) : Prop :=
  ∀ before t after, items = before ++ t :: after → ∀ d ∈ deps t, d ∈ before.map key

variable {key deps}

omit [DecidableEq α] [DecidableEq κ] in
theorem InOrder.nil : InOrder key deps [] := by
  intro before t after h
  simp at h

omit [DecidableEq α] [DecidableEq κ] in
/-- Items can be added whose dependencies are all there already. -/
theorem InOrder.append {items more : List α} (h : InOrder key deps items)
    (hmore : ∀ t ∈ more, ∀ d ∈ deps t, d ∈ items.map key) : InOrder key deps (items ++ more) := by
  intro before t after heq d hd
  rcases List.append_eq_append_iff.mp heq with ⟨mid, hbefore, hrest⟩ | ⟨mid, hitems, hrest⟩
  · have ht : t ∈ more := by rw [hrest]; simp
    rw [hbefore, List.map_append]
    exact List.mem_append_left _ (hmore t ht d hd)
  · cases mid with
    | nil =>
        have ht : t ∈ more := by rw [← List.nil_append more, ← hrest]; simp
        rw [List.append_nil] at hitems
        rw [← hitems]
        exact hmore t ht d hd
    | cons t' mid =>
        obtain ⟨rfl, rfl⟩ := List.cons.inj hrest
        exact h before t mid hitems d hd

omit [DecidableEq α] [DecidableEq κ] in
theorem InOrder.of_append {items more : List α} (h : InOrder key deps (items ++ more)) :
    InOrder key deps items := by
  intro before t after heq
  refine h before t (after ++ more) ?_
  rw [heq, List.append_assoc, List.cons_append]

namespace Extraction

/-- What every pass keeps: the items are those moved over and those remaining, the former in order and
done. -/
structure Keeps (key : α → κ) (deps : α → List κ) (items : List α) (s : Extraction α κ) : Prop where
  perm : (s.ordered ++ s.remaining).Perm items
  inOrder : InOrder key deps s.ordered
  done : ∀ k, k ∈ s.done ↔ k ∈ s.ordered.map key

omit [DecidableEq α] [DecidableEq κ] in
theorem Keeps.start (items : List α) : Keeps key deps items { remaining := items } :=
  ⟨.refl _, .nil, fun k => by simp⟩

omit [DecidableEq α] in
theorem mem_ready {s : Extraction α κ} {t : α} :
    t ∈ s.ready deps ↔ t ∈ s.remaining ∧ ∀ d ∈ deps t, d ∈ s.done := by
  simp [ready, isReady]

theorem Keeps.pass {items : List α} {s : Extraction α κ} (h : Keeps key deps items s) :
    Keeps key deps items (s.pass key deps) := by
  rw [Extraction.pass, foldl_take]
  refine ⟨?_, ?_, fun k => ?_⟩
  · show (s.ordered ++ s.ready deps ++ s.remaining.diff (s.ready deps)).Perm items
    rw [List.append_assoc]
    exact ((s.perm_diff_ready deps).append_left s.ordered).trans h.perm
  · exact h.inOrder.append fun t ht d hd => (h.done d).mp ((mem_ready.mp ht).2 d hd)
  · simp [h.done k, or_comm]

end Extraction

open Extraction

/-- What was ordered when nothing remained. -/
theorem orderFrom_keeps {items ordered : List α} {s : Extraction α κ} (h : Keeps key deps items s)
    (hrun : orderFrom key deps s = some ordered) :
    ordered.Perm items ∧ InOrder key deps ordered := by
  fun_induction orderFrom key deps s with
  | case1 s hnil =>
      cases hrun
      have hperm := h.perm
      rw [hnil, List.append_nil] at hperm
      exact ⟨hperm, h.inOrder⟩
  | case2 => cases hrun
  | case3 s _ _ ih => exact ih h.pass hrun

/-- **The items come back in another order**. -/
theorem order_perm {items ordered : List α} (h : order key deps items = some ordered) :
    ordered.Perm items :=
  (orderFrom_keeps (.start items) h).1

/-- **Each after all its dependencies**. -/
theorem order_inOrder {items ordered : List α} (h : order key deps items = some ordered) :
    InOrder key deps ordered :=
  (orderFrom_keeps (.start items) h).2

section Exact

variable {items : List α} {edges : κ → List κ} (hedges : ∀ t ∈ items, edges (key t) = deps t)
include hedges

omit [DecidableEq α] [DecidableEq κ] in
/-- Of items in order, none begins an infinite chain of dependencies. -/
theorem InOrder.acc {ordered : List α} (h : InOrder key deps ordered)
    (hmem : ∀ t ∈ ordered, t ∈ items) {k : κ} (hk : k ∈ ordered.map key) :
    Acc (fun d n => d ∈ edges n) k := by
  induction ordered using List.reverseRecOn generalizing k with
  | nil => simp at hk
  | append_singleton before t ih =>
      have hbefore : ∀ k, k ∈ before.map key → Acc (fun d n => d ∈ edges n) k := fun k hk =>
        
        ih h.of_append (fun t ht => hmem t (List.mem_append_left _ ht)) hk
      rw [List.map_append, List.mem_append] at hk
      rcases hk with hk | hk
      · exact hbefore k hk
      · obtain rfl : k = key t := by simpa using hk
        refine .intro _ fun d hd => hbefore d ?_
        rw [hedges t (hmem t (by simp))] at hd
        exact h before t [] rfl d hd

omit [DecidableEq α] in
/-- While something remains, something is ready: the remaining item that is below no other. -/
theorem Extraction.Keeps.ready_ne_nil {s : Extraction α κ} (h : Keeps key deps items s)
    (hclosed : ∀ t ∈ items, ∀ d ∈ deps t, d ∈ items.map key)
    (hacc : ∀ t ∈ items, Acc (fun d n => d ∈ edges n) (key t)) (hne : s.remaining ≠ []) :
    s.ready deps ≠ [] := by
  intro hready
  have hmem : ∀ t ∈ s.remaining, t ∈ items := fun t ht =>
    h.perm.mem_iff.mp (List.mem_append_right _ ht)
  -- no key of a remaining item is accessible: there is always another one below it
  have hnone : ∀ k, Acc (fun d n => d ∈ edges n) k → k ∉ s.remaining.map key := by
    intro k hk
    induction hk with
    | intro k _ ih =>
        intro hkey
        obtain ⟨t, ht, rfl⟩ := List.mem_map.mp hkey
        have hwaits : ¬ ∀ d ∈ deps t, d ∈ s.done := fun hall => by
          have hmem := mem_ready.mpr ⟨ht, hall⟩
          rw [hready] at hmem
          exact List.not_mem_nil hmem
        push Not at hwaits
        obtain ⟨d, hd, hundone⟩ := hwaits
        obtain ⟨u, hu, rfl⟩ := List.mem_map.mp (hclosed t (hmem t ht) d hd)
        refine ih (key u) (by rw [hedges t (hmem t ht)]; exact hd) (List.mem_map_of_mem ?_)
        rcases List.mem_append.mp (h.perm.mem_iff.mpr hu) with hordered | hremaining
        · exact absurd ((h.done _).mpr (List.mem_map_of_mem hordered)) hundone
        · exact hremaining
  obtain ⟨t, ht⟩ := List.exists_mem_of_ne_nil _ hne
  exact hnone (key t) (hacc t (hmem t ht)) (List.mem_map_of_mem ht)

theorem orderFrom_isSome {s : Extraction α κ} (h : Keeps key deps items s)
    (hclosed : ∀ t ∈ items, ∀ d ∈ deps t, d ∈ items.map key)
    (hacc : ∀ t ∈ items, Acc (fun d n => d ∈ edges n) (key t)) :
    ∃ ordered, orderFrom key deps s = some ordered := by
  fun_induction orderFrom key deps s with
  | case1 s => exact ⟨_, rfl⟩
  | case2 s hne hready => exact absurd hready (h.ready_ne_nil hedges hclosed hacc hne)
  | case3 s _ _ ih => exact ih h.pass

/-- **The ordering is exact**: it succeeds if and only if every dependency is an item and none of them
begins an infinite chain. -/
theorem order_isSome_iff :
    (∃ ordered, order key deps items = some ordered) ↔
      (∀ t ∈ items, ∀ d ∈ deps t, d ∈ items.map key) ∧
        ∀ t ∈ items, Acc (fun d n => d ∈ edges n) (key t) := by
  constructor
  · rintro ⟨ordered, hrun⟩
    have hperm := order_perm hrun
    have hinOrder := order_inOrder hrun
    refine ⟨fun t ht d hd => ?_, fun t ht => ?_⟩
    · obtain ⟨before, after, heq⟩ := List.append_of_mem (hperm.mem_iff.mpr ht)
      have hd' := hinOrder before t after heq d hd
      refine (hperm.map key).mem_iff.mp ?_
      rw [heq, List.map_append]
      exact List.mem_append_left _ hd'
    · exact hinOrder.acc hedges (fun t ht => hperm.mem_iff.mp ht)
        (List.mem_map_of_mem (hperm.mem_iff.mpr ht))
  · rintro ⟨hclosed, hacc⟩
    exact orderFrom_isSome hedges (.start items) hclosed hacc

end Exact

/-! ## Two descriptions of the same items -/

namespace Extraction

/-- From items that are all different, a pass takes those that are ready. -/
theorem remaining_pass {s : Extraction α κ} (h : s.remaining.Nodup) :
    (s.pass key deps).remaining = s.remaining.filter fun t => !isReady deps s.done t := by
  rw [pass, foldl_take]
  show s.remaining.diff (s.ready deps) = _
  rw [List.Nodup.sdiff_eq_filter h]
  refine List.filter_congr fun t ht => ?_
  simp [ready, ht]

theorem ordered_pass (s : Extraction α κ) :
    (s.pass key deps).ordered = s.ordered ++ s.ready deps := by
  rw [pass, foldl_take]

theorem done_pass (s : Extraction α κ) :
    (s.pass key deps).done = ((s.ready deps).map key).reverse ++ s.done := by
  rw [pass, foldl_take]

end Extraction

section Rel

open List

variable {β κ' : Type} [DecidableEq β] [DecidableEq κ'] {key' : β → κ'} {deps' : β → List κ'}
  {R : α → β → Prop} {f : κ → κ'} (hf : Function.Injective f)
  (hR : ∀ t u, R t u → key' u = f (key t) ∧ deps' u = (deps t).map f)
include hf hR

omit [DecidableEq α] [DecidableEq β] in
theorem isReady_rel {done : List κ} {done' : List κ'} (hdone : done' = done.map f) {t : α} {u : β}
    (h : R t u) : isReady deps' done' u = isReady deps done t := by
  simp only [isReady, hdone, (hR t u h).2, List.all_map, Function.comp_def,
    List.mem_map_of_injective hf]

omit [DecidableEq α] [DecidableEq β] in
/-- The ready ones, or those that are not (`p`), correspond again. -/
theorem filter_isReady_rel (p : Bool → Bool) {done : List κ} {done' : List κ'}
    (hdone : done' = done.map f) {ts : List α} {us : List β} (h : Forall₂ R ts us) :
    Forall₂ R (ts.filter fun t => p (isReady deps done t))
      (us.filter fun u => p (isReady deps' done' u)) := by
  refine rel_filter (fun t u htu => ?_) h
  show p (isReady deps done t) = true ↔ p (isReady deps' done' u) = true
  rw [isReady_rel hf hR hdone htu]

omit [DecidableEq α] [DecidableEq κ] [DecidableEq β] [DecidableEq κ'] hf in
theorem map_key_rel {ts : List α} {us : List β} (h : Forall₂ R ts us) :
    us.map key' = (ts.map key).map f := by
  induction h with
  | nil => rfl
  | cons htu _ ih => simp only [map_cons, ih, (hR _ _ htu).1]

/-- Items that correspond, with keys that correspond, are ordered alike. -/
theorem orderFrom_rel {s : Extraction α κ} {s' : Extraction β κ'}
    (hremaining : Forall₂ R s.remaining s'.remaining) (hnodup : s.remaining.Nodup)
    (hnodup' : s'.remaining.Nodup) (hordered : Forall₂ R s.ordered s'.ordered)
    (hdone : s'.done = s.done.map f) :
    Option.Rel (Forall₂ R) (orderFrom key deps s) (orderFrom key' deps' s') := by
  have hready : Forall₂ R (s.ready deps) (s'.ready deps') :=
    filter_isReady_rel hf hR id hdone hremaining
  fun_induction orderFrom key deps s generalizing s' with
  | case1 s hnil =>
      rw [hnil, forall₂_nil_left_iff] at hremaining
      rw [orderFrom, if_pos hremaining]
      exact .some hordered
  | case2 s hne hnone =>
      have hne' : s'.remaining ≠ [] := fun h => hne (by rwa [h, forall₂_nil_right_iff] at hremaining)
      rw [hnone, forall₂_nil_left_iff] at hready
      rw [orderFrom, if_neg hne', if_pos hready]
      exact .none
  | case3 s hne hsome ih =>
      have hne' : s'.remaining ≠ [] := fun h => hne (by rwa [h, forall₂_nil_right_iff] at hremaining)
      have hsome' : s'.ready deps' ≠ [] := fun h => hsome (by rwa [h, forall₂_nil_right_iff] at hready)
      rw [orderFrom.eq_def key' deps' s', if_neg hne', if_neg hsome']
      have hremaining' : Forall₂ R (s.pass key deps).remaining (s'.pass key' deps').remaining := by
        rw [Extraction.remaining_pass hnodup, Extraction.remaining_pass hnodup']
        exact filter_isReady_rel hf hR not hdone hremaining
      have hdone' : (s'.pass key' deps').done = (s.pass key deps).done.map f := by
        rw [Extraction.done_pass, Extraction.done_pass, map_key_rel hR hready, hdone, map_append,
          map_reverse]
      refine ih hremaining' ?_ ?_ ?_ hdone' ?_
      · rw [Extraction.remaining_pass hnodup]; exact hnodup.filter _
      · rw [Extraction.remaining_pass hnodup']; exact hnodup'.filter _
      · rw [Extraction.ordered_pass, Extraction.ordered_pass]
        exact rel_append hordered hready
      · exact filter_isReady_rel hf hR id hdone' hremaining'

/-- **Two orderings of the same graph agree**. -/
theorem order_rel {items : List α} {items' : List β} (h : Forall₂ R items items')
    (hnodup : items.Nodup) (hnodup' : items'.Nodup) :
    Option.Rel (Forall₂ R) (order key deps items) (order key' deps' items') :=
  orderFrom_rel hf hR h hnodup hnodup' .nil rfl

end Rel

/-! ## The passes as layers -/

section Waves

variable (key deps)

/-- What has been taken out before pass `k`. -/
def before (items : List α) (k : Nat) : Extraction α κ := (Extraction.pass key deps)^[k] { remaining := items }

/-- What pass `k` takes out. -/
def wave (items : List α) (k : Nat) : List α := (before key deps items k).ready deps

variable {key deps} {items : List α}

theorem before_succ (k : Nat) : before key deps items (k + 1) = (before key deps items k).pass key deps :=
  Function.iterate_succ_apply' ..

theorem orderFrom_waves {s : Extraction α κ} {ordered : List α} (h : orderFrom key deps s = some ordered) :
    ∃ n, ordered = s.ordered ++ (List.range n).flatMap fun k => ((Extraction.pass key deps)^[k] s).ready deps := by
  fun_induction orderFrom key deps s with
  | case1 s =>
      cases h
      exact ⟨0, by simp⟩
  | case2 => cases h
  | case3 s _ _ ih =>
      obtain ⟨n, hn⟩ := ih h
      refine ⟨n + 1, ?_⟩
      rw [hn, Extraction.ordered_pass, List.range_succ_eq_map, List.flatMap_cons, List.flatMap_map, List.append_assoc]
      rfl

/-- **The order is one wave after the other**. -/
theorem order_waves {ordered : List α} (h : order key deps items = some ordered) :
    ∃ n, ordered = (List.range n).flatMap (wave key deps items) := by
  obtain ⟨n, hn⟩ := orderFrom_waves h
  exact ⟨n, hn⟩

variable {edges : κ → List κ} (hedges : ∀ t ∈ items, edges (key t) = deps t)
  (hclosed : ∀ t ∈ items, ∀ d ∈ deps t, d ∈ items.map key) (hnodup : (items.map key).Nodup)
include hedges hclosed hnodup

/-- Before pass `k` the items remain that end a chain of `k + 1`, and the others are done. -/
theorem mem_before (k : Nat) :
    (∀ t, t ∈ (before key deps items k).remaining ↔ t ∈ items ∧ HasChain edges (k + 1) (key t)) ∧
      (∀ t ∈ items, key t ∈ (before key deps items k).done ↔ ¬ HasChain edges (k + 1) (key t)) ∧
      (before key deps items k).remaining.Nodup := by
  induction k with
  | zero =>
      refine ⟨fun t => (and_iff_left trivial).symm, fun t ht => ?_, hnodup.of_map key⟩
      exact ⟨fun h => absurd h List.not_mem_nil, fun h => absurd trivial h⟩
  | succ k ih =>
      obtain ⟨hremaining, hdone, hdistinct⟩ := ih
      -- an item waits if and only if a dependency ends a chain of as many
      have hwaits : ∀ t ∈ items, (∀ d ∈ deps t, d ∈ (before key deps items k).done) ↔
          ¬ HasChain edges (k + 2) (key t) := by
        intro t ht
        rw [HasChain.succ, hedges t ht]
        push Not
        refine forall_congr' fun d => forall_congr' fun hd => ?_
        obtain ⟨u, hu, rfl⟩ := List.mem_map.mp (hclosed t ht d hd)
        exact hdone u hu
      refine ⟨fun t => ?_, fun t ht => ?_, ?_⟩
      · rw [before_succ, Extraction.remaining_pass hdistinct, List.mem_filter, hremaining t]
        constructor
        · rintro ⟨⟨ht, _⟩, hready⟩
          refine ⟨ht, Classical.not_not.mp fun hchain => ?_⟩
          simp [isReady] at hready
          obtain ⟨d, hd, hundone⟩ := hready
          exact hundone ((hwaits t ht).mpr hchain d hd)
        · rintro ⟨ht, hchain⟩
          refine ⟨⟨ht, hchain.pred⟩, ?_⟩
          have hnot := mt (hwaits t ht).mp (not_not_intro hchain)
          simpa [isReady] using hnot
      · rw [before_succ, Extraction.done_pass, List.mem_append, List.mem_reverse, hdone t ht]
        constructor
        · rintro (hready | hchain)
          · obtain ⟨u, hu, hkey⟩ := List.mem_map.mp hready
            obtain ⟨hu, hall⟩ := Extraction.mem_ready.mp hu
            rw [← hkey]
            exact (hwaits u ((hremaining u).mp hu).1).mp hall
          · exact fun hmore => hchain hmore.pred
        · intro hchain
          by_cases hsome : HasChain edges (k + 1) (key t)
          · refine .inl (List.mem_map_of_mem (Extraction.mem_ready.mpr ⟨(hremaining t).mpr ⟨ht, hsome⟩, ?_⟩))
            exact (hwaits t ht).mpr hchain
          · exact .inr hsome
      · rw [before_succ, Extraction.remaining_pass hdistinct]
        exact hdistinct.filter _

/-- **A wave is a layer**: pass `k` takes out the items whose longest chain has `k + 1`. -/
theorem mem_wave (k : Nat) {t : α} : t ∈ wave key deps items k ↔ t ∈ items ∧ Layer edges (k + 1) (key t) := by
  obtain ⟨hremaining, _, hdistinct⟩ := mem_before hedges hclosed hnodup k
  have hnext := (mem_before hedges hclosed hnodup (k + 1)).1 t
  rw [before_succ, Extraction.remaining_pass hdistinct, List.mem_filter, hremaining t] at hnext
  rw [wave, Extraction.ready, List.mem_filter, hremaining t, Layer]
  constructor
  · rintro ⟨⟨ht, hchain⟩, hready⟩
    refine ⟨ht, hchain, fun hmore => ?_⟩
    have hunready := (hnext.mpr ⟨ht, hmore⟩).2
    rw [hready] at hunready
    cases hunready
  · rintro ⟨ht, hchain, hmore⟩
    refine ⟨⟨ht, hchain⟩, ?_⟩
    cases hready : isReady deps (before key deps items k).done t with
    | true => rfl
    | false => exact absurd (hnext.mp ⟨⟨ht, hchain⟩, by rw [hready]; rfl⟩).2 hmore

end Waves

end Graph
