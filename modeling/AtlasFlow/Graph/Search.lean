import Mathlib.Data.List.Basic
import Mathlib.Logic.Function.Basic
import Mathlib.Logic.Relation

/-!
# Cycle search and chains in a finite graph

`edges n` are the nodes `n` points to. `visit` is the depth-first search with three marks that looks
for a cycle, the dictionary of marks passed along; nodes that are not in the dictionary are not part
of the graph and are skipped. Its recursion is bounded by a depth that a caller takes to be the number
of nodes; out of depth it answers `true`, so a `false` means what it says (`visit_progress`): the node
is accessible, and no cycle can be reached from it. With a depth of at least the number of nodes a
`true` means what it says too, so the search is exact (`findFrom_eq_none_iff`).

`HasChain edges k n` says that a chain of `k` nodes ends in `n`. In an acyclic graph, layer `k` is the
set of nodes whose longest chain has `k` nodes, and layers are filled one after the other
(`exists_layer`).
-/

namespace Graph

variable {α : Type}

/-! ## Searching for a cycle -/

inductive Mark | unvisited | inProgress | done
  deriving DecidableEq, Repr

/-- The dictionary of marks; `none` is a key that is not there. -/
abbrev Marks (α : Type) := α → Option Mark

/-- Visit each edge in turn, stopping at the first that closes a cycle. -/
def visitAll (visit : α → Marks α → Bool × Marks α) : List α → Marks α → Bool × Marks α
  | [], marks => (false, marks)
  | next :: rest, marks =>
    match marks next with
    | none => visitAll visit rest marks
    | some .inProgress => (true, marks)
    | some .done => visitAll visit rest marks
    | some .unvisited =>
      match visit next marks with
      | (true, marks) => (true, marks)
      | (false, marks) => visitAll visit rest marks

/-- Whether a cycle can be reached from `node`. -/
def visit [DecidableEq α] (edges : α → List α) : Nat → α → Marks α → Bool × Marks α
  | 0, _, marks => (true, marks)
  | depth + 1, node, marks =>
    match visitAll (visit edges depth) (edges node)
        (Function.update marks node (some .inProgress)) with
    | (true, marks) => (true, marks)
    | (false, marks) => (false, Function.update marks node (some .done))

/-- `d` is a node of the graph that `n` points to. -/
def Below (edges : α → List α) (known : α → Prop) (d n : α) : Prop := d ∈ edges n ∧ known d

/-- Every node marked done is accessible, the dictionary has the keys it should have. -/
structure Searched (edges : α → List α) (known : α → Prop) (marks : Marks α) : Prop where
  keys : ∀ n, marks n ≠ none ↔ known n
  acc : ∀ n, marks n = some .done → Acc (Below edges known) n

/-- Before a search every node is unvisited. -/
theorem Searched.fresh {edges : α → List α} {known : α → Prop} [DecidablePred known]
    {marks : Marks α} (h : ∀ n, marks n = if known n then some .unvisited else none) :
    Searched edges known marks := by
  constructor
  case keys =>
    intro n
    rw [h]
    split <;> simp_all
  case acc =>
    intro n hn
    rw [h] at hn
    split at hn <;> simp at hn

theorem fresh_ne_inProgress {known : α → Prop} [DecidablePred known] {marks : Marks α}
    (h : ∀ n, marks n = if known n then some .unvisited else none) (n : α) :
    marks n ≠ some .inProgress := by
  rw [h]
  split <;> simp

/-- What a search that found no cycle did: it kept every done mark and the invariant, and left
nothing in progress that was not before. -/
structure Progress (edges : α → List α) (known : α → Prop) (marks marks' : Marks α) : Prop where
  searched : Searched edges known marks'
  kept : ∀ n, marks n = some .done → marks' n = some .done
  left : ∀ n, marks' n = some .inProgress → marks n = some .inProgress

theorem Progress.refl {edges : α → List α} {known : α → Prop} {marks : Marks α}
    (h : Searched edges known marks) : Progress edges known marks marks :=
  ⟨h, fun _ hn => hn, fun _ hn => hn⟩

theorem Progress.trans {edges : α → List α} {known : α → Prop} {m₁ m₂ m₃ : Marks α}
    (h₁ : Progress edges known m₁ m₂) (h₂ : Progress edges known m₂ m₃) :
    Progress edges known m₁ m₃ :=
  ⟨h₂.searched, fun n hn => h₂.kept n (h₁.kept n hn), fun n hn => h₁.left n (h₂.left n hn)⟩

theorem visitAll_sound {edges : α → List α} {known : α → Prop}
    {visit : α → Marks α → Bool × Marks α}
    (hvisit : ∀ n marks marks', Searched edges known marks → marks n = some .unvisited →
      visit n marks = (false, marks') →
      Progress edges known marks marks' ∧ marks' n = some .done)
    {nexts : List α} {marks marks' : Marks α} (h : Searched edges known marks)
    (hrun : visitAll visit nexts marks = (false, marks')) :
    Progress edges known marks marks' ∧
      ∀ n ∈ nexts, known n → marks' n = some .done := by
  induction nexts generalizing marks with
  | nil =>
      simp only [visitAll, Prod.mk.injEq, true_and] at hrun
      subst hrun
      exact ⟨.refl h, fun n hn => absurd hn List.not_mem_nil⟩
  | cons next rest ih =>
      rw [visitAll] at hrun
      split at hrun
      · next hnone =>
          obtain ⟨hprog, hdone⟩ := ih h hrun
          refine ⟨hprog, fun n hn hknown => ?_⟩
          rcases List.mem_cons.mp hn with rfl | hmem
          · exact absurd hnone ((h.keys n).mpr hknown)
          · exact hdone n hmem hknown
      · simp at hrun
      · next hmark =>
          obtain ⟨hprog, hdone⟩ := ih h hrun
          refine ⟨hprog, fun n hn hknown => ?_⟩
          rcases List.mem_cons.mp hn with rfl | hmem
          · exact hprog.kept n hmark
          · exact hdone n hmem hknown
      · next hmark =>
          split at hrun
          · simp at hrun
          · next marks₁ hrun₁ =>
              obtain ⟨hprog₁, hnext⟩ := hvisit next marks marks₁ h hmark hrun₁
              obtain ⟨hprog, hdone⟩ := ih hprog₁.searched hrun
              refine ⟨hprog₁.trans hprog, ?_⟩
              intro n hn hknown
              rcases List.mem_cons.mp hn with rfl | hmem
              · exact hprog.kept n hnext
              · exact hdone n hmem hknown

variable [DecidableEq α]

/-- Marking a node that is in progress keeps the invariant. -/
theorem Searched.start {edges : α → List α} {known : α → Prop} {marks : Marks α} {node : α}
    (h : Searched edges known marks) (hknown : known node) :
    Searched edges known (Function.update marks node (some .inProgress)) := by
  constructor
  case keys =>
    intro n
    by_cases hn : n = node
    · subst hn; simp [hknown]
    · rw [Function.update_of_ne hn, h.keys]
  case acc =>
    intro n hdone
    by_cases hn : n = node
    · subst hn; simp at hdone
    · rw [Function.update_of_ne hn] at hdone
      exact h.acc n hdone

/-- A node all of whose edges are done is accessible, and can be marked done. -/
theorem Searched.finish {edges : α → List α} {known : α → Prop} {marks : Marks α} {node : α}
    (h : Searched edges known marks) (hknown : known node)
    (hedges : ∀ n ∈ edges node, known n → marks n = some .done) :
    Searched edges known (Function.update marks node (some .done)) := by
  have hacc : Acc (Below edges known) node :=
    .intro node fun d hd => h.acc d (hedges d hd.1 hd.2)
  constructor
  case keys =>
    intro n
    by_cases hn : n = node
    · subst hn; simp [hknown]
    · rw [Function.update_of_ne hn, h.keys]
  case acc =>
    intro n hdone
    by_cases hn : n = node
    · subst hn; exact hacc
    · rw [Function.update_of_ne hn] at hdone
      exact h.acc n hdone

/-- What a visit of an unvisited node that found no cycle did: the node is done. -/
theorem visit_progress {edges : α → List α} {known : α → Prop} {depth : Nat} {node : α}
    {marks marks' : Marks α} (h : Searched edges known marks)
    (hmark : marks node = some .unvisited)
    (hrun : visit edges depth node marks = (false, marks')) :
    Progress edges known marks marks' ∧ marks' node = some .done := by
  induction depth generalizing node marks marks' with
  | zero => simp [visit] at hrun
  | succ depth ih =>
      have hknown : known node := (h.keys node).mp (by rw [hmark]; simp)
      rw [visit] at hrun
      split at hrun
      · simp at hrun
      · next marks₁ hall =>
          simp only [Prod.mk.injEq, true_and] at hrun
          subst hrun
          obtain ⟨hprog, hdone⟩ := visitAll_sound
            (fun n m m' hm hun hvisit => ih hm hun hvisit) (h.start hknown) hall
          refine ⟨⟨hprog.searched.finish hknown hdone, fun n hn => ?_, fun n hn => ?_⟩,
            Function.update_self ..⟩
          · by_cases hnode : n = node
            · subst hnode; exact Function.update_self ..
            · rw [Function.update_of_ne hnode]
              refine hprog.kept n ?_
              rw [Function.update_of_ne hnode]
              exact hn
          · by_cases hnode : n = node
            · subst hnode; simp at hn
            · rw [Function.update_of_ne hnode] at hn
              have hleft := hprog.left n hn
              rwa [Function.update_of_ne hnode] at hleft

/-! ### The search is exact -/

omit [DecidableEq α] in
/-- A visit leaves no node unvisited that was not. -/
theorem visitAll_unvisited {visit : α → Marks α → Bool × Marks α}
    (hvisit : ∀ n marks m, (visit n marks).2 m = some .unvisited → marks m = some .unvisited)
    {nexts : List α} {marks : Marks α} {m : α}
    (h : (visitAll visit nexts marks).2 m = some .unvisited) : marks m = some .unvisited := by
  induction nexts generalizing marks with
  | nil => exact h
  | cons next rest ih =>
      rw [visitAll] at h
      split at h
      · exact ih h
      · exact h
      · exact ih h
      · have hnext := hvisit next marks m
        split at h
        · next marks₁ hrun =>
            rw [hrun] at hnext
            exact hnext h
        · next marks₁ hrun =>
            rw [hrun] at hnext
            exact hnext (ih h)

theorem visit_unvisited {edges : α → List α} {depth : Nat} {node : α} {marks : Marks α} {m : α}
    (h : (visit edges depth node marks).2 m = some .unvisited) : marks m = some .unvisited := by
  induction depth generalizing node marks m with
  | zero => exact h
  | succ depth ih =>
      have hall : ∀ marks₁, visitAll (visit edges depth) (edges node)
          (Function.update marks node (some .inProgress)) = marks₁ →
          marks₁.2 m = some .unvisited → marks m = some .unvisited := by
        rintro _ rfl hm
        have hstart := visitAll_unvisited (fun n marks m => ih) hm
        by_cases hnode : m = node
        · subst hnode; simp at hstart
        · rwa [Function.update_of_ne hnode] at hstart
      rw [visit] at h
      split at h
      · next marks₁ hrun => exact hall _ hrun h
      · next marks₁ hrun =>
          refine hall _ hrun (show marks₁ m = some .unvisited from ?_)
          change Function.update marks₁ node (some .done) m = some .unvisited at h
          by_cases hnode : m = node
          · subst hnode; simp at h
          · rwa [Function.update_of_ne hnode] at h

/-- The nodes that are still unvisited; a search below them goes no deeper than they are many. -/
def unvisitedOf (nodes : List α) (marks : Marks α) : List α :=
  nodes.filter fun n => marks n = some .unvisited

omit [DecidableEq α] in
theorem mem_unvisitedOf {nodes : List α} {marks : Marks α} {n : α} :
    n ∈ unvisitedOf nodes marks ↔ n ∈ nodes ∧ marks n = some .unvisited := by
  simp [unvisitedOf]

omit [DecidableEq α] in
/-- Fewer nodes unvisited, fewer levels to go. -/
theorem length_unvisitedOf_le {nodes : List α} {marks marks' : Marks α}
    (h : ∀ n, marks' n = some .unvisited → marks n = some .unvisited) :
    (unvisitedOf nodes marks').length ≤ (unvisitedOf nodes marks).length := by
  refine (List.monotone_filter_right nodes fun n hn => ?_).length_le
  exact decide_eq_true (h n (of_decide_eq_true hn))

/-- Marking an unvisited node leaves one node fewer. -/
theorem length_unvisitedOf_update {nodes : List α} {marks : Marks α} {node : α} {mark : Mark}
    (hmem : node ∈ nodes) (hmark : marks node = some .unvisited) (hne : mark ≠ .unvisited) :
    (unvisitedOf nodes (Function.update marks node (some mark))).length <
      (unvisitedOf nodes marks).length := by
  have hsub : (unvisitedOf nodes (Function.update marks node (some mark))).Sublist
      (unvisitedOf nodes marks) := by
    refine List.monotone_filter_right nodes fun n hn => ?_
    by_cases hnode : n = node
    · subst hnode; simp [hne] at hn
    · rwa [Function.update_of_ne hnode] at hn
  refine Nat.lt_of_le_of_ne hsub.length_le fun hlength => ?_
  have hnode : node ∈ unvisitedOf nodes marks := mem_unvisitedOf.mpr ⟨hmem, hmark⟩
  rw [← hsub.eq_of_length hlength, mem_unvisitedOf, Function.update_self] at hnode
  exact hne (Option.some.inj hnode.2)

omit [DecidableEq α] in
open Relation in
/-- In a graph without cycles no edge of `node` closes one, when only `node` and nodes above it are
in progress. -/
theorem visitAll_complete {edges : α → List α} {known : α → Prop} {nodes : List α}
    (hacyclic : ∀ n, ¬ TransGen (Below edges known) n n)
    {visit : α → Marks α → Bool × Marks α} {limit : Nat}
    (hvisit : ∀ n marks, Searched edges known marks → marks n = some .unvisited →
      (∀ p, marks p = some .inProgress → TransGen (Below edges known) n p) →
      (unvisitedOf nodes marks).length ≤ limit →
      ∃ marks', visit n marks = (false, marks') ∧ Progress edges known marks marks' ∧
        ∀ m, marks' m = some .unvisited → marks m = some .unvisited)
    {node : α} {nexts : List α} (hnexts : ∀ n ∈ nexts, n ∈ edges node) {marks : Marks α}
    (h : Searched edges known marks)
    (habove : ∀ p, marks p = some .inProgress → ReflTransGen (Below edges known) node p)
    (hlimit : (unvisitedOf nodes marks).length ≤ limit) :
    (visitAll visit nexts marks).1 = false := by
  induction nexts generalizing marks with
  | nil => rfl
  | cons next rest ih =>
      have hrest : ∀ n ∈ rest, n ∈ edges node := fun n hn => hnexts n (List.mem_cons_of_mem next hn)
      have hbelow : ∀ mark, marks next = some mark → Below edges known next node := fun mark hmark =>
        ⟨hnexts next List.mem_cons_self, (h.keys next).mp (by rw [hmark]; simp)⟩
      rw [visitAll]
      split
      · exact ih hrest h habove hlimit
      · next hmark =>
          exact absurd (.head' (hbelow _ hmark) (habove next hmark)) (hacyclic next)
      · exact ih hrest h habove hlimit
      · next hmark =>
          obtain ⟨marks₁, hrun, hprog, hshrink⟩ := hvisit next marks h hmark
            (fun p hp => .head' (hbelow _ hmark) (habove p hp)) hlimit
          rw [hrun]
          exact ih hrest hprog.searched (fun p hp => habove p (hprog.left p hp))
            (Nat.le_trans (length_unvisitedOf_le hshrink) hlimit)

open Relation in
/-- **No false alarm**: in a graph without cycles a visit finds none. -/
theorem visit_complete {edges : α → List α} {known : α → Prop} {nodes : List α}
    (hacyclic : ∀ n, ¬ TransGen (Below edges known) n n) (hnodes : ∀ n, known n → n ∈ nodes)
    {depth : Nat} {node : α} {marks : Marks α} (h : Searched edges known marks)
    (hmark : marks node = some .unvisited)
    (habove : ∀ p, marks p = some .inProgress → TransGen (Below edges known) node p)
    (hdepth : (unvisitedOf nodes marks).length ≤ depth) :
    (visit edges depth node marks).1 = false := by
  induction depth generalizing node marks with
  | zero =>
      have hmem : node ∈ unvisitedOf nodes marks :=
        mem_unvisitedOf.mpr ⟨hnodes node ((h.keys node).mp (by rw [hmark]; simp)), hmark⟩
      rw [List.length_eq_zero_iff.mp (Nat.le_zero.mp hdepth)] at hmem
      exact absurd hmem List.not_mem_nil
  | succ depth ih =>
      have hknown : known node := (h.keys node).mp (by rw [hmark]; simp)
      have hall : (visitAll (visit edges depth) (edges node)
          (Function.update marks node (some .inProgress))).1 = false := by
        have hlimit : (unvisitedOf nodes
            (Function.update marks node (some .inProgress))).length ≤ depth :=
          Nat.le_of_lt_succ (Nat.lt_of_lt_of_le
            (length_unvisitedOf_update (hnodes node hknown) hmark (by decide)) hdepth)
        refine visitAll_complete hacyclic (fun n m hm hn hup hlimit => ?_) (fun n hn => hn)
          (h.start hknown) (fun p hp => ?_) hlimit
        · -- a visit one level down: by induction it finds no cycle, the rest is `visit_progress`
          have hfalse := ih hm hn hup hlimit
          obtain ⟨marks', hrun⟩ : ∃ marks', visit edges depth n m = (false, marks') :=
            ⟨_, Prod.ext hfalse rfl⟩
          refine ⟨marks', hrun, (visit_progress hm hn hrun).1, fun k hk => ?_⟩
          exact visit_unvisited (by rw [hrun]; exact hk)
        · by_cases hp' : p = node
          · subst hp'; exact .refl
          · rw [Function.update_of_ne hp'] at hp
            exact (habove p hp).to_reflTransGen
      rw [visit]
      split
      · next marks₁ hrun => rw [hrun] at hall; cases hall
      · rfl

/-- Visit every node that is still unvisited, stopping at the first that reaches a cycle. -/
def findFrom (edges : α → List α) (depth : Nat) : List α → Marks α → Option α
  | [], _ => none
  | start :: rest, marks =>
    if marks start = some .unvisited then
      match visit edges depth start marks with
      | (true, _) => some start
      | (false, marks) => findFrom edges depth rest marks
    else findFrom edges depth rest marks

/-- **A search of every node that reports no cycle leaves every node accessible.** -/
theorem findFrom_sound {edges : α → List α} {known : α → Prop} {depth : Nat} {nodes : List α}
    {marks : Marks α} (h : Searched edges known marks)
    (hmarks : ∀ n, marks n ≠ some .inProgress) (hknown : ∀ n ∈ nodes, known n)
    (hrun : findFrom edges depth nodes marks = none) :
    ∀ n ∈ nodes, Acc (Below edges known) n := by
  -- stronger for the induction: nodes marked done already stay accessible
  suffices hall : ∀ n, n ∈ nodes ∨ marks n = some .done → Acc (Below edges known) n from
    fun n hn => hall n (.inl hn)
  induction nodes generalizing marks with
  | nil =>
      rintro n (hn | hn)
      · exact absurd hn List.not_mem_nil
      · exact h.acc n hn
  | cons start rest ih =>
      have hrest : ∀ n ∈ rest, known n := fun n hn => hknown n (List.mem_cons_of_mem start hn)
      rw [findFrom] at hrun
      split at hrun
      · next hmark =>
          split at hrun
          · cases hrun
          · next marks₁ hvisit =>
              obtain ⟨hprog, hdone⟩ := visit_progress h hmark hvisit
              have hall := ih hprog.searched (fun n hn => hmarks n (hprog.left n hn)) hrest hrun
              rintro n (hn | hn)
              · rcases List.mem_cons.mp hn with rfl | hmem
                · exact hall n (.inr hdone)
                · exact hall n (.inl hmem)
              · exact hall n (.inr (hprog.kept n hn))
      · next hmark =>
          have hall := ih h hmarks hrest hrun
          have hstart : marks start = some .done := by
            have hkey := (h.keys start).mpr (hknown start List.mem_cons_self)
            have hopen := hmarks start
            cases hm : marks start with
            | none => exact absurd hm hkey
            | some mark => cases mark <;> simp_all
          rintro n (hn | hn)
          · rcases List.mem_cons.mp hn with rfl | hmem
            · exact hall n (.inr hstart)
            · exact hall n (.inl hmem)
          · exact hall n (.inr hn)

omit [DecidableEq α] in
/-- An accessible node is on no cycle. -/
theorem not_transGen_of_acc {r : α → α → Prop} {n : α} (h : Acc r n) : ¬ Relation.TransGen r n n := by
  have hacc := h.transGen
  clear h
  induction hacc with
  | intro n _ ih => exact fun hcycle => ih n hcycle hcycle

omit [DecidableEq α] in
/-- Where edges from known nodes lead to known nodes only, a search skips none. -/
theorem acc_of_closed {edges : α → List α} {known : α → Prop}
    (hclosed : ∀ n, known n → ∀ d ∈ edges n, known d) {n : α} (hknown : known n)
    (hacc : Acc (Below edges known) n) : Acc (fun d n => d ∈ edges n) n := by
  induction hacc with
  | intro n _ ih =>
      refine .intro n fun d hd => ?_
      have hd' := hclosed n hknown d hd
      exact ih d ⟨hd, hd'⟩ hd'

open Relation in
/-- **The search is exact**: from marks with nothing in progress, it reports no cycle among the nodes
if and only if there is none. -/
theorem findFrom_eq_none_iff {edges : α → List α} {known : α → Prop} {depth : Nat} {nodes : List α}
    {marks : Marks α} (h : Searched edges known marks)
    (hmarks : ∀ n, marks n ≠ some .inProgress) (hknown : ∀ n, n ∈ nodes ↔ known n)
    (hdepth : nodes.length ≤ depth) :
    findFrom edges depth nodes marks = none ↔ ∀ n, ¬ TransGen (Below edges known) n n := by
  constructor
  case mp =>
    intro hrun n hcycle
    obtain ⟨m, hbelow, _⟩ := TransGen.head'_iff.mp hcycle
    have hacc := findFrom_sound h hmarks (fun k hk => (hknown k).mp hk) hrun n
      ((hknown n).mpr hbelow.2)
    exact not_transGen_of_acc hacc hcycle
  case mpr =>
    intro hacyclic
    suffices hfind : ∀ starts marks, (∀ n ∈ starts, known n) → Searched edges known marks →
        (∀ n, marks n ≠ some .inProgress) → findFrom edges depth starts marks = none from
      hfind nodes marks (fun n hn => (hknown n).mp hn) h hmarks
    intro starts
    induction starts with
    | nil => exact fun _ _ _ _ => rfl
    | cons start rest ih =>
        intro marks hstarts h hmarks
        have hrest : ∀ n ∈ rest, known n := fun n hn => hstarts n (List.mem_cons_of_mem start hn)
        rw [findFrom]
        split
        · next hmark =>
            have hfalse : (visit edges depth start marks).1 = false :=
              visit_complete hacyclic (fun n hn => (hknown n).mpr hn) h hmark
                (fun p hp => absurd hp (hmarks p))
                (Nat.le_trans (List.length_filter_le _ _) hdepth)
            split
            · next marks₁ hrun => rw [hrun] at hfalse; cases hfalse
            · next marks₁ hrun =>
                obtain ⟨hprog, _⟩ := visit_progress h hmark hrun
                exact ih marks₁ hrest hprog.searched fun n hn => hmarks n (hprog.left n hn)
        · exact ih marks hrest h hmarks

/-- Where edges from known nodes lead to known nodes only, it reports no cycle if and only if no node
begins an infinite chain. -/
theorem findFrom_eq_none_iff_acc {edges : α → List α} {known : α → Prop} {depth : Nat}
    {nodes : List α} {marks : Marks α} (h : Searched edges known marks)
    (hmarks : ∀ n, marks n ≠ some .inProgress) (hknown : ∀ n, n ∈ nodes ↔ known n)
    (hdepth : nodes.length ≤ depth) (hclosed : ∀ n, known n → ∀ d ∈ edges n, known d) :
    findFrom edges depth nodes marks = none ↔ ∀ n, known n → Acc (fun d n => d ∈ edges n) n := by
  constructor
  · intro hrun n hn
    exact acc_of_closed hclosed hn
      (findFrom_sound h hmarks (fun k hk => (hknown k).mp hk) hrun n ((hknown n).mpr hn))
  · intro hacc
    refine (findFrom_eq_none_iff h hmarks hknown hdepth).mpr fun n hcycle => ?_
    obtain ⟨m, hbelow, _⟩ := Relation.TransGen.head'_iff.mp hcycle
    have hedges : Below edges known ≤ fun d n => d ∈ edges n := fun d n hd => hd.1
    exact not_transGen_of_acc (hacc n hbelow.2) (Relation.TransGen.mono hedges _ _ hcycle)

/-! ## Chains -/

omit [DecidableEq α]

/-- A chain of `k` nodes, each pointing to the one before it, ends in `n`. -/
def HasChain (edges : α → List α) : Nat → α → Prop
  | 0, _ => True
  | 1, _ => True
  | k + 2, n => ∃ d ∈ edges n, HasChain edges (k + 1) d

/-- The longest chain that ends in `n` has `k` nodes. -/
def Layer (edges : α → List α) (k : Nat) (n : α) : Prop :=
  HasChain edges k n ∧ ¬ HasChain edges (k + 1) n

theorem HasChain.succ {edges : α → List α} {k : Nat} {n : α} :
    HasChain edges (k + 2) n ↔ ∃ d ∈ edges n, HasChain edges (k + 1) d := Iff.rfl

theorem HasChain.pred {edges : α → List α} {k : Nat} {n : α} (h : HasChain edges (k + 1) n) :
    HasChain edges k n := by
  induction k generalizing n with
  | zero => trivial
  | succ k ih =>
      obtain ⟨d, hd, hchain⟩ := h
      cases k with
      | zero => trivial
      | succ k => exact ⟨d, hd, ih hchain⟩

theorem HasChain.mono {edges : α → List α} {j k : Nat} {n : α} (h : HasChain edges k n)
    (hjk : j ≤ k) : HasChain edges j n := by
  obtain ⟨m, rfl⟩ := Nat.exists_eq_add_of_le hjk
  clear hjk
  induction m with
  | zero => exact h
  | succ m ih => exact ih h.pred

/-- A node is in one layer only. -/
theorem Layer.unique {edges : α → List α} {j k : Nat} {n : α} (hj : Layer edges j n)
    (hk : Layer edges k n) : j = k := by
  rcases Nat.lt_trichotomy j k with hlt | heq | hgt
  · exact absurd (hk.1.mono hlt) hj.2
  · exact heq
  · exact absurd (hj.1.mono hgt) hk.2

/-- **No layer is skipped**: below an accessible node with a chain of `k + 1` nodes there is one, the
node itself or a node it depends on, whose longest chain has `k + 1` nodes. -/
theorem exists_layer {edges : α → List α} {P : α → Prop}
    (hclosed : ∀ n, P n → ∀ d ∈ edges n, P d) {k : Nat} {n : α}
    (hacc : Acc (fun d n => d ∈ edges n) n) (hn : P n) (h : HasChain edges (k + 1) n) :
    ∃ m, P m ∧ Layer edges (k + 1) m := by
  induction hacc with
  | intro n _ ih =>
      by_cases hmore : HasChain edges (k + 2) n
      · obtain ⟨d, hd, hchain⟩ := hmore
        exact ih d hd (hclosed n hn d hd) hchain
      · exact ⟨n, hn, h, hmore⟩

end Graph
