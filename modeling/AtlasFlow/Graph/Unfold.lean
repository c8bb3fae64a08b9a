import Mathlib
import AtlasFlow.Graph.Search

/-!
# Walking a graph without marks

`visits` takes nodes from a queue and puts the nodes they point to at its end, whether it has been there before or
not. It ends if and only if no infinite chain begins in the queue (`exists_visits_iff`), and has then been at
everything that can be reached (`mem_visits`); over a finite graph that is to say that no cycle can be reached
(`acc_iff_of_finite`).
-/

namespace Graph

open Relation (ReflTransGen TransGen)

variable {α β : Type}

/-- The nodes in the order in which they are taken from the queue. -/
def visits (edges : α → List α) : Nat → List α → Option (List α)
  | 0, _ => none
  | _ + 1, [] => some []
  | n + 1, a :: queue => (visits edges n (queue ++ edges a)).map (a :: ·)

section Visits

variable {edges : α → List α} {n : Nat} {queue visited : List α} {a b : α}

theorem visits_cons (h : visits edges (n + 1) (a :: queue) = some visited) :
    ∃ rest, visits edges n (queue ++ edges a) = some rest ∧ visited = a :: rest := by
  rw [visits, Option.map_eq_some_iff] at h
  obtain ⟨rest, hrest, rfl⟩ := h
  exact ⟨rest, hrest, rfl⟩

/-- A walk that ended was at what can be reached from the queue, and nowhere else. -/
theorem mem_visits (h : visits edges n queue = some visited) :
    b ∈ visited ↔ ∃ a ∈ queue, ReflTransGen (fun a b => b ∈ edges a) a b := by
  induction n generalizing queue visited with
  | zero => cases h
  | succ n ih =>
      cases queue with
      | nil =>
          cases h
          simp
      | cons a queue =>
          obtain ⟨rest, hrest, rfl⟩ := visits_cons h
          rw [List.mem_cons, ih hrest]
          constructor
          · rintro (rfl | ⟨c, hc, hreach⟩)
            · exact ⟨b, List.mem_cons_self, .refl⟩
            · rcases List.mem_append.mp hc with hc | hc
              · exact ⟨c, List.mem_cons_of_mem a hc, hreach⟩
              · exact ⟨a, List.mem_cons_self, .head hc hreach⟩
          · rintro ⟨c, hc, hreach⟩
            rcases List.mem_cons.mp hc with rfl | hc
            · rcases Relation.ReflTransGen.cases_head hreach with heq | ⟨d, hd, hreach⟩
              · exact .inl heq.symm
              · exact .inr ⟨d, List.mem_append_right queue hd, hreach⟩
            · exact .inr ⟨c, List.mem_append_left _ hc, hreach⟩

/-- In a tree no node is visited twice. -/
theorem visits_nodup (parent : α → Option α) (hparent : ∀ a, ∀ b ∈ edges a, parent b = some a)
    (hedges : ∀ a, (edges a).Nodup) {done : List α} (hnodup : (done ++ queue).Nodup)
    (hdone : ∀ b ∈ done ++ queue, ∀ a, parent b = some a → a ∈ done)
    (h : visits edges n queue = some visited) : (done ++ visited).Nodup := by
  induction n generalizing queue visited done with
  | zero => cases h
  | succ n ih =>
      cases queue with
      | nil =>
          cases h
          exact hnodup
      | cons a queue =>
          obtain ⟨rest, hrest, rfl⟩ := visits_cons h
          have ha : a ∉ done := by
            intro hmem
            exact (List.nodup_append.mp hnodup).2.2 a hmem a List.mem_cons_self rfl
          have hsplit : done ++ a :: queue = done ++ [a] ++ queue := by simp
          have hall : done ++ [a] ++ (queue ++ edges a) = done ++ a :: queue ++ edges a := by simp
          have hnew : (done ++ [a] ++ (queue ++ edges a)).Nodup := by
            rw [hall]
            refine List.nodup_append.mpr ⟨hnodup, hedges a, ?_⟩
            rintro b hb c hc rfl
            exact ha (hdone b hb a (hparent a b hc))
          have hrun := ih hnew ?_ hrest
          · rwa [List.append_assoc, List.singleton_append] at hrun
          · intro b hb p hp
            rw [hall] at hb
            rcases List.mem_append.mp hb with hb | hb
            · exact List.mem_append_left _ (hdone b hb p hp)
            · rw [hparent a b hb] at hp
              cases hp
              exact List.mem_append_right _ (List.mem_singleton_self a)

/-! ### When it ends -/

/-- Where the walk ended, no infinite chain began. -/
theorem acc_of_visits (h : visits edges n queue = some visited) : ∀ a ∈ queue, Acc (fun b a => b ∈ edges a) a := by
  induction n generalizing queue visited with
  | zero => cases h
  | succ n ih =>
      cases queue with
      | nil => exact fun a ha => (List.not_mem_nil ha).elim
      | cons a queue =>
          obtain ⟨rest, hrest, rfl⟩ := visits_cons h
          have hacc := ih hrest
          intro b hb
          rcases List.mem_cons.mp hb with rfl | hb
          · exact .intro b fun c hc => hacc c (List.mem_append_right queue hc)
          · exact hacc b (List.mem_append_left _ hb)

variable (edges) in
/-- How many visits a node costs, with everything below it. -/
noncomputable def cost (a : α) (h : Acc (fun b a => b ∈ edges a) a) : Nat :=
  h.rec fun a _ ih => 1 + ((edges a).attach.map fun b => ih b.1 b.2).sum

theorem cost_eq (h : Acc (fun b a => b ∈ edges a) a) :
    cost edges a h = 1 + ((edges a).attach.map fun b => cost edges b.1 (h.inv b.2)).sum := by
  cases h
  rfl

open Classical in
variable (edges) in
/-- The same, nothing for a node in which an infinite chain begins. -/
noncomputable def weight (a : α) : Nat := if h : Acc (fun b a => b ∈ edges a) a then cost edges a h else 0

theorem weight_eq (h : Acc (fun b a => b ∈ edges a) a) : weight edges a = 1 + ((edges a).map (weight edges)).sum := by
  have hbelow : (edges a).attach.map (fun b => cost edges b.1 (h.inv b.2)) = (edges a).map (weight edges) := by
    conv_rhs => rw [← List.attach_map_subtype_val (edges a), List.map_map]
    apply List.map_congr_left
    intro b _
    rw [Function.comp_apply, weight, dif_pos (h.inv b.2)]
  rw [weight, dif_pos h, cost_eq, hbelow]

theorem exists_visits_of_acc (hacc : ∀ a ∈ queue, Acc (fun b a => b ∈ edges a) a)
    (hn : (queue.map (weight edges)).sum < n) : ∃ visited, visits edges n queue = some visited := by
  induction n generalizing queue with
  | zero => cases hn
  | succ n ih =>
      cases queue with
      | nil => exact ⟨[], rfl⟩
      | cons a queue =>
          have ha := hacc a List.mem_cons_self
          have hrest : ∀ b ∈ queue ++ edges a, Acc (fun b a => b ∈ edges a) b := by
            intro b hb
            rcases List.mem_append.mp hb with hb | hb
            · exact hacc b (List.mem_cons_of_mem a hb)
            · exact ha.inv hb
          have hweight : ((queue ++ edges a).map (weight edges)).sum < n := by
            rw [List.map_cons, List.sum_cons, weight_eq ha] at hn
            rw [List.map_append, List.sum_append]
            omega
          obtain ⟨visited, hvisited⟩ := ih hrest hweight
          exact ⟨a :: visited, by rw [visits, hvisited]; rfl⟩

/-- **The walk ends if and only if no infinite chain begins in the queue**. -/
theorem exists_visits_iff :
    (∃ n visited, visits edges n queue = some visited) ↔ ∀ a ∈ queue, Acc (fun b a => b ∈ edges a) a := by
  constructor
  · rintro ⟨n, visited, h⟩
    exact acc_of_visits h
  · exact fun hacc => ⟨_, exists_visits_of_acc hacc (Nat.lt_succ_self _)⟩

end Visits

/-! ## Chains in finite graphs -/

variable {r : α → α → Prop} {a : α}

theorem acc_of_reach (h : Acc r a) {b : α} (hreach : ReflTransGen (fun a b => r b a) a b) : Acc r b := by
  induction hreach with
  | refl => exact h
  | tail _ hstep ih => exact ih.inv hstep

/-- **In a finite graph, infinite chains go round in cycles**. -/
theorem acc_iff_of_finite {nodes : Set α} (hfinite : nodes.Finite) (hclosed : ∀ a ∈ nodes, ∀ b, r b a → b ∈ nodes)
    (ha : a ∈ nodes) : Acc r a ↔ ∀ b, ReflTransGen (fun a b => r b a) a b → ¬TransGen r b b := by
  constructor
  · exact fun h b hreach => not_transGen_of_acc (acc_of_reach h hreach)
  · intro hacyclic
    let Reached := {b : α // b ∈ nodes ∧ ReflTransGen (fun a b => r b a) a b}
    have : Finite Reached := (hfinite.subset fun b hb => hb.1).to_subtype
    have : IsTrans Reached fun b c => TransGen r b.1 c.1 := ⟨fun b c d => TransGen.trans⟩
    have : Std.Irrefl fun b c : Reached => TransGen r b.1 c.1 := ⟨fun b => hacyclic b.1 b.2.2⟩
    have hwf := Finite.wellFounded_of_trans_of_irrefl fun b c : Reached => TransGen r b.1 c.1
    have hacc : ∀ b : Reached, Acc r b.1 := by
      intro b
      induction b using hwf.induction with
      | _ b ih =>
          refine .intro b.1 fun c hc => ?_
          exact ih ⟨c, hclosed b.1 b.2.1 c hc, b.2.2.tail hc⟩ (.single hc)
    exact hacc ⟨a, ha, .refl⟩

/-- Chains among the nodes of a walk are chains among what they stand for. -/
theorem acc_iff_of_map {r' : β → β → Prop} (f : α → β) (P : α → Prop) (hP : ∀ a, P a → ∀ b, r b a → P b)
    (hto : ∀ a, P a → ∀ b, r b a → r' (f b) (f a)) (hfrom : ∀ a, P a → ∀ c, r' c (f a) → ∃ b, r b a ∧ f b = c)
    (ha : P a) : Acc r a ↔ Acc r' (f a) := by
  constructor
  · intro h
    induction h with
    | intro a _ ih =>
        refine .intro (f a) fun c hc => ?_
        obtain ⟨b, hb, rfl⟩ := hfrom a ha c hc
        exact ih b hb (hP a ha b hb)
  · intro h
    generalize hfa : f a = c at h
    induction h generalizing a with
    | intro c _ ih =>
        subst hfa
        exact .intro a fun b hb => ih (f b) (hto a ha b hb) (hP a ha b hb) rfl

end Graph
