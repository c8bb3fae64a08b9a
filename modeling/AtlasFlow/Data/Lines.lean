import Mathlib.Data.List.Basic

/-!
# Texts written one after the other, each with a separator

`terminated` puts a separator after every text. Nothing marks where one text ends and the next begins
when a text may hold separators itself: what can be read back is the pieces between separators
(`terminated_inj`), and the texts only when it is known how many pieces each has
(`eq_iff_pieces`).
-/

/-- Texts are told apart character by character. -/
instance instLawfulBEqText : LawfulBEq (List Char) := inferInstance

namespace Lines

variable {α : Type} [BEq α] [LawfulBEq α] (sep : α)

/-- Each text with a separator after it. -/
def terminated (texts : List (List α)) : List α := texts.flatMap fun text => text ++ [sep]

/-- What stands between separators, text by text. -/
def pieces (texts : List (List α)) : List (List α) := texts.flatMap (List.splitOn sep)

/-- How many pieces each text has. -/
def counts (texts : List (List α)) : List Nat := texts.map fun text => (text.splitOn sep).length

theorem splitOn_append_cons (text rest : List α) :
    (text ++ sep :: rest).splitOn sep = text.splitOn sep ++ rest.splitOn sep := by
  simp only [List.splitOn_eq_splitOnP]
  exact List.splitOnP_append_cons text rest (beq_self_eq_true sep)

omit [BEq α] [LawfulBEq α] in
/-- What stands in a piece stands in the text, and is nothing it is split at. -/
theorem mem_of_mem_splitOnP {p : α → Bool} {text piece : List α} {c : α} (h : piece ∈ text.splitOnP p) (hc : c ∈ piece) :
    c ∈ text ∧ p c = false := by
  induction text generalizing piece with
  | nil =>
      rw [List.splitOnP_nil, List.mem_singleton] at h
      rw [h] at hc
      cases hc
  | cons x text ih =>
      rw [List.splitOnP_cons_eq_if_modifyHead] at h
      split at h
      · rcases List.mem_cons.mp h with rfl | h
        · cases hc
        · exact (ih h hc).imp_left (List.mem_cons_of_mem _)
      · next hx =>
        obtain ⟨first, pieces, hsplit⟩ := List.exists_cons_of_ne_nil (List.splitOnP_ne_nil p text)
        rw [hsplit] at h ih
        rw [List.modifyHead_cons] at h
        rcases List.mem_cons.mp h with rfl | h
        · rcases List.mem_cons.mp hc with rfl | hc
          · exact ⟨List.mem_cons_self, by simpa using hx⟩
          · exact (ih List.mem_cons_self hc).imp_left (List.mem_cons_of_mem _)
        · exact (ih (List.mem_cons_of_mem _ h) hc).imp_left (List.mem_cons_of_mem _)

omit [BEq α] [LawfulBEq α] in
/-- What stands in a joined text stands between its parts or in one of them. -/
theorem mem_intercalate {mark : List α} {parts : List (List α)} {a : α} (h : a ∈ mark.intercalate parts) :
    a ∈ mark ∨ ∃ part ∈ parts, a ∈ part := by
  induction parts with
  | nil => simp [List.intercalate_nil] at h
  | cons part parts ih =>
      by_cases hparts : parts = []
      · rw [hparts, List.intercalate_singleton] at h
        exact .inr ⟨part, List.mem_cons_self, h⟩
      · rw [List.intercalate_cons_of_ne_nil hparts, List.mem_append, List.mem_append] at h
        rcases h with (h | h) | h
        · exact .inr ⟨part, List.mem_cons_self, h⟩
        · exact .inl h
        · exact (ih h).imp_right fun ⟨other, hother, ha⟩ => ⟨other, List.mem_cons_of_mem _ hother, ha⟩

omit [BEq α] [LawfulBEq α] in
theorem mem_intercalate_iff {mark : List α} {parts : List (List α)} {a : α} (h : a ∉ mark) :
    a ∈ mark.intercalate parts ↔ ∃ part ∈ parts, a ∈ part := by
  refine ⟨fun hmem => (mem_intercalate hmem).resolve_left h, ?_⟩
  rintro ⟨part, hpart, ha⟩
  induction parts with
  | nil => cases hpart
  | cons first parts ih =>
      by_cases hparts : parts = []
      · rw [hparts, List.mem_singleton] at hpart
        rwa [hparts, List.intercalate_singleton, ← hpart]
      · rw [List.intercalate_cons_of_ne_nil hparts, List.mem_append, List.mem_append]
        rcases List.mem_cons.mp hpart with rfl | hpart
        · exact .inl (.inl ha)
        · exact .inr (ih hpart)

omit [BEq α] [LawfulBEq α] in
theorem infix_intercalate {mark part : List α} {parts : List (List α)} (h : part ∈ parts) :
    part <:+: mark.intercalate parts := by
  induction parts with
  | nil => cases h
  | cons first parts ih =>
      by_cases hparts : parts = []
      · rw [hparts, List.mem_singleton] at h
        rw [hparts, List.intercalate_singleton]
        exact h ▸ List.infix_rfl
      · rw [List.intercalate_cons_of_ne_nil hparts]
        rcases List.mem_cons.mp h with rfl | h
        · rw [List.append_assoc]
          exact (List.prefix_append _ _).isInfix
        · exact (ih h).trans (List.suffix_append _ _).isInfix

/-- A piece stands in the text. -/
theorem infix_of_mem_splitOn {text piece : List α} (h : piece ∈ text.splitOn sep) : piece <:+: text := by
  have hjoin : piece <:+: [sep].intercalate (text.splitOn sep) := infix_intercalate h
  rwa [List.intercalate_splitOn] at hjoin

/-- There is no separator in a piece. -/
theorem not_mem_of_mem_splitOn {text piece : List α} (h : piece ∈ text.splitOn sep) : sep ∉ piece := by
  rw [List.splitOn_eq_splitOnP] at h
  intro hmem
  have hsep := (mem_of_mem_splitOnP h hmem).2
  rw [beq_self_eq_true] at hsep
  cases hsep

/-- Split at the separators, the whole gives the pieces, and nothing after the last separator. -/
theorem splitOn_terminated (texts : List (List α)) :
    (terminated sep texts).splitOn sep = pieces sep texts ++ [[]] := by
  induction texts with
  | nil => rfl
  | cons text rest ih =>
      have hcons : terminated sep (text :: rest) = text ++ sep :: terminated sep rest := by
        simp [terminated]
      rw [hcons, splitOn_append_cons, ih, pieces, pieces, List.flatMap_cons, List.append_assoc]

/-- **What can be read back is the pieces**. -/
theorem terminated_inj {texts texts' : List (List α)} :
    terminated sep texts = terminated sep texts' ↔ pieces sep texts = pieces sep texts' := by
  constructor
  · intro h
    have hsplit := congrArg (List.splitOn sep) h
    rw [splitOn_terminated, splitOn_terminated] at hsplit
    exact List.append_cancel_right hsplit
  · intro h
    have hjoin : ∀ texts : List (List α),
        terminated sep texts = [sep].intercalate (pieces sep texts ++ [[]]) := fun texts => by
      rw [← splitOn_terminated, List.intercalate_splitOn]
    rw [hjoin texts, hjoin texts', h]

/-- A text without a separator is its only piece. -/
theorem pieces_of_single {sep : α} {texts : List (List α)} (h : ∀ text ∈ texts, sep ∉ text) :
    pieces sep texts = texts := by
  induction texts with
  | nil => rfl
  | cons text rest ih =>
      have hsplit : text.splitOn sep = [text] := by
        refine List.splitOnP_eq_singleton fun c hc => ?_
        exact beq_eq_false_iff_ne.mpr fun heq => h text List.mem_cons_self (heq ▸ hc)
      rw [pieces, List.flatMap_cons, hsplit, ← pieces,
        ih fun text htext => h text (List.mem_cons_of_mem _ htext)]
      rfl

theorem splitOn_injective : Function.Injective (List.splitOn sep : List α → List (List α)) := by
  intro text text' h
  have hjoin := congrArg [sep].intercalate h
  simp only [List.intercalate_splitOn] at hjoin
  exact hjoin

/-- **The texts are told apart by their pieces and how many each has**. -/
theorem eq_iff_pieces {texts texts' : List (List α)} :
    texts = texts' ↔ pieces sep texts = pieces sep texts' ∧ counts sep texts = counts sep texts' := by
  constructor
  · rintro rfl
    exact ⟨rfl, rfl⟩
  · rintro ⟨hpieces, hcounts⟩
    have hmap : texts.map (List.splitOn sep) = texts'.map (List.splitOn sep) := by
      refine List.eq_iff_flatten_eq.mpr ⟨?_, ?_⟩
      · rw [← List.flatMap_def, ← List.flatMap_def]
        exact hpieces
      · rw [List.map_map, List.map_map]
        exact hcounts
    exact (List.map_injective_iff.mpr (splitOn_injective sep)) hmap

end Lines
