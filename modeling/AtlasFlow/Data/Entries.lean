import Mathlib.Data.List.Nodup

/-!
# Entries of a list that is shown

A list whose entries have keys. An entry is replaced where it is found, and nothing happens where it is not: as
`IndexOf`, and an assignment under the index if there is one.
-/

namespace Entries

variable {α κ : Type} [DecidableEq α] {key : α → κ}

def replace (entry new : α) (entries : List α) : List α :=
  if entry ∈ entries then entries.set (entries.idxOf entry) new else entries

theorem replace_of_not_mem {entry : α} {entries : List α} (h : entry ∉ entries) (new : α) :
    replace entry new entries = entries := if_neg h

theorem replace_cons_self (entry new : α) (entries : List α) :
    replace entry new (entry :: entries) = new :: entries := by
  rw [replace, if_pos List.mem_cons_self, List.idxOf_cons_self, List.set_cons_zero]

theorem replace_cons_of_ne {head entry : α} (h : head ≠ entry) (new : α) (entries : List α) :
    replace entry new (head :: entries) = head :: replace entry new entries := by
  unfold replace
  by_cases hmem : entry ∈ entries
  · rw [if_pos (List.mem_cons_of_mem head hmem), if_pos hmem, List.idxOf_cons_ne entries h, List.set_cons_succ]
  · have hnot : entry ∉ head :: entries := fun hin => (List.mem_cons.mp hin).elim (fun heq => h heq.symm) hmem
    rw [if_neg hnot, if_neg hmem]

/-- Where keys are distinct, it is the entry under the key that is replaced, and no other. -/
theorem replace_eq_map [DecidableEq κ] {entries : List α} (hnodup : (entries.map key).Nodup) {entry : α}
    (h : entry ∈ entries) (new : α) :
    replace entry new entries = entries.map fun e => if key e = key entry then new else e := by
  induction entries with
  | nil => exact absurd h List.not_mem_nil
  | cons head rest ih =>
    rw [List.map_cons, List.nodup_cons] at hnodup
    obtain ⟨hnew, hrest⟩ := hnodup
    by_cases heq : head = entry
    · subst heq
      have hother : ∀ e ∈ rest, (if key e = key head then new else e) = e := by
        intro e he
        have hkey : key e ≠ key head := fun heq => hnew (heq ▸ List.mem_map_of_mem he)
        exact if_neg hkey
      rw [replace_cons_self, List.map_cons, if_pos rfl, List.map_congr_left hother, List.map_id']
    · have hmem : entry ∈ rest := (List.mem_cons.mp h).resolve_left fun he => heq he.symm
      have hkey : key head ≠ key entry := fun hkey => hnew (hkey ▸ List.mem_map_of_mem hmem)
      rw [replace_cons_of_ne heq, List.map_cons, if_neg hkey, ih hrest hmem]

/-- The keys stay if the new entry has the key of the old one. -/
theorem map_key_replace (key : α → κ) {entry new : α} (h : key new = key entry) (entries : List α) :
    (replace entry new entries).map key = entries.map key := by
  induction entries with
  | nil => rfl
  | cons head rest ih =>
    by_cases heq : head = entry
    · subst heq
      rw [replace_cons_self, List.map_cons, List.map_cons, h]
    · rw [replace_cons_of_ne heq, List.map_cons, List.map_cons, ih]

theorem mem_replace_self {entry : α} {entries : List α} (h : entry ∈ entries) (new : α) :
    new ∈ replace entry new entries := by
  induction entries with
  | nil => exact absurd h List.not_mem_nil
  | cons head rest ih =>
    by_cases heq : head = entry
    · subst heq
      rw [replace_cons_self]
      exact List.mem_cons_self
    · rw [replace_cons_of_ne heq]
      exact List.mem_cons_of_mem head (ih ((List.mem_cons.mp h).resolve_left fun he => heq he.symm))

theorem of_mem_replace {entry new e : α} {entries : List α} (h : e ∈ replace entry new entries) :
    e = new ∨ e ∈ entries := by
  induction entries with
  | nil => exact .inr h
  | cons head rest ih =>
    by_cases heq : head = entry
    · subst heq
      rw [replace_cons_self] at h
      exact (List.mem_cons.mp h).imp_right (List.mem_cons_of_mem head)
    · rw [replace_cons_of_ne heq] at h
      rcases List.mem_cons.mp h with rfl | h
      · exact .inr List.mem_cons_self
      · exact (ih h).imp_right (List.mem_cons_of_mem head)

end Entries
