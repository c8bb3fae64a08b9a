import Mathlib.Data.List.Induction
import Mathlib.Data.List.Nodup

/-!
# Dictionaries that remember the order of insertion

Python's `dict`, as the list of its items. Assigning to a key that is there keeps the key's place; a
new key goes to the end.
-/

/-- The items of a dictionary, in order. -/
abbrev Dict (κ ν : Type) := List (κ × ν)

namespace Dict

variable {κ ν ω : Type} [DecidableEq κ]

/-- `d.get(k)`. -/
def get? (d : Dict κ ν) (k : κ) : Option ν := (d.find? fun item => item.1 = k).map Prod.snd

/-- `d[k] = v`. -/
def set : Dict κ ν → κ → ν → Dict κ ν
  | [], k, v => [(k, v)]
  | item :: rest, k, v => if item.1 = k then (k, v) :: rest else item :: set rest k v

/-- `d.setdefault(k, v)`. -/
def setDefault (d : Dict κ ν) (k : κ) (v : ν) : Dict κ ν :=
  if (d.get? k).isSome then d else d.set k v

/-- `d.pop(k, None)`. -/
def pop (d : Dict κ ν) (k : κ) : Dict κ ν := d.filter fun item => item.1 ≠ k

/-- `{k: v for k, v in items}`: of a repeated key the last value counts. -/
def ofItems (items : List (κ × ν)) : Dict κ ν := items.foldl (fun d item => d.set item.1 item.2) []

/-- `list(d)`. -/
def keys (d : Dict κ ν) : List κ := d.map Prod.fst

/-- `list(d.values())`. -/
def values (d : Dict κ ν) : List ν := d.map Prod.snd

@[simp] theorem get?_nil (k : κ) : get? ([] : Dict κ ν) k = none := rfl

theorem get?_cons (item : κ × ν) (d : Dict κ ν) (k : κ) :
    get? (item :: d) k = if item.1 = k then some item.2 else d.get? k := by
  simp only [get?, List.find?_cons]
  by_cases h : item.1 = k <;> simp [h]

/-- Reading after an assignment. -/
theorem get?_set (d : Dict κ ν) (k k' : κ) (v : ν) :
    (d.set k v).get? k' = if k = k' then some v else d.get? k' := by
  induction d with
  | nil => rw [set, get?_cons]
  | cons item rest ih =>
      rw [set]
      split
      · next h =>
          rw [get?_cons, get?_cons]
          split
          · rfl
          · next hk => rw [if_neg (by rw [h]; exact hk)]
      · next h =>
          rw [get?_cons, get?_cons, ih]
          by_cases hk : k = k'
          · subst hk
            simp [h]
          · simp [hk]

@[simp] theorem get?_set_self (d : Dict κ ν) (k : κ) (v : ν) : (d.set k v).get? k = some v := by
  rw [get?_set, if_pos rfl]

theorem get?_set_of_ne (d : Dict κ ν) {k k' : κ} (v : ν) (h : k ≠ k') :
    (d.set k v).get? k' = d.get? k' := by
  rw [get?_set, if_neg h]

theorem get?_setDefault_of_ne (d : Dict κ ν) {k k' : κ} (v : ν) (h : k ≠ k') :
    (d.setDefault k v).get? k' = d.get? k' := by
  unfold setDefault
  split
  · rfl
  · exact get?_set_of_ne d v h

theorem get?_setDefault_self (d : Dict κ ν) {k : κ} (v : ν) (h : d.get? k = none) :
    (d.setDefault k v).get? k = some v := by
  rw [setDefault, h]
  exact get?_set_self d k v

theorem get?_pop (d : Dict κ ν) (k k' : κ) :
    (d.pop k).get? k' = if k = k' then none else d.get? k' := by
  induction d with
  | nil => simp [pop]
  | cons item rest ih =>
      rw [pop] at ih ⊢
      by_cases h : item.1 = k
      · rw [List.filter_cons_of_neg (by simp [h]), ih, get?_cons, h]
        by_cases hk : k = k' <;> simp [hk]
      · rw [List.filter_cons_of_pos (by simp [h]), get?_cons, get?_cons, ih]
        by_cases hk : k = k'
        · subst hk
          simp [h]
        · simp [hk]

omit [DecidableEq κ] in
theorem mem_keys {d : Dict κ ν} {k : κ} : k ∈ d.keys ↔ ∃ v, (k, v) ∈ d := by
  simp [keys]

theorem get?_eq_none {d : Dict κ ν} {k : κ} : d.get? k = none ↔ k ∉ d.keys := by
  induction d with
  | nil => simp [keys]
  | cons item rest ih =>
      rw [get?_cons, keys, List.map_cons, List.mem_cons, not_or, ← keys, ← ih]
      by_cases h : item.1 = k
      · simp [h]
      · simp [h, Ne.symm h]

theorem mem_of_get? {d : Dict κ ν} {k : κ} {v : ν} (h : d.get? k = some v) : (k, v) ∈ d := by
  induction d with
  | nil => cases h
  | cons item rest ih =>
      rw [get?_cons] at h
      split at h
      · next hk =>
          cases h
          rw [← hk]
          exact List.mem_cons_self
      · exact List.mem_cons_of_mem item (ih h)

/-- With distinct keys, an item is what reading its key returns. -/
theorem get?_of_mem {d : Dict κ ν} (hnodup : d.keys.Nodup) {k : κ} {v : ν} (h : (k, v) ∈ d) :
    d.get? k = some v := by
  induction d with
  | nil => cases h
  | cons item rest ih =>
      obtain ⟨hnew, hrest⟩ := List.nodup_cons.mp (show (item.1 :: keys rest).Nodup from hnodup)
      rw [get?_cons]
      rcases List.mem_cons.mp h with rfl | hmem
      · exact if_pos rfl
      · have hk : item.1 ≠ k := by
          rintro rfl
          exact hnew (mem_keys.mpr ⟨v, hmem⟩)
        rw [if_neg hk]
        exact ih hrest hmem

/-- Dictionaries with the same keys, in the same order, are told apart by what is read of them. -/
theorem get?_eq_iff {d d' : Dict κ ν} (hkeys : d.keys = d'.keys) (hnodup : d.keys.Nodup) :
    (∀ k, d.get? k = d'.get? k) ↔ d = d' := by
  refine ⟨fun h => ?_, fun h k => by rw [h]⟩
  induction d generalizing d' with
  | nil => exact (List.map_eq_nil_iff.mp hkeys.symm).symm
  | cons item rest ih =>
      obtain ⟨hnew, hrest⟩ := List.nodup_cons.mp (show (item.1 :: keys rest).Nodup from hnodup)
      cases d' with
      | nil => cases hkeys
      | cons item' rest' =>
          obtain ⟨hkey, hkeys⟩ := List.cons.inj (show item.1 :: keys rest = item'.1 :: keys rest' from hkeys)
          have hvalue := h item.1
          rw [get?_cons, get?_cons, if_pos rfl, if_pos hkey.symm] at hvalue
          have hrests : ∀ k, get? rest k = get? rest' k := by
            intro k
            by_cases hk : item.1 = k
            · rw [get?_eq_none.mpr (by rwa [← hk]), get?_eq_none.mpr (by rwa [← hkeys, ← hk])]
            · have hsame := h k
              rwa [get?_cons, get?_cons, if_neg hk, if_neg (by rwa [← hkey])] at hsame
          rw [Prod.ext hkey (Option.some.inj hvalue), ih hkeys hrest hrests]

/-- Looking for an item that the other dictionary has not tells them apart. -/
theorem any_get?_ne_iff [DecidableEq ν] {d d' : Dict κ ν} (hkeys : d.keys = d'.keys) (hnodup : d.keys.Nodup) :
    (d.any fun item => d'.get? item.1 ≠ some item.2) = true ↔ d ≠ d' := by
  rw [Ne, ← get?_eq_iff hkeys hnodup, List.any_eq_true]
  constructor
  · rintro ⟨item, hitem, hne⟩ hsame
    rw [decide_eq_true_eq, ← hsame item.1] at hne
    exact hne (get?_of_mem hnodup hitem)
  · intro hdiffer
    by_contra hnone
    refine hdiffer fun k => ?_
    cases hk : d.get? k with
    | none => rw [get?_eq_none.mpr (by rw [← hkeys]; exact get?_eq_none.mp hk)]
    | some v =>
        by_contra hne
        exact hnone ⟨(k, v), mem_of_get? hk, decide_eq_true (Ne.symm hne)⟩

theorem mem_keys_set {d : Dict κ ν} {k k' : κ} {v : ν} :
    k' ∈ (d.set k v).keys ↔ k' = k ∨ k' ∈ d.keys := by
  rw [← not_iff_not, ← get?_eq_none, get?_set, not_or, ← get?_eq_none]
  by_cases h : k = k'
  · simp [h]
  · simp [h, Ne.symm h]

theorem keys_set_nodup {d : Dict κ ν} (h : d.keys.Nodup) (k : κ) (v : ν) :
    (d.set k v).keys.Nodup := by
  induction d with
  | nil => exact List.nodup_singleton k
  | cons item rest ih =>
      obtain ⟨hnew, hrest⟩ := List.nodup_cons.mp (show (item.1 :: keys rest).Nodup from h)
      rw [set]
      split
      · next hk => exact List.nodup_cons.mpr ⟨hk ▸ hnew, hrest⟩
      · next hk =>
          refine List.nodup_cons.mpr ⟨fun hmem => ?_, ih hrest⟩
          rcases mem_keys_set.mp hmem with heq | hold
          · exact hk heq
          · exact hnew hold

/-- A new key goes to the end. -/
theorem set_of_not_mem {d : Dict κ ν} {k : κ} (h : k ∉ d.keys) (v : ν) : d.set k v = d ++ [(k, v)] := by
  induction d with
  | nil => rfl
  | cons item rest ih =>
      obtain ⟨hne, hrest⟩ := not_or.mp fun hk => h (List.mem_cons.mpr hk)
      rw [set, if_neg (Ne.symm hne), ih hrest, List.cons_append]

/-- A key that is there keeps its place. -/
theorem keys_set_of_mem {d : Dict κ ν} {k : κ} (h : k ∈ d.keys) (v : ν) : (d.set k v).keys = d.keys := by
  induction d with
  | nil => cases h
  | cons item rest ih =>
      rw [set]
      split
      · next hk =>
        rw [← hk]
        rfl
      · next hk =>
        have hrest : k ∈ keys rest := (List.mem_cons.mp h).resolve_left (Ne.symm hk)
        exact congrArg (item.1 :: ·) (ih hrest)

/-- Reading a dictionary whose keys were all renamed apart. -/
theorem get?_map_keys {κ' : Type} [DecidableEq κ'] {f : κ → κ'} (hf : Function.Injective f) (d : Dict κ ν) (k : κ) :
    get? (d.map fun item => (f item.1, item.2)) (f k) = d.get? k := by
  induction d with
  | nil => rfl
  | cons item rest ih =>
      rw [List.map_cons, get?_cons, get?_cons, ih]
      simp only [hf.eq_iff]

/-- An assignment is not seen where its key is not looked at. -/
theorem filter_set {p : κ → Bool} {k : κ} (h : p k = false) (d : Dict κ ν) (v : ν) :
    ((d.set k v).filter fun item => p item.1) = d.filter fun item => p item.1 := by
  induction d with
  | nil => simp [set, h]
  | cons item rest ih =>
      rw [set]
      split
      · next hk => simp [hk, h]
      · rw [List.filter_cons, List.filter_cons, ih]

/-- Up to order, assigning drops what is there under the key and adds the item. -/
theorem set_perm {d : Dict κ ν} (h : d.keys.Nodup) (k : κ) (v : ν) : (d.set k v).Perm (d.pop k ++ [(k, v)]) := by
  induction d with
  | nil => exact List.Perm.refl _
  | cons item rest ih =>
      rw [keys, List.map_cons, List.nodup_cons] at h
      by_cases hk : item.1 = k
      · have hrest : pop rest k = rest := List.filter_eq_self.mpr fun other hother => by
          have hne : other.1 ≠ k := fun heq => h.1 (hk ▸ heq ▸ List.mem_map_of_mem hother)
          simpa using hne
        rw [set, if_pos hk, pop, List.filter_cons_of_neg (by simpa using hk), ← pop, hrest]
        exact (List.perm_append_singleton _ _).symm
      · rw [set, if_neg hk, pop, List.filter_cons_of_pos (by simpa using hk)]
        exact (ih h.2).cons item

section OfItems

/-- A dictionary is built from the left: the last item is assigned last. -/
theorem ofItems_append (items : List (κ × ν)) (item : κ × ν) :
    ofItems (items ++ [item]) = (ofItems items).set item.1 item.2 := by
  rw [ofItems, ofItems, List.foldl_append]
  rfl

/-- Items with distinct keys are the dictionary they make. -/
theorem ofItems_of_nodup {items : List (κ × ν)} (h : (items.map Prod.fst).Nodup) : ofItems items = items := by
  induction items using List.reverseRecOn with
  | nil => rfl
  | append_singleton items item ih =>
      rw [List.map_append, List.nodup_append] at h
      obtain ⟨hitems, -, hdistinct⟩ := h
      have hnew : item.1 ∉ keys items := fun hmem =>
        hdistinct item.1 hmem item.1 (List.mem_singleton_self item.1) rfl
      rw [ofItems_append, ih hitems, set_of_not_mem hnew]

theorem keys_ofItems_nodup (items : List (κ × ν)) : (ofItems items).keys.Nodup := by
  induction items using List.reverseRecOn with
  | nil => exact List.nodup_nil
  | append_singleton items item ih =>
      rw [ofItems_append]
      exact keys_set_nodup ih item.1 item.2

theorem mem_keys_ofItems {items : List (κ × ν)} {k : κ} :
    k ∈ (ofItems items).keys ↔ k ∈ items.map Prod.fst := by
  induction items using List.reverseRecOn with
  | nil => exact Iff.rfl
  | append_singleton items item ih =>
      rw [ofItems_append, mem_keys_set, ih, List.map_append, List.mem_append]
      simp [or_comm]

/-- Reading a dictionary whose values are computed from other values. -/
theorem get?_ofItems_map (f : ν → ω) (items : List (κ × ν)) (k : κ) :
    (ofItems (items.map fun item => (item.1, f item.2))).get? k = ((ofItems items).get? k).map f := by
  induction items using List.reverseRecOn with
  | nil => rfl
  | append_singleton items item ih =>
      rw [List.map_append, List.map_singleton, ofItems_append, ofItems_append, get?_set, get?_set, ih]
      split <;> rfl

/-- Reading a dictionary whose keys were renamed without a clash. -/
theorem get?_ofItems_rename {κ' : Type} [DecidableEq κ'] (f : κ → κ') (items : List (κ × ν)) (k : κ)
    (hinj : ∀ item ∈ items, f item.1 = f k → item.1 = k) :
    (ofItems (items.map fun item => (f item.1, item.2))).get? (f k) = (ofItems items).get? k := by
  induction items using List.reverseRecOn with
  | nil => rfl
  | append_singleton items item ih =>
      have hitems := ih fun i hi => hinj i (List.mem_append_left _ hi)
      have hitem := hinj item (List.mem_append_right _ (List.mem_singleton_self item))
      rw [List.map_append, List.map_singleton, ofItems_append, ofItems_append, get?_set, get?_set,
        hitems]
      by_cases hk : item.1 = k
      · rw [if_pos hk, if_pos (congrArg f hk)]
      · rw [if_neg hk, if_neg fun h => hk (hitem h)]

/-- What is read was an item. -/
theorem mem_of_get?_ofItems {items : List (κ × ν)} {k : κ} {v : ν}
    (h : (ofItems items).get? k = some v) : (k, v) ∈ items := by
  induction items using List.reverseRecOn with
  | nil => cases h
  | append_singleton items item ih =>
      rw [ofItems_append, get?_set] at h
      split at h
      · next hk =>
          cases h
          exact List.mem_append_right _ (by rw [← hk]; exact List.mem_singleton_self item)
      · exact List.mem_append_left _ (ih h)

/-- With distinct keys, every item is read back. -/
theorem get?_ofItems {items : List (κ × ν)} (h : (items.map Prod.fst).Nodup) {k : κ} {v : ν}
    (hmem : (k, v) ∈ items) : (ofItems items).get? k = some v := by
  induction items using List.reverseRecOn with
  | nil => cases hmem
  | append_singleton items item ih =>
      rw [List.map_append, List.nodup_append] at h
      obtain ⟨hitems, _, hdistinct⟩ := h
      rw [ofItems_append, get?_set]
      rcases List.mem_append.mp hmem with hold | hlast
      · have hk : item.1 ≠ k := fun heq =>
          hdistinct k (List.mem_map.mpr ⟨(k, v), hold, rfl⟩) item.1 (by simp) heq.symm
        rw [if_neg hk]
        exact ih hitems hold
      · rw [← List.mem_singleton.mp hlast]
        exact if_pos rfl

end OfItems

end Dict
