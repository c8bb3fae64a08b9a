import AtlasFlow.Data.Dict
import AtlasFlow.Data.Table
import Mathlib.Data.Finset.Card
import Mathlib.Data.List.Perm.Basic

/-!
# The latest records of an append-only log

A log is the list of its records, the last one last; a record replaces the earlier ones of its key.
`latest` keeps what no later record replaces, which is what a dictionary filled from the log holds.
-/

namespace Log

variable {ρ κ : Type} [DecidableEq κ] (key : ρ → κ)

/-- The records that no later record of the same key replaces. -/
def latest : List ρ → List ρ
  | [] => []
  | r :: rs => if key r ∈ rs.map key then latest rs else r :: latest rs

variable {key}

theorem latest_cons (r : ρ) (rs : List ρ) :
    latest key (r :: rs) = if key r ∈ rs.map key then latest key rs else r :: latest key rs := rfl

theorem mem_latest {log : List ρ} {r : ρ} :
    r ∈ latest key log ↔ ∃ before after, log = before ++ r :: after ∧ key r ∉ after.map key := by
  induction log with
  | nil => simp [latest]
  | cons first rest ih =>
      have hrest : r ∈ latest key rest ↔ ∃ before after, first :: rest = (first :: before) ++ r :: after ∧
          key r ∉ after.map key := by
        simp only [ih, List.cons_append, List.cons.injEq, true_and]
      rw [latest_cons]
      split
      · next hreplaced =>
        rw [hrest]
        constructor
        · rintro ⟨before, after, heq, hlast⟩
          exact ⟨first :: before, after, heq, hlast⟩
        · rintro ⟨before, after, heq, hlast⟩
          cases before with
          | nil =>
              cases heq
              exact absurd hreplaced hlast
          | cons b before =>
              cases heq
              exact ⟨before, after, rfl, hlast⟩
      · next hkept =>
        rw [List.mem_cons, hrest]
        constructor
        · rintro (rfl | ⟨before, after, heq, hlast⟩)
          · exact ⟨[], rest, rfl, hkept⟩
          · exact ⟨first :: before, after, heq, hlast⟩
        · rintro ⟨before, after, heq, hlast⟩
          cases before with
          | nil =>
              cases heq
              exact .inl rfl
          | cons b before =>
              cases heq
              exact .inr ⟨before, after, rfl, hlast⟩

/-- Each key of the log has one latest record. -/
theorem mem_keys_latest {log : List ρ} {k : κ} : k ∈ (latest key log).map key ↔ k ∈ log.map key := by
  induction log with
  | nil => exact Iff.rfl
  | cons first rest ih =>
      rw [latest_cons]
      split
      · next hreplaced =>
        rw [ih, List.map_cons, List.mem_cons]
        exact ⟨.inr, fun h => h.elim (fun heq => heq ▸ hreplaced) id⟩
      · rw [List.map_cons, List.map_cons, List.mem_cons, List.mem_cons, ih]

theorem nodup_keys_latest (log : List ρ) : ((latest key log).map key).Nodup := by
  induction log with
  | nil => exact List.nodup_nil
  | cons first rest ih =>
      rw [latest_cons]
      split
      · exact ih
      · next hkept =>
        rw [List.map_cons, List.nodup_cons, mem_keys_latest]
        exact ⟨hkept, ih⟩

/-- There are as many latest records as different keys. -/
theorem length_latest (log : List ρ) : (latest key log).length = (log.map key).toFinset.card := by
  have hkeys : ((latest key log).map key).toFinset = (log.map key).toFinset := by
    ext k
    rw [List.mem_toFinset, List.mem_toFinset, mem_keys_latest]
  rw [← hkeys, List.toFinset_card_of_nodup (nodup_keys_latest log), List.length_map]

/-- A record that is added takes the place of the one of its key. -/
theorem latest_append (log : List ρ) (r : ρ) :
    latest key (log ++ [r]) = (latest key log).filter (fun old => key old ≠ key r) ++ [r] := by
  induction log with
  | nil => simp [latest]
  | cons first rest ih =>
      rw [List.cons_append]
      rw [latest_cons, latest_cons, ih]
      by_cases hfirst : key first = key r
      · rw [if_pos (by simp [hfirst])]
        split
        · rfl
        · rw [List.filter_cons_of_neg (by simpa using hfirst)]
      · have hiff : key first ∈ (rest ++ [r]).map key ↔ key first ∈ rest.map key := by simp [hfirst]
        simp only [hiff]
        split
        · rfl
        · rw [List.filter_cons_of_pos (by simpa using hfirst), List.cons_append]

/-! ## Parts and images of a log -/

/-- A part of the log that has all records of a key or none keeps its latest records. -/
theorem filter_latest {p : ρ → Bool} {log : List ρ}
    (h : ∀ r ∈ log, ∀ r' ∈ log, key r = key r' → p r = p r') :
    (latest key log).filter p = latest key (log.filter p) := by
  induction log with
  | nil => rfl
  | cons first rest ih =>
      have hrest := ih fun r hr r' hr' => h r (List.mem_cons_of_mem _ hr) r' (List.mem_cons_of_mem _ hr')
      rw [latest_cons]
      cases hp : p first with
      | true =>
          have hkeys : key first ∈ (rest.filter p).map key ↔ key first ∈ rest.map key := by
            constructor
            · exact fun hmem => List.map_subset key (List.filter_subset_self rest) hmem
            · intro hmem
              obtain ⟨r, hr, hkey⟩ := List.mem_map.mp hmem
              have hpr : p r = true := (h r (List.mem_cons_of_mem _ hr) first List.mem_cons_self hkey).trans hp
              exact List.mem_map.mpr ⟨r, List.mem_filter.mpr ⟨hr, hpr⟩, hkey⟩
          rw [List.filter_cons_of_pos hp, latest_cons]
          simp only [hkeys]
          split
          · exact hrest
          · rw [List.filter_cons_of_pos hp, hrest]
      | false =>
          rw [List.filter_cons_of_neg (by simp [hp])]
          split
          · exact hrest
          · rw [List.filter_cons_of_neg (by simp [hp]), hrest]

theorem latest_map {σ : Type} {key' : σ → κ} {f : ρ → σ} (h : ∀ r, key' (f r) = key r) (log : List ρ) :
    latest key' (log.map f) = (latest key log).map f := by
  have hkeys : ∀ rs : List ρ, (rs.map f).map key' = rs.map key := by
    intro rs
    rw [List.map_map]
    exact List.map_congr_left fun r _ => h r
  induction log with
  | nil => rfl
  | cons first rest ih =>
      rw [List.map_cons, latest_cons, latest_cons, h, hkeys, ih]
      split
      · rfl
      · rfl

/-- Of records that all have one key the last one is left. -/
theorem latest_one_key {k : κ} {log : List ρ} (h : ∀ r ∈ log, key r = k) : latest key log = log.getLast?.toList := by
  induction log using List.reverseRecOn with
  | nil => rfl
  | append_singleton log r ih =>
      have hnone : (latest key log).filter (fun old => key old ≠ key r) = [] := by
        refine List.filter_eq_nil_iff.mpr fun old hold => ?_
        have hmem : key old ∈ log.map key := mem_keys_latest.mp (List.mem_map_of_mem hold)
        obtain ⟨old', hold', heq⟩ := List.mem_map.mp hmem
        have hk : key old = key r := by rw [← heq, h old' (by simp [hold']), h r (by simp)]
        simp [hk]
      rw [latest_append, hnone, List.getLast?_concat]
      rfl

/-- `INSERT OR REPLACE` keeps the latest row of each key. -/
theorem upsert_latest (log : List ρ) (r : ρ) : Table.upsert key r (latest key log) = latest key (log ++ [r]) :=
  (latest_append log r).symm

/-! ## As a dictionary -/

/-- A dictionary that is given every record under its key holds the latest ones. -/
theorem ofItems_perm_latest (key : ρ → κ) (log : List ρ) :
    (Dict.ofItems (log.map fun r => (key r, r))).Perm ((latest key log).map fun r => (key r, r)) := by
  induction log using List.reverseRecOn with
  | nil => exact List.Perm.refl _
  | append_singleton log r ih =>
      rw [List.map_append, List.map_singleton, Dict.ofItems_append, latest_append, List.map_append,
        List.map_singleton]
      refine (Dict.set_perm (Dict.keys_ofItems_nodup _) _ _).trans (List.Perm.append_right _ ?_)
      have hfilter : ((latest key log).filter fun old => key old ≠ key r).map (fun r => (key r, r)) =
          ((latest key log).map fun r => (key r, r)).filter fun item => item.1 ≠ key r := by
        rw [List.filter_map]
        rfl
      rw [hfilter]
      exact ih.filter _

theorem values_perm_latest (key : ρ → κ) (log : List ρ) :
    (Dict.ofItems (log.map fun r => (key r, r))).values.Perm (latest key log) := by
  have hvalues := (ofItems_perm_latest key log).map Prod.snd
  have hid : ((latest key log).map fun r => (key r, r)).map Prod.snd = latest key log := by
    rw [List.map_map]
    exact List.map_id _
  rwa [hid] at hvalues

/-! ## Counting records -/

theorem countP_latest_le (key : ρ → κ) (p : ρ → Bool) (log : List ρ) : (latest key log).countP p ≤ log.countP p := by
  induction log with
  | nil => exact le_refl _
  | cons first rest ih =>
      rw [latest_cons, List.countP_cons]
      split
      · omega
      · rw [List.countP_cons]
        omega

/-- A count over the whole log is the count over the latest records exactly if no counted record was
replaced. -/
theorem countP_latest (key : ρ → κ) (p : ρ → Bool) (log : List ρ) :
    log.countP p = (latest key log).countP p ↔ log.Pairwise fun r later => p r = true → key later ≠ key r := by
  induction log with
  | nil => simp [latest]
  | cons first rest ih =>
      have hle := countP_latest_le key p rest
      have hfirst : (∀ later ∈ rest, p first = true → key later ≠ key first) ↔
          (p first = true → key first ∉ rest.map key) := by
        simp only [List.mem_map, not_exists, not_and]
        exact ⟨fun h hp later hlater => h later hlater hp, fun h later hlater hp => h hp later hlater⟩
      rw [List.pairwise_cons, ← ih, hfirst, List.countP_cons, latest_cons]
      cases hp : p first with
      | true =>
          by_cases hreplaced : key first ∈ rest.map key
          · rw [if_pos hreplaced]
            simp only [hreplaced, if_true, not_true, true_implies, false_and, iff_false]
            omega
          · rw [if_neg hreplaced, List.countP_cons, hp]
            simp [hreplaced]
      | false =>
          by_cases hreplaced : key first ∈ rest.map key
          · rw [if_pos hreplaced]
            simp
          · rw [if_neg hreplaced, List.countP_cons, hp]
            simp

end Log
