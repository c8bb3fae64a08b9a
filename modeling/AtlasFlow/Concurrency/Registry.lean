import Mathlib.Logic.Function.Basic

/-!
# Registering the newest owner of a key

Owners come and go, and each of them asks for one key; of a key's owners the one that came last is to be
registered, for as long as it is there. Whoever removes a key's entry may be somebody else than the owner
that is registered. `follows_apply_iff` says of every move when it leaves the registry as it should be.
-/

namespace Concurrency

/-- How an owner stands: it has not come, it is there, it has been lost without knowing it, it has ended. -/
inductive Standing | absent | present | lost | ended
  deriving DecidableEq

/-- Who is registered, who came last, and how every owner stands. -/
@[ext] structure Registry (κ ν : Type) where
  entry : κ → Option ν
  newest : κ → Option ν
  standing : ν → Standing

namespace Registry

variable {κ ν : Type} [DecidableEq κ] [DecidableEq ν] (key : ν → κ)

/-- What may happen: an owner comes and is registered, lost already or not; a key's entry is removed, and with
it an owner may end; an owner ends and removes nothing; an owner is lost. -/
inductive Move (κ ν : Type)
  | register (v : ν) (lost : Bool)
  | remove (k : κ) (ender : Option ν)
  | finish (v : ν)
  | lose (v : ν)

/-- What a move makes of a registry. -/
def apply (R : Registry κ ν) : Move κ ν → Registry κ ν
  | .register v lost =>
    { entry := Function.update R.entry (key v) (some v)
      newest := Function.update R.newest (key v) (some v)
      standing := Function.update R.standing v (if lost then .lost else .present) }
  | .remove k (some v) =>
    { R with entry := Function.update R.entry k none, standing := Function.update R.standing v .ended }
  | .remove k none => { R with entry := Function.update R.entry k none }
  | .finish v => { R with standing := Function.update R.standing v .ended }
  | .lose v => { R with standing := Function.update R.standing v .lost }

/-- When a move makes sense: only who has not come can come, an owner that ends removes its own key, and only
who is there is lost. -/
def Fits (R : Registry κ ν) : Move κ ν → Prop
  | .register v _ => R.standing v = .absent
  | .remove k (some v) => key v = k
  | .lose v => R.standing v = .present
  | _ => True

/-- What is registered is the newest owner of its key, and it has come. -/
structure Sound (R : Registry κ ν) : Prop where
  key : ∀ k v, R.entry k = some v → key v = k
  newest : ∀ k v, R.entry k = some v → R.newest k = some v
  come : ∀ k v, R.entry k = some v → R.standing v ≠ .absent

/-- The newest owner of a key is registered while it is there, and nobody is who has ended. -/
structure Follows (R : Registry κ ν) : Prop where
  present : ∀ v, R.standing v = .present → R.newest (key v) = some v → R.entry (key v) = some v
  ended : ∀ k v, R.standing v = .ended → R.entry k ≠ some v

/-- A move that hits nobody else: what is removed is the entry of the owner that ends, or of one that is not
there; and who ends without removing anything is not registered. -/
def Clean (R : Registry κ ν) : Move κ ν → Prop
  | .remove k ender => ∀ v, R.entry k = some v → ender = some v ∨ R.standing v ≠ .present
  | .finish v => R.entry (key v) ≠ some v
  | _ => True

variable {key} {R : Registry κ ν}

/-- Whoever is registered stays sound, whatever happens. -/
theorem Sound.apply (h : R.Sound key) (m : Move κ ν) : (R.apply key m).Sound key := by
  have hremoved : ∀ k k' v, Function.update R.entry k none k' = some v → R.entry k' = some v := by
    intro k k' v hv
    by_cases hk : k' = k
    · rw [hk, Function.update_self] at hv
      cases hv
    · rwa [Function.update_of_ne hk] at hv
  have hended : ∀ (s : Standing) k v u, s ≠ .absent → R.entry k = some v →
      Function.update R.standing u s v ≠ .absent := by
    intro s k v u hs hv
    by_cases hvu : v = u
    · rwa [hvu, Function.update_self]
    · rw [Function.update_of_ne hvu]
      exact h.come k v hv
  cases m with
  | register u lost =>
      have hentry : ∀ k v, Function.update R.entry (key u) (some u) k = some v →
          (k = key u ∧ v = u) ∨ (k ≠ key u ∧ R.entry k = some v) := by
        intro k v hv
        by_cases hk : k = key u
        · rw [hk, Function.update_self] at hv
          cases hv
          exact .inl ⟨hk, rfl⟩
        · rw [Function.update_of_ne hk] at hv
          exact .inr ⟨hk, hv⟩
      have hcome : (if lost then Standing.lost else .present) ≠ .absent := by split <;> nofun
      constructor
      · intro k v hv
        rcases hentry k v hv with ⟨rfl, rfl⟩ | ⟨_, hold⟩
        · rfl
        · exact h.key k v hold
      · intro k v hv
        rcases hentry k v hv with ⟨rfl, rfl⟩ | ⟨hk, hold⟩
        · exact Function.update_self ..
        · show Function.update R.newest (key u) (some u) k = some v
          rw [Function.update_of_ne hk]
          exact h.newest k v hold
      · intro k v hv
        rcases hentry k v hv with ⟨rfl, rfl⟩ | ⟨_, hold⟩
        · show Function.update R.standing v _ v ≠ .absent
          rwa [Function.update_self]
        · exact hended _ k v u hcome hold
  | remove k ender =>
      cases ender with
      | none =>
          exact ⟨fun k' v hv => h.key k' v (hremoved k k' v hv), fun k' v hv => h.newest k' v (hremoved k k' v hv),
            fun k' v hv => h.come k' v (hremoved k k' v hv)⟩
      | some u =>
          exact ⟨fun k' v hv => h.key k' v (hremoved k k' v hv), fun k' v hv => h.newest k' v (hremoved k k' v hv),
            fun k' v hv => hended .ended k' v u nofun (hremoved k k' v hv)⟩
  | finish u => exact ⟨h.key, h.newest, fun k v hv => hended .ended k v u nofun hv⟩
  | lose u => exact ⟨h.key, h.newest, fun k v hv => hended .lost k v u nofun hv⟩

/-- An owner comes: it is the newest of its key, and registered. -/
theorem Follows.register (h : R.Follows key) {v : ν} {lost : Bool} :
    (R.apply key (.register v lost)).Follows key := by
  constructor
  · intro u hu hnewest
    simp only [apply, Function.update_apply] at hu hnewest ⊢
    split
    · next hkey =>
        rw [if_pos hkey] at hnewest
        exact hnewest
    · next hkey =>
        rw [if_neg hkey] at hnewest
        have huv : u ≠ v := fun heq => hkey (congrArg key heq)
        rw [if_neg huv] at hu
        exact h.present u hu hnewest
  · intro k u hu hentry
    simp only [apply, Function.update_apply] at hu hentry
    split at hu
    · split at hu <;> cases hu
    · next huv =>
        split at hentry
        · cases hentry
          exact huv rfl
        · exact h.ended k u hu hentry

/-- An entry is removed, and with it its owner may end. -/
theorem Follows.remove (h : R.Follows key) (hsound : R.Sound key) {k : κ} {ender : Option ν}
    (hfits : R.Fits key (.remove k ender)) (hclean : R.Clean key (.remove k ender)) :
    (R.apply key (.remove k ender)).Follows key := by
  have hentry : (R.apply key (.remove k ender)).entry = Function.update R.entry k none := by cases ender <;> rfl
  have hnewest : (R.apply key (.remove k ender)).newest = R.newest := by cases ender <;> rfl
  have hstanding : ∀ u, (R.apply key (.remove k ender)).standing u =
      if ender = some u then .ended else R.standing u := by
    intro u
    cases ender with
    | none => rfl
    | some v =>
        show Function.update R.standing v .ended u = _
        rw [Function.update_apply]
        by_cases huv : u = v
        · simp [huv]
        · simp [huv, Ne.symm huv]
  constructor
  · intro u hu hlast
    rw [hstanding] at hu
    split at hu
    · cases hu
    · next hne =>
        rw [hnewest] at hlast
        have hregistered := h.present u hu hlast
        rw [hentry, Function.update_apply]
        split
        · next hkey =>
            -- what was removed is not there, but `u` is
            rw [hkey] at hregistered
            exact ((hclean u hregistered).elim hne fun hgone => hgone hu).elim
        · exact hregistered
  · intro k' u hu hmem
    rw [hentry, Function.update_apply] at hmem
    split at hmem
    · cases hmem
    · next hk =>
        rw [hstanding] at hu
        split at hu
        · next heq =>
            subst heq
            exact hk ((hsound.key k' u hmem).symm.trans hfits)
        · exact h.ended k' u hu hmem

/-- An owner ends that is not registered. -/
theorem Follows.finish (h : R.Follows key) (hsound : R.Sound key) {v : ν} (hclean : R.Clean key (.finish v)) :
    (R.apply key (.finish v)).Follows key := by
  constructor
  · intro u hu hnewest
    simp only [apply, Function.update_apply] at hu hnewest ⊢
    split at hu
    · cases hu
    · exact h.present u hu hnewest
  · intro k u hu hentry
    simp only [apply, Function.update_apply] at hu hentry
    split at hu
    · next heq =>
        subst heq
        exact hclean (hsound.key k u hentry ▸ hentry)
    · exact h.ended k u hu hentry

/-- An owner is lost. -/
theorem Follows.lose (h : R.Follows key) {v : ν} : (R.apply key (.lose v)).Follows key := by
  constructor
  · intro u hu hnewest
    simp only [apply, Function.update_apply] at hu hnewest ⊢
    split at hu
    · cases hu
    · exact h.present u hu hnewest
  · intro k u hu hentry
    simp only [apply, Function.update_apply] at hu hentry
    split at hu
    · cases hu
    · exact h.ended k u hu hentry

/-- **A move leaves the registry as it should be if and only if it hits nobody else.** -/
theorem follows_apply_iff (h : R.Follows key) (hsound : R.Sound key) {m : Move κ ν} (hfits : R.Fits key m) :
    (R.apply key m).Follows key ↔ R.Clean key m := by
  cases m with
  | register v lost => exact ⟨fun _ => trivial, fun _ => h.register⟩
  | remove k ender =>
      refine ⟨fun hafter v hentry => ?_, h.remove hsound hfits⟩
      by_contra hnot
      obtain ⟨hender, hpresent⟩ := not_or.mp hnot
      have hkey := hsound.key k v hentry
      have hregistered : (R.apply key (.remove k ender)).entry (key v) = some v := by
        apply hafter.present v
        · cases ender with
          | none => exact not_not.mp hpresent
          | some u =>
              have hvu : v ≠ u := fun heq => hender (congrArg some heq.symm)
              exact (Function.update_of_ne hvu ..).trans (not_not.mp hpresent)
        · cases ender <;> exact hkey ▸ hsound.newest k v hentry
      have hremoved : (R.apply key (.remove k ender)).entry k = none := by
        cases ender <;> exact Function.update_self ..
      rw [hkey, hremoved] at hregistered
      cases hregistered
  | finish v =>
      refine ⟨fun hafter hentry => ?_, h.finish hsound⟩
      exact hafter.ended (key v) v (Function.update_self ..) hentry
  | lose v => exact ⟨fun _ => trivial, fun _ => h.lose⟩

end Registry

end Concurrency
