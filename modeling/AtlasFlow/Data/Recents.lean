import Mathlib.Data.List.Nodup

/-!
# The most recent things

A list of recent things has the newest one first and each once. To `remember` a thing is to move it to the front of
the list, which keeps no more than `limit` things. `newest` is the list without a limit: what has been remembered, one
after the other, is the beginning of it (`foldl_remember`), so that nothing is forgotten but for what is older than
`limit` other things.
-/

namespace Recents

variable {α : Type} [DecidableEq α]

/-- Move a thing to the front. -/
def remember (limit : Nat) (recents : List α) (a : α) : List α := (a :: recents.filter (· ≠ a)).take limit

/-- Each thing once, where it comes first. -/
def newest : List α → List α
  | [] => []
  | a :: as => a :: (newest as).filter (· ≠ a)

theorem nodup_newest (as : List α) : (newest as).Nodup := by
  induction as with
  | nil => exact List.nodup_nil
  | cons b as ih =>
      rw [newest, List.nodup_cons]
      refine ⟨fun hmem => ?_, ih.filter _⟩
      simpa using (List.mem_filter.mp hmem).2

theorem newest_of_nodup {as : List α} (h : as.Nodup) : newest as = as := by
  induction as with
  | nil => rfl
  | cons b as ih =>
      obtain ⟨hb, has⟩ := List.nodup_cons.mp h
      rw [newest, ih has]
      congr 1
      apply List.filter_eq_self.mpr
      intro a ha
      simpa using fun heq : a = b => hb (heq ▸ ha)

/-- What is cut off a list without repetitions does not come back when one thing is taken out of it. -/
theorem take_filter_ne (a : α) {as : List α} (h : as.Nodup) (n : Nat) :
    ((as.take (n + 1)).filter (· ≠ a)).take n = (as.filter (· ≠ a)).take n := by
  induction as generalizing n with
  | nil => simp
  | cons b as ih =>
      obtain ⟨hb, has⟩ := List.nodup_cons.mp h
      by_cases hba : b = a
      · -- `a` is not in the rest, and the rest is cut where it should be
        have hrest : ∀ as' : List α, as' ⊆ as → as'.filter (· ≠ a) = as' := fun as' hsub =>
          List.filter_eq_self.mpr fun c hc => by simpa using fun heq : c = a => hb (hba ▸ heq ▸ hsub hc)
        have hdrop : ∀ as' : List α, (b :: as').filter (· ≠ a) = as'.filter (· ≠ a) := fun as' => by simp [hba]
        rw [List.take_succ_cons, hdrop, hdrop, hrest as fun _ hc => hc, hrest _ (List.take_subset n as), List.take_take,
          Nat.min_self]
      · cases n with
        | zero => rfl
        | succ n => simpa [hba] using ih has n

/-- **One more thing**, after the list was cut or before. -/
theorem remember_take (limit : Nat) (a : α) {as : List α} (h : as.Nodup) :
    remember limit (as.take limit) a = (a :: as.filter (· ≠ a)).take limit := by
  cases limit with
  | zero => rfl
  | succ n =>
      rw [remember, List.take_succ_cons, List.take_succ_cons]
      congr 1
      exact take_filter_ne a h n

/-- **What has been remembered, one after the other.** -/
theorem foldl_remember (limit : Nat) (log start : List α) :
    log.foldl (remember limit) ((newest start).take limit) = (newest (log.reverse ++ start)).take limit := by
  induction log generalizing start with
  | nil => rfl
  | cons a log ih =>
      rw [List.foldl_cons, remember_take limit a (nodup_newest start)]
      have hstep : a :: (newest start).filter (· ≠ a) = newest (a :: start) := rfl
      rw [hstep, ih (a :: start), List.reverse_cons, List.append_assoc, List.singleton_append]

end Recents
