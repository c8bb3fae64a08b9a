import Mathlib.Data.List.Forall2

/-!
# Attempts

Computations that may raise, as `Except`: what is known of a sequence and of a loop that raised nothing, and of
two loops that raise for the same items.
-/

namespace Attempts

variable {α β γ δ ε : Type}

/-- A sequence that raised nothing: its first part gave a value, and the rest went on from it. -/
theorem of_bind_ok {x : Except ε α} {f : α → Except ε β} {b : β} (h : x >>= f = .ok b) :
    ∃ a, x = .ok a ∧ f a = .ok b := by
  cases x with
  | error e => cases h
  | ok a => exact ⟨a, rfl, h⟩

/-- What follows a value goes on from it. -/
theorem ok_bind (a : α) (f : α → Except ε β) : (Except.ok a >>= f) = f a := by
  cases h : f a with
  | error e => exact h
  | ok b => exact h

theorem toOption_eq_some {x : Except ε α} {a : α} : x.toOption = some a ↔ x = .ok a := by
  cases x with
  | error e =>
      constructor
      · intro h
        cases h
      · intro h
        cases h
  | ok a' => simp [Except.toOption]

/-! ## Loops that raise nothing -/

theorem mapM_ok {f : α → Except ε β} {g : α → β} {xs : List α} (h : ∀ x ∈ xs, f x = .ok (g x)) :
    xs.mapM f = .ok (xs.map g) := by
  induction xs with
  | nil => rfl
  | cons x xs ih =>
      have htail := ih fun y hy => h y (List.mem_cons_of_mem x hy)
      simp only [List.mapM_cons, List.map_cons, h x List.mem_cons_self, htail]
      rfl

theorem mapM_map_ok {f : γ → Except ε δ} {e : β → γ} {g : β → δ} {xs : List β}
    (h : ∀ x ∈ xs, f (e x) = .ok (g x)) : (xs.map e).mapM f = .ok (xs.map g) := by
  rw [List.mapM_map]
  exact mapM_ok h

/-- What is written item by item is read back. -/
theorem mapM_map_self {f : γ → Except ε β} {e : β → γ} (h : ∀ x, f (e x) = .ok x) (xs : List β) :
    (xs.map e).mapM f = .ok xs := by
  have hread : (xs.map e).mapM f = .ok (xs.map id) := mapM_map_ok fun x _ => h x
  rwa [List.map_id] at hread

theorem filterM_ok {f : α → Except ε Bool} {p : α → Bool} {xs : List α} (h : ∀ x ∈ xs, f x = .ok (p x)) :
    xs.filterM f = .ok (xs.filter p) := by
  have haux : ∀ (xs acc : List α), (∀ x ∈ xs, f x = .ok (p x)) →
      List.filterAuxM f xs acc = .ok ((xs.filter p).reverse ++ acc) := by
    intro xs
    induction xs with
    | nil => exact fun _ _ => rfl
    | cons x xs ih =>
        intro acc h
        obtain ⟨hx, hxs⟩ := List.forall_mem_cons.mp h
        have hrest : List.filterAuxM f (x :: xs) acc = List.filterAuxM f xs (cond (p x) (x :: acc) acc) := by
          rw [List.filterAuxM, hx]
          rfl
        rw [hrest, ih _ hxs]
        cases hp : p x with
        | false => rw [List.filter_cons_of_neg (by simp [hp]), cond_false]
        | true => rw [List.filter_cons_of_pos hp, cond_true, List.reverse_cons, List.append_assoc, List.singleton_append]
  have hfound : xs.filterM f = .ok ((xs.filter p).reverse ++ []).reverse := by
    rw [List.filterM, haux xs [] h]
    rfl
  rw [hfound, List.append_nil, List.reverse_reverse]

/-- A loop that raised nothing has a result for each item, and no others. -/
theorem mem_of_mapM_ok {f : α → Except ε β} {xs : List α} {ys : List β} (h : xs.mapM f = .ok ys) :
    (∀ x ∈ xs, ∃ y ∈ ys, f x = .ok y) ∧ ∀ y ∈ ys, ∃ x ∈ xs, f x = .ok y := by
  induction xs generalizing ys with
  | nil =>
      cases h
      simp
  | cons x xs ih =>
      rw [List.mapM_cons] at h
      obtain ⟨y, hy, h⟩ := of_bind_ok h
      obtain ⟨rest, hrest, h⟩ := of_bind_ok h
      cases h
      obtain ⟨hto, hfrom⟩ := ih hrest
      constructor
      · intro x' hx'
        rcases List.mem_cons.mp hx' with rfl | hx'
        · exact ⟨y, List.mem_cons_self, hy⟩
        · obtain ⟨y', hy', hfy⟩ := hto x' hx'
          exact ⟨y', List.mem_cons_of_mem _ hy', hfy⟩
      · intro y' hy'
        rcases List.mem_cons.mp hy' with rfl | hy'
        · exact ⟨x, List.mem_cons_self, hy⟩
        · obtain ⟨x', hx', hfx⟩ := hfrom y' hy'
          exact ⟨x', List.mem_cons_of_mem _ hx', hfx⟩

/-- Each element has its counterpart. -/
theorem exists_of_forall₂ {R : α → β → Prop} {as : List α} {bs : List β} (h : List.Forall₂ R as bs) {a : α}
    (ha : a ∈ as) : ∃ b ∈ bs, R a b := by
  induction h with
  | nil => exact absurd ha List.not_mem_nil
  | cons hab _ ih =>
      rcases List.mem_cons.mp ha with rfl | ha
      · exact ⟨_, List.mem_cons_self, hab⟩
      · obtain ⟨b, hb, hr⟩ := ih ha
        exact ⟨b, List.mem_cons_of_mem _ hb, hr⟩

/-- A loop that raised nothing has one result for each item, in order. -/
theorem forall₂_of_mapM_ok {f : α → Except ε β} {xs : List α} {ys : List β} (h : xs.mapM f = .ok ys) :
    List.Forall₂ (fun x y => f x = .ok y) xs ys := by
  induction xs generalizing ys with
  | nil =>
      cases h
      exact .nil
  | cons x xs ih =>
      rw [List.mapM_cons] at h
      obtain ⟨y, hy, h⟩ := of_bind_ok h
      obtain ⟨rest, hrest, h⟩ := of_bind_ok h
      cases h
      exact .cons hy (ih hrest)

/-- A list read item by item keeps what the reading keeps. -/
theorem map_of_mapM {f : β → Except ε γ} {g : γ → δ} {g' : β → δ} {xs : List β} {ys : List γ}
    (h : xs.mapM f = .ok ys) (hf : ∀ x y, f x = .ok y → g y = g' x) : ys.map g = xs.map g' := by
  induction xs generalizing ys with
  | nil =>
      cases h
      rfl
  | cons x xs ih =>
      rw [List.mapM_cons] at h
      obtain ⟨y, hy, h⟩ := of_bind_ok h
      obtain ⟨rest, hrest, h⟩ := of_bind_ok h
      cases h
      rw [List.map_cons, List.map_cons, hf x y hy, ih hrest]

/-- What the results have is distinct if no two of them come to share it. -/
theorem nodup_map_of_mapM {f : β → Except ε γ} {g : γ → δ} {xs : List β} {ys : List γ} (hnodup : xs.Nodup)
    (h : xs.mapM f = .ok ys)
    (hne : ∀ x ∈ xs, ∀ x' ∈ xs, x ≠ x' → ∀ y y', f x = .ok y → f x' = .ok y' → g y ≠ g y') :
    (ys.map g).Nodup := by
  induction xs generalizing ys with
  | nil =>
      cases h
      exact List.nodup_nil
  | cons x xs ih =>
      rw [List.mapM_cons] at h
      obtain ⟨y, hy, h⟩ := of_bind_ok h
      obtain ⟨rest, hrest, h⟩ := of_bind_ok h
      cases h
      rw [List.nodup_cons] at hnodup
      rw [List.map_cons, List.nodup_cons]
      constructor
      · intro hmem
        obtain ⟨y', hy', hsame⟩ := List.mem_map.mp hmem
        obtain ⟨x', hx', hparse⟩ := (mem_of_mapM_ok hrest).2 y' hy'
        have hdiff : x ≠ x' := by
          rintro rfl
          exact hnodup.1 hx'
        exact hne x List.mem_cons_self x' (List.mem_cons_of_mem _ hx') hdiff y y' hy hparse hsame.symm
      · apply ih hnodup.2 hrest
        intro a ha b hb
        exact hne a (List.mem_cons_of_mem _ ha) b (List.mem_cons_of_mem _ hb)

theorem mapM_ok_filterMap {f : α → Except ε β} {xs : List α} {ys : List β} (h : xs.mapM f = .ok ys) :
    ys = xs.filterMap fun x => (f x).toOption := by
  induction xs generalizing ys with
  | nil =>
      cases h
      rfl
  | cons x xs ih =>
      rw [List.mapM_cons] at h
      obtain ⟨y, hy, h⟩ := of_bind_ok h
      obtain ⟨rest, hrest, h⟩ := of_bind_ok h
      cases h
      rw [List.filterMap_cons, ← ih hrest, hy]
      rfl

/-- A loop raises nothing iff no item does. -/
theorem exists_mapM_ok {f : α → Except ε β} {xs : List α} :
    (∃ ys, xs.mapM f = .ok ys) ↔ ∀ x ∈ xs, ∃ y, f x = .ok y := by
  constructor
  · rintro ⟨ys, h⟩ x hx
    obtain ⟨y, _, hy⟩ := (mem_of_mapM_ok h).1 x hx
    exact ⟨y, hy⟩
  · intro h
    induction xs with
    | nil => exact ⟨[], rfl⟩
    | cons x xs ih =>
        obtain ⟨y, hy⟩ := h x List.mem_cons_self
        obtain ⟨ys, hys⟩ := ih fun x' hx' => h x' (List.mem_cons_of_mem _ hx')
        refine ⟨y :: ys, ?_⟩
        rw [List.mapM_cons, hy, hys]
        rfl

/-! ## Two loops -/

/-- Two loops give the same if they give the same for each item, up to what is raised. -/
theorem mapM_toOption {f g : α → Except ε β} {xs : List α} (h : ∀ x ∈ xs, (f x).toOption = (g x).toOption) :
    (xs.mapM f).toOption = (xs.mapM g).toOption := by
  have hok : ∀ {f g : α → Except ε β} {xs : List α} {ys : List β}, (∀ x ∈ xs, (f x).toOption = (g x).toOption) →
      xs.mapM f = .ok ys → xs.mapM g = .ok ys := by
    intro f g xs
    induction xs with
    | nil => exact fun _ h => h
    | cons x xs ih =>
        intro ys h hys
        rw [List.mapM_cons] at hys ⊢
        obtain ⟨y, hy, hys⟩ := of_bind_ok hys
        obtain ⟨rest, hrest, hys⟩ := of_bind_ok hys
        have hg : g x = .ok y := by
          rw [← toOption_eq_some, ← h x List.mem_cons_self, toOption_eq_some]
          exact hy
        rw [hg, ih (fun x' hx' => h x' (List.mem_cons_of_mem _ hx')) hrest]
        exact hys
  apply Option.ext
  intro ys
  rw [toOption_eq_some, toOption_eq_some]
  exact ⟨hok h, hok fun x hx => (h x hx).symm⟩

/-! ## Values that are written and read back -/

/-- How values of a kind are kept: what is written of one, what is read of that, and a value as far as it is kept. -/
structure Codec (ε Row Value : Type) where
  write : Value → Except ε Row
  read : Row → Except ε Value
  kept : Value → Value

namespace Codec

variable {Row Value : Type} {codec : Codec ε Row Value} {value : Value} {row : Row}

/-- The value is written, what is read of that agrees with it in everything that is kept, and is written the same. -/
def RoundTrips (codec : Codec ε Row Value) (value : Value) : Prop :=
  ∃ row back, codec.write value = .ok row ∧ codec.read row = .ok back ∧ codec.kept back = codec.kept value ∧
    codec.write back = .ok row

/-- It is enough that the value is read as it is kept, and that nothing more is written of a value than what is kept. -/
theorem RoundTrips.of_kept (hwrite : codec.write value = .ok row) (hread : codec.read row = .ok (codec.kept value))
    (hkept : codec.kept (codec.kept value) = codec.kept value)
    (hagain : codec.write (codec.kept value) = codec.write value) : codec.RoundTrips value :=
  ⟨row, codec.kept value, hwrite, hread, hkept, hagain.trans hwrite⟩

end Codec

end Attempts
