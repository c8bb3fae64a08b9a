import Mathlib.Data.List.Pairwise
import Mathlib.Data.List.Basic
import Mathlib.Data.Nat.Basic
import Mathlib.Tactic.Common

/-!
# Spans that are taken out in several passes

A text of `len` characters is gone through once for each pattern, from left to right. What a pattern matches is
taken out, and the next one sees the pieces that are left. A match is known by the pattern's number, where it
begins and where it ends.
-/

namespace Spans

/-- A stretch of a text: where it begins, and where it ends. -/
abbrev Span := Nat × Nat

/-- A match stands unless one that goes before it and stands overlaps it. The matches of an earlier pattern go
before, and those of the same pattern that begin further left. -/
def Stands (full : Nat → Nat → Nat → Prop) (k i e : Nat) : Prop :=
  full k i e ∧ ∀ l j d, (l < k ∨ l = k ∧ j < i) → Stands full l j d → d ≤ i ∨ e ≤ j
termination_by (k, i)
decreasing_by
  rename_i h
  rcases h with h | ⟨rfl, h⟩
  · exact Prod.Lex.left _ _ h
  · exact Prod.Lex.right _ h

/-! ## One pass over one piece -/

/-- The pieces that are left of a stretch, from `q` on with `n` characters to go. The current piece began at `lo`,
and the first `skip` characters belong to a match. -/
def cuts (found : Nat → Option Nat) : Nat → Nat → Nat → Nat → List Span
  | 0, lo, _, q => [(lo, q)]
  | n + 1, lo, skip + 1, q => cuts found n lo skip (q + 1)
  | n + 1, lo, 0, q =>
    match found q with
    | some (m + 1) => (lo, q) :: cuts found n (q + m + 1) m (q + 1)
    | _ => cuts found n lo 0 (q + 1)

/-- What is taken out. -/
def hits (found : Nat → Option Nat) : Nat → Nat → Nat → List Span
  | 0, _, _ => []
  | n + 1, skip + 1, q => hits found n skip (q + 1)
  | n + 1, 0, q =>
    match found q with
    | some (m + 1) => (q, q + m + 1) :: hits found n m (q + 1)
    | _ => hits found n 0 (q + 1)

/-- The pieces and the matches of a stretch up to `hi`. -/
inductive Cuts (found : Nat → Option Nat) (hi : Nat) : Nat → Nat → List Span → List Span → Prop where
  | done (lo : Nat) (hlo : lo ≤ hi) : Cuts found hi lo hi [(lo, hi)] []
  | keep {lo q : Nat} {pieces taken : List Span} (hlo : lo ≤ q) (hq : q < hi) (hnone : found q = none)
      (rest : Cuts found hi lo (q + 1) pieces taken) : Cuts found hi lo q pieces taken
  | hit {lo q n : Nat} {pieces taken : List Span} (hlo : lo ≤ q) (hsome : found q = some n) (hn : 0 < n)
      (hend : q + n ≤ hi) (rest : Cuts found hi (q + n) (q + n) pieces taken) :
      Cuts found hi lo q ((lo, q) :: pieces) ((q, q + n) :: taken)

section Scan

variable {found : Nat → Option Nat} {hi lo q : Nat} {pieces taken : List Span}

theorem cuts_skip (found : Nat → Option Nat) {n skip : Nat} (h : skip ≤ n) (lo q : Nat) :
    cuts found n lo skip q = cuts found (n - skip) lo 0 (q + skip) := by
  induction skip generalizing n q with
  | zero => rfl
  | succ skip ih =>
      obtain ⟨n, rfl⟩ : ∃ m, n = m + 1 := ⟨n - 1, by omega⟩
      rw [cuts, ih (by omega), Nat.add_sub_add_right, Nat.add_assoc, Nat.add_comm 1]

theorem hits_skip (found : Nat → Option Nat) {n skip : Nat} (h : skip ≤ n) (q : Nat) :
    hits found n skip q = hits found (n - skip) 0 (q + skip) := by
  induction skip generalizing n q with
  | zero => rfl
  | succ skip ih =>
      obtain ⟨n, rfl⟩ : ∃ m, n = m + 1 := ⟨n - 1, by omega⟩
      rw [hits, ih (by omega), Nat.add_sub_add_right, Nat.add_assoc, Nat.add_comm 1]

/-- Where every match has a character and ends within the stretch, the scan gives its pieces and its matches. -/
theorem cuts_spec (hfound : ∀ q n, found q = some n → 0 < n ∧ q + n ≤ hi) (hlo : lo ≤ q) (hq : q ≤ hi) :
    Cuts found hi lo q (cuts found (hi - q) lo 0 q) (hits found (hi - q) 0 q) := by
  induction hn : hi - q using Nat.strongRecOn generalizing lo q with
  | _ n ih =>
      cases n with
      | zero =>
          cases Nat.le_antisymm hq (Nat.sub_eq_zero_iff_le.mp hn)
          exact .done lo hlo
      | succ n =>
          rw [cuts, hits]
          cases hcase : found q with
          | none =>
              have hrest : Cuts found hi lo (q + 1) _ _ := ih n (Nat.lt_succ_self n) (by omega) (by omega) (by omega)
              exact .keep hlo (by omega) hcase hrest
          | some m =>
              obtain ⟨hpos, hend⟩ := hfound q m hcase
              obtain ⟨m, rfl⟩ : ∃ j, m = j + 1 := ⟨m - 1, by omega⟩
              dsimp only
              rw [cuts_skip found (by omega), hits_skip found (by omega), Nat.add_right_comm q 1 m]
              have hrest : Cuts found hi (q + m + 1) (q + m + 1) _ _ :=
                ih (n - m) (by omega) (by omega) (by omega) (by omega)
              exact .hit hlo hcase hpos hend hrest

/-! ### What a scan gives -/

theorem Cuts.nonempty (h : Cuts found hi lo q pieces taken) : pieces ≠ [] := by
  induction h with
  | done lo hlo => exact List.cons_ne_nil _ _
  | keep hlo hq hnone rest ih => exact ih
  | hit hlo hsome hn hend rest ih => exact List.cons_ne_nil _ _

theorem Cuts.piece_bounds (h : Cuts found hi lo q pieces taken) : ∀ piece ∈ pieces,
    lo ≤ piece.1 ∧ piece.1 ≤ piece.2 ∧ piece.2 ≤ hi := by
  induction h with
  | done lo hlo => simp [hlo]
  | keep hlo hq hnone rest ih => exact ih
  | hit hlo hsome hn hend rest ih =>
      refine List.forall_mem_cons.mpr ⟨⟨le_rfl, hlo, by omega⟩, fun piece hpiece => ?_⟩
      obtain ⟨hfirst, hrest⟩ := ih piece hpiece
      exact ⟨by omega, hrest⟩

theorem Cuts.taken_bounds (h : Cuts found hi lo q pieces taken) : ∀ span ∈ taken,
    q ≤ span.1 ∧ span.1 < span.2 ∧ span.2 ≤ hi ∧ found span.1 = some (span.2 - span.1) := by
  induction h with
  | done lo hlo => exact fun span hspan => absurd hspan List.not_mem_nil
  | keep hlo hq hnone rest ih =>
      intro span hspan
      obtain ⟨hfirst, hrest⟩ := ih span hspan
      exact ⟨by omega, hrest⟩
  | @hit lo q n pieces taken hlo hsome hn hend rest ih =>
      refine List.forall_mem_cons.mpr ⟨⟨le_rfl, by omega, hend, ?_⟩, fun span hspan => ?_⟩
      · rw [hsome]
        exact congrArg some (by omega)
      · obtain ⟨hfirst, hrest⟩ := ih span hspan
        exact ⟨by omega, hrest⟩

theorem Cuts.covers (h : Cuts found hi lo q pieces taken) {x : Nat} (hlo : lo ≤ x) (hx : x < hi) :
    (∃ piece ∈ pieces, piece.1 ≤ x ∧ x < piece.2) ∨ ∃ span ∈ taken, span.1 ≤ x ∧ x < span.2 := by
  induction h with
  | done lo _ => exact Or.inl ⟨_, List.mem_singleton_self _, hlo, hx⟩
  | keep _ hq hnone rest ih => exact ih hlo
  | @hit lo q n pieces taken _ hsome hn hend rest ih =>
      by_cases hbefore : x < q
      · exact Or.inl ⟨_, List.mem_cons_self, hlo, hbefore⟩
      · by_cases hwithin : x < q + n
        · exact Or.inr ⟨_, List.mem_cons_self, by omega, hwithin⟩
        · rcases ih (by omega) with ⟨piece, hpiece, hin⟩ | ⟨span, hspan, hin⟩
          · exact Or.inl ⟨piece, List.mem_cons_of_mem _ hpiece, hin⟩
          · exact Or.inr ⟨span, List.mem_cons_of_mem _ hspan, hin⟩

theorem Cuts.apart (h : Cuts found hi lo q pieces taken) : ∀ piece ∈ pieces, ∀ span ∈ taken,
    piece.2 ≤ span.1 ∨ span.2 ≤ piece.1 := by
  induction h with
  | done lo hlo => exact fun _ _ span hspan => absurd hspan List.not_mem_nil
  | keep hlo hq hnone rest ih => exact ih
  | @hit lo q n pieces taken hlo hsome hn hend rest ih =>
      intro piece hpiece span hspan
      rcases List.mem_cons.mp hpiece with rfl | hpiece
      · rcases List.mem_cons.mp hspan with rfl | hspan
        · exact Or.inl le_rfl
        · have hbounds := (rest.taken_bounds span hspan).1
          exact Or.inl (by dsimp only; omega)
      · rcases List.mem_cons.mp hspan with rfl | hspan
        · exact Or.inr (rest.piece_bounds piece hpiece).1
        · exact ih piece hpiece span hspan

theorem Cuts.pieces_sorted (h : Cuts found hi lo q pieces taken) : pieces.Pairwise fun a b => a.2 < b.1 := by
  induction h with
  | done lo hlo => exact List.pairwise_singleton _ _
  | keep hlo hq hnone rest ih => exact ih
  | @hit lo q n pieces taken hlo hsome hn hend rest ih =>
      refine List.pairwise_cons.mpr ⟨fun piece hpiece => ?_, ih⟩
      have hbounds := (rest.piece_bounds piece hpiece).1
      dsimp only
      omega

theorem Cuts.taken_sorted (h : Cuts found hi lo q pieces taken) : taken.Pairwise fun a b => a.2 ≤ b.1 := by
  induction h with
  | done lo hlo => exact List.Pairwise.nil
  | keep hlo hq hnone rest ih => exact ih
  | hit hlo hsome hn hend rest ih =>
      exact List.pairwise_cons.mpr ⟨fun span hspan => (rest.taken_bounds span hspan).1, ih⟩

/-- Nothing was found in what is left. -/
theorem Cuts.missed (h : Cuts found hi lo q pieces taken) {x : Nat} (hx : q ≤ x) : ∀ piece ∈ pieces,
    piece.1 ≤ x → x < piece.2 → found x = none := by
  induction h with
  | done lo hlo =>
      intro piece hpiece _ hlt
      rw [List.mem_singleton.mp hpiece] at hlt
      exact absurd hx (Nat.not_le.mpr hlt)
  | @keep lo q pieces taken hlo hq hnone rest ih =>
      rcases Nat.lt_or_ge q x with hlt | hge
      · exact ih hlt
      · intro _ _ _ _
        rw [Nat.le_antisymm hge hx]
        exact hnone
  | @hit lo q n pieces taken hlo hsome hn hend rest ih =>
      intro piece hpiece hbegin hlt
      rcases List.mem_cons.mp hpiece with rfl | hpiece
      · exact absurd hx (Nat.not_le.mpr hlt)
      · have hbounds := (rest.piece_bounds piece hpiece).1
        exact ih (by omega) piece hpiece hbegin hlt

/-- A piece begins with the stretch or after a match. -/
theorem Cuts.piece_begins (h : Cuts found hi lo q pieces taken) : ∀ piece ∈ pieces,
    piece.1 = lo ∨ ∃ span ∈ taken, span.2 = piece.1 := by
  induction h with
  | done lo hlo => simp
  | keep hlo hq hnone rest ih => exact ih
  | hit hlo hsome hn hend rest ih =>
      refine List.forall_mem_cons.mpr ⟨Or.inl rfl, fun piece hpiece => Or.inr ?_⟩
      rcases ih piece hpiece with hbegin | ⟨span, hspan, hbegin⟩
      · exact ⟨_, List.mem_cons_self, hbegin.symm⟩
      · exact ⟨span, List.mem_cons_of_mem _ hspan, hbegin⟩

/-- A piece ends with the stretch or before a match. -/
theorem Cuts.piece_ends (h : Cuts found hi lo q pieces taken) : ∀ piece ∈ pieces,
    piece.2 = hi ∨ ∃ span ∈ taken, span.1 = piece.2 := by
  induction h with
  | done lo hlo => simp
  | keep hlo hq hnone rest ih => exact ih
  | hit hlo hsome hn hend rest ih =>
      refine List.forall_mem_cons.mpr ⟨Or.inr ⟨_, List.mem_cons_self, rfl⟩, fun piece hpiece => ?_⟩
      rcases ih piece hpiece with hbegin | ⟨span, hspan, hbegin⟩
      · exact Or.inl hbegin
      · exact Or.inr ⟨span, List.mem_cons_of_mem _ hspan, hbegin⟩

end Scan

/-! ## Several passes -/

/-- The engine: in a stretch up to `hi` it finds at a position what begins there and is a match, and it finds the
longest. -/
structure Finds (len : Nat) (full : Nat → Nat → Nat → Prop) (hit : Nat → Nat → Nat → Option Nat) : Prop where
  bounds : ∀ k i e, full k i e → i < e ∧ e ≤ len
  sound : ∀ k hi q n, hi ≤ len → hit k hi q = some n → 0 < n ∧ q + n ≤ hi ∧ full k q (q + n)
  longest : ∀ k hi q e, hi ≤ len → full k q e → e ≤ hi → ∃ n, hit k hi q = some n ∧ e ≤ q + n

/-- The pieces of the text that are left after `k` passes. -/
def piecesAfter (hit : Nat → Nat → Nat → Option Nat) (len : Nat) : Nat → List Span
  | 0 => [(0, len)]
  | k + 1 => (piecesAfter hit len k).flatMap fun piece =>
    cuts (hit k piece.2) (piece.2 - piece.1) piece.1 0 piece.1

/-- What pass `k` takes out. -/
def Taken (hit : Nat → Nat → Nat → Option Nat) (len k : Nat) (span : Span) : Prop :=
  ∃ piece ∈ piecesAfter hit len k, span ∈ hits (hit k piece.2) (piece.2 - piece.1) 0 piece.1

/-- The character is left after `k` passes. -/
def Kept (hit : Nat → Nat → Nat → Option Nat) (len k x : Nat) : Prop :=
  ∃ piece ∈ piecesAfter hit len k, piece.1 ≤ x ∧ x < piece.2

section Passes

variable {full : Nat → Nat → Nat → Prop} {hit : Nat → Nat → Nat → Option Nat} {len k : Nat}

theorem Finds.cuts (h : Finds len full hit) (k : Nat) {piece : Span} (hle : piece.1 ≤ piece.2) (hlen : piece.2 ≤ len) :
    Cuts (hit k piece.2) piece.2 piece.1 piece.1 (Spans.cuts (hit k piece.2) (piece.2 - piece.1) piece.1 0 piece.1)
      (hits (hit k piece.2) (piece.2 - piece.1) 0 piece.1) := by
  refine cuts_spec (fun q n hsome => ?_) (le_rfl) hle
  obtain ⟨hpos, hend, _⟩ := h.sound k piece.2 q n hlen hsome
  exact ⟨hpos, hend⟩

theorem Finds.piece_bounds (h : Finds len full hit) (k : Nat) : ∀ piece ∈ piecesAfter hit len k,
    piece.1 ≤ piece.2 ∧ piece.2 ≤ len := by
  induction k with
  | zero =>
      intro piece hpiece
      rw [List.mem_singleton.mp hpiece]
      exact ⟨Nat.zero_le _, le_rfl⟩
  | succ k ih =>
      intro piece hpiece
      obtain ⟨whole, hwhole, hpiece⟩ := List.mem_flatMap.mp hpiece
      obtain ⟨hle, hlen⟩ := ih whole hwhole
      obtain ⟨_, hbounds, hend⟩ := (h.cuts k hle hlen).piece_bounds piece hpiece
      exact ⟨hbounds, le_trans hend hlen⟩

theorem Finds.sorted (h : Finds len full hit) (k : Nat) :
    (piecesAfter hit len k).Pairwise fun a b => a.2 < b.1 := by
  induction k with
  | zero => exact List.pairwise_singleton _ _
  | succ k ih =>
      rw [piecesAfter, List.pairwise_flatMap]
      have hcuts : ∀ piece ∈ piecesAfter hit len k, _ := fun piece hpiece =>
        h.cuts k (h.piece_bounds k piece hpiece).1 (h.piece_bounds k piece hpiece).2
      refine ⟨fun piece hpiece => (hcuts piece hpiece).pieces_sorted, ?_⟩
      refine ih.imp_of_mem fun {a b} ha hb hab x hx y hy => ?_
      obtain ⟨_, _, hxend⟩ := (hcuts a ha).piece_bounds x hx
      obtain ⟨hybegin, _⟩ := (hcuts b hb).piece_bounds y hy
      omega

/-- Of two spans in a sorted list one ends before the other begins. -/
theorem apart_of_sorted {spans : List Span} (h : spans.Pairwise fun a b => a.2 ≤ b.1) {a b : Span} (ha : a ∈ spans)
    (hb : b ∈ spans) : a = b ∨ a.2 ≤ b.1 ∨ b.2 ≤ a.1 := by
  induction spans with
  | nil => exact absurd ha List.not_mem_nil
  | cons first spans ih =>
      obtain ⟨hfirst, hrest⟩ := List.pairwise_cons.mp h
      rcases List.mem_cons.mp ha with rfl | ha
      · rcases List.mem_cons.mp hb with rfl | hb
        · exact Or.inl rfl
        · exact Or.inr (Or.inl (hfirst b hb))
      · rcases List.mem_cons.mp hb with heq | hb
        · exact Or.inr (Or.inr (heq ▸ hfirst a ha))
        · exact ih hrest ha hb

/-- A character is in one piece at most. -/
theorem Finds.same_piece (h : Finds len full hit) {a b : Span} (ha : a ∈ piecesAfter hit len k)
    (hb : b ∈ piecesAfter hit len k) {x : Nat} (hax : a.1 ≤ x ∧ x < a.2) (hbx : b.1 ≤ x ∧ x < b.2) : a = b := by
  have hsorted : (piecesAfter hit len k).Pairwise fun a b => a.2 ≤ b.1 := (h.sorted k).imp Nat.le_of_lt
  rcases apart_of_sorted hsorted ha hb with heq | hapart | hapart
  · exact heq
  · omega
  · omega

theorem Taken.spec (h : Finds len full hit) {span : Span} (htaken : Taken hit len k span) :
    ∃ piece ∈ piecesAfter hit len k, piece.1 ≤ span.1 ∧ span.1 < span.2 ∧ span.2 ≤ piece.2 ∧
      hit k piece.2 span.1 = some (span.2 - span.1) ∧ full k span.1 span.2 := by
  obtain ⟨piece, hpiece, hspan⟩ := htaken
  obtain ⟨hle, hlen⟩ := h.piece_bounds k piece hpiece
  obtain ⟨hbegin, hlt, hend, hsome⟩ := (h.cuts k hle hlen).taken_bounds span hspan
  obtain ⟨_, _, hfull⟩ := h.sound k piece.2 span.1 _ hlen hsome
  rw [show span.1 + (span.2 - span.1) = span.2 by omega] at hfull
  exact ⟨piece, hpiece, hbegin, hlt, hend, hsome, hfull⟩

/-- What a pass takes out was there before it. -/
theorem Taken.kept (h : Finds len full hit) {span : Span} (htaken : Taken hit len k span) {x : Nat}
    (hx : span.1 ≤ x ∧ x < span.2) : Kept hit len k x := by
  obtain ⟨piece, hpiece, hbegin, _, hend, _⟩ := htaken.spec h
  exact ⟨piece, hpiece, by omega, by omega⟩

/-- A character that is left was left before, and is in nothing that was taken out. -/
theorem Kept.before (h : Finds len full hit) {x : Nat} (hkept : Kept hit len (k + 1) x) :
    Kept hit len k x ∧ ∀ span, Taken hit len k span → ¬ (span.1 ≤ x ∧ x < span.2) := by
  obtain ⟨piece, hpiece, hx⟩ := hkept
  obtain ⟨whole, hwhole, hpiece⟩ := List.mem_flatMap.mp hpiece
  obtain ⟨hle, hlen⟩ := h.piece_bounds k whole hwhole
  have hcuts := h.cuts k hle hlen
  obtain ⟨hbegin, _, hend⟩ := hcuts.piece_bounds piece hpiece
  have hin : whole.1 ≤ x ∧ x < whole.2 := by omega
  refine ⟨⟨whole, hwhole, hin⟩, ?_⟩
  rintro span ⟨other, hother, hspan⟩ hwithin
  obtain ⟨hle', hlen'⟩ := h.piece_bounds k other hother
  obtain ⟨hbegin', _, hend', _⟩ := (h.cuts k hle' hlen').taken_bounds span hspan
  have hotherIn : other.1 ≤ x ∧ x < other.2 := by omega
  cases h.same_piece hother hwhole hotherIn hin
  rcases hcuts.apart piece hpiece span hspan with hapart | hapart
  · omega
  · omega

theorem Kept.earlier (h : Finds len full hit) {l x : Nat} (hkept : Kept hit len k x) (hle : l ≤ k) :
    Kept hit len l x := by
  induction k with
  | zero =>
      cases Nat.le_zero.mp hle
      exact hkept
  | succ k ih =>
      rcases Nat.lt_or_ge l (k + 1) with hlt | hge
      · exact ih (hkept.before h).1 (by omega)
      · cases Nat.le_antisymm hle hge
        exact hkept

/-- A character that is not left was taken out by some pass. -/
theorem taken_of_not_kept (h : Finds len full hit) {x : Nat} (hx : x < len) (hnot : ¬ Kept hit len k x) :
    ∃ l < k, ∃ span, Taken hit len l span ∧ span.1 ≤ x ∧ x < span.2 := by
  induction k with
  | zero => exact absurd ⟨_, List.mem_singleton_self _, Nat.zero_le _, hx⟩ hnot
  | succ k ih =>
      by_cases hbefore : Kept hit len k x
      · obtain ⟨piece, hpiece, hin⟩ := hbefore
        obtain ⟨hle, hlen⟩ := h.piece_bounds k piece hpiece
        rcases (h.cuts k hle hlen).covers hin.1 hin.2 with ⟨part, hpart, hwithin⟩ | ⟨span, hspan, hwithin⟩
        · exact absurd ⟨part, List.mem_flatMap.mpr ⟨piece, hpiece, hpart⟩, hwithin⟩ hnot
        · exact ⟨k, Nat.lt_succ_self k, span, ⟨piece, hpiece, hspan⟩, hwithin⟩
      · obtain ⟨l, hl, hspan⟩ := ih hbefore
        exact ⟨l, Nat.lt_succ_of_lt hl, hspan⟩

/-- Two spans that one pass takes out do not overlap. -/
theorem Taken.apart (h : Finds len full hit) {a b : Span} (ha : Taken hit len k a) (hb : Taken hit len k b) {x : Nat}
    (hax : a.1 ≤ x ∧ x < a.2) (hbx : b.1 ≤ x ∧ x < b.2) : a = b := by
  obtain ⟨piece, hpiece, ha⟩ := ha
  obtain ⟨other, hother, hb⟩ := hb
  have hcuts := h.cuts k (h.piece_bounds k piece hpiece).1 (h.piece_bounds k piece hpiece).2
  have hcuts' := h.cuts k (h.piece_bounds k other hother).1 (h.piece_bounds k other hother).2
  obtain ⟨habegin, _, haend, _⟩ := hcuts.taken_bounds a ha
  obtain ⟨hbbegin, _, hbend, _⟩ := hcuts'.taken_bounds b hb
  have hin : piece.1 ≤ x ∧ x < piece.2 := by omega
  have hin' : other.1 ≤ x ∧ x < other.2 := by omega
  cases h.same_piece hpiece hother hin hin'
  rcases apart_of_sorted hcuts.taken_sorted ha hb with heq | hapart | hapart
  · exact heq
  · omega
  · omega

/-- A piece that does not reach to the end of the text ends where something was taken out. -/
theorem Finds.piece_ends (h : Finds len full hit) (k : Nat) : ∀ piece ∈ piecesAfter hit len k,
    piece.2 = len ∨ ∃ l < k, ∃ span, Taken hit len l span ∧ span.1 = piece.2 := by
  induction k with
  | zero =>
      intro piece hpiece
      rw [List.mem_singleton.mp hpiece]
      exact Or.inl rfl
  | succ k ih =>
      intro piece hpiece
      obtain ⟨whole, hwhole, hpiece⟩ := List.mem_flatMap.mp hpiece
      obtain ⟨hle, hlen⟩ := h.piece_bounds k whole hwhole
      rcases (h.cuts k hle hlen).piece_ends piece hpiece with hend | ⟨span, hspan, hend⟩
      · rcases ih whole hwhole with hwholeEnd | ⟨l, hl, span, hspan, hbegin⟩
        · exact Or.inl (hend.trans hwholeEnd)
        · exact Or.inr ⟨l, Nat.lt_succ_of_lt hl, span, hspan, hbegin.trans hend.symm⟩
      · exact Or.inr ⟨k, Nat.lt_succ_self k, span, ⟨whole, hwhole, hspan⟩, hend⟩

/-- A piece that does not begin with the text begins after something that was taken out. -/
theorem Finds.piece_begins (h : Finds len full hit) (k : Nat) : ∀ piece ∈ piecesAfter hit len k,
    piece.1 = 0 ∨ ∃ l < k, ∃ whole ∈ piecesAfter hit len l, ∃ span : Span,
      whole.1 ≤ span.1 ∧ hit l whole.2 span.1 = some (span.2 - span.1) ∧ span.1 < span.2 ∧ span.2 = piece.1 ∧
        piece.2 ≤ whole.2 := by
  induction k with
  | zero =>
      intro piece hpiece
      rw [List.mem_singleton.mp hpiece]
      exact Or.inl rfl
  | succ k ih =>
      intro piece hpiece
      obtain ⟨whole, hwhole, hpiece⟩ := List.mem_flatMap.mp hpiece
      obtain ⟨hle, hlen⟩ := h.piece_bounds k whole hwhole
      have hcuts := h.cuts k hle hlen
      obtain ⟨_, _, hend⟩ := hcuts.piece_bounds piece hpiece
      rcases hcuts.piece_begins piece hpiece with hbegin | ⟨span, hspan, hbegin⟩
      · rw [hbegin]
        rcases ih whole hwhole with hwholeBegin | ⟨l, hl, outer, houter, span, hspan, hsome, hlt, hafter, hwithin⟩
        · exact Or.inl hwholeBegin
        · exact Or.inr ⟨l, Nat.lt_succ_of_lt hl, outer, houter, span, hspan, hsome, hlt, hafter, le_trans hend hwithin⟩
      · obtain ⟨hafter, hlt, _, hsome⟩ := hcuts.taken_bounds span hspan
        exact Or.inr ⟨k, Nat.lt_succ_self k, whole, hwhole, span, hafter, hsome, hlt, hbegin, hend⟩

end Passes

/-! ## What stands is taken out -/

section Stands

variable {full : Nat → Nat → Nat → Prop} {hit : Nat → Nat → Nat → Option Nat} {len k i e : Nat}

theorem stands_iff : Stands full k i e ↔
    full k i e ∧ ∀ l j d, (l < k ∨ l = k ∧ j < i) → Stands full l j d → d ≤ i ∨ e ≤ j := by
  rw [Stands]

/-- A match is taken out where all of it is left and nothing that begins before it in this pass reaches into it. -/
theorem taken_of_kept (h : Finds len full hit) (hfull : full k i e) (hkept : ∀ x, i ≤ x → x < e → Kept hit len k x)
    (hbefore : ∀ span, Taken hit len k span → span.1 < i → span.2 ≤ i) : ∃ d, e ≤ d ∧ Taken hit len k (i, d) := by
  obtain ⟨hlt, hlen⟩ := h.bounds k i e hfull
  obtain ⟨piece, hpiece, hin⟩ := hkept i le_rfl hlt
  obtain ⟨hle, hpieceLen⟩ := h.piece_bounds k piece hpiece
  -- the piece does not end within the match, since something that was taken out begins there
  have hend : e ≤ piece.2 := by
    by_contra hshort
    rcases h.piece_ends k piece hpiece with hend | ⟨l, hl, span, hspan, hbegin⟩
    · omega
    · obtain ⟨_, _, _, hspanLt, _⟩ := hspan.spec h
      have hkeptEnd := (hkept piece.2 (by omega) (by omega)).earlier h (show l + 1 ≤ k from hl)
      exact (hkeptEnd.before h).2 span hspan ⟨by omega, by omega⟩
  have hcuts := h.cuts k hle hpieceLen
  obtain ⟨n, hsome, hreach⟩ := h.longest k piece.2 i e hpieceLen hfull hend
  rcases hcuts.covers hin.1 hin.2 with ⟨part, hpart, hwithin⟩ | ⟨span, hspan, hwithin⟩
  · rw [hcuts.missed hin.1 part hpart hwithin.1 hwithin.2] at hsome
    cases hsome
  · rcases Nat.lt_or_ge span.1 i with hlt | hge
    · have hno := hbefore span ⟨piece, hpiece, hspan⟩ hlt
      omega
    · have hbegin : span.1 = i := by omega
      obtain ⟨_, _, _, hspanSome⟩ := hcuts.taken_bounds span hspan
      rw [hbegin, hsome] at hspanSome
      refine ⟨span.2, ?_, piece, hpiece, hbegin ▸ hspan⟩
      have hn := Option.some.inj hspanSome
      omega

/-- What stands is taken out, by a match that begins there, and what is taken out stands. -/
theorem stands_taken (h : Finds len full hit) (k i : Nat) :
    (∀ e, Stands full k i e → ∃ d, e ≤ d ∧ Taken hit len k (i, d)) ∧
      ∀ d, Taken hit len k (i, d) → Stands full k i d := by
  induction k using Nat.strongRecOn generalizing i with
  | _ k ihk =>
      induction i using Nat.strongRecOn with
      | _ i ihi =>
          constructor
          · intro e hstands
            obtain ⟨hfull, hfree⟩ := stands_iff.mp hstands
            refine taken_of_kept h hfull ?_ ?_
            · intro x hix hxe
              by_contra hnot
              have hxlen : x < len := lt_of_lt_of_le hxe (h.bounds k i e hfull).2
              obtain ⟨l, hl, span, hspan, hwithin⟩ := taken_of_not_kept h hxlen hnot
              rcases hfree l span.1 span.2 (Or.inl hl) ((ihk l hl span.1).2 span.2 hspan) with hapart | hapart
              · omega
              · omega
            · intro span hspan hlt
              rcases hfree k span.1 span.2 (Or.inr ⟨rfl, hlt⟩) ((ihi span.1 hlt).2 span.2 hspan) with hapart | hapart
              · exact hapart
              · have hie := (h.bounds k i e hfull).1
                omega
          · intro d htaken
            obtain ⟨_, _, _, hlt, _, _, hfull⟩ := htaken.spec h
            refine stands_iff.mpr ⟨hfull, fun l j c horder hstands => ?_⟩
            by_contra hoverlap
            rw [not_or, Nat.not_le, Nat.not_le] at hoverlap
            dsimp only at hlt
            rcases horder with hl | ⟨rfl, hj⟩
            · obtain ⟨c', hc', hother⟩ := (ihk l hl j).1 c hstands
              obtain ⟨_, _, _, hjc, _⟩ := hother.spec h
              dsimp only at hjc
              have hkept : Kept hit len k (max i j) := htaken.kept h ⟨le_max_left _ _, by dsimp only; omega⟩
              exact ((hkept.earlier h (show l + 1 ≤ k from hl)).before h).2 _ hother ⟨le_max_right _ _, by dsimp only; omega⟩
            · obtain ⟨c', hc', hother⟩ := (ihi j hj).1 c hstands
              have heq := hother.apart h htaken (x := i) ⟨by dsimp only; omega, by dsimp only; omega⟩ ⟨le_rfl, hlt⟩
              cases heq
              exact absurd hj (Nat.lt_irrefl _)

/-- A character is gone after some passes just where it is in a match that stands. -/
theorem not_kept_iff (h : Finds len full hit) {x : Nat} (hx : x < len) :
    ¬ Kept hit len k x ↔ ∃ l < k, ∃ i e, i ≤ x ∧ x < e ∧ Stands full l i e := by
  constructor
  · intro hnot
    obtain ⟨l, hl, span, hspan, hwithin⟩ := taken_of_not_kept h hx hnot
    exact ⟨l, hl, span.1, span.2, hwithin.1, hwithin.2, (stands_taken h l span.1).2 span.2 hspan⟩
  · rintro ⟨l, hl, i, e, hix, hxe, hstands⟩ hkept
    obtain ⟨d, hd, htaken⟩ := (stands_taken h l i).1 e hstands
    exact ((hkept.earlier h (show l + 1 ≤ k from hl)).before h).2 _ htaken ⟨hix, lt_of_lt_of_le hxe hd⟩

/-- No match of a pattern that was passed is left whole. -/
theorem not_full_of_kept (h : Finds len full hit) {l : Nat} (hl : l < k) (hkept : ∀ x, i ≤ x → x < e → Kept hit len k x) :
    ¬ full l i e := by
  intro hfull
  obtain ⟨hlt, hlen⟩ := h.bounds l i e hfull
  refine (not_kept_iff h (lt_of_lt_of_le hlt hlen)).mpr ⟨l, hl, i, e, le_rfl, hlt, ?_⟩ (hkept i le_rfl hlt)
  refine stands_iff.mpr ⟨hfull, fun l' j d horder hstands => ?_⟩
  by_contra hoverlap
  rw [not_or, Nat.not_le, Nat.not_le] at hoverlap
  have hl' : l' < k := by omega
  have hjd := (h.bounds l' j d (stands_iff.mp hstands).1).1
  have hin : max i j < len := by
    have hjlen := (h.bounds l' j d (stands_iff.mp hstands).1).2
    omega
  exact (not_kept_iff h hin).mpr ⟨l', hl', j, d, le_max_right _ _, by omega, hstands⟩
    (hkept _ (le_max_left _ _) (by omega))

/-- No match of the first pattern begins with a character that is left. -/
theorem not_full_zero_of_kept (h : Finds len full hit) (hk : 0 < k) (hkept : Kept hit len k i) : ¬ full 0 i e := by
  intro hfull
  obtain ⟨hlt, hlen⟩ := h.bounds 0 i e hfull
  have hi : i < len := lt_of_lt_of_le hlt hlen
  refine (not_kept_iff h hi).mpr ⟨0, hk, i, e, le_rfl, hlt, ?_⟩ hkept
  refine stands_iff.mpr ⟨hfull, fun l j d horder hstands => ?_⟩
  by_contra hoverlap
  rw [not_or, Nat.not_le, Nat.not_le] at hoverlap
  rcases horder with hl | ⟨rfl, hj⟩
  · exact Nat.not_lt_zero l hl
  · exact (not_kept_iff h hi).mpr ⟨0, hk, j, d, Nat.le_of_lt hj, hoverlap.1, hstands⟩ hkept

end Stands

end Spans
