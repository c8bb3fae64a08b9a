import AtlasFlow.Concurrency.Pool

/-!
# Programs that come to an end

`wp` says what holds if a program returns. Here a process runs while nobody else moves, and it is
shown to return: `total` is the precondition under which a program is answered at every call and
returns in its postcondition whatever it is answered; a program that goes round a loop needs, besides
that, a measure that every round makes smaller (`Terminates.of_total`).
-/

namespace Concurrency

open Relation (ReflTransGen)

variable {ι Op : Type} {Ret : Op → Type} {ε σ ρ W α β : Type}

/-! ## One program -/

/-- Alone, `p` is answered at every call and returns in `Q`. -/
def total (exec : (o : Op) → W → Ret o → Option W) :
    Prog Op Ret ε α → (α → W → Prop) → W → Prop
  | .ret a, Q => Q a
  | .raise _, _ => fun _ => False
  | .call o k, Q => fun w =>
      (∃ r w', exec o w r = some w') ∧ ∀ r w', exec o w r = some w' → total exec (k r) Q w'

section Rules

variable {exec : (o : Op) → W → Ret o → Option W}

@[simp] theorem total_ret (a : α) (Q : α → W → Prop) (w : W) :
    total exec (.ret a : Prog Op Ret ε α) Q w ↔ Q a w := Iff.rfl

theorem total_call {o : Op} {k : Ret o → Prog Op Ret ε α} {Q : α → W → Prop} {w : W} (r₀ : Ret o) {w₀ : W}
    (hanswer : exec o w r₀ = some w₀)
    (hstep : ∀ r w', exec o w r = some w' → total exec (k r) Q w') :
    total exec (.call o k) Q w := ⟨⟨r₀, w₀, hanswer⟩, hstep⟩

theorem total_mono {p : Prog Op Ret ε α} {Q Q' : α → W → Prop} {w : W} (h : total exec p Q w)
    (hQ : ∀ a w, Q a w → Q' a w) : total exec p Q' w := by
  induction p generalizing w with
  | ret a => exact hQ a w h
  | raise e => exact h
  | call o k ih =>
      obtain ⟨hanswer, hrest⟩ := h
      exact ⟨hanswer, fun r w' hexec => ih r (hrest r w' hexec)⟩

theorem total_bind {p : Prog Op Ret ε α} {f : α → Prog Op Ret ε β} {Q : β → W → Prop} {w : W} :
    total exec (p.bind f) Q w ↔ total exec p (fun a => total exec (f a) Q) w := by
  induction p generalizing w with
  | ret a => exact Iff.rfl
  | raise e => exact Iff.rfl
  | call o k ih =>
      constructor
      · rintro ⟨hanswer, hrest⟩
        exact ⟨hanswer, fun r w' hexec => (ih r).mp (hrest r w' hexec)⟩
      · rintro ⟨hanswer, hrest⟩
        exact ⟨hanswer, fun r w' hexec => (ih r).mpr (hrest r w' hexec)⟩

/-- Sequencing from an intermediate assertion. -/
theorem total_seq {p : Prog Op Ret ε α} {f : α → Prog Op Ret ε β} {M : α → W → Prop} {Q : β → W → Prop}
    {w : W} (hp : total exec p M w) (hf : ∀ a w, M a w → total exec (f a) Q w) :
    total exec (p.bind f) Q w :=
  total_bind.mpr (total_mono hp hf)

/-- The rule for a loop over a list: an invariant of the elements already done. -/
theorem total_forEach {body : β → Prog Op Ret ε Unit} {all : List β} {w : W} (Inv : List β → W → Prop)
    (hinv : Inv [] w)
    (hbody : ∀ (done : List β) (b : β) (rest : List β) (w : W), all = done ++ b :: rest → Inv done w →
      total exec (body b) (fun _ => Inv (done ++ [b])) w) :
    total exec (Prog.forEach body all) (fun _ => Inv all) w := by
  suffices h : ∀ todo done w, all = done ++ todo → Inv done w →
      total exec (Prog.forEach body todo) (fun _ => Inv all) w from h all [] w rfl hinv
  intro todo
  induction todo with
  | nil =>
      intro done w hall hdone
      rw [List.append_nil] at hall
      subst hall
      exact hdone
  | cons b bs ih =>
      intro done w hall hdone
      refine total_seq (hbody done b bs w hall hdone) fun _ w' hdone' => ?_
      exact ih (done ++ [b]) w' (by simp [hall]) hdone'

/-- A program that comes to an end can be run to it. -/
theorem total.runs {p : Prog Op Ret ε α} {Q : α → W → Prop} {w : W} (h : total exec p Q w) :
    ∃ a w', Prog.Runs exec p w (.ok a) w' ∧ Q a w' := by
  induction p generalizing w with
  | ret a => exact ⟨a, w, .ret, h⟩
  | raise e => exact h.elim
  | call o k ih =>
      obtain ⟨⟨r, w₁, hexec⟩, hrest⟩ := h
      obtain ⟨a, w', hruns, ha⟩ := ih r (hrest r w₁ hexec)
      exact ⟨a, w', .call hexec hruns, ha⟩

end Rules

/-! ## One process of a pool -/

section Process

variable (S : System ι Op Ret ε σ ρ W) (i : ι) (Q : ρ → W → Prop)

/-- Process `i`, with `p` left to do, comes to its end in `Q`, however it is answered. -/
inductive Ends : Prog Op Ret ε (σ ⊕ ρ) → W → Prop
  | ret {r : ρ} {w : W} (hr : Q r w) : Ends (.ret (.inr r)) w
  | jump {s : σ} {w : W} (hrest : Ends (S.code i s) w) : Ends (.ret (.inl s)) w
  | call {o : Op} {k : Ret o → Prog Op Ret ε (σ ⊕ ρ)} {w : W} (hanswer : ∃ r w', S.exec i o w r = some w')
      (hrest : ∀ r w', S.exec i o w r = some w' → Ends (k r) w') : Ends (.call o k) w

variable {S i Q}

/-- What a program that returns leaves to do comes to an end, so the program does. -/
theorem Ends.of_total {p : Prog Op Ret ε (σ ⊕ ρ)} {w : W}
    (h : total (S.exec i) p (fun
      | .inl s => Ends S i Q (S.code i s)
      | .inr r => Q r) w) : Ends S i Q p w := by
  induction p generalizing w with
  | ret x =>
      cases x with
      | inl s => exact .jump h
      | inr r => exact .ret h
  | raise e => exact h.elim
  | call o k ih =>
      obtain ⟨hanswer, hrest⟩ := h
      exact .call hanswer fun r w' hexec => ih r (hrest r w' hexec)

/-- **A loop comes to an end** if every round does, and makes a measure smaller. -/
theorem Ends.of_measure (Pre : σ → W → Prop) (measure : σ → W → Nat)
    (hround : ∀ s w, Pre s w → total (S.exec i) (S.code i s) (fun
      | .inl s' => fun w' => Pre s' w' ∧ measure s' w' < measure s w
      | .inr r => Q r) w) {s : σ} {w : W} (hpre : Pre s w) : Ends S i Q (S.code i s) w := by
  suffices h : ∀ n s w, measure s w < n → Pre s w → Ends S i Q (S.code i s) w from
    h _ s w (Nat.lt_succ_self _) hpre
  intro n
  induction n with
  | zero => exact fun s w hlt => absurd hlt (Nat.not_lt_zero _)
  | succ n ih =>
      intro s w hlt hpre
      refine .of_total (total_mono (hround s w hpre) fun x w' hx => ?_)
      cases x with
      | inl s' => exact ih s' w' (by omega) hx.1
      | inr r => exact hx

variable [DecidableEq ι]

/-- Nobody but process `i` can move. -/
structure Solo (S : System ι Op Ret ε σ ρ W) (i : ι) (c : Conf ι Op Ret ε σ ρ W) : Prop where
  refused : ∀ j, j ≠ i → ∀ o w (r : Ret o), S.exec j o w r = none
  still : ∀ j, j ≠ i → ∀ s, c.cur j ≠ .ret (.inl s)

variable {c c' : Conf ι Op Ret ε σ ρ W}

/-- A step while nobody but `i` can move is a step of `i`. -/
theorem Solo.cases (hsolo : Solo S i c) (hnext : S.Next c c') :
    Solo S i c' ∧
      ((∃ o k r, c.cur i = .call o k ∧ S.exec i o c.world r = some c'.world ∧ c'.cur i = k r) ∨
        ∃ s, c.cur i = .ret (.inl s) ∧ c'.cur i = S.code i s ∧ c'.world = c.world) := by
  have hothers : ∀ {p : Prog Op Ret ε (σ ⊕ ρ)} {w : W}, Solo S i ⟨Function.update c.cur i p, w⟩ := by
    intro p w
    refine ⟨hsolo.refused, fun j hj s => ?_⟩
    show Function.update c.cur i p j ≠ _
    rw [Function.update_of_ne hj]
    exact hsolo.still j hj s
  obtain ⟨l, hstep⟩ := hnext
  cases hstep with
  | @call j o k r w' hcur hexec =>
      obtain rfl : j = i := by
        by_contra hj
        rw [hsolo.refused j hj] at hexec
        cases hexec
      exact ⟨hothers, .inl ⟨o, k, r, hcur, hexec, Function.update_self ..⟩⟩
  | @jump j s hcur =>
      obtain rfl : j = i := by
        by_contra hj
        exact hsolo.still j hj s hcur
      exact ⟨hothers, .inr ⟨s, hcur, Function.update_self .., rfl⟩⟩

theorem Ends.step (h : Ends S i Q (c.cur i) c.world) (hsolo : Solo S i c) (hnext : S.Next c c') :
    Ends S i Q (c'.cur i) c'.world := by
  rcases (hsolo.cases hnext).2 with ⟨o, k, r, hcur, hexec, hcur'⟩ | ⟨s, hcur, hcur', hworld⟩
  · rw [hcur] at h
    cases h with
    | call _ hrest =>
        rw [hcur']
        exact hrest r c'.world hexec
  · rw [hcur] at h
    cases h with
    | jump hrest =>
        rw [hcur', hworld]
        exact hrest

theorem Ends.steps (h : Ends S i Q (c.cur i) c.world) (hsolo : Solo S i c) (hsteps : S.Steps c c') :
    Ends S i Q (c'.cur i) c'.world ∧ Solo S i c' := by
  induction hsteps with
  | refl => exact ⟨h, hsolo⟩
  | tail _ hnext ih => exact ⟨ih.1.step ih.2 hnext, (ih.2.cases hnext).1⟩

/-- No run is infinite. -/
theorem Ends.acc {p : Prog Op Ret ε (σ ⊕ ρ)} {w : W} (h : Ends S i Q p w) (hp : c.cur i = p)
    (hw : c.world = w) (hsolo : Solo S i c) : Acc (fun c' c => S.Next c c') c := by
  induction h generalizing c with
  | @ret r w hr =>
      refine .intro _ fun c' hnext => ?_
      rcases (hsolo.cases hnext).2 with ⟨o, k, r, hcur, -⟩ | ⟨s, hcur, -⟩ <;> rw [hp] at hcur <;> cases hcur
  | @jump s w hrest ih =>
      refine .intro _ fun c' hnext => ?_
      obtain ⟨hsolo', ⟨o, k, r, hcur, -⟩ | ⟨s', hcur, hcur', hworld⟩⟩ := hsolo.cases hnext
      · rw [hp] at hcur
        cases hcur
      · rw [hp] at hcur
        cases hcur
        exact ih hcur' (hworld.trans hw) hsolo'
  | @call o k w hanswer hrest ih =>
      refine .intro _ fun c' hnext => ?_
      obtain ⟨hsolo', ⟨o', k', r, hcur, hexec, hcur'⟩ | ⟨s, hcur, -⟩⟩ := hsolo.cases hnext
      · rw [hp] at hcur
        cases hcur
        rw [hw] at hexec
        exact ih r _ hexec hcur' rfl hsolo'
      · rw [hp] at hcur
        cases hcur

/-- **Process `i` terminates in `Q`**: no run goes on for ever, and wherever a run has got to, the
process has returned in `Q`, or nothing has been thrown and the run can go on. -/
structure Terminates (S : System ι Op Ret ε σ ρ W) (i : ι) (Q : ρ → W → Prop)
    (c : Conf ι Op Ret ε σ ρ W) : Prop where
  finite : Acc (fun c' c => S.Next c c') c
  ends : ∀ c', S.Steps c c' → (∃ r, c'.cur i = .ret (.inr r) ∧ Q r c'.world) ∨
    ((∀ e, c'.cur i ≠ .raise e) ∧ ∃ c'', S.Next c' c'')

/-- There is a run to the end. -/
theorem Terminates.exists_end (h : Terminates S i Q c) :
    ∃ c' r, S.Steps c c' ∧ c'.cur i = .ret (.inr r) ∧ Q r c'.world := by
  obtain ⟨hacc, hends⟩ := h
  induction hacc with
  | intro c _ ih =>
      rcases hends c .refl with ⟨r, hret, hr⟩ | ⟨-, c', hnext⟩
      · exact ⟨c, r, .refl, hret, hr⟩
      · obtain ⟨c'', r, hsteps, hret, hr⟩ := ih c' hnext fun c'' hsteps => hends c'' (.head hnext hsteps)
        exact ⟨c'', r, .head hnext hsteps, hret, hr⟩

theorem Ends.terminates (h : Ends S i Q (c.cur i) c.world) (hsolo : Solo S i c) :
    Terminates S i Q c := by
  refine ⟨h.acc rfl rfl hsolo, fun c' hsteps => ?_⟩
  have h' := (h.steps hsolo hsteps).1
  generalize hcur : c'.cur i = p at h'
  generalize hworld : c'.world = w at h'
  cases h' with
  | @ret r w hr => exact .inl ⟨r, rfl, hr⟩
  | @jump s w hrest => exact .inr ⟨fun e => nofun, _, _, .jump hcur⟩
  | @call o k w hanswer hrest =>
      obtain ⟨r, w', hexec⟩ := hanswer
      exact .inr ⟨fun e => nofun, _, _, .call hcur (hworld ▸ hexec)⟩

end Process

end Concurrency
