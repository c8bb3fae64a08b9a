import AtlasFlow.Concurrency.Pool

/-!
# Watching programs

A monitor reads the calls of one process with their answers, in a memory of its own, and says which
calls it allows. It does not look at the world, so that a program keeps to it is a fact about the
program's text. Where every process of a pool keeps to its monitor, what every allowed call keeps of
the steps so far, the memories and the world holds along every run (`Path.watched`).
-/

namespace Concurrency

variable {ι Op : Type} {Ret : Op → Type} {ε σ ρ W V α β : Type}

/-! ## The calls in a program's text -/

namespace Prog

/-- Every call `p` can make meets `ok`, whatever its calls are answered. -/
def Calls (ok : Op → Prop) : Prog Op Ret ε α → Prop
  | .ret _ => True
  | .raise _ => True
  | .call o k => ok o ∧ ∀ r, Calls ok (k r)

variable {ok ok' : Op → Prop}

@[simp] theorem calls_ret (a : α) : Calls ok (.ret a : Prog Op Ret ε α) := trivial

@[simp] theorem calls_raise (e : ε) : Calls ok (.raise e : Prog Op Ret ε α) := trivial

@[simp] theorem calls_call {o : Op} {k : Ret o → Prog Op Ret ε α} :
    Calls ok (.call o k) ↔ ok o ∧ ∀ r, Calls ok (k r) := Iff.rfl

@[simp] theorem calls_op {o : Op} : Calls ok (op o : Prog Op Ret ε (Ret o)) ↔ ok o :=
  ⟨fun h => h.1, fun h => ⟨h, fun _ => trivial⟩⟩

@[simp] theorem calls_ofExcept (x : Except ε α) : Calls ok (ofExcept x : Prog Op Ret ε α) := by
  cases x <;> trivial

/-- The calls of a program among more operations. -/
theorem calls_inl {Op₂ : Type} {Ret₂ : Op₂ → Type} {ok : Op ⊕ Op₂ → Prop} {p : Prog Op Ret ε α} :
    Calls ok (inl p : Prog (Op ⊕ Op₂) (RetSum Ret Ret₂) ε α) ↔ p.Calls fun o => ok (.inl o) := by
  induction p with
  | ret a => exact Iff.rfl
  | raise e => exact Iff.rfl
  | call o k ih => exact and_congr_right fun _ => forall_congr' ih

theorem Calls.mono {p : Prog Op Ret ε α} (h : p.Calls ok) (hok : ∀ o, ok o → ok' o) : p.Calls ok' := by
  induction p with
  | ret a => trivial
  | raise e => trivial
  | call o k ih => exact ⟨hok o h.1, fun r => ih r (h.2 r)⟩

theorem Calls.bind {p : Prog Op Ret ε α} {f : α → Prog Op Ret ε β} (hp : p.Calls ok)
    (hf : ∀ a, (f a).Calls ok) : (p.bind f).Calls ok := by
  induction p with
  | ret a => exact hf a
  | raise e => trivial
  | call o k ih => exact ⟨hp.1, fun r => ih r (hp.2 r)⟩

theorem Calls.handle {p : Prog Op Ret ε α} {h : ε → Prog Op Ret ε α} (hp : p.Calls ok)
    (hh : ∀ e, (h e).Calls ok) : (p.handle h).Calls ok := by
  induction p with
  | ret a => trivial
  | raise e => exact hh e
  | call o k ih => exact ⟨hp.1, fun r => ih r (hp.2 r)⟩

theorem Calls.forEach {body : α → Prog Op Ret ε Unit} (hbody : ∀ a, (body a).Calls ok) (as : List α) :
    (Prog.forEach body as).Calls ok := by
  induction as with
  | nil => trivial
  | cons a as ih => exact (hbody a).bind fun _ => ih

end Prog

/-- Any answer may come to a call, and both are written down. -/
def Prog.recording : (o : Op) → List ((o : Op) × Ret o) → Ret o → Option (List ((o : Op) × Ret o)) :=
  fun o h r => some (h ++ [⟨o, r⟩])

/-- A run found by answering the calls, with what was checked of it. -/
theorem Prog.exists_recorded (p : Prog Op Ret ε α) (answer : (o : Op) → Ret o)
    (check : Except ε α → List ((o : Op) × Ret o) → Bool)
    (h : ((run recording (fun o _ => answer o) p []).any fun x => check x.1 x.2) = true) :
    ∃ out h, Runs recording p [] out h ∧ check out h = true :=
  exists_runs recording (fun o _ => answer o) p [] check h

/-! ## Monitors -/

/-- What is remembered of the calls of a process, and which of them are allowed. -/
structure Monitor (Op : Type) (Ret : Op → Type) (V : Type) where
  next : (o : Op) → V → Ret o → V
  allows : (o : Op) → V → Prop

namespace Monitor

variable (M : Monitor Op Ret V)

/-- What a program that is watched keeps to: any answer may come, each call has to be allowed. -/
abbrev contract : Contract Op Ret V := alone (fun o v r => some (M.next o v r)) fun o v _ _ => M.allows o v

/-- A call the monitor does not care about while it remembers this. -/
def Spares (v : V) (o : Op) : Prop := M.allows o v ∧ ∀ r, M.next o v r = v

/-- A call the monitor does not care about. -/
def Ignores (o : Op) : Prop := ∀ v, M.allows o v ∧ ∀ r, M.next o v r = v

variable {M}

/-- The rule for a call. -/
theorem wp_call {o : Op} {k : Ret o → Prog Op Ret ε α} {Q : α → V → Prop} {F : ε → V → Prop} {v : V}
    (hallows : M.allows o v) (hrest : ∀ r, wp M.contract (k r) Q F (M.next o v r)) :
    wp M.contract (.call o k) Q F v := by
  apply wp_alone_call
  intro r v' hv'
  cases hv'
  exact ⟨hallows, hrest r⟩

/-- The rule for a program all of whose calls are spared. -/
theorem wp_spared {p : Prog Op Ret ε α} {v : V} (hp : p.Calls (M.Spares v)) :
    wp M.contract p (fun _ v' => v' = v) (fun _ v' => v' = v) v := by
  induction p with
  | ret a => rfl
  | raise e => rfl
  | call o k ih =>
      obtain ⟨hallows, hnext⟩ := hp.1
      apply wp_call hallows
      intro r
      rw [hnext r]
      exact ih r (hp.2 r)

/-- The rule for a program all of whose calls are ignored. -/
theorem wp_calls {p : Prog Op Ret ε α} (hp : p.Calls M.Ignores) (v : V) :
    wp M.contract p (fun _ v' => v' = v) (fun _ v' => v' = v) v := wp_spared (hp.mono fun _ ho => ho v)

/-- Sequencing after a program all of whose calls are ignored. -/
theorem wp_calls_bind {p : Prog Op Ret ε α} {f : α → Prog Op Ret ε β} {Q : β → V → Prop} {F : ε → V → Prop}
    {v : V} (hp : p.Calls M.Ignores) (hF : ∀ e, F e v) (hf : ∀ a, wp M.contract (f a) Q F v) :
    wp M.contract (p.bind f) Q F v := by
  refine wp_bind.mpr (wp_mono (wp_calls hp v) ?_ ?_)
  · rintro a _ rfl
    exact hf a
  · rintro e _ rfl
    exact hF e

/-- What a monitor remembers of calls and answers. -/
def read (M : Monitor Op Ret V) (v : V) (h : List ((o : Op) × Ret o)) : V := h.foldl (fun v x => M.next x.1 v x.2) v

/-- What is remembered of a program that keeps to its monitor, however its calls are answered. -/
theorem wp_recorded {p : Prog Op Ret ε α} {Q : α → V → Prop} {F : ε → V → Prop} {v : V}
    (hp : wp M.contract p Q F v) {out : Except ε α} {h : List ((o : Op) × Ret o)}
    (hruns : Prog.Runs Prog.recording p [] out h) :
    (∀ a, out = .ok a → Q a (M.read v h)) ∧ ∀ e, out = .error e → F e (M.read v h) := by
  refine wp_runs hp (hruns.map (M.read v) ?_)
  intro o h r h' hrecorded
  cases hrecorded
  simp [read]

end Monitor

/-! ## Runs of a pool that is watched -/

namespace System

variable {S : System ι Op Ret ε σ ρ W} [DecidableEq ι]

/-- What is asked of the memory where a process stops: at a restart point, what it starts again from. -/
def Resumes (pre : σ → V → Prop) : σ ⊕ ρ → V → Prop
  | .inl s => pre s
  | .inr _ => fun _ => True

/-- Every process keeps to its monitor in what is left of it. -/
def Watched (M : ι → Monitor Op Ret V) (pre : ι → σ → V → Prop) (v : ι → V) (c : Conf ι Op Ret ε σ ρ W) :
    Prop :=
  ∀ i, wp (M i).contract (c.cur i) (Resumes (pre i)) (fun _ _ => True) (v i)

/-- **What every allowed call keeps holds along every run** of a pool whose programs keep to their
monitors. -/
theorem Path.watched (M : ι → Monitor Op Ret V) (pre : ι → σ → V → Prop)
    (P : List (Label ι Op Ret σ) → (ι → V) → W → Prop)
    (hcode : ∀ i s v, pre i s v → wp (M i).contract (S.code i s) (Resumes (pre i)) (fun _ _ => True) v)
    (hcall : ∀ ls i o r v w w', (M i).allows o (v i) → S.exec i o w r = some w' → P ls v w →
      P (ls ++ [.call i o r]) (Function.update v i ((M i).next o (v i) r)) w')
    (hjump : ∀ ls i s v w, P ls v w → P (ls ++ [.jump i s]) v w)
    {s₀ : ι → σ} {w : W} (v₀ : ι → V) (hpre : ∀ i, pre i (s₀ i) (v₀ i)) (hinit : P [] v₀ w)
    {c : Conf ι Op Ret ε σ ρ W} {ls : List (Label ι Op Ret σ)} (hpath : S.Path (S.init s₀ w) ls c) :
    ∃ v, P ls v c.world ∧ Watched M pre v c := by
  induction hpath with
  | here => exact ⟨v₀, hinit, fun i => hcode i (s₀ i) (v₀ i) (hpre i)⟩
  | @step c₁ c₂ ls l hpath hstep ih =>
      obtain ⟨v, hP, hwatched⟩ := ih
      cases hstep with
      | @call i o k r w' hcur hexec =>
          have hi := hwatched i
          rw [hcur] at hi
          obtain ⟨hallows, hrest⟩ := hi (v i) rfl r _ rfl
          refine ⟨_, hcall ls i o r v _ w' hallows hexec hP, fun j => ?_⟩
          by_cases hji : j = i
          · subst hji
            simpa only [Function.update_self] using hrest
          · simpa only [Function.update_of_ne hji] using hwatched j
      | @jump i s hcur =>
          refine ⟨v, hjump ls i s v _ hP, fun j => ?_⟩
          by_cases hji : j = i
          · subst hji
            have hj := hwatched j
            rw [hcur] at hj
            simpa only [Function.update_self] using hcode j s (v j) hj
          · simpa only [Function.update_of_ne hji] using hwatched j

/-! ### The labels of a play -/

theorem Path.trans {c c₁ c₂ : Conf ι Op Ret ε σ ρ W} {ls ls' : List (Label ι Op Ret σ)} (h : S.Path c ls c₁)
    (h' : S.Path c₁ ls' c₂) : S.Path c (ls ++ ls') c₂ := by
  induction h' with
  | here =>
      rw [List.append_nil]
      exact h
  | step _ hstep ih =>
      rw [← List.append_assoc]
      exact ih.step hstep

variable (S)

/-- The step that `advance` takes. -/
def label (answer : (o : Op) → W → Ret o) (c : Conf ι Op Ret ε σ ρ W) (i : ι) : List (Label ι Op Ret σ) :=
  match c.cur i with
  | .call o _ =>
    match S.exec i o c.world (answer o c.world) with
    | some _ => [.call i o (answer o c.world)]
    | none => []
  | .ret (.inl s) => [.jump i s]
  | _ => []

/-- The steps of a schedule. -/
def labels : List (ι × ((o : Op) → W → Ret o)) → Conf ι Op Ret ε σ ρ W → List (Label ι Op Ret σ)
  | [], _ => []
  | m :: ms, c => S.label m.2 c m.1 ++ labels ms (S.advance m.2 c m.1)

theorem advance_path (answer : (o : Op) → W → Ret o) (c : Conf ι Op Ret ε σ ρ W) (i : ι) :
    S.Path c (S.label answer c i) (S.advance answer c i) := by
  cases hcur : c.cur i with
  | call o k =>
      cases hexec : S.exec i o c.world (answer o c.world) with
      | some w' =>
          simp only [label, advance, hcur, hexec]
          exact (Path.here c).step (.call hcur hexec)
      | none =>
          simp only [label, advance, hcur, hexec]
          exact .here c
  | ret x =>
      cases x with
      | inl s =>
          simp only [label, advance, hcur]
          exact (Path.here c).step (.jump hcur)
      | inr r =>
          simp only [label, advance, hcur]
          exact .here c
  | raise e =>
      simp only [label, advance, hcur]
      exact .here c

/-- What a schedule plays is a run with its labels. -/
theorem play_path (schedule : List (ι × ((o : Op) → W → Ret o))) (c : Conf ι Op Ret ε σ ρ W) :
    S.Path c (S.labels schedule c) (S.play schedule c) := by
  induction schedule generalizing c with
  | nil => exact .here c
  | cons m ms ih => exact (S.advance_path m.2 c m.1).trans (ih _)

end System

end Concurrency
