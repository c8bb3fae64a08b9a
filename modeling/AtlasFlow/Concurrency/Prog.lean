import Mathlib.Logic.Function.Basic

/-!
# Programs that call operations

A `Prog` is the text of a sequential program with its effects left open: it returns, raises, or
calls an operation `o : Op` and goes on with whatever answer `r : Ret o` it gets. Nothing here says
what an operation does; `Concurrency.Pool` gives the answers, one atomic call at a time, and lets
other programs run between two calls of this one. So every call is a point at which the rest of the
world may move, and everything between two calls is one indivisible step.

The type is inductive: a program ends after finitely many calls on every path. A loop that may run
for ever is written as a program that returns the state to start again from (`Pool.code`).
-/

namespace Concurrency

/-- The text of a program: `ret`urn, `raise`, or `call` an operation and continue with its answer. -/
inductive Prog (Op : Type) (Ret : Op → Type) (ε α : Type) : Type where
  | ret (a : α) : Prog Op Ret ε α
  | raise (e : ε) : Prog Op Ret ε α
  | call (o : Op) (k : Ret o → Prog Op Ret ε α) : Prog Op Ret ε α

namespace Prog

variable {Op : Type} {Ret : Op → Type} {ε α β γ : Type}

/-- Run `p`, then `f` on its result. An exception skips `f`. -/
def bind : Prog Op Ret ε α → (α → Prog Op Ret ε β) → Prog Op Ret ε β
  | .ret a, f => f a
  | .raise e, _ => .raise e
  | .call o k, f => .call o fun r => bind (k r) f

/-- Run `p`; an exception that escapes it continues with `h`. -/
def handle : Prog Op Ret ε α → (ε → Prog Op Ret ε α) → Prog Op Ret ε α
  | .ret a, _ => .ret a
  | .raise e, h => h e
  | .call o k, h => .call o fun r => handle (k r) h

/-- `try … finally`: `q` is run when `p` has ended, and an exception of `q` takes the place of what `p`
ended with. -/
def ensure : Prog Op Ret ε α → Prog Op Ret ε Unit → Prog Op Ret ε α
  | .ret a, q => bind q fun _ => .ret a
  | .raise e, q => bind q fun _ => .raise e
  | .call o k, q => .call o fun r => ensure (k r) q

/-- The program that makes one call and returns its answer. -/
def op (o : Op) : Prog Op Ret ε (Ret o) := .call o .ret

/-- A call whose answer may itself be an exception, raised where the call was made. -/
def ofExcept : Except ε α → Prog Op Ret ε α
  | .ok a => .ret a
  | .error e => .raise e

instance : Monad (Prog Op Ret ε) where
  pure := .ret
  bind := bind

instance : MonadExcept ε (Prog Op Ret ε) where
  throw := .raise
  tryCatch := handle

/-- `body` on every element of the list, in order. -/
def forEach (body : α → Prog Op Ret ε Unit) : List α → Prog Op Ret ε Unit
  | [] => .ret ()
  | a :: as => bind (body a) fun _ => forEach body as

/-- `body` on every element of the list, in order, keeping the results. -/
def mapEach (body : α → Prog Op Ret ε β) : List α → Prog Op Ret ε (List β)
  | [] => .ret []
  | a :: as => bind (body a) fun b => bind (mapEach body as) fun bs => .ret (b :: bs)

theorem ret_ne_call (a : α) (o : Op) (k : Ret o → Prog Op Ret ε α) : Prog.ret a ≠ .call o k := nofun

theorem raise_ne_call (e : ε) (o : Op) (k : Ret o → Prog Op Ret ε α) : Prog.raise e ≠ .call o k := nofun

theorem raise_ne_ret (e : ε) (a : α) : (Prog.raise e : Prog Op Ret ε α) ≠ .ret a := nofun

/-! ### Unfolding `bind` and `handle` -/

@[simp] theorem pure_eq (a : α) : (pure a : Prog Op Ret ε α) = .ret a := rfl

@[simp] theorem throw_eq (e : ε) : (throw e : Prog Op Ret ε α) = .raise e := rfl

@[simp] theorem bind_eq (p : Prog Op Ret ε α) (f : α → Prog Op Ret ε β) : p >>= f = p.bind f := rfl

@[simp] theorem tryCatch_eq (p : Prog Op Ret ε α) (h : ε → Prog Op Ret ε α) :
    tryCatch p h = p.handle h := rfl

@[simp] theorem ret_bind (a : α) (f : α → Prog Op Ret ε β) : (Prog.ret a).bind f = f a := rfl

@[simp] theorem raise_bind (e : ε) (f : α → Prog Op Ret ε β) :
    (Prog.raise e).bind f = .raise e := rfl

@[simp] theorem call_bind (o : Op) (k : Ret o → Prog Op Ret ε α) (f : α → Prog Op Ret ε β) :
    (Prog.call o k).bind f = .call o fun r => (k r).bind f := rfl

@[simp] theorem op_bind (o : Op) (f : Ret o → Prog Op Ret ε β) : (op o).bind f = .call o f := rfl

@[simp] theorem ret_handle (a : α) (h : ε → Prog Op Ret ε α) : (Prog.ret a).handle h = .ret a := rfl

@[simp] theorem raise_handle (e : ε) (h : ε → Prog Op Ret ε α) :
    (Prog.raise (α := α) e).handle h = h e := rfl

@[simp] theorem call_handle (o : Op) (k : Ret o → Prog Op Ret ε α) (h : ε → Prog Op Ret ε α) :
    (Prog.call o k).handle h = .call o fun r => (k r).handle h := rfl

@[simp] theorem ret_ensure (a : α) (q : Prog Op Ret ε Unit) : (Prog.ret a).ensure q = q.bind fun _ => .ret a := rfl

@[simp] theorem raise_ensure (e : ε) (q : Prog Op Ret ε Unit) :
    (Prog.raise (α := α) e).ensure q = q.bind fun _ => .raise e := rfl

@[simp] theorem call_ensure (o : Op) (k : Ret o → Prog Op Ret ε α) (q : Prog Op Ret ε Unit) :
    (Prog.call o k).ensure q = .call o fun r => (k r).ensure q := rfl

@[simp] theorem ofExcept_ok (a : α) : (ofExcept (.ok a) : Prog Op Ret ε α) = .ret a := rfl

@[simp] theorem ofExcept_error (e : ε) : (ofExcept (.error e) : Prog Op Ret ε α) = .raise e := rfl

/-- Sequencing is associative: where a program is cut into functions does not matter. -/
@[simp] theorem bind_assoc (p : Prog Op Ret ε α) (f : α → Prog Op Ret ε β)
    (g : β → Prog Op Ret ε γ) : (p.bind f).bind g = p.bind fun a => (f a).bind g := by
  induction p with
  | ret a => rfl
  | raise e => rfl
  | call o k ih =>
      show Prog.call o (fun r => ((k r).bind f).bind g) = .call o fun r => (k r).bind _
      congr 1
      funext r
      exact ih r

/-! ### Running a program alone

`Runs exec p w out w'`: nobody interferes, `exec` answers the calls, and `p`, started in `w`, ends
with `out` in `w'`. -/

variable {W : Type}

inductive Runs (exec : (o : Op) → W → Ret o → Option W) :
    Prog Op Ret ε α → W → Except ε α → W → Prop
  | ret {a : α} {w : W} : Runs exec (.ret a) w (.ok a) w
  | raise {e : ε} {w : W} : Runs exec (.raise e) w (.error e) w
  | call {o : Op} {k : Ret o → Prog Op Ret ε α} {r : Ret o} {w w₁ w' : W} {out : Except ε α}
      (hexec : exec o w r = some w₁) (hrest : Runs exec (k r) w₁ out w') :
      Runs exec (.call o k) w out w'

/-- `Cut exec p w w'`: nobody interferes, and `p`, started in `w`, is stopped in `w'`, after some of its
calls. -/
inductive Cut (exec : (o : Op) → W → Ret o → Option W) : Prog Op Ret ε α → W → W → Prop
  | here {p : Prog Op Ret ε α} {w : W} : Cut exec p w w
  | call {o : Op} {k : Ret o → Prog Op Ret ε α} {r : Ret o} {w w₁ w' : W}
      (hexec : exec o w r = some w₁) (hrest : Cut exec (k r) w₁ w') : Cut exec (.call o k) w w'

/-- Run a program against a strategy that picks the answers. -/
def run (exec : (o : Op) → W → Ret o → Option W) (answer : (o : Op) → W → Ret o) :
    Prog Op Ret ε α → W → Option (Except ε α × W)
  | .ret a, w => some (.ok a, w)
  | .raise e, w => some (.error e, w)
  | .call o k, w =>
    match exec o w (answer o w) with
    | some w₁ => run exec answer (k (answer o w)) w₁
    | none => none

/-- Run at most `n` calls of a program against such a strategy. -/
def runFor (exec : (o : Op) → W → Ret o → Option W) (answer : (o : Op) → W → Ret o) :
    Nat → Prog Op Ret ε α → W → W
  | n + 1, .call o k, w =>
    match exec o w (answer o w) with
    | some w₁ => runFor exec answer n (k (answer o w)) w₁
    | none => w
  | _, _, w => w

variable {exec : (o : Op) → W → Ret o → Option W}

theorem cut_runFor {answer : (o : Op) → W → Ret o} (n : Nat) (p : Prog Op Ret ε α) (w : W) :
    Cut exec p w (runFor exec answer n p w) := by
  fun_induction runFor exec answer n p w with
  | case1 n o k w w₁ hexec ih => exact .call hexec ih
  | case2 n o k w hexec => exact .here
  | case3 n p w hnot => exact .here

theorem runs_of_run {answer : (o : Op) → W → Ret o} {p : Prog Op Ret ε α} {w w' : W} {out : Except ε α}
    (h : run exec answer p w = some (out, w')) : Runs exec p w out w' := by
  induction p generalizing w with
  | ret a =>
      cases h
      exact .ret
  | raise e =>
      cases h
      exact .raise
  | call o k ih =>
      rw [run] at h
      split at h
      · next w₁ hexec => exact .call hexec (ih _ h)
      · cases h

/-- A run found by answering the calls, with what was checked of it. -/
theorem exists_runs (exec : (o : Op) → W → Ret o → Option W) (answer : (o : Op) → W → Ret o)
    (p : Prog Op Ret ε α) (w : W) (check : Except ε α → W → Bool)
    (h : ((run exec answer p w).any fun x => check x.1 x.2) = true) :
    ∃ out w', Runs exec p w out w' ∧ check out w' = true := by
  cases hrun : run exec answer p w with
  | none =>
      rw [hrun] at h
      cases h
  | some x =>
      rw [hrun] at h
      exact ⟨x.1, x.2, runs_of_run hrun, h⟩

@[simp] theorem runs_ret {a : α} {w w' : W} {out : Except ε α} :
    Runs exec (.ret a : Prog Op Ret ε α) w out w' ↔ out = .ok a ∧ w' = w := by
  constructor
  · intro h
    cases h
    exact ⟨rfl, rfl⟩
  · rintro ⟨rfl, rfl⟩
    exact .ret

@[simp] theorem runs_raise {e : ε} {w w' : W} {out : Except ε α} :
    Runs exec (.raise e : Prog Op Ret ε α) w out w' ↔ out = .error e ∧ w' = w := by
  constructor
  · intro h
    cases h
    exact ⟨rfl, rfl⟩
  · rintro ⟨rfl, rfl⟩
    exact .raise

theorem runs_call {o : Op} {k : Ret o → Prog Op Ret ε α} {w w' : W} {out : Except ε α} :
    Runs exec (.call o k) w out w' ↔
      ∃ r w₁, exec o w r = some w₁ ∧ Runs exec (k r) w₁ out w' := by
  constructor
  · intro h
    cases h with
    | call hexec hrest => exact ⟨_, _, hexec, hrest⟩
  · rintro ⟨r, w₁, hexec, hrest⟩
    exact .call hexec hrest

/-- A sequence ran: its first part returned and the rest ran, or its first part raised. -/
theorem runs_bind {p : Prog Op Ret ε α} {f : α → Prog Op Ret ε β} {w w' : W}
    {out : Except ε β} :
    Runs exec (p.bind f) w out w' ↔
      (∃ a w₁, Runs exec p w (.ok a) w₁ ∧ Runs exec (f a) w₁ out w') ∨
        ∃ e, out = .error e ∧ Runs exec p w (.error e) w' := by
  induction p generalizing w with
  | ret a => simp [and_assoc]
  | raise e =>
      simp only [raise_bind, runs_raise, reduceCtorEq, false_and, exists_false, false_or,
        Except.error.injEq]
      constructor
      · rintro ⟨rfl, rfl⟩
        exact ⟨e, rfl, rfl, rfl⟩
      · rintro ⟨e', rfl, rfl, rfl⟩
        exact ⟨rfl, rfl⟩
  | call o k ih =>
      simp only [call_bind, runs_call, ih]
      constructor
      · rintro ⟨r, w₁, hexec, ⟨a, w₂, hp, hf⟩ | ⟨e, rfl, hp⟩⟩
        · exact .inl ⟨a, w₂, ⟨r, w₁, hexec, hp⟩, hf⟩
        · exact .inr ⟨e, rfl, r, w₁, hexec, hp⟩
      · rintro (⟨a, w₂, ⟨r, w₁, hexec, hp⟩, hf⟩ | ⟨e, rfl, r, w₁, hexec, hp⟩)
        · exact ⟨r, w₁, hexec, .inl ⟨a, w₂, hp, hf⟩⟩
        · exact ⟨r, w₁, hexec, .inr ⟨e, rfl, hp⟩⟩

/-- A program that returns raises nothing that could be handled. -/
theorem Runs.handle {p : Prog Op Ret ε α} {h : ε → Prog Op Ret ε α} {w w' : W} {a : α}
    (hp : Runs exec p w (.ok a) w') : Runs exec (p.handle h) w (.ok a) w' := by
  generalize hout : Except.ok a = out at hp
  induction hp with
  | ret => exact .ret
  | raise => cases hout
  | call hexec _ ih => exact .call hexec (ih hout)

/-! ### Programs with more operations

A program that calls some operations is a program among more of them. -/

section Sum

variable {Op₂ : Type} {Ret₂ : Op₂ → Type}

/-- The answers of two families of operations. -/
abbrev RetSum (Ret : Op → Type) (Ret₂ : Op₂ → Type) : Op ⊕ Op₂ → Type
  | .inl o => Ret o
  | .inr o => Ret₂ o

/-- The same program, where there are other operations too. -/
def inl : Prog Op Ret ε α → Prog (Op ⊕ Op₂) (RetSum Ret Ret₂) ε α
  | .ret a => .ret a
  | .raise e => .raise e
  | .call o k => .call (.inl o) fun r => inl (k r)

theorem inl_bind (p : Prog Op Ret ε α) (f : α → Prog Op Ret ε β) :
    (inl (p.bind f) : Prog (Op ⊕ Op₂) (RetSum Ret Ret₂) ε β) = (inl p).bind fun a => inl (f a) := by
  induction p with
  | ret a => rfl
  | raise e => rfl
  | call o k ih =>
      show Prog.call (.inl o) (fun r => inl ((k r).bind f)) = .call (.inl o) fun r => (inl (k r)).bind _
      congr 1
      funext r
      exact ih r

variable {exec₂ : (o : Op ⊕ Op₂) → W → RetSum Ret Ret₂ o → Option W}

@[simp] theorem runs_inl {p : Prog Op Ret ε α} {w w' : W} {out : Except ε α} :
    Runs exec₂ (inl p : Prog (Op ⊕ Op₂) (RetSum Ret Ret₂) ε α) w out w' ↔
      Runs (fun o => exec₂ (.inl o)) p w out w' := by
  induction p generalizing w with
  | ret a => rw [inl, runs_ret, runs_ret]
  | raise e => rw [inl, runs_raise, runs_raise]
  | call o k ih =>
      rw [inl, runs_call, runs_call]
      exact exists_congr fun r => exists_congr fun w₁ => and_congr_right fun _ => ih r

end Sum

/-- A run in one world is a run in another that answers every call of it alike. -/
theorem Runs.map {W' : Type} {exec' : (o : Op) → W' → Ret o → Option W'} {p : Prog Op Ret ε α}
    {w w₁ : W} {out : Except ε α} (f : W → W') (hexec : ∀ o w r w', exec o w r = some w' →
      exec' o (f w) r = some (f w')) (h : Runs exec p w out w₁) : Runs exec' p (f w) out (f w₁) := by
  induction h with
  | ret => exact .ret
  | raise => exact .raise
  | call hcall _ ih => exact .call (hexec _ _ _ _ hcall) ih

end Prog

end Concurrency
