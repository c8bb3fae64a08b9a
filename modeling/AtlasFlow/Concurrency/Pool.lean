import Mathlib.Logic.Relation
import AtlasFlow.Concurrency.Prog

/-!
# A pool of programs over one world

`System` fixes what every operation does to the shared world (`exec`) and, for every process
`i : ι`, the program it runs from each of its restart points (`code i s`). A step lets one process
make one call, chosen freely among all processes, so the runs of a system are all interleavings of
its programs at their calls.

`exec i o w r` is `some w'` when the operation, asked for by process `i`, may answer `r` in `w`,
leaving `w'`. Whatever is not
determined by the world — the result of somebody else's code, the order of unordered rows, a fresh
name — is a choice of the answer, so `exec` stays a function that can be run: `play` runs a system
against a strategy that picks the answers and a schedule that picks the processes.
-/

namespace Concurrency

open Relation (ReflTransGen)

/-- The operations' meaning and the processes' programs. -/
structure System (ι Op : Type) (Ret : Op → Type) (ε σ ρ W : Type) where
  /-- `exec i o w r = some w'`: asked for `o` by `i` in `w`, the world may answer `r` and become
  `w'`. -/
  exec : ι → (o : Op) → W → Ret o → Option W
  /-- The program process `i` runs from restart point `s`: it either names the next restart
  point or ends with a result. -/
  code : ι → σ → Prog Op Ret ε (σ ⊕ ρ)

/-- What is left of every process, and the world between them. -/
@[ext] structure Conf (ι Op : Type) (Ret : Op → Type) (ε σ ρ W : Type) where
  cur : ι → Prog Op Ret ε (σ ⊕ ρ)
  world : W

/-- What one step was: a call with its answer, or a process going round its loop. -/
inductive Label (ι Op : Type) (Ret : Op → Type) (σ : Type) where
  | call (i : ι) (o : Op) (r : Ret o)
  | jump (i : ι) (s : σ)

variable {ι Op : Type} {Ret : Op → Type} {ε σ ρ W : Type}

namespace System

variable (S : System ι Op Ret ε σ ρ W)

/-- One step of the pool. -/
inductive Step [DecidableEq ι] : Conf ι Op Ret ε σ ρ W → Label ι Op Ret σ → Conf ι Op Ret ε σ ρ W → Prop
  | call {c : Conf ι Op Ret ε σ ρ W} {i : ι} {o : Op} {k : Ret o → Prog Op Ret ε (σ ⊕ ρ)}
      {r : Ret o} {w' : W} (hcur : c.cur i = .call o k) (hexec : S.exec i o c.world r = some w') :
      Step c (.call i o r) ⟨Function.update c.cur i (k r), w'⟩
  | jump {c : Conf ι Op Ret ε σ ρ W} {i : ι} {s : σ} (hcur : c.cur i = .ret (.inl s)) :
      Step c (.jump i s) ⟨Function.update c.cur i (S.code i s), c.world⟩

/-- Some step leads from `c` to `c'`. -/
def Next [DecidableEq ι] (c c' : Conf ι Op Ret ε σ ρ W) : Prop := ∃ l, S.Step c l c'

/-- Some run leads from `c` to `c'`. -/
def Steps [DecidableEq ι] : Conf ι Op Ret ε σ ρ W → Conf ι Op Ret ε σ ρ W → Prop := ReflTransGen S.Next

/-- Every process at restart point `s₀ i`, in world `w`. -/
def init (s₀ : ι → σ) (w : W) : Conf ι Op Ret ε σ ρ W := ⟨fun i => S.code i (s₀ i), w⟩

/-- The system in which a call is answered only when `ok` allows the answer: its runs are the
runs of `S` every step of which meets `ok`. -/
def restrict (ok : ι → (o : Op) → W → Ret o → Bool) : System ι Op Ret ε σ ρ W where
  exec i o w r := if ok i o w r then S.exec i o w r else none
  code := S.code

theorem exec_restrict {ok : ι → (o : Op) → W → Ret o → Bool} {i : ι} {o : Op} {w w' : W}
    {r : Ret o} :
    (S.restrict ok).exec i o w r = some w' ↔ ok i o w r = true ∧ S.exec i o w r = some w' := by
  simp only [restrict]
  split <;> simp_all

variable [DecidableEq ι]

/-- A run that meets `ok` at every step is a run of the unrestricted system. -/
theorem Steps.of_restrict {ok : ι → (o : Op) → W → Ret o → Bool} {c c' : Conf ι Op Ret ε σ ρ W}
    (h : (S.restrict ok).Steps c c') : S.Steps c c' := by
  refine ReflTransGen.mono ?_ c c' h
  rintro c c' ⟨l, hstep⟩
  cases hstep with
  | call hcur hexec => exact ⟨_, .call hcur (S.exec_restrict.mp hexec).2⟩
  | jump hcur => exact ⟨_, .jump hcur⟩

/-- A run with the labels of its steps. -/
inductive Path : Conf ι Op Ret ε σ ρ W → List (Label ι Op Ret σ) → Conf ι Op Ret ε σ ρ W → Prop
  | here (c : Conf ι Op Ret ε σ ρ W) : Path c [] c
  | step {c c₁ c₂ : Conf ι Op Ret ε σ ρ W} {ls : List (Label ι Op Ret σ)} {l : Label ι Op Ret σ}
      (hpath : Path c ls c₁) (hstep : S.Step c₁ l c₂) : Path c (ls ++ [l]) c₂

theorem Path.steps {c c' : Conf ι Op Ret ε σ ρ W} {ls : List (Label ι Op Ret σ)} (h : S.Path c ls c') :
    S.Steps c c' := by
  induction h with
  | here => exact .refl
  | step _ hstep ih => exact ih.tail ⟨_, hstep⟩

theorem Steps.path {c c' : Conf ι Op Ret ε σ ρ W} (h : S.Steps c c') : ∃ ls, S.Path c ls c' := by
  induction h with
  | refl => exact ⟨[], .here c⟩
  | tail _ hnext ih =>
      obtain ⟨ls, hpath⟩ := ih
      obtain ⟨l, hstep⟩ := hnext
      exact ⟨ls ++ [l], .step hpath hstep⟩

/-- A run is one of the unrestricted system. -/
theorem Path.of_restrict {ok : ι → (o : Op) → W → Ret o → Bool} {c c' : Conf ι Op Ret ε σ ρ W}
    {ls : List (Label ι Op Ret σ)} (h : (S.restrict ok).Path c ls c') : S.Path c ls c' := by
  induction h with
  | here => exact .here _
  | step _ hstep ih =>
      cases hstep with
      | call hcur hexec => exact ih.step (.call hcur (S.exec_restrict.mp hexec).2)
      | jump hcur => exact ih.step (.jump hcur)

/-- A run whose calls all get answers that meet `ok` is one of the restricted system. -/
theorem Path.restrict {ok : ι → (o : Op) → Ret o → Bool} {c c' : Conf ι Op Ret ε σ ρ W}
    {ls : List (Label ι Op Ret σ)} (h : S.Path c ls c') (hok : ∀ i o r, .call i o r ∈ ls → ok i o r = true) :
    (S.restrict fun i o _ r => ok i o r).Path c ls c' := by
  induction h with
  | here => exact .here _
  | step _ hstep ih =>
      have ih := ih fun i o r hmem => hok i o r (List.mem_append_left _ hmem)
      cases hstep with
      | call hcur hexec =>
          have hlast := hok _ _ _ (List.mem_append_right _ (List.mem_singleton_self _))
          exact ih.step (.call hcur (S.exec_restrict.mpr ⟨hlast, hexec⟩))
      | jump hcur => exact ih.step (.jump hcur)

theorem Path.meets {ok : ι → (o : Op) → Ret o → Bool} {c c' : Conf ι Op Ret ε σ ρ W}
    {ls : List (Label ι Op Ret σ)} (h : (S.restrict fun i o _ r => ok i o r).Path c ls c') {i : ι} {o : Op} {r : Ret o}
    (hmem : .call i o r ∈ ls) : ok i o r = true := by
  induction h with
  | here => cases hmem
  | step _ hstep ih =>
      rcases List.mem_append.mp hmem with hold | hlast
      · exact ih hold
      · cases List.mem_singleton.mp hlast
        cases hstep with
        | call _ hexec => exact (S.exec_restrict.mp hexec).1

/-- What every call keeps, whoever makes it, holds along every run. -/
theorem Steps.keeps {P : W → Prop}
    (hexec : ∀ i o w (r : Ret o) w', S.exec i o w r = some w' → P w → P w')
    {c c' : Conf ι Op Ret ε σ ρ W} (h : S.Steps c c') (hw : P c.world) : P c'.world := by
  induction h with
  | refl => exact hw
  | tail _ hnext ih =>
      obtain ⟨l, hstep⟩ := hnext
      cases hstep with
      | call hcur hcall => exact hexec _ _ _ _ _ hcall ih
      | jump hcur => exact ih

/-- What a process can do alone it can do in the pool. -/
theorem steps_of_runs {p : Prog Op Ret ε (σ ⊕ ρ)} {i : ι} {x : σ ⊕ ρ} {w w' : W}
    (h : Prog.Runs (S.exec i) p w (.ok x) w') {cur : ι → Prog Op Ret ε (σ ⊕ ρ)} (hcur : cur i = p) :
    S.Steps ⟨cur, w⟩ ⟨Function.update cur i (.ret x), w'⟩ := by
  generalize hout : Except.ok x = out at h
  induction h generalizing cur with
  | ret =>
      cases hout
      rw [← hcur, Function.update_eq_self]
      exact .refl
  | raise => cases hout
  | @call o k r w w₁ w' out hexec _ ih =>
      have hrest : S.Steps ⟨Function.update cur i (k r), w₁⟩
          ⟨Function.update (Function.update cur i (k r)) i (.ret x), w'⟩ :=
        ih (Function.update_self ..) hout
      rw [Function.update_idem] at hrest
      exact .head ⟨_, .call (c := ⟨cur, w⟩) hcur hexec⟩ hrest

/-! ### Running a system -/

/-- Process `i` takes its next step, if it has one and `answer` is an answer `exec` accepts. -/
def advance (answer : (o : Op) → W → Ret o) (c : Conf ι Op Ret ε σ ρ W) (i : ι) :
    Conf ι Op Ret ε σ ρ W :=
  match c.cur i with
  | .call o k =>
    match S.exec i o c.world (answer o c.world) with
    | some w' => ⟨Function.update c.cur i (k (answer o c.world)), w'⟩
    | none => c
  | .ret (.inl s) => ⟨Function.update c.cur i (S.code i s), c.world⟩
  | _ => c

/-- The run of a schedule: each entry names the process that moves and the strategy that answers. -/
def play (schedule : List (ι × ((o : Op) → W → Ret o))) (c : Conf ι Op Ret ε σ ρ W) :
    Conf ι Op Ret ε σ ρ W :=
  schedule.foldl (fun c m => S.advance m.2 c m.1) c

theorem advance_steps (answer : (o : Op) → W → Ret o) (c : Conf ι Op Ret ε σ ρ W) (i : ι) :
    S.Steps c (S.advance answer c i) := by
  unfold advance
  split
  · next o k hcur =>
      split
      · next w' hexec => exact .single ⟨_, .call hcur hexec⟩
      · exact .refl
  · next s hcur => exact .single ⟨_, .jump hcur⟩
  · exact .refl

/-- The result a process has ended with. -/
def result (c : Conf ι Op Ret ε σ ρ W) (i : ι) : Option ρ :=
  match c.cur i with
  | .ret (.inr r) => some r
  | _ => none

/-- The exception that has escaped from a process. -/
def error (c : Conf ι Op Ret ε σ ρ W) (i : ι) : Option ε :=
  match c.cur i with
  | .raise e => some e
  | _ => none

omit [DecidableEq ι] in
theorem cur_of_result {c : Conf ι Op Ret ε σ ρ W} {i : ι} (h : (result c i).isSome = true) :
    ∃ r, c.cur i = .ret (.inr r) := by
  unfold result at h
  split at h
  · next r hcur => exact ⟨r, hcur⟩
  · cases h

omit [DecidableEq ι] in
theorem cur_of_error {c : Conf ι Op Ret ε σ ρ W} {i : ι} {e : ε} (h : error c i = some e) :
    c.cur i = .raise e := by
  unfold error at h
  split at h
  · next e' hcur =>
      cases h
      exact hcur
  · cases h

/-- What a schedule plays is a run. -/
theorem play_steps (schedule : List (ι × ((o : Op) → W → Ret o))) (c : Conf ι Op Ret ε σ ρ W) :
    S.Steps c (S.play schedule c) := by
  induction schedule generalizing c with
  | nil => exact .refl
  | cons m ms ih => exact (S.advance_steps m.2 c m.1).trans (ih _)

end System

/-! ## Weakest preconditions under interference

A program in a pool is proved against a `Contract`: `rely` bounds what the others may do between
two of its calls, `guar` is what each of its own calls must respect. `wp C p Q F w` says that,
started in `w` and disturbed by `rely` before every call, each call of `p` respects `guar`, `p`
only returns in `Q` and only raises in `F`. -/

/-- What a program may assume of its world and has to guarantee to it. -/
structure Contract (Op : Type) (Ret : Op → Type) (W : Type) where
  exec : (o : Op) → W → Ret o → Option W
  rely : W → W → Prop
  guar : (o : Op) → W → Ret o → W → Prop

variable {α β : Type} {C : Contract Op Ret W}

/-- The weakest precondition of `p` under the contract `C`. -/
def wp (C : Contract Op Ret W) :
    Prog Op Ret ε α → (α → W → Prop) → (ε → W → Prop) → W → Prop
  | .ret a, Q, _ => Q a
  | .raise e, _, F => F e
  | .call o k, Q, F => fun w =>
      ∀ w₁, C.rely w w₁ → ∀ r w₂, C.exec o w₁ r = some w₂ →
        C.guar o w₁ r w₂ ∧ wp C (k r) Q F w₂

@[simp] theorem wp_ret (a : α) (Q : α → W → Prop) (F : ε → W → Prop) (w : W) :
    wp C (.ret a : Prog Op Ret ε α) Q F w ↔ Q a w := Iff.rfl

@[simp] theorem wp_raise (e : ε) (Q : α → W → Prop) (F : ε → W → Prop) (w : W) :
    wp C (.raise e : Prog Op Ret ε α) Q F w ↔ F e w := Iff.rfl

/-- The rule for a call: from an assertion `P` that interference keeps, every answer has to
respect the guarantee and leave a world the rest of the program is safe in. -/
theorem wp_call {o : Op} {k : Ret o → Prog Op Ret ε α} {Q : α → W → Prop} {F : ε → W → Prop}
    {w : W} (P : W → Prop) (hP : P w) (hstable : ∀ w w', C.rely w w' → P w → P w')
    (hstep : ∀ w r w', P w → C.exec o w r = some w' → C.guar o w r w' ∧ wp C (k r) Q F w') :
    wp C (.call o k) Q F w :=
  fun w₁ hrely r w₂ hexec => hstep w₁ r w₂ (hstable w w₁ hrely hP) hexec

/-- The rule of consequence. -/
theorem wp_mono {p : Prog Op Ret ε α} {Q Q' : α → W → Prop} {F F' : ε → W → Prop} {w : W}
    (h : wp C p Q F w) (hQ : ∀ a w, Q a w → Q' a w) (hF : ∀ e w, F e w → F' e w) :
    wp C p Q' F' w := by
  induction p generalizing w with
  | ret a => exact hQ a w h
  | raise e => exact hF e w h
  | call o k ih =>
      intro w₁ hrely r w₂ hexec
      obtain ⟨hg, hk⟩ := h w₁ hrely r w₂ hexec
      exact ⟨hg, ih r hk⟩

/-- The rule for sequencing. -/
theorem wp_bind {p : Prog Op Ret ε α} {f : α → Prog Op Ret ε β} {Q : β → W → Prop}
    {F : ε → W → Prop} {w : W} :
    wp C (p.bind f) Q F w ↔ wp C p (fun a => wp C (f a) Q F) F w := by
  induction p generalizing w with
  | ret a => exact Iff.rfl
  | raise e => exact Iff.rfl
  | call o k ih =>
      constructor
      · intro h w₁ hrely r w₂ hexec
        exact ⟨(h w₁ hrely r w₂ hexec).1, (ih r).mp (h w₁ hrely r w₂ hexec).2⟩
      · intro h w₁ hrely r w₂ hexec
        exact ⟨(h w₁ hrely r w₂ hexec).1, (ih r).mpr (h w₁ hrely r w₂ hexec).2⟩

/-- The rule for an exception handler. -/
theorem wp_handle {p : Prog Op Ret ε α} {h : ε → Prog Op Ret ε α} {Q : α → W → Prop}
    {F : ε → W → Prop} {w : W} :
    wp C (p.handle h) Q F w ↔ wp C p Q (fun e => wp C (h e) Q F) w := by
  induction p generalizing w with
  | ret a => exact Iff.rfl
  | raise e => exact Iff.rfl
  | call o k ih =>
      constructor
      · intro hp w₁ hrely r w₂ hexec
        exact ⟨(hp w₁ hrely r w₂ hexec).1, (ih r).mp (hp w₁ hrely r w₂ hexec).2⟩
      · intro hp w₁ hrely r w₂ hexec
        exact ⟨(hp w₁ hrely r w₂ hexec).1, (ih r).mpr (hp w₁ hrely r w₂ hexec).2⟩

/-- The rule for `try … finally`. -/
theorem wp_ensure {p : Prog Op Ret ε α} {q : Prog Op Ret ε Unit} {Q : α → W → Prop} {F : ε → W → Prop} {w : W} :
    wp C (p.ensure q) Q F w ↔
      wp C p (fun a => wp C q (fun _ => Q a) F) (fun e => wp C q (fun _ => F e) F) w := by
  induction p generalizing w with
  | ret a => exact wp_bind
  | raise e => exact wp_bind
  | call o k ih =>
      constructor
      · intro hp w₁ hrely r w₂ hexec
        exact ⟨(hp w₁ hrely r w₂ hexec).1, (ih r).mp (hp w₁ hrely r w₂ hexec).2⟩
      · intro hp w₁ hrely r w₂ hexec
        exact ⟨(hp w₁ hrely r w₂ hexec).1, (ih r).mpr (hp w₁ hrely r w₂ hexec).2⟩

/-- Sequencing from an intermediate assertion: the form in which a callee's spec is used. -/
theorem wp_seq {p : Prog Op Ret ε α} {f : α → Prog Op Ret ε β} {M : α → W → Prop}
    {Q : β → W → Prop} {F : ε → W → Prop} {w : W} (hp : wp C p M F w)
    (hf : ∀ a w, M a w → wp C (f a) Q F w) : wp C (p.bind f) Q F w :=
  wp_bind.mpr (wp_mono hp hf fun _ _ h => h)

/-- The rule for a loop over a list: an invariant of the elements already done. -/
theorem wp_forEach {body : β → Prog Op Ret ε Unit} {F : ε → W → Prop} {all : List β} {w : W}
    (Inv : List β → W → Prop) (hinv : Inv [] w)
    (hbody : ∀ (done : List β) (b : β) (rest : List β) (w : W), all = done ++ b :: rest →
      Inv done w → wp C (body b) (fun _ => Inv (done ++ [b])) F w) :
    wp C (Prog.forEach body all) (fun _ => Inv all) F w := by
  suffices h : ∀ todo done w, all = done ++ todo → Inv done w →
      wp C (Prog.forEach body todo) (fun _ => Inv all) F w from h all [] w rfl hinv
  intro todo
  induction todo with
  | nil =>
      intro done w hall hdone
      rw [List.append_nil] at hall
      subst hall
      exact hdone
  | cons b bs ih =>
      intro done w hall hdone
      refine wp_seq (hbody done b bs w hall hdone) ?_
      intro _ w' hdone'
      exact ih (done ++ [b]) w' (by simp [hall]) hdone'

/-- A program keeps to a contract under which it is answered less and disturbed less, and which asks no more
of a call than it already guarantees. -/
theorem wp_narrow {D : Contract Op Ret W} (hrely : ∀ w w', D.rely w w' → C.rely w w')
    (hexec : ∀ o w r w', D.exec o w r = some w' →
      C.exec o w r = some w' ∧ (C.guar o w r w' → D.guar o w r w'))
    {p : Prog Op Ret ε α} {Q : α → W → Prop} {F : ε → W → Prop} {w : W} (h : wp C p Q F w) : wp D p Q F w := by
  induction p generalizing w with
  | ret a => exact h
  | raise e => exact h
  | call o k ih =>
      intro w₁ hw r w₂ hcall
      obtain ⟨hcall, hguar⟩ := hexec o w₁ r w₂ hcall
      obtain ⟨hg, hk⟩ := h w₁ (hrely w w₁ hw) r w₂ hcall
      exact ⟨hguar hg, ih r hk⟩

/-- A contract that every answer respects is one every program keeps to. -/
theorem wp_any (hexec : ∀ o w r w', C.exec o w r = some w' → C.guar o w r w') (p : Prog Op Ret ε α) (w : W) :
    wp C p (fun _ _ => True) (fun _ _ => True) w := by
  induction p generalizing w with
  | ret a => trivial
  | raise e => trivial
  | call o k ih => exact fun w₁ _ r w₂ hcall => ⟨hexec o w₁ r w₂ hcall, ih r w₂⟩

/-- Interference before a program starts is interference before its first call. -/
theorem wp_stable {p : Prog Op Ret ε α} {Q : α → W → Prop} {F : ε → W → Prop} {w w' : W}
    (htrans : ∀ a b c, C.rely a b → C.rely b c → C.rely a c)
    (hQ : ∀ a w w', C.rely w w' → Q a w → Q a w') (hF : ∀ e w w', C.rely w w' → F e w → F e w')
    (h : wp C p Q F w) (hrely : C.rely w w') : wp C p Q F w' := by
  cases p with
  | ret a => exact hQ a w w' hrely h
  | raise e => exact hF e w w' hrely h
  | call o k => exact fun w₁ h₁ => h w₁ (htrans w w' w₁ hrely h₁)

/-! ## Programs that own a part of the world

A program whose calls only touch a part of the world that nobody else changes is verified alone, on
that part. `view v w` says that the part of `w` it owns is `v`. -/

section View

variable {V : Type}

/-- The contract of a program nobody disturbs: `act` answers its calls, each of which has to respect
`keeps`. -/
abbrev alone (act : (o : Op) → V → Ret o → Option V) (keeps : (o : Op) → V → Ret o → V → Prop) :
    Contract Op Ret V :=
  ⟨act, (· = ·), keeps⟩

/-- The rule for a call of a program nobody disturbs. -/
theorem wp_alone_call {act : (o : Op) → V → Ret o → Option V}
    {keeps : (o : Op) → V → Ret o → V → Prop} {o : Op} {k : Ret o → Prog Op Ret ε α}
    {Q : α → V → Prop} {F : ε → V → Prop} {v : V}
    (h : ∀ r v', act o v r = some v' → keeps o v r v' ∧ wp (alone act keeps) (k r) Q F v') :
    wp (alone act keeps) (.call o k) Q F v := by
  intro v₁ hv r v' hact
  cases hv
  exact h r v' hact

/-- What a program verified alone ends with. -/
theorem wp_runs {act : (o : Op) → V → Ret o → Option V} {keeps : (o : Op) → V → Ret o → V → Prop}
    {p : Prog Op Ret ε α} {Q : α → V → Prop} {F : ε → V → Prop} {v v' : V} {out : Except ε α}
    (h : wp (alone act keeps) p Q F v) (hruns : Prog.Runs act p v out v') :
    (∀ a, out = .ok a → Q a v') ∧ ∀ e, out = .error e → F e v' := by
  induction hruns with
  | ret =>
      refine ⟨fun a heq => ?_, nofun⟩
      cases heq
      exact h
  | raise =>
      refine ⟨nofun, fun e heq => ?_⟩
      cases heq
      exact h
  | call hexec _ ih => exact ih (h _ rfl _ _ hexec).2

/-- What every call of a program verified alone keeps holds wherever the program is stopped. -/
theorem wp_cut {act : (o : Op) → V → Ret o → Option V} {I : V → Prop} {p : Prog Op Ret ε α}
    {Q : α → V → Prop} {F : ε → V → Prop} {v v' : V} (h : wp (alone act fun _ _ _ v' => I v') p Q F v)
    (hv : I v) (hcut : Prog.Cut act p v v') : I v' := by
  induction hcut with
  | here => exact hv
  | call hexec _ ih =>
      obtain ⟨hkept, hrest⟩ := h _ rfl _ _ hexec
      exact ih hrest hkept

/-- **A program verified alone is verified in the world**, if interference does not change its part
and each of its calls does to the world what it does to the part. -/
theorem wp_view {act : (o : Op) → V → Ret o → Option V} {keeps : (o : Op) → V → Ret o → V → Prop}
    (view : V → W → Prop) (hstable : ∀ v w w', C.rely w w' → view v w → view v w')
    (hcall : ∀ o v w r w', view v w → C.exec o w r = some w' → ∃ v', act o v r = some v' ∧
      (keeps o v r v' → view v' w' ∧ C.guar o w r w'))
    {p : Prog Op Ret ε α} {Q : α → V → Prop} {F : ε → V → Prop} {v : V} {w : W}
    (h : wp (alone act keeps) p Q F v) (hv : view v w) :
    wp C p (fun a w => ∃ v, view v w ∧ Q a v) (fun e w => ∃ v, view v w ∧ F e v) w := by
  induction p generalizing v w with
  | ret a => exact ⟨v, hv, h⟩
  | raise e => exact ⟨v, hv, h⟩
  | call o k ih =>
      intro w₁ hrely r w₂ hexec
      obtain ⟨v', hact, hkept⟩ := hcall o v w₁ r w₂ (hstable v w w₁ hrely hv) hexec
      obtain ⟨hkeeps, hrest⟩ := h v rfl r v' hact
      obtain ⟨hv', hguar⟩ := hkept hkeeps
      exact ⟨hguar, ih r hrest hv'⟩

end View

/-! ## Proof outlines for a pool -/

/-- A proof outline: the contract of every process, what holds at its restart points and when it
ends, and the proof that each of its programs keeps to the contract. -/
structure Outline (S : System ι Op Ret ε σ ρ W) where
  rely : ι → W → W → Prop
  guar : ι → (o : Op) → W → Ret o → W → Prop
  pre : ι → σ → W → Prop
  post : ι → ρ → W → Prop
  fail : ι → ε → W → Prop
  rely_refl : ∀ i w, rely i w w
  rely_trans : ∀ i a b c, rely i a b → rely i b c → rely i a c
  /-- Every call of one process is interference the others rely on. -/
  guar_rely : ∀ i j o w r w', i ≠ j → guar i o w r w' → rely j w w'
  pre_stable : ∀ i s w w', rely i w w' → pre i s w → pre i s w'
  post_stable : ∀ i r w w', rely i w w' → post i r w → post i r w'
  fail_stable : ∀ i e w w', rely i w w' → fail i e w → fail i e w'
  body : ∀ i s w, pre i s w → wp ⟨S.exec i, rely i, guar i⟩ (S.code i s)
    (fun | .inl s' => pre i s' | .inr r => post i r) (fail i) w

namespace Outline

variable {S : System ι Op Ret ε σ ρ W} (O : Outline S)

/-- Where process `i` may stop: at a restart point, or with its result. -/
def exit (i : ι) : σ ⊕ ρ → W → Prop
  | .inl s => O.pre i s
  | .inr r => O.post i r

/-- Every process is safe in what is left of it. -/
def Holds (c : Conf ι Op Ret ε σ ρ W) : Prop :=
  ∀ i, wp ⟨S.exec i, O.rely i, O.guar i⟩ (c.cur i) (O.exit i) (O.fail i) c.world

/-- What a step is allowed to be: a call that respects its process's guarantee. -/
def Allowed (w : W) : Label ι Op Ret σ → W → Prop
  | .call i o r, w' => O.guar i o w r w'
  | .jump _ _, w' => w' = w

theorem exit_stable (i : ι) (x : σ ⊕ ρ) (w w' : W) (h : O.rely i w w') (hx : O.exit i x w) :
    O.exit i x w' := by
  cases x with
  | inl s => exact O.pre_stable i s w w' h hx
  | inr r => exact O.post_stable i r w w' h hx

theorem holds_init {s₀ : ι → σ} {w : W} (h : ∀ i, O.pre i (s₀ i) w) :
    O.Holds (S.init s₀ w) := by
  intro i
  refine wp_mono (O.body i (s₀ i) w (h i)) ?_ fun _ _ h => h
  rintro (s | r) w hx <;> exact hx

variable [DecidableEq ι]

/-- **One step keeps every process safe**, and is a step its process is allowed to take. -/
theorem holds_step {c c' : Conf ι Op Ret ε σ ρ W} {l : Label ι Op Ret σ} (h : O.Holds c)
    (hstep : S.Step c l c') : O.Holds c' ∧ O.Allowed c.world l c'.world := by
  cases hstep with
  | @call i o k r w' hcur hexec =>
      have hi := h i
      rw [hcur] at hi
      obtain ⟨hguar, hk⟩ := hi c.world (O.rely_refl i c.world) r w' hexec
      refine ⟨fun j => ?_, hguar⟩
      by_cases hji : j = i
      · subst hji
        simpa using hk
      · have hj := wp_stable (C := ⟨S.exec j, O.rely j, O.guar j⟩) (O.rely_trans j)
          (O.exit_stable j) (O.fail_stable j) (h j)
          (O.guar_rely i j o c.world r w' (Ne.symm hji) hguar)
        simpa [Function.update_of_ne hji] using hj
  | @jump i s hcur =>
      refine ⟨fun j => ?_, rfl⟩
      by_cases hji : j = i
      · subst hji
        have hj := h j
        rw [hcur] at hj
        simp only [Function.update_self]
        refine wp_mono (O.body j s c.world hj) ?_ fun _ _ h => h
        rintro (s | r) w hx <;> exact hx
      · simpa only [Function.update_of_ne hji] using h j

/-- Every reachable configuration is safe. -/
theorem holds_steps {c c' : Conf ι Op Ret ε σ ρ W} (h : O.Holds c) (hsteps : S.Steps c c') :
    O.Holds c' := by
  induction hsteps with
  | refl => exact h
  | tail _ hnext ih =>
      obtain ⟨l, hstep⟩ := hnext
      exact (O.holds_step ih hstep).1

/-- A property of the world that every guarantee keeps holds along every run. -/
theorem world_steps {c c' : Conf ι Op Ret ε σ ρ W} {P : W → Prop}
    (hinv : ∀ i o w r w', O.guar i o w r w' → P w → P w') (h : O.Holds c)
    (hw : P c.world) (hsteps : S.Steps c c') : P c'.world := by
  induction hsteps with
  | refl => exact hw
  | @tail c₁ c₂ hpre hnext ih =>
      obtain ⟨l, hstep⟩ := hnext
      have hallowed := (O.holds_step (O.holds_steps h hpre) hstep).2
      cases l with
      | call i o r => exact hinv i o _ r _ hallowed ih
      | jump i s => rw [show c₂.world = c₁.world from hallowed]; exact ih

/-- A property of the world and of the steps taken so far that every guarantee keeps holds along every
run. -/
theorem world_path {c c' : Conf ι Op Ret ε σ ρ W} {ls : List (Label ι Op Ret σ)}
    {P : List (Label ι Op Ret σ) → W → Prop}
    (hcall : ∀ ls i o w r w', O.guar i o w r w' → P ls w → P (ls ++ [.call i o r]) w')
    (hjump : ∀ ls i s w, P ls w → P (ls ++ [.jump i s]) w) (h : O.Holds c) (hw : P [] c.world)
    (hpath : S.Path c ls c') : P ls c'.world := by
  induction hpath with
  | here => exact hw
  | @step c₁ c₂ ls l hpre hstep ih =>
      have hallowed := (O.holds_step (O.holds_steps h hpre.steps) hstep).2
      cases l with
      | call i o r => exact hcall ls i o _ r _ hallowed ih
      | jump i s =>
          rw [show c₂.world = c₁.world from hallowed]
          exact hjump ls i s _ ih

omit [DecidableEq ι] in
/-- A process that has returned satisfies its postcondition. -/
theorem post_of_ret {c : Conf ι Op Ret ε σ ρ W} (h : O.Holds c) {i : ι} {r : ρ}
    (hret : c.cur i = .ret (.inr r)) : O.post i r c.world := by
  have hi := h i
  rw [hret] at hi
  exact hi

omit [DecidableEq ι] in
/-- A process that an exception has escaped from satisfies its exceptional postcondition. -/
theorem fail_of_raise {c : Conf ι Op Ret ε σ ρ W} (h : O.Holds c) {i : ι} {e : ε}
    (hraise : c.cur i = .raise e) : O.fail i e c.world := by
  have hi := h i
  rw [hraise] at hi
  exact hi

end Outline

/-! ## Interference made of steps

Where every process guarantees that each of its calls is one of its `step`s, what the others may do
between two calls of a process is any number of their steps, and an assertion that one such step
keeps is stable. -/

/-- Any number of steps of processes other than `j`. -/
def Others (step : ι → W → W → Prop) (j : ι) : W → W → Prop :=
  ReflTransGen fun w w' => ∃ i, i ≠ j ∧ step i w w'

/-- What each step of another process keeps is kept. -/
theorem Others.stable {step : ι → W → W → Prop} {j : ι} {P : W → Prop}
    (hstep : ∀ i w w', i ≠ j → step i w w' → P w → P w') {w w' : W} (h : Others step j w w')
    (hw : P w) : P w' := by
  induction h with
  | refl => exact hw
  | tail _ hlast ih =>
      obtain ⟨i, hi, hlast⟩ := hlast
      exact hstep i _ _ hi hlast ih

/-- The contract of a process among processes that guarantee steps. -/
abbrev stepContract (exec : ι → (o : Op) → W → Ret o → Option W) (step : ι → W → W → Prop) (i : ι) :
    Contract Op Ret W :=
  ⟨exec i, Others step i, fun _ w _ w' => step i w w'⟩

/-- The rule for a call, with an assertion that each step of another process keeps. -/
theorem wp_call_step {exec : ι → (o : Op) → W → Ret o → Option W} {step : ι → W → W → Prop} {i : ι}
    {o : Op} {k : Ret o → Prog Op Ret ε α} {Q : α → W → Prop} {F : ε → W → Prop} {w : W}
    (P : W → Prop) (hP : P w) (hstable : ∀ j w w', j ≠ i → step j w w' → P w → P w')
    (hcall : ∀ w r w', P w → exec i o w r = some w' →
      step i w w' ∧ wp (stepContract exec step i) (k r) Q F w') :
    wp (stepContract exec step i) (.call o k) Q F w :=
  wp_call P hP (fun _ _ hrely hw => hrely.stable hstable hw) hcall

/-- The outline of a pool in which every process guarantees its steps. -/
def Outline.ofSteps {S : System ι Op Ret ε σ ρ W} (step : ι → W → W → Prop) (pre : ι → σ → W → Prop)
    (post : ι → ρ → W → Prop) (fail : ι → ε → W → Prop)
    (pre_stable : ∀ j i s w w', j ≠ i → step j w w' → pre i s w → pre i s w')
    (post_stable : ∀ j i r w w', j ≠ i → step j w w' → post i r w → post i r w')
    (fail_stable : ∀ j i e w w', j ≠ i → step j w w' → fail i e w → fail i e w')
    (body : ∀ i s w, pre i s w → wp (stepContract S.exec step i) (S.code i s)
      (fun | .inl s' => pre i s' | .inr r => post i r) (fail i) w) : Outline S where
  rely := Others step
  guar i _ w _ w' := step i w w'
  pre := pre
  post := post
  fail := fail
  rely_refl _ _ := .refl
  rely_trans _ _ _ _ := ReflTransGen.trans
  guar_rely i _ _ _ _ _ hij hstep := .single ⟨i, hij, hstep⟩
  pre_stable i s _ _ hrely := hrely.stable (P := pre i s) fun _ _ _ => pre_stable _ i s _ _
  post_stable i r _ _ hrely := hrely.stable (P := post i r) fun _ _ _ => post_stable _ i r _ _
  fail_stable i e _ _ hrely := hrely.stable (P := fail i e) fun _ _ _ => fail_stable _ i e _ _
  body := body

end Concurrency
