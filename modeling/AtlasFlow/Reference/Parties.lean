import AtlasFlow.Reference.Calls

/-!
# Coroutines and requests, in a run

The programs of the coroutines of `gather` and of the requests to stop the run keep to what they may do.
-/

namespace AtlasFlow.Reference

open Concurrency

/-! ## The end of a coroutine -/

section Finish

variable {g : GoalRunner} {plan : Plan} {gen : Generated} {w w' : World} {s : Share} {c c' : Coroutine}
  {n m : Nat} {result : Except PyExn TaskOutcome}

theorem finish_of_some (hc' : (w.finish n result).coroutines[m]? = some c') :
    ∃ c, w.coroutines[m]? = some c ∧ c'.run = c.run ∧ c'.entry = c.entry ∧
      if m = n then c'.result = some result else c' = c := by
  simp only [World.finish, List.getElem?_modify, Option.map_eq_map, Option.map_eq_some_iff] at hc'
  obtain ⟨c, hc, rfl⟩ := hc'
  refine ⟨c, hc, ?_⟩
  by_cases hm : n = m
  · simp [hm]
  · simp [hm, Ne.symm hm]

theorem some_of_finish (hc : w.coroutines[m]? = some c) (hm : m ≠ n) :
    (w.finish n result).coroutines[m]? = some c := by
  simp [World.finish, hc, Ne.symm hm]

theorem map_finish {β : Type} (f : Coroutine → β) (hf : ∀ c r, f { c with result := r } = f c) :
    (w.finish n result).coroutines.map f = w.coroutines.map f := by
  apply List.ext_getElem?
  intro i
  simp only [World.finish, List.getElem?_map, List.getElem?_modify, Option.map_eq_map, Option.map_map]
  congr 1
  funext c
  by_cases hi : n = i <;> simp [hi, hf]

/-- A coroutine that is live after another has ended was live before. -/
theorem live_of_finish (h : Live (w.finish n result) m c') : Live w m c' ∧ m ≠ n := by
  obtain ⟨c, hc, _, _, hcases⟩ := finish_of_some h.1
  by_cases hm : m = n
  · rw [if_pos hm] at hcases
    exact absurd (h.2.symm.trans hcases) nofun
  · rw [if_neg hm] at hcases
    subst hcases
    exact ⟨⟨hc, h.2⟩, hm⟩

/-- **A coroutine that ends keeps the invariant.** -/
theorem Mine.finish (h : Mine g plan gen n c s w) (hleft : Left g c.entry.2 result s) :
    Moves g plan gen (.coroutine n) w (w.finish n result) := by
  have htouch : Touch c n w (w.finish n result) := {
    runs := rfl
    rows := fun _ _ => rfl
    done := fun _ _ => rfl
    attempts := fun a ha => .inl ha
    evidence := fun _ _ => rfl
    active := fun _ _ => rfl
    marks := fun _ _ => rfl
    raised := ⟨[], by simp [World.finish], nofun⟩
    requested := rfl
    accepted := rfl
    isOver := rfl
    late := rfl }
  have hview : View c.task s (w.finish n result) :=
    ⟨h.view.row, h.view.opened, h.view.model, h.view.marks, h.view.evidence, h.view.asked⟩
  refine .inr ⟨c, h.live, ?_, htouch, .inr ⟨result, s, rfl, hview, hleft⟩⟩
  constructor
  case keyed => exact h.inv.keyed
  case rows => exact h.inv.rows
  case spawned =>
    intro m c' hc'
    obtain ⟨c₀, hc₀, hrun, hentry, _⟩ := finish_of_some hc'
    rw [hrun, hentry]
    exact h.inv.spawned m c₀ hc₀
  case distinct =>
    rw [map_finish _ fun _ _ => rfl]
    exact h.inv.distinct
  case ready =>
    intro m c' hc' dep hdep
    obtain ⟨c₀, hc₀, _, hentry, _⟩ := finish_of_some hc'
    rw [Coroutine.task, hentry] at hdep
    exact h.inv.ready m c₀ hc₀ dep hdep
  case batch =>
    rintro ⟨m, c', hlive⟩
    obtain ⟨first, ready, hbatch, hfirst⟩ := h.inv.batch ⟨n, c, h.live⟩
    refine ⟨first, ready, ?_, fun m c' hlive => hfirst m c' (live_of_finish hlive).1⟩
    rw [List.map_drop, map_finish _ fun _ _ => rfl, ← List.map_drop]
    exact hbatch
  case closed =>
    intro a ha hopen entry hentry htask
    obtain ⟨m, c', hlive, hid⟩ := h.inv.closed a ha hopen entry hentry htask
    by_cases hm : m = n
    · subst hm
      cases hlive.1.symm.trans h.live.1
      -- the coroutine that ends has closed its attempts
      have hopened := h.view.opened a ha hid.symm hopen
      rw [hleft.opened] at hopened
      cases hopened
    · exact ⟨m, c', ⟨some_of_finish hlive.1 hm, hlive.2⟩, hid⟩
  case books =>
    have hholding : (w.finish n result).holding = w.holding := by
      have hany : ∀ w : World, w.holding =
          (w.coroutines.map fun c => (w.ledger.marks c.task.id).reserved).any id := by
        intro w
        simp [World.holding, List.any_map]
      rw [hany, hany, map_finish _ fun _ _ => rfl]
      rfl
    obtain ⟨h₁, h₂, h₃, h₄, h₅, h₆, h₇⟩ := h.inv.books
    rw [← hholding] at h₄ h₅
    exact ⟨h₁, h₂, h₃, h₄, h₅, h₆, h₇⟩
  case proper =>
    intro m c' hc'
    obtain ⟨c₀, hc₀, _, hentry, _⟩ := finish_of_some hc'
    rw [Coroutine.task, hentry]
    exact h.inv.proper m c₀ hc₀
  case raised =>
    intro x hx
    rcases h.inv.raised x hx with hexecute | ⟨m, c', hparty, hkind, hc', hmarked⟩
    · exact .inl hexecute
    · right
      by_cases hm : m = n
      · subst hm
        cases hc'.symm.trans h.live.1
        refine ⟨m, { c with result := some result }, hparty, hkind, ?_, hmarked⟩
        simp [World.finish, h.live.1]
      · exact ⟨m, c', hparty, hkind, some_of_finish hc' hm, hmarked⟩
  case noted =>
    intro m c' hc' hmarked
    obtain ⟨c₀, hc₀, _, hentry, _⟩ := finish_of_some hc'
    rw [Coroutine.task, hentry] at hmarked
    exact h.inv.noted m c₀ hc₀ hmarked
  case waiting => exact fun m c' hlive => h.inv.waiting m c' (live_of_finish hlive).1
  case unmarked =>
    intro entry hentry hfree
    refine h.inv.unmarked entry hentry fun c' hc' => ?_
    obtain ⟨m, hm⟩ := List.mem_iff_getElem?.mp hc'
    have hmem : c'.task.id ∈ (w.finish n result).coroutines.map fun c => c.task.id := by
      rw [map_finish _ fun _ _ => rfl]
      exact List.mem_map_of_mem (List.mem_of_getElem? hm)
    obtain ⟨c₁, hc₁, heq⟩ := List.mem_map.mp hmem
    rw [← heq]
    exact hfree c₁ hc₁
  case driven => exact fun _ => h.inv.driven fun hrested => hrested.idle n c h.live
  case working =>
    intro row hrow hrunId hrunning
    obtain ⟨m, c', hc', hworking, hid⟩ := h.inv.working row hrow hrunId hrunning
    by_cases hm : m = n
    · subst hm
      cases hc'.symm.trans h.live.1
      refine ⟨m, { c with result := some result }, by simp [World.finish, h.live.1], ?_, hid⟩
      rintro ⟨o, ho⟩
      -- a coroutine that returns does not leave its task RUNNING
      have hresult : result = .ok o := Option.some.inj ho
      rw [hresult] at hleft
      have hread := Table.lookup_of_mem h.inv.keyed hrow
      rw [← hid] at hread
      have hsame : row = s.row c.task := Option.some.inj (hread.symm.trans h.view.row)
      rw [hsame] at hrunning
      exact Concluded.not_running hleft hrunning
    · exact ⟨m, c', some_of_finish hc' hm, hworking, hid⟩
  case owned => exact h.inv.owned

end Finish

/-! ## The programs of the coroutines -/

section Coroutine

variable {g : GoalRunner} {plan : Plan} {gen : Generated}

/-- A coroutine that has not begun: nothing has happened to its task. -/
def Begins (g : GoalRunner) (plan : Plan) (gen : Generated) (n : Nat) (w : World) : Prop :=
  Inv g plan gen w ∧ ∀ c, Live w n c → View c.task {} w

theorem Begins.moves {n : Nat} {party : Party} {w w' : World} (h : Begins g plan gen n w)
    (hparty : party ≠ .coroutine n) (hstep : Moves g plan gen party w w') : Begins g plan gen n w' := by
  -- a coroutine that is live was live before, unless `execute` has just created it
  have hbefore : ∀ c, Live w n c → Inv g plan gen w' ∧ View c.task {} w' := fun c hlive =>
    (View.moves h.1 hlive (h.2 c hlive) hparty hstep).2
  cases party with
  | execute =>
      rcases hstep with rfl | hdrive
      · exact h
      · exact ⟨hdrive.inv, fun c hlive => hdrive.waiting n c hlive⟩
  | coroutine m =>
      rcases hstep with rfl | ⟨c', hwork⟩
      · exact h
      · refine ⟨hwork.inv, fun c hlive => (hbefore c ?_).2⟩
        rcases hwork.coroutines with heq | ⟨result, s, heq, _⟩
        · rw [Live, heq] at hlive
          exact hlive
        · have hlive' : Live (w.finish m result) n c := by
            rw [Live, World.finish]
            rw [Live, heq] at hlive
            exact hlive
          exact (live_of_finish hlive').1
  | cancelRun m =>
      rcases hstep with rfl | hask
      · exact h
      · refine ⟨hask.inv, fun c hlive => (hbefore c ?_).2⟩
        rw [Live, hask.coroutines] at hlive
        exact hlive

/-- **Every coroutine keeps to its task.** -/
theorem coroutine_body {n : Nat} {w : World} (h : Begins g plan gen n w) {Q : Unit → World → Prop}
    {F : PyExn → World → Prop} (hQ : ∀ w, Q () w) :
    wp (stepContract (exec g) (Moves g plan gen) (.coroutine n)) g.coroutine Q F w := by
  unfold GoalRunner.coroutine
  simp only [Prog.bind_eq, Prog.op_bind, Prog.tryCatch_eq, Prog.pure_eq]
  apply wp_call_step (Begins g plan gen n) h fun j w w' hj hstep hw => hw.moves hj hstep
  intro w r w' hw hexec
  simp only [exec] at hexec
  split at hexec
  · next c hc =>
      split at hexec
      · next hbegin =>
          cases hexec
          obtain ⟨hresult, rfl⟩ := hbegin
          have hlive : Live w n c := ⟨hc, by simpa using hresult⟩
          have hmine : Mine g plan gen n c {} w := ⟨hw.1, hlive, hw.2 c hlive⟩
          have hstable : ∀ s w w', Others (Moves g plan gen) (.coroutine n) w w' →
              Mine g plan gen n c s w → Mine g plan gen n c s w' := by
            intro s w w' hothers hw
            refine hothers.stable (fun j w w' hj hstep hw => ?_) hw
            obtain ⟨hlive', hinv', hview'⟩ := hw.view.moves hw.inv hw.live hj hstep
            exact ⟨hinv', hlive', hview'⟩
          -- the end of the coroutine
          have hfinish : ∀ result w, (∃ s, Mine g plan gen n c s w ∧ Left g c.entry.2 result s) →
              wp (stepContract (exec g) (Moves g plan gen) (.coroutine n))
                (Prog.op (.finish result)) Q F w := by
            intro result w hw
            apply wp_call (fun w => ∃ s, Mine g plan gen n c s w ∧ Left g c.entry.2 result s) hw
            · rintro w w' hothers ⟨s, hs, hleft⟩
              exact ⟨s, hstable s w w' hothers hs, hleft⟩
            · rintro w r w' ⟨s, hs, hleft⟩ hexec
              cases hexec
              exact ⟨hs.finish hleft, hQ _⟩
          refine ⟨.inl rfl, ?_⟩
          obtain ⟨hrun, id, _, htask⟩ := hmine.inv.spawned n c hc
          have hrunId : c.run.id = c.task.runId := by
            rw [hmine.runId, hrun]
            rfl
          have hplanned : c.task.state = .planned := by
            rw [Coroutine.task, htask]
            rfl
          -- `_run_task`, verified alone
          rw [wp_bind, wp_handle, wp_bind]
          refine wp_mono (wp_view (Mine g plan gen n c) hstable
            (fun o s w r w' hs hexec => hs.call hexec) (wp_runTask hrunId hplanned) hmine) ?_ ?_
          · intro outcome w hw
            exact hfinish (.ok outcome) w hw
          · intro e w hw
            exact hfinish (.error e) w hw
      · cases hexec
  · cases hexec

end Coroutine

/-! ## Calls that only read -/

section Reads

variable {g : GoalRunner} {plan : Plan} {gen : Generated} {party : Party}

theorem Moves.refl (w : World) : Moves g plan gen party w w := by
  cases party <;> exact .inl rfl

/-- The rule for a call that does nothing to the world. -/
theorem wp_read {α : Type} {Q : α → World → Prop} {F : PyExn → World → Prop} {o : Op}
    {k : Ret o → Program α} {w : World} (P : World → Prop) (hw : P w)
    (hstable : ∀ j w w', j ≠ party → Moves g plan gen j w w' → P w → P w')
    (hidle : ∀ w r w', exec g party o w r = some w' → w' = w)
    (hrest : ∀ w r, P w → exec g party o w r = some w →
      wp (stepContract (exec g) (Moves g plan gen) party) (k r) Q F w) :
    wp (stepContract (exec g) (Moves g plan gen) party) (.call o k) Q F w := by
  apply wp_call_step P hw hstable
  intro w r w' hw hexec
  cases hidle w r w' hexec
  exact ⟨Moves.refl w, hrest w r hw hexec⟩

theorem loadRun_idle {runId : RunId} (w : World) (r : Option Run) (w' : World)
    (h : exec g party (.loadRun runId) w r = some w') : w' = w := by
  simp only [exec] at h
  split at h <;> cases h
  rfl

theorem loadTasks_idle {runId : RunId} (w : World) (r : List Task) (w' : World)
    (h : exec g party (.loadTasks runId) w r = some w') : w' = w := by
  simp only [exec] at h
  split at h <;> cases h
  rfl

end Reads

/-! ## The requests -/

section Requests

variable {g : GoalRunner} {plan : Plan} {gen : Generated} {w w' : World}

/-- A request changes the registry, and which runners' tasks are cancelled. -/
theorem Inv.ask (h : Inv g plan gen w) {requested : Dict RunId String}
    {active : Dict TaskId (String × Bool)} {L : Ledger}
    (hbooks : Books gen { w with requested, active, ledger := L })
    (hmarks : L.marks = w.ledger.marks) (hraised : L.raised = w.ledger.raised)
    (hover : L.isOver = w.ledger.isOver) : Inv g plan gen { w with requested, active, ledger := L } where
  keyed := h.keyed
  rows := h.rows
  spawned := h.spawned
  distinct := h.distinct
  ready := h.ready
  batch := h.batch
  closed := h.closed
  books := hbooks
  proper n c hc := by
    show Proper _ (L.marks _) _
    rw [hmarks]
    exact h.proper n c hc
  raised x hx := by
    show _ ∨ ∃ n c, _ ∧ _ ∧ _ ∧ (L.marks _).raised = true
    rw [hmarks]
    exact h.raised x (by rw [← hraised]; exact hx)
  noted n c hc hmarked := by
    show ∃ x ∈ L.raised, _
    rw [hraised]
    rw [show ({ w with requested, active, ledger := L } : World).ledger.marks = w.ledger.marks
      from hmarks] at hmarked
    exact h.noted n c hc hmarked
  waiting n c hlive := hover.trans (h.waiting n c hlive)
  unmarked entry hentry hfree := by
    show L.marks _ = {} ∧ _
    rw [hmarks]
    exact h.unmarked entry hentry hfree
  driven := h.driven
  working := h.working
  owned := h.owned

theorem Books.accept (h : Books gen w) : Books gen { w with
    requested := w.requested.setDefault gen.runId "cancelled by request"
    ledger := w.ledger.accept w.holding } := by
  have hsome : ((w.requested.setDefault gen.runId "cancelled by request").get? gen.runId).isSome = true := by
    unfold Dict.setDefault
    split
    · next hold => exact hold
    · rw [Dict.get?_set_self]
      rfl
  constructor
  case before =>
    intro hover
    have hover' : w.ledger.isOver = false := hover
    simp [Ledger.accept, (h.before hover').1, hover', hsome]
  case after =>
    intro hover
    have hover' : w.ledger.isOver = true := hover
    simp [Ledger.accept, hover', hsome]
  case late => exact fun _ => rfl
  case exposed =>
    intro hexposed
    refine ⟨rfl, ?_⟩
    rcases Bool.or_eq_true _ _ ▸ hexposed with hold | hholding
    · exact (h.exposed hold).2
    · exact .inr hholding
  case holding =>
    intro _ hholding
    have hholding' : w.holding = true := hholding
    simp [Ledger.accept, hholding']
  case started =>
    intro hstarted
    simp [Ledger.accept, h.started hstarted]
  case cancelled => exact fun _ _ _ => rfl

/-- A request that is accepted. -/
theorem Inv.accept (h : Inv g plan gen w) : Ask g plan gen w { w with
    requested := w.requested.setDefault gen.runId "cancelled by request"
    ledger := w.ledger.accept w.holding } where
  inv := h.ask h.books.accept rfl rfl rfl
  db := rfl
  coroutines := rfl
  active _ := rfl
  marks := rfl
  raised := rfl
  isOver := rfl
  accepted _ := rfl
  late hover := .inl (by simp [Ledger.accept, hover])

/-- A runner's task that a request cancels. -/
theorem Inv.cancelTask (h : Inv g plan gen w) (haccepted : w.ledger.accepted = true) {id : TaskId}
    {model : String} {cancelled : Bool} (hactive : w.active.get? id = some (model, cancelled)) :
    Ask g plan gen w { w with active := w.active.set id (model, true) } where
  inv := by
    have hbooks : Books gen { w with active := w.active.set id (model, true) } :=
      ⟨h.books.before, h.books.after, h.books.late, h.books.exposed, h.books.holding, h.books.started,
        fun _ _ _ => haccepted⟩
    exact h.ask hbooks rfl rfl rfl
  db := rfl
  coroutines := rfl
  active id' := by
    show (Dict.get? (Dict.set w.active id (model, true)) id').map Prod.fst = _
    rw [Dict.get?_set]
    split
    · next heq => rw [← heq, hactive]; rfl
    · rfl
  marks := rfl
  raised := rfl
  isOver := rfl
  accepted h := h
  late _ := .inr ⟨rfl, rfl⟩

/-- What the others do leaves the invariant, and an accepted request accepted. -/
theorem Inv.moves {party : Party} (h : Inv g plan gen w) (hstep : Moves g plan gen party w w') :
    Inv g plan gen w' ∧ (w.ledger.accepted = true → w'.ledger.accepted = true) := by
  cases party with
  | execute =>
      rcases hstep with rfl | hdrive
      · exact ⟨h, id⟩
      · exact ⟨hdrive.inv, hdrive.accepted⟩
  | coroutine n =>
      rcases hstep with rfl | ⟨c, hwork⟩
      · exact ⟨h, id⟩
      · refine ⟨hwork.inv, ?_⟩
        rw [hwork.touch.accepted]
        exact id
  | cancelRun n =>
      rcases hstep with rfl | hask
      · exact ⟨h, id⟩
      · exact ⟨hask.inv, hask.accepted⟩

/-- A request was accepted. -/
def Asked (g : GoalRunner) (plan : Plan) (gen : Generated) (w : World) : Prop :=
  Inv g plan gen w ∧ w.ledger.accepted = true

/-- **Every request only asks.** -/
theorem cancelRunRoute_body {n : Nat} (h : Inv g plan gen w) {Q : Response → World → Prop}
    {F : PyExn → World → Prop} (hQ : ∀ response w, Inv g plan gen w → Q response w) :
    wp (stepContract (exec g) (Moves g plan gen) (.cancelRun n)) (cancelRunRoute gen.runId) Q F w := by
  have hstable : ∀ (j : Party) (w w' : World), j ≠ .cancelRun n → Moves g plan gen j w w' →
      Asked g plan gen w → Asked g plan gen w' :=
    fun j w w' _ hstep hw => ⟨(hw.1.moves hstep).1, (hw.1.moves hstep).2 hw.2⟩
  unfold cancelRunRoute
  simp only [Prog.bind_eq, Prog.op_bind, Prog.pure_eq]
  apply wp_read (o := .loadRun _) (Inv g plan gen) h (fun j w w' _ hstep hw => (hw.moves hstep).1)
    loadRun_idle
  intro w stored hw _
  cases stored with
  | none => exact hQ _ w hw
  | some run =>
      dsimp only
      split
      · apply wp_call_step (Inv g plan gen) hw fun j w w' _ hstep hw => (hw.moves hstep).1
        intro w _ w' hw hexec
        cases hexec
        refine ⟨.inr hw.accept, ?_⟩
        apply wp_read (o := .loadTasks _) (Asked g plan gen) ⟨hw.accept.inv, rfl⟩ hstable loadTasks_idle
        intro w tasks hw _
        apply wp_seq (M := fun _ => Asked g plan gen)
        · apply wp_forEach (fun _ => Asked g plan gen) hw
          intro done task rest w _ hw
          apply wp_call_step (Asked g plan gen) hw hstable
          intro w cancelled w' hw hexec
          simp only [exec] at hexec
          split at hexec
          · next model _ hactive =>
              split at hexec
              · cases hexec
                have hask := hw.1.cancelTask hw.2 hactive
                exact ⟨.inr hask, hask.inv, hw.2⟩
              · cases hexec
          · split at hexec
            · cases hexec
            · cases hexec
              exact ⟨.inl rfl, hw⟩
        · intro _ w hw
          apply wp_read (o := .loadTasks _) (Asked g plan gen) hw hstable loadTasks_idle
          exact fun w tasks hw _ => hQ _ w hw.1
      · exact hQ _ w hw

end Requests

end AtlasFlow.Reference
