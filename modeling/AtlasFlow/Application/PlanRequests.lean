import AtlasFlow.Application.Services

/-!
# Many requests for one plan

Any number of `StartAsync` and `LockAsync` requests for one plan, interleaved at their awaits. The
world keeps, next to the database, which requests stand between a check and the write it was made
for: `checking` lists the starts that read the plan as locked and have not yet stored it consumed,
`locking` the locks whose save read a draft and has not yet written. `created` lists the runs that
were inserted.

Nothing in the code keeps two requests out of `checking` at once, and then one reviewed plan makes
two runs (`two_runs_from_one_plan`). Along every run in which these windows do not overlap
(`apart`), one run at most is created and a consumed plan stays consumed.
-/

namespace AtlasFlow.PlanRequests

open Concurrency SqlValues

/-- What a client asks for. -/
inductive Request where
  | start (ct : CancellationToken)
  | lock (ct : CancellationToken)
  deriving DecidableEq

structure World (ι : Type) where
  db : Database
  checking : List ι := []
  asked : List ι := []
  locking : List ι := []
  created : List RunId := []

variable {ι : Type} [DecidableEq ι]

/-- The state a stored plan is read in. -/
def stateOf (row : PlanRow) : Option PlanState := row.read.toOption.map Plan.state

/-- The state the plan is stored in, when it is stored and can be read. -/
def stored (planId : PlanId) (w : World ι) : Option PlanState :=
  (w.db.findPlan planId).bind stateOf

/-! ## The system -/

/-- Reading the plan in a state: a start that reads it locked is now checking; a lock that reads
a draft has asked, and the second time, in its save, is about to write. -/
def seen (request : Request) (i : ι) (state : Option PlanState) (w : World ι) : World ι :=
  match request, state with
  | .start _, some .locked => if i ∈ w.checking then w else { w with checking := i :: w.checking }
  | .lock _, some .draft =>
      if i ∈ w.asked then { w with locking := i :: w.locking } else { w with asked := i :: w.asked }
  | _, _ => w

def without (i : ι) (l : List ι) : List ι := l.filter (· ≠ i)

/-- What the world remembers of a call. A start that could not insert its run, and a lock that could
not write, are over. -/
def observe (request : Request) (i : ι) : (o : Op) → Ret o → World ι → World ι
  | .selectPlan .., .ok row, w => seen request i (row.bind stateOf) w
  | .execute (.run run) _, .ok _, w => { w with created := w.created ++ [run.id] }
  | .execute (.run _) _, .error _, w => { w with checking := without i w.checking }
  | .execute (.plan _) _, .ok _, w =>
      { w with checking := without i w.checking, locking := without i w.locking }
  | .execute (.plan _) _, .error _, w => { w with locking := without i w.locking }
  | _, _, w => w

/-- What a call does to the database. Run ids are fresh; the engine that is started in the
background neither writes plans nor inserts runs. -/
def serve : (o : Op) → Database → Ret o → Option Database
  | .newRunId, db, r => if r ∈ db.runs.map Run.id then none else some db
  | .utcNow, db, _ => some db
  | .startInBackground .., db, _ => some db
  | o, db, r => Database.answers o db r

/-- The requests for one plan, over one database. -/
def requests (projectId : String) (planId : PlanId) (request : ι → Request) :
    System ι Op Ret Exn Unit (Run ⊕ Plan) (World ι) where
  exec i o w r := (serve o w.db r).map fun db => observe (request i) i o r { w with db }
  code i _ :=
    match request i with
    | .start ct => (RunService.startAsync projectId ⟨some planId⟩ ct).bind fun run =>
        .ret (.inr (.inl run))
    | .lock ct => (PlanService.lockAsync planId ct).bind fun plan => .ret (.inr (.inr plan))

/-- The steps that keep the windows apart: no start reads the plan as locked while another is
checking, and none stores it consumed while a lock is about to write. -/
def apart (request : ι → Request) (i : ι) : (o : Op) → World ι → Ret o → Bool
  | .selectPlan .., w, .ok row =>
      match request i, row.bind stateOf with
      | .start _, some .locked => i ∈ w.checking || w.checking.isEmpty
      | _, _ => true
  | .execute (.plan _) _, w, .ok _ =>
      match request i with
      | .start _ => w.locking.isEmpty
      | .lock _ => true
  | _, _, _ => true

/-! ## The invariant -/

/-- Windows that do not overlap: one start is checking at most, and the plan stays locked while it
does; a run has been created only when the plan is consumed or its start is still checking; while a
lock is about to write, nobody has consumed the plan. -/
structure Inv (planId : PlanId) (w : World ι) : Prop where
  one : ∀ i ∈ w.checking, ∀ j ∈ w.checking, i = j
  locked : ∀ i ∈ w.checking, stored planId w = some .locked
  created : w.created.length ≤ 1
  spent : w.checking = [] → w.created ≠ [] → stored planId w = some .consumed
  locking : ∀ i ∈ w.locking, stored planId w = some .draft ∨ stored planId w = some .locked

/-- What the steps of the others leave alone for `i`. -/
structure Frame (planId : PlanId) (i : ι) (w w' : World ι) : Prop where
  checking : i ∈ w'.checking ↔ i ∈ w.checking
  asked : i ∈ w'.asked ↔ i ∈ w.asked
  locking : i ∈ w'.locking ↔ i ∈ w.locking
  created : i ∈ w.checking → w'.created = w.created
  present : w.db.findPlan planId ≠ none → w'.db.findPlan planId ≠ none

/-- A step of `i`: it keeps the invariant, never takes a consumed plan back, and leaves the others
alone. -/
structure Move (planId : PlanId) (i : ι) (w w' : World ι) : Prop where
  inv : Inv planId w'
  consumed : stored planId w = some .consumed → stored planId w' = some .consumed
  frame : ∀ j, j ≠ i → Frame planId j w w'

variable {planId : PlanId} {i : ι} {w w' w'' : World ι}

omit [DecidableEq ι] in
theorem Frame.refl : Frame planId i w w := ⟨.rfl, .rfl, .rfl, fun _ => rfl, fun h => h⟩

omit [DecidableEq ι] in
theorem Frame.trans (h : Frame planId i w w') (h' : Frame planId i w' w'') :
    Frame planId i w w'' where
  checking := h'.checking.trans h.checking
  asked := h'.asked.trans h.asked
  locking := h'.locking.trans h.locking
  created hi := (h'.created (h.checking.mpr hi)).trans (h.created hi)
  present hp := h'.present (h.present hp)

theorem mem_without {i j : ι} {l : List ι} : j ∈ without i l ↔ j ∈ l ∧ j ≠ i := by
  simp [without]

/-- Alone in the window, `i` leaves it empty. -/
theorem Inv.without_eq_nil (h : Inv planId w) (hi : i ∈ w.checking) : without i w.checking = [] := by
  rw [List.eq_nil_iff_forall_not_mem]
  intro j hj
  obtain ⟨hmem, hne⟩ := mem_without.mp hj
  exact hne (h.one j hmem i hi)

omit [DecidableEq ι] in
theorem Inv.move (h : Inv planId w) : Move planId i w w := ⟨h, fun hc => hc, fun _ _ => .refl⟩

/-! ### The steps -/

/-- Reading the plan when no other start is checking, or in a state that opens no window. -/
theorem move_seen {request : Request} (h : Inv planId w)
    (hapart : ∀ ct, request = .start ct → stored planId w = some .locked →
      i ∈ w.checking ∨ w.checking = []) :
    Move planId i w (seen request i (stored planId w) w) := by
  unfold seen
  split
  · next hstate =>
      split
      · exact h.move
      · next hnot =>
          have hempty : w.checking = [] := (hapart _ rfl hstate).resolve_left hnot
          have hcreated : w.created = [] := by
            by_contra hne
            rw [h.spent hempty hne] at hstate
            cases hstate
          constructor
          case inv =>
            refine ⟨?_, fun j _ => hstate, h.created, fun hnil => absurd hnil (by simp), h.locking⟩
            intro j hj k hk
            simp only [hempty, List.mem_singleton] at hj hk
            rw [hj, hk]
          case consumed => exact fun hc => hc
          case frame =>
            intro j hj
            refine ⟨?_, .rfl, .rfl, fun _ => rfl, fun hp => hp⟩
            simp [hj]
  · next hstate =>
      split
      · constructor
        case inv =>
          exact ⟨h.one, h.locked, h.created, h.spent, fun j _ => .inl hstate⟩
        case consumed => exact fun hc => hc
        case frame =>
          intro j hj
          refine ⟨.rfl, .rfl, ?_, fun _ => rfl, fun hp => hp⟩
          simp [hj]
      · constructor
        case inv => exact ⟨h.one, h.locked, h.created, h.spent, h.locking⟩
        case consumed => exact fun hc => hc
        case frame =>
          intro j hj
          refine ⟨.rfl, ?_, .rfl, fun _ => rfl, fun hp => hp⟩
          simp [hj]
  · exact h.move

omit [DecidableEq ι] in
/-- Inserting a run of `i`, which is checking and has created none. -/
theorem move_create (run : Run) (h : Inv planId w) (hi : i ∈ w.checking) (hnone : w.created = []) :
    Move planId i w
      { w with db := w.db.apply (.run run), created := w.created ++ [run.id] } := by
  have hstored : stored planId { w with db := w.db.apply (.run run), created := w.created ++ [run.id] }
      = stored planId w := by simp [stored]
  constructor
  case inv =>
    constructor
    case one => exact h.one
    case locked => intro j hj; rw [hstored]; exact h.locked j hj
    case created => simp [hnone]
    case spent => intro hnil; exact absurd (hnil ▸ hi) List.not_mem_nil
    case locking => intro j hj; rw [hstored]; exact h.locking j hj
  case consumed => intro hc; rw [hstored]; exact hc
  case frame =>
    intro j hj
    refine ⟨.rfl, .rfl, .rfl, fun hmem => absurd (h.one j hmem i hi) hj, ?_⟩
    simp

/-- A start that could not insert its run leaves the window. -/
theorem move_abandon (h : Inv planId w) (hnone : w.created = []) :
    Move planId i w { w with checking := without i w.checking } := by
  constructor
  case inv =>
    constructor
    case one => exact fun j hj k hk => h.one j (mem_without.mp hj).1 k (mem_without.mp hk).1
    case locked => exact fun j hj => h.locked j (mem_without.mp hj).1
    case created => exact h.created
    case spent => exact fun _ hne => absurd hnone hne
    case locking => exact h.locking
  case consumed => exact fun hc => hc
  case frame =>
    intro j hj
    refine ⟨?_, .rfl, .rfl, fun _ => rfl, fun hp => hp⟩
    simp [mem_without, hj]

/-- A lock that could not write leaves its window. -/
theorem move_unlock (h : Inv planId w) :
    Move planId i w { w with locking := without i w.locking } := by
  constructor
  case inv =>
    exact ⟨h.one, h.locked, h.created, h.spent, fun j hj => h.locking j (mem_without.mp hj).1⟩
  case consumed => exact fun hc => hc
  case frame =>
    intro j hj
    refine ⟨.rfl, .rfl, ?_, fun _ => rfl, fun hp => hp⟩
    simp [mem_without, hj]

omit [DecidableEq ι] in
theorem stored_write (plan : Plan) (hid : plan.id = planId) (checking locking : List ι) :
    stored planId { w with
      db := w.db.apply (.plan (PlanRow.parametersFor plan)), checking, locking } =
      some plan.state := by
  subst hid
  have hfind : (w.db.apply (.plan (PlanRow.parametersFor plan))).findPlan plan.id =
      some (PlanRow.parametersFor plan) := by
    rw [Database.findPlan_plan]
    exact if_pos rfl
  simp [stored, hfind, stateOf, Except.toOption, Plan.persisted]

theorem present_write (plan : Plan) (hid : plan.id = planId) (db : Database) :
    (db.apply (.plan (PlanRow.parametersFor plan))).findPlan planId ≠ none := by
  subst hid
  rw [Database.findPlan_plan]
  simp [PlanRow.parametersFor]

/-- The checking start stores the plan consumed. -/
theorem move_consume {plan : Plan} (h : Inv planId w) (hid : plan.id = planId)
    (hplan : plan.state = .consumed) (hi : i ∈ w.checking) (hnone : w.locking = []) :
    Move planId i w { w with
      db := w.db.apply (.plan (PlanRow.parametersFor plan))
      checking := without i w.checking
      locking := without i w.locking } := by
  have hstored := stored_write (w := w) plan hid (without i w.checking) (without i w.locking)
  rw [hplan] at hstored
  have hempty := h.without_eq_nil hi
  constructor
  case inv =>
    constructor
    case one => intro j hj; rw [hempty] at hj; cases hj
    case locked => intro j hj; rw [hempty] at hj; cases hj
    case created => exact h.created
    case spent => exact fun _ _ => hstored
    case locking => intro j hj; rw [hnone] at hj; cases hj
  case consumed => exact fun _ => hstored
  case frame =>
    intro j hj
    refine ⟨?_, .rfl, ?_, fun _ => rfl, fun _ => present_write plan hid w.db⟩
    · simp [mem_without, hj]
    · simp [mem_without, hj]

/-- A lock that is about to write stores the plan locked. -/
theorem move_lock {plan : Plan} (h : Inv planId w) (hid : plan.id = planId)
    (hplan : plan.state = .locked) (hi : i ∈ w.locking) (hnot : i ∉ w.checking) :
    Move planId i w { w with
      db := w.db.apply (.plan (PlanRow.parametersFor plan))
      checking := without i w.checking
      locking := without i w.locking } := by
  have hstored := stored_write (w := w) plan hid (without i w.checking) (without i w.locking)
  rw [hplan] at hstored
  have hkeep : without i w.checking = w.checking := by
    refine List.filter_eq_self.mpr fun j hj => ?_
    have hne : j ≠ i := fun heq => hnot (heq ▸ hj)
    simpa using hne
  have hopen : stored planId w ≠ some .consumed := by
    intro hc
    rcases h.locking i hi with hd | hl
    · rw [hc] at hd; cases hd
    · rw [hc] at hl; cases hl
  constructor
  case inv =>
    constructor
    case one => exact fun j hj k hk => h.one j (mem_without.mp hj).1 k (mem_without.mp hk).1
    case locked => exact fun _ _ => hstored
    case created => exact h.created
    case spent =>
      intro hnil hne
      exact absurd (h.spent (hkeep ▸ hnil) hne) hopen
    case locking => exact fun _ _ => .inr hstored
  case consumed => exact fun hc => absurd hc hopen
  case frame =>
    intro j hj
    refine ⟨?_, .rfl, ?_, fun _ => rfl, fun _ => present_write plan hid w.db⟩
    · simp [mem_without, hj]
    · simp [mem_without, hj]

/-! ## The requests keep to it -/

section

variable (projectId : String) (planId : PlanId) (request : ι → Request)

/-- The requests, interleaved so that the windows stay apart. -/
abbrev orderly : System ι Op Ret Exn Unit (Run ⊕ Plan) (World ι) :=
  (requests projectId planId request).restrict (apart request)

def rely (i : ι) (w w' : World ι) : Prop := Inv planId w → Inv planId w' ∧ Frame planId i w w'

def guar (i : ι) (_o : Op) (w : World ι) (_r : Ret _o) (w' : World ι) : Prop :=
  Inv planId w → Move planId i w w'

abbrev contract (i : ι) : Contract Op Ret (World ι) :=
  ⟨(orderly projectId planId request).exec i, rely planId i, guar planId i⟩

end

variable {projectId : String} {request : ι → Request} {α : Type}

theorem exec_orderly {i : ι} {o : Op} {w w' : World ι} {r : Ret o}
    (h : (orderly projectId planId request).exec i o w r = some w') :
    apart request i o w r = true ∧
      ∃ db, serve o w.db r = some db ∧ w' = observe (request i) i o r { w with db } := by
  obtain ⟨hapart, hexec⟩ := (System.exec_restrict _).mp h
  obtain ⟨db, hserve, hw'⟩ := Option.map_eq_some_iff.mp hexec
  exact ⟨hapart, db, hserve, hw'.symm⟩

/-- The rule for a call: what `i` knows (`X`) survives the others, and the step is a move. -/
theorem wp_step {o : Op} {k : Ret o → Program α} {Q : α → World ι → Prop}
    (X : World ι → Prop) (hX : ∀ w w', Frame planId i w w' → X w → X w')
    (hw : Inv planId w) (hXw : X w)
    (hstep : ∀ w r w', Inv planId w → X w →
      (orderly projectId planId request).exec i o w r = some w' →
      Move planId i w w' ∧
        wp (contract projectId planId request i) (k r) Q (fun _ _ => True) w') :
    wp (contract projectId planId request i) (.call o k) Q (fun _ _ => True) w := by
  refine wp_call (fun w => Inv planId w ∧ X w) ⟨hw, hXw⟩ ?_ ?_
  · rintro w w' hrely ⟨hinv, hx⟩
    obtain ⟨hinv', hframe⟩ := hrely hinv
    exact ⟨hinv', hX w w' hframe hx⟩
  · rintro w r w' ⟨hinv, hx⟩ hexec
    obtain ⟨hmove, hk⟩ := hstep w r w' hinv hx hexec
    exact ⟨fun _ => hmove, hk⟩

theorem id_of_findPlan {db : Database} {row : PlanRow} {plan : Plan}
    (hfind : db.findPlan planId = some row) (hread : row.read = .ok plan) : plan.id = planId := by
  have hkey : row.id = planId.value := (Table.mem_of_lookup hfind).2
  have hid : plan.id = ⟨row.id⟩ := by
    simp only [PlanRow.read, bind, Except.bind, pure, Except.pure] at hread
    repeat' split at hread
    all_goals cases hread
    rfl
  rw [hid, hkey]

/-- Reading the plan: nothing is stored, or it is read in its state, and seen in it. -/
theorem wp_findAsync {ct : CancellationToken} {k : Option Plan → Program α}
    {Q : α → World ι → Prop} (X : World ι → Prop)
    (hX : ∀ w w', Frame planId i w w' → X w → X w') (hw : Inv planId w) (hXw : X w)
    (hnone : ∀ w, Inv planId w → X w → w.db.findPlan planId = none →
      wp (contract projectId planId request i) (k none) Q (fun _ _ => True) w)
    (hsome : ∀ w plan, Inv planId w → X w → w.db.findPlan planId ≠ none →
      stored planId w = some plan.state → plan.id = planId →
      Move planId i w (seen (request i) i (some plan.state) w) →
      wp (contract projectId planId request i) (k (some plan)) Q (fun _ _ => True)
        (seen (request i) i (some plan.state) w)) :
    wp (contract projectId planId request i) ((PlanRepository.findAsync planId ct).bind k) Q
      (fun _ _ => True) w := by
  simp only [PlanRepository.findAsync, Prog.bind_eq, Prog.op_bind, Prog.call_bind]
  refine wp_step X hX hw hXw fun w r w' hinv hx hexec => ?_
  obtain ⟨hapart, db, hserve, rfl⟩ := exec_orderly hexec
  cases r with
  | error e =>
      have hdb : db = w.db := by
        simp only [serve, Database.answers, Database.orCanceled] at hserve
        split at hserve <;> simp_all
      subst hdb
      exact ⟨hinv.move, trivial⟩
  | ok row? =>
      have hdb : db = w.db ∧ row? = w.db.findPlan planId := by
        simp only [serve, Database.answers, Database.orCanceled] at hserve
        split at hserve <;> simp_all
      obtain ⟨rfl, rfl⟩ := hdb
      have hmove : Move planId i w (seen (request i) i (stored planId w) w) := by
        refine move_seen hinv fun ct' hstart hlocked => ?_
        have hbind : (w.db.findPlan planId).bind stateOf = some .locked := hlocked
        simp only [apart, hstart, hbind, Bool.or_eq_true, decide_eq_true_eq,
          List.isEmpty_iff] at hapart
        exact hapart
      refine ⟨hmove, ?_⟩
      simp only [Prog.ofExcept_ok, Prog.ret_bind]
      cases hfind : w.db.findPlan planId with
      | none =>
          have hseen : observe (request i) i (.selectPlan planId ct) (.ok none) w = w := by
            simp only [observe, seen, Option.bind_none]
            split <;> simp_all
          simp only [Prog.pure_eq, Prog.ret_bind]
          show wp _ _ _ _ (observe (request i) i (.selectPlan planId ct) (.ok none) w)
          rw [hseen]
          exact hnone w hinv hx hfind
      | some row =>
          cases hread : row.read with
          | error e => simp [hread]
          | ok plan =>
              have hstate : stored planId w = some plan.state := by
                simp [stored, hfind, stateOf, hread, Except.toOption]
              rw [hstate] at hmove
              have hrest := hsome w plan hinv hx (by rw [hfind]; simp) hstate
                (id_of_findPlan hfind hread) hmove
              have hseen : observe (request i) i (.selectPlan planId ct) (.ok (some row)) w =
                  seen (request i) i (some plan.state) w := by
                simp [observe, stateOf, hread, Except.toOption]
              simp only [hread, Prog.ofExcept_ok, Prog.ret_bind, Prog.pure_eq]
              show wp _ _ _ _ (observe (request i) i (.selectPlan planId ct) (.ok (some row)) w)
              rw [hseen]
              exact hrest

/-- A call that neither the database nor the windows notice. -/
theorem wp_quiet {o : Op} {k : Ret o → Program α} {Q : α → World ι → Prop} (X : World ι → Prop)
    (hX : ∀ w w', Frame planId i w w' → X w → X w') (hw : Inv planId w) (hXw : X w)
    (hserve : ∀ db r db', serve o db r = some db' → db' = db)
    (hobserve : ∀ r w, observe (request i) i o r w = w)
    (hstep : ∀ w r, Inv planId w → X w →
      wp (contract projectId planId request i) (k r) Q (fun _ _ => True) w) :
    wp (contract projectId planId request i) (.call o k) Q (fun _ _ => True) w :=
  wp_step X hX hw hXw fun w r w' hinv hx hexec => by
    obtain ⟨_, db, hdb, rfl⟩ := exec_orderly hexec
    have hsame := hserve w.db r db hdb
    subst hsame
    rw [hobserve]
    exact ⟨hinv.move, hstep w r hinv hx⟩

theorem serve_newRunId (db : Database) (r : RunId) (db' : Database)
    (h : serve .newRunId db r = some db') : db' = db := by
  simp only [serve] at h
  split at h
  · cases h
  · exact (Option.some.inj h).symm

/-- A save of the consumed plan by a checking start. -/
theorem wp_save_consumed {plan : Plan} {ct ct' : CancellationToken} (hstart : request i = .start ct')
    (hid : plan.id = planId) (hplan : plan.state = .consumed) (hw : Inv planId w)
    (hi : i ∈ w.checking) :
    wp (contract projectId planId request i) (PlanRepository.saveAsync plan ct)
      (fun _ => Inv planId) (fun _ _ => True) w := by
  rw [PlanRepository.saveAsync, Prog.bind_eq, hid]
  refine wp_findAsync (fun w => i ∈ w.checking) (fun w w' hf hx => hf.checking.mpr hx) hw hi ?_ ?_
  · intro w hinv hx hnone
    have hlocked := hinv.locked i hx
    simp [stored, hnone] at hlocked
  · intro w existing hinv hx _ hstate _ _
    have hlocked : existing.state = .locked :=
      Option.some.inj (hstate.symm.trans (hinv.locked i hx))
    have hsame : seen (request i) i (some existing.state) w = w := by
      rw [hstart, hlocked, seen, if_pos hx]
    rw [hsame]
    simp only [hlocked, hplan, and_self, not_true_eq_false, and_false, if_false, Prog.bind_eq,
      Prog.op_bind]
    refine wp_step (fun w => i ∈ w.checking) (fun w w' hf hx => hf.checking.mpr hx) hinv hx ?_
    intro w r w' hinv hx hexec
    obtain ⟨hapart, db, hserve, rfl⟩ := exec_orderly hexec
    cases r with
    | error e =>
        have hdb : db = w.db := by
          simp only [serve, Database.answers, Database.orCanceled] at hserve
          split at hserve <;> simp_all
        subst hdb
        exact ⟨move_unlock hinv, trivial⟩
    | ok u =>
        have hdb : db = w.db.apply (.plan (PlanRow.parametersFor plan)) := by
          simpa [serve, Database.answers, Database.orCanceled] using hserve.symm
        subst hdb
        have hnone : w.locking = [] := by
          simpa [apart, hstart, List.isEmpty_iff] using hapart
        have hmove := move_consume hinv hid hplan hx hnone
        exact ⟨hmove, hmove.inv⟩

/-- A save of the locked plan by a lock that has read a draft once. -/
theorem wp_save_locked {plan : Plan} {ct ct' : CancellationToken} (hlock : request i = .lock ct')
    (hid : plan.id = planId) (hplan : plan.state = .locked) (hw : Inv planId w)
    (hx : i ∉ w.checking ∧ i ∈ w.asked ∧ w.db.findPlan planId ≠ none) :
    wp (contract projectId planId request i) (PlanRepository.saveAsync plan ct)
      (fun _ => Inv planId) (fun _ _ => True) w := by
  rw [PlanRepository.saveAsync, Prog.bind_eq, hid]
  refine wp_findAsync
    (fun w => i ∉ w.checking ∧ i ∈ w.asked ∧ w.db.findPlan planId ≠ none) ?_ hw hx ?_ ?_
  · rintro w w' hf ⟨hc, ha, hp⟩
    exact ⟨fun h => hc (hf.checking.mp h), hf.asked.mpr ha, hf.present hp⟩
  · rintro w _ ⟨_, _, hp⟩ hnone
    exact absurd hnone hp
  · rintro w existing hinv ⟨hc, ha, _⟩ _ hstate _ hmove
    by_cases hdraft : existing.state = .draft
    · have hseen : seen (request i) i (some existing.state) w =
          { w with locking := i :: w.locking } := by
        rw [hlock, hdraft, seen, if_pos ha]
      rw [hseen] at hmove ⊢
      simp only [hdraft, ne_eq, not_true_eq_false, false_and, if_false, Prog.bind_eq, Prog.op_bind]
      refine wp_step (fun w => i ∈ w.locking ∧ i ∉ w.checking) ?_ hmove.inv
        ⟨List.mem_cons_self, hc⟩ ?_
      · rintro w w' hf ⟨hl, hc⟩
        exact ⟨hf.locking.mpr hl, fun h => hc (hf.checking.mp h)⟩
      · rintro w r w' hinv ⟨hl, hc⟩ hexec
        obtain ⟨_, db, hserve, rfl⟩ := exec_orderly hexec
        cases r with
        | error e =>
            have hdb : db = w.db := by
              simp only [serve, Database.answers, Database.orCanceled] at hserve
              split at hserve <;> simp_all
            subst hdb
            exact ⟨move_unlock hinv, trivial⟩
        | ok u =>
            have hdb : db = w.db.apply (.plan (PlanRow.parametersFor plan)) := by
              simpa [serve, Database.answers, Database.orCanceled] using hserve.symm
            subst hdb
            have hmove := move_lock hinv hid hplan hl hc
            exact ⟨hmove, hmove.inv⟩
    · have hguard : existing.state ≠ .draft ∧
          ¬(existing.state = .locked ∧ plan.state = .consumed) :=
        ⟨hdraft, fun h => by rw [hplan] at h; cases h.2⟩
      simp only
      rw [if_pos hguard]
      split
      · trivial
      · exact hmove.inv

/-- A start opens its window alone, creates its run in it and closes it by consuming the plan. -/
theorem wp_start {ct : CancellationToken} (hstart : request i = .start ct) (hw : Inv planId w)
    (hi : i ∉ w.checking) :
    wp (contract projectId planId request i)
      (RunService.startAsync projectId ⟨some planId⟩ ct) (fun _ => Inv planId)
      (fun _ _ => True) w := by
  simp only [RunService.startAsync, RunService.lockedPlanFor, Prog.bind_eq, Prog.bind_assoc]
  refine wp_findAsync (fun w => i ∉ w.checking) (fun w w' hf hx h => hx (hf.checking.mp h)) hw hi
    (fun _ _ _ _ => trivial) ?_
  intro w plan hinv hx _ hstate hid hmove
  by_cases hlocked : plan.state = .locked
  · have hseen : seen (request i) i (some plan.state) w =
        { w with checking := i :: w.checking } := by
      rw [hstart, hlocked, seen, if_neg hx]
    rw [hseen] at hmove ⊢
    have hempty : w.checking = [] := by
      rw [List.eq_nil_iff_forall_not_mem]
      intro j hj
      have hji := hmove.inv.one j (List.mem_cons_of_mem i hj) i List.mem_cons_self
      exact hx (hji ▸ hj)
    have hcreated : w.created = [] := by
      by_contra hne
      rw [hinv.spent hempty hne, hlocked] at hstate
      cases hstate
    simp only [hlocked, if_true, Prog.pure_eq, Prog.ret_bind, Prog.op_bind]
    have hX : ∀ w w' : World ι, Frame planId i w w' → i ∈ w.checking ∧ w.created = [] →
        i ∈ w'.checking ∧ w'.created = [] := by
      rintro w w' hf ⟨hc, hcr⟩
      exact ⟨hf.checking.mpr hc, by rw [hf.created hc]; exact hcr⟩
    refine wp_quiet _ hX hmove.inv ⟨List.mem_cons_self, hcreated⟩ serve_newRunId (fun _ _ => rfl) ?_
    intro w id hinv hx
    refine wp_quiet _ hX hinv hx (fun _ _ _ h => (Option.some.inj h).symm) (fun _ _ => rfl) ?_
    intro w now hinv hx
    refine wp_step _ hX hinv hx ?_
    rintro w r w' hinv ⟨hc, hcr⟩ hexec
    obtain ⟨_, db, hserve, rfl⟩ := exec_orderly hexec
    cases r with
    | error e =>
        have hdb : db = w.db := by
          simp only [serve, Database.answers, Database.orCanceled] at hserve
          split at hserve <;> simp_all
        subst hdb
        exact ⟨move_abandon hinv hcr, trivial⟩
    | ok u =>
        have hdb := Option.some.inj hserve
        subst hdb
        have hmove := move_create {
          id, projectId, goalId := plan.goalId, goalRevision := plan.goalRevision,
          state := .created, autonomy := plan.autonomy, createdAt := now } hinv hc hcr
        refine ⟨hmove, ?_⟩
        simp only [Prog.ofExcept_ok, Prog.ret_bind]
        refine wp_seq (wp_save_consumed hstart hid rfl hmove.inv hc) ?_
        intro _ w hinv
        exact wp_quiet (fun _ => True) (fun _ _ _ _ => trivial) hinv trivial
          (fun _ _ _ h => (Option.some.inj h).symm) (fun _ _ => rfl) fun _ _ hinv _ => hinv
  · have hseen : seen (request i) i (some plan.state) w = w := by
      rw [hstart]
      cases hs : plan.state with
      | locked => exact absurd hs hlocked
      | draft => rfl
      | consumed => rfl
    rw [hseen]
    simp only [hlocked, if_false]
    trivial

/-- A lock reads a draft, and saves the plan locked. -/
theorem wp_lock {ct : CancellationToken} (hlock : request i = .lock ct) (hw : Inv planId w)
    (hi : i ∉ w.checking ∧ i ∉ w.asked) :
    wp (contract projectId planId request i) (PlanService.lockAsync planId ct)
      (fun _ => Inv planId) (fun _ _ => True) w := by
  rw [PlanService.lockAsync, Prog.bind_eq]
  refine wp_findAsync (fun w => i ∉ w.checking ∧ i ∉ w.asked) ?_ hw hi
    (fun _ _ _ _ => trivial) ?_
  · rintro w w' hf ⟨hc, ha⟩
    exact ⟨fun h => hc (hf.checking.mp h), fun h => ha (hf.asked.mp h)⟩
  rintro w plan hinv ⟨hc, ha⟩ hpresent _ hid hmove
  by_cases hdraft : plan.state = .draft
  · have hseen : seen (request i) i (some plan.state) w = { w with asked := i :: w.asked } := by
      rw [hlock, hdraft, seen, if_neg ha]
    rw [hseen] at hmove ⊢
    simp only [hdraft, ne_eq, not_true_eq_false, if_false]
    split
    · trivial
    · exact wp_seq (wp_save_locked hlock hid rfl hmove.inv
        ⟨hc, List.mem_cons_self, hpresent⟩) fun _ _ hinv => hinv
  · simp only [hdraft, ne_eq, not_false_eq_true, if_true]
    trivial

/-- **Every request keeps to its contract.** -/
def outline (projectId : String) (planId : PlanId) (request : ι → Request) :
    Outline (orderly projectId planId request) where
  rely := rely planId
  guar := guar planId
  pre i _ w := Inv planId w ∧ i ∉ w.checking ∧ i ∉ w.asked
  post _ _ _ := True
  fail _ _ _ := True
  rely_refl _ _ hinv := ⟨hinv, .refl⟩
  rely_trans _ _ _ _ h h' hinv :=
    have ⟨hinv', hf⟩ := h hinv
    have ⟨hinv'', hf'⟩ := h' hinv'
    ⟨hinv'', hf.trans hf'⟩
  guar_rely _ j _ _ _ _ hij h hinv := ⟨(h hinv).inv, (h hinv).frame j (Ne.symm hij)⟩
  pre_stable := by
    rintro i _ w w' hrely ⟨hinv, hc, ha⟩
    obtain ⟨hinv', hf⟩ := hrely hinv
    exact ⟨hinv', fun h => hc (hf.checking.mp h), fun h => ha (hf.asked.mp h)⟩
  post_stable _ _ _ _ _ h := h
  fail_stable _ _ _ _ _ h := h
  body := by
    rintro i _ w ⟨hinv, hc, ha⟩
    show wp (contract projectId planId request i) ((requests projectId planId request).code i ())
      _ _ w
    simp only [requests]
    split
    · next ct hstart => exact wp_seq (wp_start hstart hinv hc) fun _ _ _ => trivial
    · next ct hlock => exact wp_seq (wp_lock hlock hinv ⟨hc, ha⟩) fun _ _ _ => trivial

/-! ## One plan, one run -/

/-- **When the windows stay apart, one plan makes one run**: in every reachable state at most one
run has been created, and from then on a consumed plan stays consumed. -/
theorem one_run_of_apart (projectId : String) (planId : PlanId) (request : ι → Request)
    (db : Database) (c c' : Conf ι Op Ret Exn Unit (Run ⊕ Plan) (World ι))
    (h : (orderly projectId planId request).Steps
      ((orderly projectId planId request).init (fun _ => ()) { db }) c)
    (h' : (orderly projectId planId request).Steps c c') :
    c.world.created.length ≤ 1 ∧
      (stored planId c.world = some .consumed → stored planId c'.world = some .consumed) := by
  have hinv : Inv planId ({ db } : World ι) := by
    refine ⟨?_, ?_, Nat.zero_le 1, fun _ hne => absurd rfl hne, ?_⟩
    all_goals intro i hi; cases hi
  have hinit : (outline projectId planId request).Holds
      ((orderly projectId planId request).init (fun _ => ()) { db }) :=
    Outline.holds_init _ fun i => ⟨hinv, List.not_mem_nil, List.not_mem_nil⟩
  have hholds := Outline.holds_steps _ hinit h
  have hc := Outline.world_steps (outline projectId planId request)
    (fun _ _ _ _ _ hguar hinv => (hguar hinv).inv) hinit hinv h
  refine ⟨hc.created, fun hconsumed => ?_⟩
  exact (Outline.world_steps (outline projectId planId request)
    (P := fun w => Inv planId w ∧ stored planId w = some .consumed)
    (fun _ _ _ _ _ hguar hw => ⟨(hguar hw.1).inv, (hguar hw.1).consumed hw.2⟩)
    hholds ⟨hc, hconsumed⟩ h').2

/-! ### One start after the other, and two at once -/

/-- Answers of the outside world to a start of the reviewed plan. -/
def answer (runId : RunId) : (o : Op) → World Bool → Ret o
  | .selectPlan id _, w => .ok (w.db.findPlan id)
  | .execute .., _ => .ok ()
  | .newRunId, _ => runId
  | .utcNow, _ => ⟨0, 0⟩
  | .startInBackground .., _ => ()
  | _, _ => default

/-- The reviewed plan, locked, and nothing else. -/
def lockedWorld : World Bool := { db := { plans := [PlanRow.parametersFor PlanRepository.reviewed] } }

/-- The first request runs to its end, then the second. -/
def oneByOne : List (Bool × ((o : Op) → World Bool → Ret o)) :=
  List.replicate 7 (false, answer ⟨"run-1"⟩) ++ List.replicate 7 (true, answer ⟨"run-2"⟩)

/-- Both requests read the plan before either has consumed it; then each goes on to its end. -/
def bothRead : List (Bool × ((o : Op) → World Bool → Ret o)) :=
  (false, answer ⟨"run-1"⟩) :: (true, answer ⟨"run-2"⟩) ::
    List.replicate 6 (false, answer ⟨"run-1"⟩) ++ List.replicate 5 (true, answer ⟨"run-2"⟩)

abbrev twoStarts : Bool → Request := fun _ => .start .none

/-- Of two starts one after the other, the second finds the plan consumed. -/
theorem one_run_of_apart_oneByOne :
    let S := orderly "atlas" PlanRepository.reviewed.id twoStarts
    let c := S.play oneByOne (S.init (fun _ => ()) lockedWorld)
    c.world.created = [⟨"run-1"⟩] ∧ c.world.created.length ≤ 1 ∧
      (stored PlanRepository.reviewed.id c.world = some .consumed →
        stored PlanRepository.reviewed.id c.world = some .consumed) :=
  ⟨rfl, one_run_of_apart "atlas" PlanRepository.reviewed.id twoStarts lockedWorld.db _ _
    (System.play_steps _ oneByOne _) .refl⟩

/-- The second start finds the plan consumed by the first, with the content it would write itself:
saving it is a no-op, and its run stays. -/
theorem two_runs_from_one_plan :
    ∃ c, (requests "atlas" PlanRepository.reviewed.id twoStarts).Steps
        ((requests "atlas" PlanRepository.reviewed.id twoStarts).init (fun _ => ()) lockedWorld) c ∧
      c.world.created = [⟨"run-1"⟩, ⟨"run-2"⟩] ∧
      c.world.db.runs.map Run.id = [⟨"run-1"⟩, ⟨"run-2"⟩] := by
  refine ⟨_, System.play_steps _ bothRead _, ?_, ?_⟩
  · rfl
  · rfl

end AtlasFlow.PlanRequests
