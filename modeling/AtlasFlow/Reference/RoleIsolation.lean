import AtlasFlow.Reference.AcpRunner

/-!
# Roles and the servers of their sessions

A session keeps the servers it was created with. An attempt that creates its session gives it the servers
of its own role; one that resumes a session takes it with the servers of whatever role it was created for,
since sessions are stored by task and runner only. So a role is kept to its servers as long as no session
is resumed for a role that may reach less (`isolated_unless_widened`), and not beyond
(`reviewer_resumes`).
-/

namespace AtlasFlow.Reference.AcpRunner

open Concurrency

/-- A list that holds only servers the role of the attempt may reach. -/
def Allowed (attempt : Attempt) (servers : List Json) : Prop :=
  ∀ sent ∈ servers, ∃ server ∈ attempt.runner.mcp.forRole attempt.config.role, server.toAcp = sent

/-- Every prompt went to a session that was created with servers its attempt's role may reach. -/
def Isolated (history : History) (w : World) : Prop :=
  ∀ p ∈ w.prompts, ∃ session, p.session.bind (w.created[·]?) = some session ∧ session.sessionId = p.sessionId ∧
    Allowed (history.attempts p.attempt) session.servers

/-- The session that is taken up was created for an attempt whose role reaches nothing that the role of this
attempt does not. -/
def notWidened (history : History) (i : Nat) : (o : Op) → World → Ret o → Bool
  | .loadSession .., w, r =>
      match r with
      | .ok k => (w.created[k]?).all fun session =>
          (history.attempts session.attempt).servers.all fun sent => sent ∈ (history.attempts i).servers
      | .error _ => true
  | _, _, _ => true

/-- The runs in which no session is resumed for a role that may reach less. -/
def unwidened (history : History) : System Nat Op Ret Exn Point RunnerResult World :=
  (system history).restrict (notWidened history)

theorem allowed_servers (attempt : Attempt) : Allowed attempt attempt.servers :=
  fun _ hsent => List.mem_map.mp hsent

theorem Allowed.subset {attempt : Attempt} {servers : List Json} (h : ∀ sent ∈ servers, sent ∈ attempt.servers) :
    Allowed attempt servers :=
  fun sent hsent => allowed_servers attempt sent (h sent hsent)

/-! ## The invariant -/

structure Faithful (history : History) (w : World) : Prop where
  servers : ∀ session ∈ w.created, session.servers = (history.attempts session.attempt).servers
  stored : ∀ row ∈ w.rows, ∃ session ∈ w.created, session.sessionId = row.sessionId
  isolated : Isolated history w

/-- The client of attempt `i` is on a session under this id, whose servers its role may reach. -/
def On (history : History) (i : Nat) (sessionId : String) (w : World) : Prop :=
  ∃ k session, w.session i = some k ∧ w.created[k]? = some session ∧ session.sessionId = sessionId ∧
    Allowed (history.attempts i) session.servers

/-- Where attempt `i` is: on a session, once it has one. -/
structure At (history : History) (i : Nat) (sessionId : Option String) (w : World) : Prop where
  faithful : Faithful history w
  on : ∀ id, sessionId = some id → On history i id w

/-- A step of attempt `i`: sessions are only added, and no other client is moved to another. -/
structure Grows (history : History) (i : Nat) (w w' : World) : Prop where
  faithful : Faithful history w → Faithful history w'
  created : ∃ later, w'.created = w.created ++ later
  session : ∀ j, j ≠ i → w'.session j = w.session j

section Steps

variable {history : History} {i j : Nat} {id : String} {sessionId : Option String} {w w' : World}

theorem getElem?_append_of_some {created later : List Created} {k : Nat} {session : Created}
    (h : created[k]? = some session) : (created ++ later)[k]? = some session := by
  obtain ⟨hk, -⟩ := List.getElem?_eq_some_iff.mp h
  rw [List.getElem?_append_left hk, h]

/-- A session that a client was put on stays what it is. -/
theorem On.grow (h : On history i id w) (hsession : w'.session i = w.session i)
    (hcreated : ∃ later, w'.created = w.created ++ later) : On history i id w' := by
  obtain ⟨k, session, hk, hat, hid, hallowed⟩ := h
  obtain ⟨later, hlater⟩ := hcreated
  exact ⟨k, session, hsession.trans hk, by rw [hlater, getElem?_append_of_some hat], hid, hallowed⟩

theorem At.stable (h : At history i sessionId w) (hj : j ≠ i) (hstep : Grows history j w w') :
    At history i sessionId w' :=
  ⟨hstep.faithful h.faithful, fun id hid => (h.on id hid).grow (hstep.session i (Ne.symm hj)) hstep.created⟩

theorem At.forget (h : At history i sessionId w) : At history i none w := ⟨h.faithful, nofun⟩

theorem Isolated.grow (h : Isolated history w) (hprompts : w'.prompts = w.prompts)
    (hcreated : ∃ later, w'.created = w.created ++ later) : Isolated history w' := by
  obtain ⟨later, hlater⟩ := hcreated
  intro p hp
  rw [hprompts] at hp
  obtain ⟨session, hat, hid, hallowed⟩ := h p hp
  refine ⟨session, ?_, hid, hallowed⟩
  obtain ⟨k, hk, hat⟩ := Option.bind_eq_some_iff.mp hat
  rw [hk, Option.bind_some, hlater, getElem?_append_of_some hat]

/-- Everything but the rows is the same, and every row has an id that a row had. -/
structure SameSessions (w w' : World) : Prop where
  created : w'.created = w.created
  session : w'.session = w.session
  prompts : w'.prompts = w.prompts
  rows : ∀ row' ∈ w'.rows, ∃ row ∈ w.rows, row.sessionId = row'.sessionId

theorem SameSessions.refl (w : World) : SameSessions w w := ⟨rfl, rfl, rfl, fun row h => ⟨row, h, rfl⟩⟩

theorem SameSessions.touch (w : World) (key : String × String) (now : String) : SameSessions w (w.touch key now) := by
  refine ⟨rfl, rfl, rfl, fun row' h => ?_⟩
  obtain ⟨row, hrow, rfl⟩ := List.mem_map.mp h
  refine ⟨row, hrow, ?_⟩
  split <;> rfl

theorem SameSessions.forget (w : World) (key : String × String) : SameSessions w (w.forget key) :=
  ⟨rfl, rfl, rfl, fun row h => ⟨row, List.mem_of_mem_filter h, rfl⟩⟩

theorem SameSessions.grows (h : SameSessions w w') : Grows history i w w' := by
  refine ⟨fun hw => ⟨by rw [h.created]; exact hw.servers, fun row' hrow' => ?_, ?_⟩, ⟨[], by simp [h.created]⟩,
    fun j _ => by rw [h.session]⟩
  · obtain ⟨row, hrow, heq⟩ := h.rows row' hrow'
    rw [h.created, ← heq]
    exact hw.stored row hrow
  · exact hw.isolated.grow h.prompts ⟨[], by simp [h.created]⟩

theorem SameSessions.at (h : SameSessions w w') (hw : At history i sessionId w) : At history i sessionId w' := by
  have hgrows : Grows history i w w' := h.grows
  exact ⟨hgrows.faithful hw.faithful, fun id hid => (hw.on id hid).grow (by rw [h.session]) hgrows.created⟩

/-- Remembering a session touches nothing but the rows. -/
theorem remember_frame (w : World) (row : StoredSession) : (w.remember row).created = w.created ∧
    (w.remember row).session = w.session ∧ (w.remember row).prompts = w.prompts := by
  unfold World.remember
  split <;> exact ⟨rfl, rfl, rfl⟩

/-- Only a session that there is is remembered. -/
theorem grows_remember {row : StoredSession} (h : On history i row.sessionId w) :
    Grows history i w (w.remember row) := by
  obtain ⟨hcreated, hsession, hprompts⟩ := remember_frame w row
  have hrows : ∀ row' ∈ (w.remember row).rows, row'.sessionId = row.sessionId ∨ row' ∈ w.rows := by
    intro row' hrow'
    unfold World.remember at hrow'
    split at hrow'
    · obtain ⟨old, hold, rfl⟩ := List.mem_map.mp hrow'
      split
      · exact .inl rfl
      · exact .inr hold
    · rcases List.mem_append.mp hrow' with hold | hnew
      · exact .inr hold
      · exact .inl (by rw [List.mem_singleton.mp hnew])
  refine ⟨fun hw => ⟨by rw [hcreated]; exact hw.servers, fun row' hrow' => ?_, ?_⟩, ⟨[], by simp [hcreated]⟩,
    fun j _ => by rw [hsession]⟩
  · rw [hcreated]
    rcases hrows row' hrow' with heq | hold
    · obtain ⟨k, session, -, hat, hid, -⟩ := h
      exact ⟨session, List.mem_of_getElem? hat, hid.trans heq.symm⟩
    · exact hw.stored row' hold
  · exact hw.isolated.grow hprompts ⟨[], by simp [hcreated]⟩

theorem At.remember {row : StoredSession} (hrow : row.sessionId = id) (h : At history i (some id) w) :
    At history i (some id) (w.remember row) := by
  obtain ⟨hcreated, hsession, -⟩ := remember_frame w row
  have hgrows : Grows history i w (w.remember row) := grows_remember (h.on _ (congrArg some hrow.symm))
  exact ⟨hgrows.faithful h.faithful, fun id hid => (h.on id hid).grow (by rw [hsession]) hgrows.created⟩

/-- A new session has the servers of the attempt's role. -/
theorem grows_create : Grows history i w (w.create i id (history.attempts i).servers) := by
  refine ⟨fun hw => ⟨fun session hsession => ?_, fun row hrow => ?_, hw.isolated.grow rfl ⟨_, rfl⟩⟩, ⟨_, rfl⟩,
    fun j hj => Function.update_of_ne hj _ _⟩
  · rcases List.mem_append.mp hsession with hold | hnew
    · exact hw.servers session hold
    · rw [List.mem_singleton.mp hnew]
  · obtain ⟨session, hsession, heq⟩ := hw.stored row hrow
    exact ⟨session, List.mem_append_left _ hsession, heq⟩

theorem on_create : On history i id (w.create i id (history.attempts i).servers) :=
  ⟨w.created.length, _, Function.update_self .., List.getElem?_concat_length, rfl, allowed_servers _⟩

/-- A client is put on a session. -/
theorem grows_load {k : Nat} : Grows history i w { w with session := Function.update w.session i (some k) } :=
  ⟨fun hw => ⟨hw.servers, hw.stored, hw.isolated⟩, ⟨[], by simp⟩, fun j hj => Function.update_of_ne hj _ _⟩

/-- A prompt goes to the session its client is on. -/
theorem grows_prompt (h : On history i id w) :
    Grows history i w { w with prompts := w.prompts ++ [⟨i, id, w.session i⟩] } := by
  refine ⟨fun hw => ⟨hw.servers, hw.stored, fun p hp => ?_⟩, ⟨[], by simp⟩, fun _ _ => rfl⟩
  rcases List.mem_append.mp hp with hold | hnew
  · exact hw.isolated p hold
  · obtain ⟨k, session, hk, hat, hid, hallowed⟩ := h
    rw [List.mem_singleton.mp hnew]
    exact ⟨session, by rw [hk, Option.bind_some, hat], hid, hallowed⟩

end Steps

/-! ## The programs -/

section Programs

variable {history : History} {i : Nat} {α β : Type}

/-- The contract of attempt `i`. -/
abbrev contract (history : History) (i : Nat) : Contract Op Ret World :=
  stepContract (unwidened history).exec (Grows history) i

/-- From where the attempt is, `p` leads where `dest` says; if it raises, the attempt may be anywhere. -/
def Leads (history : History) (i : Nat) (origin : Option String) (p : Program α) (dest : α → Option String) : Prop :=
  ∀ w, At history i origin w → wp (contract history i) p (fun a => At history i (dest a)) (fun _ => At history i none) w

theorem Leads.ret {sessionId : Option String} (a : α) {dest : α → Option String} (h : dest a = sessionId) :
    Leads history i sessionId (.ret a) dest := fun w hw => by rw [wp_ret, h]; exact hw

theorem Leads.raise {sessionId : Option String} (e : Exn) {dest : α → Option String} :
    Leads history i sessionId (.raise e) dest := fun _ hw => hw.forget

theorem Leads.ofExcept {sessionId : Option String} (r : Except Exn α) :
    Leads history i sessionId (Prog.ofExcept r) fun _ => sessionId := by
  cases r with
  | ok a => exact Leads.ret a rfl
  | error e => exact Leads.raise e

theorem Leads.bind {sessionId : Option String} {p : Program α} {f : α → Program β} {mid : α → Option String}
    {dest : β → Option String} (hp : Leads history i sessionId p mid) (hf : ∀ a, Leads history i (mid a) (f a) dest) :
    Leads history i sessionId (p.bind f) dest := fun w hw => wp_seq (hp w hw) fun a w' => hf a w'

/-- A call that meets no session. -/
theorem Leads.call {sessionId : Option String} {o : Op} {k : Ret o → Program α} {dest : α → Option String}
    (ho : ∀ w r w', exec i o w r = some w' → SameSessions w w') (hk : ∀ r, Leads history i sessionId (k r) dest) :
    Leads history i sessionId (.call o k) dest := by
  intro w hw
  refine wp_call_step (At history i sessionId) hw (fun _ _ _ hj hstep h => h.stable hj hstep)
    fun w r w' h hexec => ?_
  have hsame := ho w r w' ((system history).exec_restrict.mp hexec).2
  exact ⟨hsame.grows, hk r w' (hsame.at h)⟩

theorem Leads.touch (taskId runner : String) {sessionId : Option String} :
    Leads history i sessionId (touch taskId runner) fun _ => sessionId := by
  simp only [AcpRunner.touch, Prog.bind_eq, Prog.op_bind]
  refine Leads.call (fun w _ w' h => ?_) fun now => Leads.call (fun w written w' h => ?_) fun written => Leads.ofExcept _
  · cases h
    exact .refl w
  · simp only [exec, Option.some.injEq] at h
    subst h
    split
    · exact .touch w _ _
    · exact .refl w

theorem Leads.forget (taskId runner : String) {sessionId : Option String} :
    Leads history i sessionId (forget taskId runner) fun _ => sessionId := by
  simp only [AcpRunner.forget, Prog.bind_eq, Prog.op_bind]
  refine Leads.call (fun w written w' h => ?_) fun written => Leads.ofExcept _
  simp only [exec, Option.some.injEq] at h
  subst h
  split
  · exact .forget w _
  · exact .refl w

/-- A session is taken up only if it was created for a role that reaches no more. -/
theorem Leads.loadSession (supportsLoad : Bool) (id cwd : String) :
    Leads history i none (loadSession supportsLoad id cwd) fun loaded => if loaded then some id else none := by
  unfold AcpRunner.loadSession
  split
  · exact Leads.ret false rfl
  intro w hw
  refine wp_call_step (At history i none) hw (fun _ _ _ hj hstep h => h.stable hj hstep) fun w r w' h hexec => ?_
  obtain ⟨hfits, hexec⟩ := (system history).exec_restrict.mp hexec
  cases r with
  | error e =>
      cases hexec
      exact ⟨(SameSessions.refl w).grows, h⟩
  | ok k =>
      simp only [system, exec] at hexec
      split at hexec
      · next hid =>
          cases hexec
          have hgrows : Grows history i w { w with session := Function.update w.session i (some k) } := grows_load
          obtain ⟨session, hat, hid⟩ := Option.map_eq_some_iff.mp hid
          refine ⟨hgrows, hgrows.faithful h.faithful, fun id' hid' => ?_⟩
          cases hid'
          refine ⟨k, session, Function.update_self .., hat, hid, Allowed.subset fun sent hsent => ?_⟩
          rw [h.faithful.servers session (List.mem_of_getElem? hat)] at hsent
          simp only [notWidened, hat, Option.all_some, List.all_eq_true, decide_eq_true_eq] at hfits
          exact hfits sent hsent
      · cases hexec

theorem Leads.tryResume (runner : Runner) (supportsLoad : Bool) (taskId : String) (stored : StoredSession) :
    Leads history i none (tryResume runner supportsLoad taskId stored) fun loaded =>
      if loaded then some stored.sessionId else none := by
  simp only [AcpRunner.tryResume, Prog.bind_eq]
  refine Leads.bind (Leads.loadSession supportsLoad stored.sessionId _) fun loaded => ?_
  cases loaded with
  | false => exact Leads.ret false rfl
  | true => exact Leads.bind (Leads.touch taskId runner.name) fun _ => Leads.ret true rfl

/-- **`_resume`**: it ends on the session it returns. -/
theorem Leads.resume (runner : Runner) (supportsLoad : Bool) (taskId : String) :
    Leads history i none (resume runner supportsLoad taskId) id := by
  unfold AcpRunner.resume
  split
  · exact Leads.ret none rfl
  simp only [Prog.bind_eq, Prog.op_bind]
  refine Leads.call (fun w r w' h => ?_) fun r => Leads.bind (Leads.ofExcept r) fun row => ?_
  · cases r with
    | error e =>
        cases h
        exact .refl w
    | ok row =>
        simp only [exec] at h
        split at h
        · cases h
          exact .refl w
        · cases h
  cases row with
  | none => exact Leads.ret none rfl
  | some stored =>
      have hhandled : ∀ handler : Exn → Program Bool, (∀ message, handler (.acp message) = .ret false) →
          (∀ message, handler (.other message) = .raise (.other message)) →
          Leads history i none (Prog.handle (AcpRunner.tryResume runner supportsLoad taskId stored) handler)
            fun loaded => if loaded then some stored.sessionId else none := by
        intro handler hacp hother w hw
        refine wp_handle.mpr (wp_mono (Leads.tryResume runner supportsLoad taskId stored w hw) (fun _ _ h => h)
          fun e w' h => ?_)
        cases e with
        | acp message =>
            rw [hacp]
            exact Leads.ret false rfl w' h
        | other message =>
            rw [hother]
            exact h
      refine Leads.bind (hhandled _ (fun _ => rfl) fun _ => rfl) fun loaded => ?_
      cases loaded with
      | true => exact Leads.ret _ rfl
      | false => exact Leads.bind (Leads.forget taskId runner.name) fun _ => Leads.ret none rfl

/-- `_remember` stores the session its client is on. -/
theorem Leads.rememberSession (runner : Runner) (taskId id : String) :
    Leads history i (some id) (rememberSession runner taskId id) fun _ => some id := by
  unfold AcpRunner.rememberSession
  split
  · simp only [AcpRunner.remember, Prog.bind_eq, Prog.op_bind]
    refine Leads.call (fun w _ w' h => ?_) fun now => ?_
    · cases h
      exact .refl w
    intro w hw
    refine wp_call_step (At history i (some id)) hw (fun _ _ _ hj hstep h => h.stable hj hstep)
      fun w written w' h hexec => ?_
    have hexec := ((system history).exec_restrict.mp hexec).2
    simp only [system, exec, Option.some.injEq] at hexec
    subst hexec
    split
    · exact ⟨grows_remember (h.on id rfl), Leads.ofExcept written.get _ (h.remember rfl)⟩
    · exact ⟨(SameSessions.refl w).grows, Leads.ofExcept written.get _ h⟩
  · exact Leads.ret () rfl

/-- `session/new` puts the client on a session with the servers of its role. -/
theorem Leads.newSession {k : Except Exn String → Program α} {dest : α → Option String} (cwd : String)
    (hok : ∀ id, Leads history i (some id) (k (.ok id)) dest)
    (herror : ∀ e, Leads history i none (k (.error e)) dest) :
    Leads history i none (.call (.newSession cwd (history.attempts i).servers) k) dest := by
  intro w hw
  refine wp_call_step (At history i none) hw (fun _ _ _ hj hstep h => h.stable hj hstep) fun w r w' h hexec => ?_
  have hexec := ((system history).exec_restrict.mp hexec).2
  cases r with
  | error e =>
      cases hexec
      exact ⟨(SameSessions.refl w).grows, herror e w h⟩
  | ok id =>
      cases hexec
      have hgrows : Grows history i w (w.create i id (history.attempts i).servers) := grows_create
      refine ⟨hgrows, hok id _ ⟨hgrows.faithful h.faithful, fun id' hid' => ?_⟩⟩
      cases hid'
      exact on_create

/-- The prompt goes to the session the client is on. -/
theorem Leads.sendPrompt {k : Except Exn PromptResult → Program α} {dest : α → Option String} (id text : String)
    (timeout : Nat) (hk : ∀ r, Leads history i none (k r) dest) :
    Leads history i (some id) (.call (.sendPrompt id text timeout) k) dest := by
  intro w hw
  refine wp_call_step (At history i (some id)) hw (fun _ _ _ hj hstep h => h.stable hj hstep)
    fun w r w' h hexec => ?_
  have hexec := ((system history).exec_restrict.mp hexec).2
  cases hexec
  have hgrows := grows_prompt (h.on id rfl)
  exact ⟨hgrows, hk r _ ⟨hgrows.faithful h.faithful, nofun⟩⟩

/-- The calls that meet neither the store nor a session. -/
theorem sameSessions_of_eq {w w' : World} (h : some w = some w') : SameSessions w w' := by
  cases h
  exact .refl w

theorem leads_converse : Leads history i none (converse (history.attempts i)) fun _ => none := by
  simp only [converse, Prog.bind_eq, Prog.op_bind]
  refine Leads.call (fun _ _ _ h => sameSessions_of_eq h) fun started => Leads.bind (Leads.ofExcept started) fun _ => ?_
  refine Leads.call (fun _ _ _ h => sameSessions_of_eq h) fun supports => Leads.bind (Leads.ofExcept supports) fun _ => ?_
  refine Leads.bind (Leads.resume _ _ _) fun resumed => ?_
  cases resumed with
  | some id =>
      refine Leads.sendPrompt id _ _ fun r => Leads.bind (Leads.ofExcept r) fun result => Leads.ret _ rfl
  | none =>
      refine Leads.newSession _ (fun id => ?_) fun e => Leads.raise e
      rw [Prog.ofExcept_ok, Prog.ret_bind]
      refine Leads.bind (Leads.rememberSession _ _ id) fun _ => ?_
      exact Leads.sendPrompt id _ _ fun r => Leads.bind (Leads.ofExcept r) fun result => Leads.ret _ rfl

/-- **`AcpRunner.run`**: however it ends, every prompt went where it may. -/
theorem leads_run (redactSecrets : String → String) :
    Leads history i none (run redactSecrets (history.attempts i)) fun _ => none := by
  have hclose : Leads history i none (do Prog.ofExcept (← call .close)) fun _ => none := by
    simp only [Prog.bind_eq, Prog.op_bind]
    exact Leads.call (fun _ _ _ h => sameSessions_of_eq h) fun closed => Leads.ofExcept closed
  have htry : Leads history i none (tryConverse (history.attempts i)) fun _ => none := by
    simp only [tryConverse, Prog.bind_eq]
    refine fun w hw => wp_handle.mpr (wp_mono
      (Leads.bind leads_converse (fun a => Leads.ret (Except.ok a) rfl) w hw) (fun _ _ h => h) fun e w' h => ?_)
    cases e <;> exact h
  simp only [run, Prog.bind_eq]
  refine Leads.bind (fun w hw => wp_ensure.mpr (wp_mono (htry w hw) (fun _ w' h => hclose w' h)
    fun _ w' h => hclose w' h)) fun outcome => ?_
  cases outcome with
  | error message => exact Leads.ret _ rfl
  | ok result => exact Leads.ret _ rfl

end Programs

/-! ## Runs -/

def isolationOutline (history : History) : Outline (unwidened history) :=
  Outline.ofSteps (Grows history) (fun i _ => At history i none) (fun i _ => At history i none)
    (fun i _ => At history i none) (fun _ _ _ _ _ hj hstep h => h.stable hj hstep)
    (fun _ _ _ _ _ hj hstep h => h.stable hj hstep) (fun _ _ _ _ _ hj hstep h => h.stable hj hstep) fun i point w h => by
      cases point with
      | idle => exact h
      | ready =>
          have hready : Leads history i none ((unwidened history).code i .ready) fun _ => none :=
            Leads.bind (leads_run history.redactSecrets) fun result => Leads.ret _ rfl
          exact wp_mono (hready w h) (fun x _ h => by cases x <;> exact h) fun _ _ h => h

/-- **A role is kept to its servers** in every run in which no session is resumed for a role that may reach
less than the one it was created for. -/
theorem isolated_unless_widened {history : History} {c : Conf Nat Op Ret Exn Point RunnerResult World}
    (h : (unwidened history).Steps (start history) c) : Isolated history c.world := by
  have hsteps : (unwidened history).Steps ((unwidened history).init (fun _ => .idle) {}) c := h
  have hstart : Faithful history {} := ⟨nofun, nofun, nofun⟩
  exact ((isolationOutline history).world_steps (fun _ _ _ _ _ hstep => hstep.faithful)
    ((isolationOutline history).holds_init fun _ => ⟨hstart, nofun⟩) hstart hsteps).isolated

/-! ### An implementer and its reviewer -/

/-- The agent gives every session the same id, and loads it. -/
def obliging : (o : Op) → World → Ret o
  | .start .., _ | .close, _ => .ok ()
  | .initializeAgent, _ => .ok true
  | .newSession .., _ => .ok "session-1"
  | .loadSession .., _ => .ok 0
  | .sendPrompt .., _ => .ok { stopReason := "end_turn" }
  | .now, _ => "2026-01-01T00:00:00+00:00"
  | .recall taskId runner, w => .ok (Table.lookup StoredSession.key (taskId, runner) w.rows)
  | .remember _, _ | .touch .., _ | .forget .., _ => .done

/-- A server that only the implementer may reach. -/
def deployServer : McpServer := { name := "deploy", command := "deploy-mcp", roles := ["implementer"] }

def agentRunner : Runner :=
  { command := ["agent"], mcp := { servers := [deployServer] }, sessions := true }

/-- A task is implemented in attempt 0, reviewed in attempt 1 and implemented again in attempt 2. -/
def reviewed : History where
  attempts n := {
    runner := agentRunner, taskId := "t", prompt := "go"
    config := { role := if n = 1 then "reviewer" else "implementer" } }
  redactSecrets := id

/-- The whole of an attempt, alone. -/
def whole (n : Nat) : List (Nat × ((o : Op) → World → Ret o)) := List.replicate 12 (n, obliging)

/-- The reviewer of a task is prompted on its implementer's session, with a server it may not reach. -/
theorem reviewer_resumes : ∃ c, (system reviewed).Steps (start reviewed) c ∧
    (reviewed.attempts 1).runner.mcp.forRole "reviewer" = [] ∧ (⟨1, "session-1", some 0⟩ : Prompt) ∈ c.world.prompts ∧
    ¬ Isolated reviewed c.world := by
  let c := (system reviewed).play (whole 0 ++ whole 1) (start reviewed)
  have hprompt : (⟨1, "session-1", some 0⟩ : Prompt) ∈ c.world.prompts := by decide +kernel
  have hreviewer : (reviewed.attempts 1).runner.mcp.forRole "reviewer" = [] := by decide +kernel
  have hcreated : (c.world.created[0]?).map Created.servers = some [deployServer.toAcp] := by decide +kernel
  refine ⟨c, System.play_steps _ (whole 0 ++ whole 1) _, hreviewer, hprompt, fun h => ?_⟩
  obtain ⟨session, hat, -, hallowed⟩ := h _ hprompt
  rw [Option.bind_some] at hat
  rw [hat, Option.map_some, Option.some.injEq] at hcreated
  obtain ⟨server, hserver, -⟩ := hallowed deployServer.toAcp (by rw [hcreated]; exact List.mem_singleton_self _)
  rw [show (reviewed.attempts 1).config.role = "reviewer" from rfl, hreviewer] at hserver
  cases hserver

theorem isolated_unless_widened_two : ∃ c, (unwidened reviewed).Steps (start reviewed) c ∧
    c.world.prompts = [⟨0, "session-1", some 0⟩, ⟨2, "session-1", some 0⟩] ∧ Isolated reviewed c.world := by
  let c := (unwidened reviewed).play (whole 0 ++ whole 2) (start reviewed)
  have hsteps : (unwidened reviewed).Steps (start reviewed) c := System.play_steps _ (whole 0 ++ whole 2) _
  exact ⟨c, hsteps, by decide +kernel, isolated_unless_widened hsteps⟩

end AtlasFlow.Reference.AcpRunner
