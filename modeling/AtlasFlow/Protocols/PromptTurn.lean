import AtlasFlow.Concurrency.Monitor
import AtlasFlow.Protocols.AcpClient

/-!
# A prompt turn

Whoever prompts and the read loop share the lists of a client. The two run side by side, and every use of the lock is
one step.
-/

namespace AtlasFlow.Acp.Client.Turn

open Concurrency Security SessionUpdateNormalizer

variable (platform : Platform)

/-- The two that share a client. -/
inductive Side
  | caller
  | reader
  deriving DecidableEq

/-- The record of an update, if the normaliser makes one. -/
def form (update : JsonObject) : Option NormalizedUpdate := (normalize platform update).toOption.join

/-- The update in a line that is a `session/update`. -/
def updateIn : Line → Option JsonObject
  | .value (.obj message) =>
    match tryGetPropertyValue message "method", tryGetPropertyValue message "id" with
    | .ok (some method), .ok none =>
      match Acp.stringOf method with
      | .ok name => (updateOf name (paramsOf message)).toOption.join
      | .error _ => none
    | _, _ => none
  | _ => none

/-- The client, the lines that the agent is going to write, and the table of calls. No step reads what comes after
`result`: it keeps account of the turn, which begins with the reset of the lists. `arrived` are the updates that were
read before the answer was; of the update that is being handled `owed` is still to be put into the list of updates,
and `due` into the list of events. `noted` are the updates that were put into the one list, and `recorded` those whose
records were put into the other, `heard` and `used` what these were when the turn took the lists. The turn is calm if
nothing was left to be put into the lists when it began. -/
structure World where
  client : Client
  lines : List Line
  nextId : Int := 0
  pending : List Int := []
  settled : Int → Option Settlement := fun _ => none
  result : Option PromptResult := none
  turn : Option Int := none
  arrived : List JsonObject := []
  owed : Option JsonObject := none
  due : Option NormalizedUpdate := none
  noted : List JsonObject := []
  recorded : List JsonObject := []
  taken : Option Client := none
  heard : List JsonObject := []
  used : List JsonObject := []
  calm : Bool := false

namespace World

/-- Nothing that was read is still to be put into a list. -/
def Free (w : World) : Prop := w.owed = none ∧ w.due = none

instance (w : World) : Decidable w.Free := inferInstanceAs (Decidable (_ ∧ _))

/-- The call of the turn has no answer yet. -/
def isOpen (w : World) : Bool := w.turn.all fun id => (w.settled id).isNone

def reset (w : World) : World :=
  { w with client := w.client.reset, turn := none, arrived := [], noted := [], recorded := [], taken := none,
           result := none, calm := decide w.Free }

def register (w : World) (id : Int) : World :=
  { w with nextId := id, pending := id :: w.pending, settled := Function.update w.settled id none, turn := some id }

def read (w : World) (line : Line) (rest : List Line) : World :=
  { w with lines := rest, owed := updateIn line,
           arrived := if w.isOpen then w.arrived ++ (updateIn line).toList else w.arrived }

def settle (w : World) (id : Int) (settlement : Settlement) : World :=
  if (w.settled id).isSome then w else { w with settled := Function.update w.settled id (some settlement) }

def addUpdate (w : World) (update : JsonObject) : World :=
  { w with client := { w.client with updates := w.client.updates ++ [update] }, owed := none,
           due := form platform update, noted := w.noted ++ [update] }

def addEvent (w : World) (event : NormalizedUpdate) : World :=
  { w with client := { w.client with events := w.client.events ++ [event] }, due := none,
           recorded := w.recorded ++ event.raw.toList }

def take (w : World) : World := { w with taken := some w.client, heard := w.noted, used := w.recorded, result := none }

end World

/-- What every call may answer, and what it does. Waiting for an answer may end with any exception at any time. -/
def exec : Side → (o : ClientOp) → World → ClientRet o → Option World
  | .caller, .prompt, w, _ => some w
  | .caller, .session, w, r => if r = w.client.sessionId then some w else none
  | .caller, .reset, w, _ => some w.reset
  | .caller, .running, w, _ => some w
  | .caller, .register, w, r => if r = w.nextId + 1 then some (w.register r) else none
  | .caller, .awaitAnswer id, w, r =>
    match r with
    | .ok value => if w.settled id = some (.result value) then some w else none
    | .error _ => some w
  | .caller, .unregister id, w, _ => some { w with pending := w.pending.erase id }
  | .caller, .snapshot, w, r => if r = w.client then some w.take else none
  | .caller, .returned result, w, _ => some { w with result := some result }
  | _, .write _, w, _ => some w
  | .reader, .readLine, w, r =>
    match r with
    | .ok (some line) =>
      match w.lines with
      | next :: rest => if next = line then some (w.read line rest) else none
      | [] => none
    | .ok none => if w.lines = [] then some w else none
    | .error _ => some w
  | .reader, .tryRemove id, w, r =>
    if r = w.pending.contains id then some { w with pending := w.pending.erase id } else none
  | .reader, .trySet id settlement, w, _ => some (w.settle id settlement)
  | .reader, .addUpdate update, w, _ => some (w.addUpdate platform update)
  | .reader, .hasOnUpdate, w, _ | .reader, .onUpdate .., w, _ => some w
  | .reader, .addEvent event, w, _ => some (w.addEvent event)
  | .reader, .hasOnEvent, w, _ | .reader, .onEvent _, w, _ => some w
  | .reader, .addPermission request, w, _ =>
    some { w with client := { w.client with permissions := w.client.permissions ++ [request] } }
  | .reader, .policy _, w, _ => some w
  | .reader, .addDenied tool, w, _ => some { w with client := { w.client with denied := w.client.denied ++ [tool] } }
  | _, _, _, _ => none

/-- The two go round for ever: one turn after the other, one line after the other. -/
def code : Side → Unit → ClientProgram (Unit ⊕ Unit)
  | .caller, _ => do
    let text ← call .prompt
    match ← attempt (promptAsync platform text) with
    | .ok result =>
      call (.returned result)
      return .inl ()
    | .error _ => return .inl ()
  | .reader, _ => do
    if ← readOne platform then return .inl () else return .inr ()

/-- A client and its connection. -/
def system : System Side ClientOp ClientRet Exn Unit Unit World where
  exec := exec platform
  code := code platform

/-- A session was created, and the agent is going to write the lines. -/
def start (sessionId : Option String) (lines : List Line) : Conf Side ClientOp ClientRet Exn Unit Unit World :=
  (system platform).init (fun _ => ()) { client := { sessionId := sessionId }, lines := lines }

/-! ## What each call does to the account -/

variable {platform}

/-- A step of the caller leaves what is still to be put into a list. -/
theorem caller_step {o : ClientOp} {w w' : World} {r : ClientRet o} (h : exec platform .caller o w r = some w') :
    w'.owed = w.owed ∧ w'.due = w.due := by
  cases o <;> simp only [exec, reduceCtorEq, Option.some.injEq] at h
  case awaitAnswer id =>
      split at h
      · split at h
        · cases h
          exact ⟨rfl, rfl⟩
        · cases h
      · cases h
        exact ⟨rfl, rfl⟩
  case session | register | snapshot =>
      split at h
      · cases h
        exact ⟨rfl, rfl⟩
      · cases h
  all_goals
    subst h
    exact ⟨rfl, rfl⟩

/-- A step of the reader leaves the turn, what was taken of the lists, and an answer that is there. -/
structure KeepsTurn (w w' : World) : Prop where
  turn : w'.turn = w.turn
  taken : w'.taken = w.taken
  settled : ∀ id, (w.settled id).isSome = true → (w'.settled id).isSome = true

theorem KeepsTurn.refl (w : World) : KeepsTurn w w := ⟨rfl, rfl, fun _ h => h⟩

theorem keepsTurn_settle (w : World) (id : Int) (settlement : Settlement) : KeepsTurn w (w.settle id settlement) := by
  unfold World.settle
  split
  · exact .refl w
  · refine ⟨rfl, rfl, fun id' h => ?_⟩
    dsimp only
    by_cases hid : id' = id
    · rw [hid, Function.update_self]
      rfl
    · rw [Function.update_of_ne hid]
      exact h

theorem reader_step {o : ClientOp} {w w' : World} {r : ClientRet o} (h : exec platform .reader o w r = some w') :
    KeepsTurn w w' := by
  cases o <;> simp only [exec, reduceCtorEq, Option.some.injEq] at h
  case readLine =>
      split at h
      · split at h
        · split at h
          · cases h
            exact ⟨rfl, rfl, fun _ h => h⟩
          · cases h
        · cases h
      · split at h
        · cases h
          exact .refl w
        · cases h
      · cases h
        exact .refl w
  case tryRemove id =>
      split at h
      · cases h
        exact ⟨rfl, rfl, fun _ h => h⟩
      · cases h
  case trySet id settlement =>
      subst h
      exact keepsTurn_settle w id settlement
  all_goals
    subst h
    exact ⟨rfl, rfl, fun _ h => h⟩

/-! ## What each call meets

The read loop takes the next line, and completes a call, only when nothing of the last update is left to do. What a
turn returns is made of what it took of the lists after its answer was there. -/

variable (platform) in
/-- What holds where a call is made. -/
def Meets : Side → ClientOp → World → Prop
  | .reader, .readLine, w | .reader, .trySet .., w => w.Free
  | .reader, .addUpdate update, w => w.owed = some update ∧ w.due = none
  | .reader, .addEvent event, w => w.owed = none ∧ w.due = some event
  | .caller, .register, w => w.turn = none ∧ w.taken = none
  | .caller, .snapshot, w => w.isOpen = false
  | .caller, .returned result, w =>
    ∃ client stopReason, w.taken = some client ∧ Client.promptResult platform client stopReason = .ok result
  | _, _, _ => True

variable (platform) in
def Moves (i : Side) (w w' : World) : Prop := ∃ o r, exec platform i o w r = some w'

variable (platform) in
abbrev contract (i : Side) : Contract ClientOp ClientRet World :=
  ⟨exec platform i, Others (Moves platform) i, fun o w r w' => Meets platform i o w ∧ exec platform i o w r = some w'⟩

/-- What of an update is still to be put into the lists. -/
def Left (owed : Option JsonObject) (due : Option NormalizedUpdate) (w : World) : Prop := w.owed = owed ∧ w.due = due

section Reader

variable {α β : Type} {owed : Option JsonObject} {due : Option NormalizedUpdate} {w : World}

theorem left_stable {w w' : World} (h : Others (Moves platform) .reader w w') (hw : Left owed due w) :
    Left owed due w' := by
  refine h.stable (fun i w w' hi hmoves hw => ?_) hw
  cases i with
  | reader => exact absurd rfl hi
  | caller =>
      obtain ⟨o, r, hexec⟩ := hmoves
      obtain ⟨howed, hdue⟩ := caller_step hexec
      exact ⟨howed.trans hw.1, hdue.trans hw.2⟩

/-- The rule for a call of the read loop. -/
theorem wp_reader {o : ClientOp} {k : ClientRet o → ClientProgram α} {Q : α → World → Prop}
    {F : Exn → World → Prop} (h : Left owed due w)
    (hcall : ∀ w r w', Left owed due w → exec platform .reader o w r = some w' →
      Meets platform .reader o w ∧ wp (contract platform .reader) (k r) Q F w') :
    wp (contract platform .reader) (.call o k) Q F w := by
  refine wp_call (Left owed due) h (fun _ _ => left_stable) fun w r w' hw hexec => ?_
  obtain ⟨hmeets, hrest⟩ := hcall w r w' hw hexec
  exact ⟨⟨hmeets, hexec⟩, hrest⟩

/-- The calls of the read loop that have nothing to do with the two lists. -/
def isAside : ClientOp → Bool
  | .tryRemove _ | .hasOnUpdate | .onUpdate .. | .hasOnEvent | .onEvent _ | .addPermission _ | .policy _
  | .addDenied _ | .write _ => true
  | _ => false

theorem exec_aside {o : ClientOp} {w w' : World} {r : ClientRet o} (ho : isAside o = true)
    (h : exec platform .reader o w r = some w') (hw : Left owed due w) :
    Meets platform .reader o w ∧ Left owed due w' := by
  cases o <;> simp only [isAside, Bool.false_eq_true] at ho
  case tryRemove id =>
      simp only [exec] at h
      split at h
      · cases h
        exact ⟨trivial, hw⟩
      · cases h
  all_goals
    cases h
    exact ⟨trivial, hw⟩

theorem wp_aside {o : ClientOp} {k : ClientRet o → ClientProgram α} {Q : α → World → Prop} {F : Exn → World → Prop}
    (ho : isAside o = true) (h : Left owed due w)
    (hrest : ∀ r w', Left owed due w' → wp (contract platform .reader) (k r) Q F w') :
    wp (contract platform .reader) (.call o k) Q F w := by
  refine wp_reader h fun w r w' hw hexec => ?_
  obtain ⟨hmeets, hleft⟩ := exec_aside ho hexec hw
  exact ⟨hmeets, hrest r w' hleft⟩

/-- A program that has nothing to do with the two lists. -/
theorem wp_asides {p : ClientProgram α} (hp : p.Calls fun o => isAside o = true) (h : Left owed due w) :
    wp (contract platform .reader) p (fun _ => Left owed due) (fun _ _ => True) w := by
  induction p generalizing w with
  | ret a => exact h
  | raise e => trivial
  | call o k ih => exact wp_aside hp.1 h fun r w' hw' => ih r (hp.2 r) hw'

theorem wp_publish {update : JsonObject} (h : Left none (form platform update) w) :
    wp (contract platform .reader) (publish platform update) (fun _ => World.Free) (fun _ _ => True) w := by
  simp only [publish, Prog.bind_eq, Prog.op_bind]
  cases hform : normalize platform update with
  | error e => trivial
  | ok found =>
      rw [form, hform] at h
      cases found with
      | none => exact h
      | some event =>
          refine wp_reader h fun w r w' hw hexec => ⟨hw, ?_⟩
          cases hexec
          have hfree : Left none none (w.addEvent event) := ⟨hw.1, rfl⟩
          refine wp_aside rfl hfree fun listening w' hw' => ?_
          split
          · refine wp_aside rfl hw' fun outcome w' hw' => ?_
            cases outcome with
            | error e => trivial
            | ok u => exact hw'
          · exact hw'

theorem wp_onNotificationAsync {method : String} {parameters : JsonObject}
    (h : Left (updateOf method parameters).toOption.join none w) :
    wp (contract platform .reader) (onNotificationAsync platform method parameters) (fun _ => World.Free)
      (fun _ _ => True) w := by
  simp only [onNotificationAsync, Prog.bind_eq, Prog.op_bind]
  cases hupdate : updateOf method parameters with
  | error e => trivial
  | ok found =>
      rw [hupdate] at h
      cases found with
      | none => exact h
      | some update =>
          refine wp_reader h fun w r w' hw hexec => ⟨hw, ?_⟩
          cases hexec
          have hdue : Left none (form platform update) (w.addUpdate platform update) := ⟨rfl, rfl⟩
          refine wp_aside rfl hdue fun listening w' hw' => ?_
          split
          · cases sessionUpdateOf platform update with
            | error e => trivial
            | ok kind =>
                refine wp_aside rfl hw' fun outcome w' hw' => ?_
                cases outcome with
                | error e => trivial
                | ok u => exact wp_publish hw'
          · exact wp_publish hw'

theorem calls_write (message : JsonObject) :
    (Prog.bind (Prog.op (.write message)) Prog.ofExcept : ClientProgram Unit).Calls fun o => isAside o = true :=
  Prog.Calls.bind (Prog.calls_op.mpr rfl) fun outcome => Prog.calls_ofExcept outcome

theorem calls_onPermissionRequestAsync (parameters : JsonObject) :
    (onPermissionRequestAsync platform parameters).Calls fun o => isAside o = true := by
  simp only [onPermissionRequestAsync, Prog.bind_eq]
  refine Prog.Calls.bind (Prog.calls_ofExcept _) fun request => Prog.Calls.bind (Prog.calls_op.mpr rfl) fun _ => ?_
  refine Prog.Calls.bind (Prog.calls_op.mpr rfl) fun answer => Prog.Calls.bind (Prog.calls_ofExcept _) fun allowed => ?_
  refine Prog.Calls.bind (Prog.calls_ofExcept _) fun granted => ?_
  cases granted with
  | some id => exact Prog.calls_ret _
  | none =>
      refine Prog.Calls.bind (Prog.calls_op.mpr rfl) fun _ => Prog.Calls.bind (Prog.calls_ofExcept _) fun rejected => ?_
      cases rejected with
      | some id => exact Prog.calls_ret _
      | none => exact Prog.calls_ret _

theorem calls_handleRequestAsync (message : JsonObject) (methodNode idNode : Json) :
    (handleRequestAsync platform message methodNode idNode).Calls fun o => isAside o = true := by
  simp only [handleRequestAsync, Prog.bind_eq]
  refine Prog.Calls.bind (Prog.calls_ofExcept _) fun method => ?_
  unfold requestHandler
  split
  · exact calls_write _
  · next handler hhandler =>
    split at hhandler
    · cases hhandler
      refine Prog.Calls.bind (Prog.Calls.handle (Prog.Calls.bind (calls_onPermissionRequestAsync _) fun _ =>
        Prog.calls_ret _) fun _ => Prog.calls_ret _) fun outcome => ?_
      cases outcome with
      | error e => exact calls_write _
      | ok result => exact calls_write _
    · cases hhandler

theorem wp_handleResponse {message : JsonObject} {idNode : Json} (h : w.Free) :
    wp (contract platform .reader) (handleResponse message idNode) (fun _ => World.Free) (fun _ _ => True) w := by
  unfold handleResponse
  split
  · exact h
  · next id _ =>
    simp only [Prog.bind_eq, Prog.op_bind]
    refine wp_aside rfl h fun found w' hw' => ?_
    split
    · cases settlementOf message with
      | error e => trivial
      | ok settlement =>
          refine wp_reader hw' fun w r w' hw hexec => ⟨hw, ?_⟩
          cases hexec
          show World.Free (w.settle id settlement)
          unfold World.settle
          split
          · exact hw
          · exact hw
    · exact hw'

theorem wp_dispatchAsync {message : JsonObject} (h : Left (updateIn (.value (.obj message))) none w) :
    wp (contract platform .reader) (dispatchAsync platform message) (fun _ => World.Free) (fun _ _ => True) w := by
  simp only [dispatchAsync, Prog.bind_eq]
  simp only [updateIn] at h
  cases hmethod : tryGetPropertyValue message "method" with
  | error e => trivial
  | ok method =>
      cases hid : tryGetPropertyValue message "id" with
      | error e => trivial
      | ok id =>
          rw [hmethod, hid] at h
          cases method with
          | none =>
              cases id with
              | none => exact h
              | some id => exact wp_handleResponse h
          | some method =>
              cases id with
              | some id => exact wp_asides (calls_handleRequestAsync message method id) h
              | none =>
                  cases hname : Acp.stringOf method with
                  | error e => simp only [Prog.ofExcept_ok, Prog.ret_bind, hname]; trivial
                  | ok name =>
                      simp only [hname] at h
                      simp only [Prog.ofExcept_ok, Prog.ret_bind, hname]
                      exact wp_onNotificationAsync h

theorem wp_readOne (h : w.Free) : wp (contract platform .reader) (readOne platform) (fun _ => World.Free)
    (fun _ _ => True) w := by
  simp only [readOne, Prog.bind_eq, Prog.op_bind]
  refine wp_reader h fun w r w' hw hexec => ⟨hw, ?_⟩
  cases r with
  | error e => trivial
  | ok line =>
      simp only [Prog.ofExcept_ok, Prog.ret_bind]
      cases line with
      | none =>
          simp only [exec] at hexec
          split at hexec
          · cases hexec
            exact hw
          · cases hexec
      | some line =>
          simp only [exec] at hexec
          split at hexec
          · next next rest hlines =>
            split at hexec
            · cases hexec
              have hleft : Left (updateIn line) none (w.read line rest) := ⟨rfl, hw.2⟩
              cases line with
              | notJson => exact hleft
              | value json =>
                  cases json with
                  | obj message => exact wp_seq (wp_dispatchAsync hleft) fun _ _ hfree => hfree
                  | null | bool | num | str | arr => exact hleft
            · cases hexec
          · cases hexec

end Reader

section Caller

variable {α : Type} {w : World}

theorem caller_stable {P : World → Prop} (hP : ∀ w w', KeepsTurn w w' → P w → P w') {w w' : World}
    (h : Others (Moves platform) .caller w w') (hw : P w) : P w' := by
  refine h.stable (fun i w w' hi hmoves hw => ?_) hw
  cases i with
  | caller => exact absurd rfl hi
  | reader =>
      obtain ⟨o, r, hexec⟩ := hmoves
      exact hP w w' (reader_step hexec) hw

/-- The rule for a call of the caller. -/
theorem wp_caller {o : ClientOp} {k : ClientRet o → ClientProgram α} {Q : α → World → Prop} {F : Exn → World → Prop}
    (P : World → Prop) (hP : ∀ w w', KeepsTurn w w' → P w → P w') (h : P w)
    (hcall : ∀ w r w', P w → exec platform .caller o w r = some w' →
      Meets platform .caller o w ∧ wp (contract platform .caller) (k r) Q F w') :
    wp (contract platform .caller) (.call o k) Q F w := by
  refine wp_call P h (fun _ _ => caller_stable hP) fun w r w' hw hexec => ?_
  obtain ⟨hmeets, hrest⟩ := hcall w r w' hw hexec
  exact ⟨⟨hmeets, hexec⟩, hrest⟩

/-- The turn has its number, and, where it is said so, its answer. -/
def Called (id : Int) (answered : Bool) (w : World) : Prop :=
  w.turn = some id ∧ (answered = true → (w.settled id).isSome = true)

theorem Called.stable {id : Int} {answered : Bool} {w w' : World} (h : KeepsTurn w w') (hw : Called id answered w) :
    Called id answered w' :=
  ⟨h.turn.trans hw.1, fun hanswered => h.settled id (hw.2 hanswered)⟩

/-- The turn has its answer. -/
def Answered (w : World) : Prop := ∃ id, Called id true w

theorem Answered.stable {w w' : World} (h : KeepsTurn w w') (hw : Answered w) : Answered w' := by
  obtain ⟨id, hid⟩ := hw
  exact ⟨id, hid.stable h⟩

theorem Answered.isOpen (h : Answered w) : w.isOpen = false := by
  obtain ⟨id, hturn, hsettled⟩ := h
  rw [World.isOpen, hturn, Option.all_some, Option.isNone_eq_false_iff]
  exact hsettled rfl

theorem wp_unregister (id : Int) {P : World → Prop} (hP : ∀ w w', KeepsTurn w w' → P w → P w')
    (herase : ∀ w, P w → P { w with pending := w.pending.erase id }) (h : P w) :
    wp (contract platform .caller) (call (.unregister id)) (fun _ => P) (fun _ _ => True) w := by
  refine wp_caller P hP h fun w r w' hw hexec => ⟨trivial, ?_⟩
  cases hexec
  exact herase w hw

/-- The turn has begun, and has not made its call. -/
def Begun (w : World) : Prop := w.turn = none ∧ w.taken = none

theorem Begun.stable {w w' : World} (h : KeepsTurn w w') (hw : Begun w) : Begun w' :=
  ⟨h.turn.trans hw.1, h.taken.trans hw.2⟩

theorem wp_callAsync (method : String) (parameters : JsonObject) (h : Begun w) :
    wp (contract platform .caller) (callAsync method parameters) (fun _ => Answered) (fun _ _ => True) w := by
  simp only [callAsync, Prog.bind_eq, Prog.op_bind]
  refine wp_caller Begun (fun _ _ => Begun.stable) h fun w running w' hw hrunning => ⟨trivial, ?_⟩
  cases hrunning
  split
  · trivial
  refine wp_caller Begun (fun _ _ => Begun.stable) hw fun w id w' hw hregister => ⟨hw, ?_⟩
  have hcalled : Called id false w' := by
    simp only [exec] at hregister
    split at hregister
    · cases hregister
      exact ⟨rfl, fun h => absurd h Bool.false_ne_true⟩
    · cases hregister
  refine wp_ensure.mpr ?_
  have hfail : ∀ w, wp (contract platform .caller) (call (.unregister id)) (fun _ _ => True) (fun _ _ => True) w :=
    fun w => wp_unregister id (fun _ _ _ _ => trivial) (fun _ _ => trivial) trivial
  refine wp_caller (Called id false) (fun _ _ => Called.stable) hcalled fun w written w' hw hwrite => ⟨trivial, ?_⟩
  cases hwrite
  cases written with
  | error e => exact hfail w
  | ok u =>
      refine wp_caller (Called id false) (fun _ _ => Called.stable) hw fun w answer w' hw hawait => ⟨trivial, ?_⟩
      cases answer with
      | error e => exact hfail w'
      | ok value =>
          have hanswered : Called id true w' := by
            simp only [exec] at hawait
            split at hawait
            · next hsettled =>
              cases hawait
              exact ⟨hw.1, fun _ => by rw [hsettled]; rfl⟩
            · cases hawait
          exact wp_unregister id (fun _ _ => Answered.stable) (fun _ h => h) ⟨id, hanswered⟩

variable (platform) in
/-- What a turn returns is made of what it took. -/
def Made (result : PromptResult) (w : World) : Prop :=
  ∃ client stopReason, w.taken = some client ∧ Client.promptResult platform client stopReason = .ok result

theorem wp_promptAsync (text : String) : wp (contract platform .caller) (promptAsync platform text)
    (Made platform) (fun _ _ => True) w := by
  simp only [promptAsync, Prog.bind_eq, Prog.op_bind]
  refine wp_caller (fun _ => True) (fun _ _ _ _ => trivial) trivial fun w session w' _ _ => ⟨trivial, ?_⟩
  cases session with
  | none => trivial
  | some sessionId =>
      refine wp_caller (fun _ => True) (fun _ _ _ _ => trivial) trivial fun w r w' _ hreset => ⟨trivial, ?_⟩
      cases hreset
      refine wp_seq (wp_callAsync _ _ ⟨rfl, rfl⟩) fun answer w hanswered => ?_
      cases stopReasonOf platform answer with
      | error e => trivial
      | ok stopReason =>
          refine wp_caller Answered (fun _ _ => Answered.stable) hanswered fun w client w' hw hexec => ⟨hw.isOpen, ?_⟩
          simp only [exec] at hexec
          split at hexec
          · next heq =>
            cases hexec
            cases hresult : Client.promptResult platform client stopReason with
            | error e => trivial
            | ok result => exact ⟨client, stopReason, by rw [heq]; rfl, hresult⟩
          · cases hexec

theorem wp_attempt {i : Side} {p : ClientProgram α} {Q : α → World → Prop}
    (h : wp (contract platform i) p Q (fun _ _ => True) w) :
    wp (contract platform i) (attempt p) (fun outcome w => ∀ a, outcome = .ok a → Q a w) (fun _ _ => True) w := by
  refine wp_handle.mpr (wp_bind.mpr (wp_mono h ?_ ?_))
  · rintro a w hw b heq
    cases heq
    exact hw
  · rintro e w _ b heq
    cases heq

end Caller

/-- The two keep to it. -/
def outline (platform : Platform) : Outline (system platform) where
  rely := Others (Moves platform)
  guar i o w r w' := Meets platform i o w ∧ exec platform i o w r = some w'
  pre
    | .caller, _, _ => True
    | .reader, _, w => w.Free
  post _ _ _ := True
  fail _ _ _ := True
  rely_refl _ _ := .refl
  rely_trans _ _ _ _ := Relation.ReflTransGen.trans
  guar_rely i _ o _ r _ hij hguar := .single ⟨i, hij, o, r, hguar.2⟩
  pre_stable := by
    intro i _ w w' hrely h
    cases i with
    | caller => trivial
    | reader => exact left_stable hrely h
  post_stable _ _ _ _ _ _ := trivial
  fail_stable _ _ _ _ _ _ := trivial
  body := by
    intro i _ w h
    cases i with
    | reader =>
        refine wp_seq (wp_readOne h) fun goesOn w hw => ?_
        split
        · exact hw
        · trivial
    | caller =>
        simp only [system, code, Prog.bind_eq, Prog.op_bind]
        refine wp_caller (fun _ => True) (fun _ _ _ _ => trivial) trivial fun w text w' _ _ => ⟨trivial, ?_⟩
        refine wp_seq (wp_attempt (wp_promptAsync text)) fun outcome w hmade => ?_
        cases outcome with
        | error e => trivial
        | ok result =>
            refine wp_caller (Made platform result) ?_ (hmade result rfl) fun w r w' hw _ => ⟨hw, ?_⟩
            · rintro w w' hkeeps ⟨client, stopReason, htaken, hresult⟩
              exact ⟨client, stopReason, hkeeps.taken.trans htaken, hresult⟩
            · trivial

/-! ## What is in the lists -/

variable (platform) in
/-- The events are the records of updates, and what a turn returned is made of what it took. -/
structure Sound (w : World) : Prop where
  due : ∀ event, w.due = some event → event.raw.bind (form platform) = some event
  updates : w.client.updates = w.noted
  events : w.client.events = w.recorded.filterMap (form platform)
  taken : ∀ client, w.taken = some client →
    client.updates = w.heard ∧ client.events = w.used.filterMap (form platform)
  result : ∀ result, w.result = some result → Made platform result w

theorem form_eq (update : JsonObject) :
    form platform update = (classify platform update).toOption.join.map (redacted platform) := by
  rw [form, normalize_eq]
  cases classify platform update with
  | error e => rfl
  | ok found =>
      cases found with
      | none => rfl
      | some record => rfl

theorem form_raw {update : JsonObject} {event : NormalizedUpdate} (h : form platform update = some event) :
    event.raw = some update := by
  rw [form_eq, Option.map_eq_some_iff] at h
  obtain ⟨record, hrecord, hevent⟩ := h
  rw [Option.join_eq_some_iff, Attempts.toOption_eq_some] at hrecord
  rw [← hevent, redacted_raw]
  exact classify_raw hrecord

theorem filterMap_raw {event : NormalizedUpdate} (h : event.raw.bind (form platform) = some event) :
    event.raw.toList.filterMap (form platform) = [event] := by
  cases hraw : event.raw with
  | none =>
      rw [hraw] at h
      cases h
  | some update =>
      rw [hraw, Option.bind_some] at h
      rw [Option.toList_some, List.filterMap_cons_some h, List.filterMap_nil]

/-- What was put into the lists, and what the turn took and returned, is the same. -/
theorem Sound.congr {w w' : World} (hw : Sound platform w) (hdue : w'.due = w.due)
    (hupdates : w'.client.updates = w.client.updates) (hevents : w'.client.events = w.client.events)
    (hnoted : w'.noted = w.noted) (hrecorded : w'.recorded = w.recorded) (htaken : w'.taken = w.taken)
    (hheard : w'.heard = w.heard) (hused : w'.used = w.used) (hresult : w'.result = w.result) : Sound platform w' where
  due := by
    rw [hdue]
    exact hw.due
  updates := by rw [hupdates, hnoted, hw.updates]
  events := by rw [hevents, hrecorded, hw.events]
  taken := by
    rw [htaken, hheard, hused]
    exact hw.taken
  result := by
    rw [hresult]
    intro result h
    rw [Made, htaken]
    exact hw.result result h

theorem Sound.settle {w : World} (hw : Sound platform w) (id : Int) (settlement : Settlement) :
    Sound platform (w.settle id settlement) := by
  unfold World.settle
  split
  · exact hw
  · exact hw.congr rfl rfl rfl rfl rfl rfl rfl rfl rfl

theorem Sound.addEvent {event : NormalizedUpdate} {w : World} (hw : Sound platform w) (hdue : w.due = some event) :
    Sound platform (w.addEvent event) where
  due event h := by cases h
  updates := hw.updates
  events := by
    show w.client.events ++ [event] = (w.recorded ++ event.raw.toList).filterMap (form platform)
    rw [List.filterMap_append, filterMap_raw (hw.due event hdue), hw.events]
  taken := hw.taken
  result := hw.result

theorem Sound.addUpdate {w : World} (hw : Sound platform w) (update : JsonObject) :
    Sound platform (w.addUpdate platform update) where
  due event h := by
    rw [form_raw h]
    exact h
  updates := by
    show w.client.updates ++ [update] = w.noted ++ [update]
    rw [hw.updates]
  events := hw.events
  taken := hw.taken
  result := hw.result

theorem Sound.reset {w : World} (hw : Sound platform w) : Sound platform w.reset where
  due := hw.due
  updates := rfl
  events := rfl
  taken client h := by cases h
  result result h := by cases h

theorem Sound.take {w : World} (hw : Sound platform w) : Sound platform w.take where
  due := hw.due
  updates := hw.updates
  events := hw.events
  taken client h := by
    cases h
    exact ⟨hw.updates, hw.events⟩
  result result h := by cases h

theorem Sound.step {i : Side} {o : ClientOp} {w w' : World} {r : ClientRet o} (hmeets : Meets platform i o w)
    (h : exec platform i o w r = some w') (hw : Sound platform w) : Sound platform w' := by
  cases i with
  | caller =>
      cases o <;> simp only [exec, reduceCtorEq, Option.some.injEq] at h
      case reset =>
          subst h
          exact hw.reset
      case snapshot =>
          split at h
          · cases h
            exact hw.take
          · cases h
      case returned result =>
          subst h
          exact ⟨hw.due, hw.updates, hw.events, hw.taken, fun result' heq => by cases heq; exact hmeets⟩
      case awaitAnswer id =>
          split at h
          · split at h
            · cases h
              exact hw
            · cases h
          · cases h
            exact hw
      case session | register =>
          split at h
          · cases h
            exact hw.congr rfl rfl rfl rfl rfl rfl rfl rfl rfl
          · cases h
      all_goals
        subst h
        exact hw.congr rfl rfl rfl rfl rfl rfl rfl rfl rfl
  | reader =>
      cases o <;> simp only [exec, reduceCtorEq, Option.some.injEq] at h
      case readLine =>
          split at h
          · split at h
            · split at h
              · cases h
                exact hw.congr rfl rfl rfl rfl rfl rfl rfl rfl rfl
              · cases h
            · cases h
          · split at h
            · cases h
              exact hw
            · cases h
          · cases h
            exact hw
      case tryRemove id =>
          split at h
          · cases h
            exact hw.congr rfl rfl rfl rfl rfl rfl rfl rfl rfl
          · cases h
      case trySet id settlement =>
          subst h
          exact hw.settle id settlement
      case addUpdate update =>
          subst h
          exact hw.addUpdate update
      case addEvent event =>
          subst h
          exact hw.addEvent hmeets.2
      all_goals
        subst h
        exact hw.congr rfl rfl rfl rfl rfl rfl rfl rfl rfl

theorem sound_start (sessionId : Option String) (lines : List Line) :
    Sound platform (start platform sessionId lines).world where
  due event h := by cases h
  updates := rfl
  events := rfl
  taken client h := by cases h
  result result h := by cases h

/-- What every call keeps where it is made holds along every run. -/
theorem keeps_of_steps {P : World → Prop}
    (hstep : ∀ i o w (r : ClientRet o) w', Meets platform i o w → exec platform i o w r = some w' → P w → P w')
    {sessionId : Option String} {lines : List Line} {c : Conf Side ClientOp ClientRet Exn Unit Unit World}
    (h : (system platform).Steps (start platform sessionId lines) c) (hstart : P (start platform sessionId lines).world) :
    P c.world := by
  have hholds : (outline platform).Holds (start platform sessionId lines) :=
    (outline platform).holds_init fun i => by
      cases i with
      | caller => trivial
      | reader => exact ⟨rfl, rfl⟩
  exact (outline platform).world_steps (fun i o w r w' hguar => hstep i o w r w' hguar.1 hguar.2) hholds hstart h

theorem sound_of_steps {sessionId : Option String} {lines : List Line}
    {c : Conf Side ClientOp ClientRet Exn Unit Unit World} (h : (system platform).Steps (start platform sessionId lines) c) :
    Sound platform c.world :=
  keeps_of_steps (fun _ _ _ _ _ hmeets hexec hw => hw.step hmeets hexec) h (sound_start sessionId lines)

/-! ## Secrets -/

variable (platform) in
/-- The texts of the text blocks of updates, put together. -/
def rawText (updates : List JsonObject) : String :=
  String.join (updates.map fun update => (blockText platform update).toOption.getD "")

variable (platform) in
/-- What an update says of a terminal. -/
def terminalText (update : JsonObject) : Option String :=
  ((classify platform update).toOption.join.filter fun record => record.kind = .terminal).map NormalizedUpdate.text

variable (platform) in
/-- What updates say of a terminal, redacted one by one. -/
def terminalTexts (updates : List JsonObject) : List String :=
  (updates.filterMap (terminalText platform)).map fun text => redact platform.chars text none

/-- No text of what a turn returns has a match of a pattern. -/
structure Redacted (chars : Alphabet) (result : PromptResult) : Prop where
  text : Clean chars result.text
  terminalOutput : Clean chars result.terminalOutput
  events : ∀ event ∈ result.events, Clean chars event.text

theorem rawText_of_collectedText {updates : List JsonObject} {text : String}
    (h : collectedText platform updates = .ok text) : text = rawText platform updates := by
  induction updates generalizing text with
  | nil =>
      cases h
      rfl
  | cons update updates ih =>
      rw [collectedText] at h
      obtain ⟨block, hblock, h⟩ := Attempts.of_bind_ok h
      obtain ⟨rest, hrest, h⟩ := Attempts.of_bind_ok h
      cases h
      rw [ih hrest, rawText, rawText, List.map_cons, String.join_cons, hblock]
      rfl

theorem terminalTexts_eq (updates : List JsonObject) :
    ((updates.filterMap (form platform)).filter fun event => event.kind = .terminal).map NormalizedUpdate.text =
      terminalTexts platform updates := by
  induction updates with
  | nil => rfl
  | cons update updates ih =>
      rw [terminalTexts] at ih ⊢
      cases hfound : (classify platform update).toOption.join with
      | none =>
          have hform : form platform update = none := by rw [form_eq, hfound, Option.map_none]
          have htext : terminalText platform update = none := by
            rw [terminalText, hfound, Option.filter_none, Option.map_none]
          rw [List.filterMap_cons_none hform, List.filterMap_cons_none htext, ih]
      | some record =>
          have hform : form platform update = some (redacted platform record) := by rw [form_eq, hfound, Option.map_some]
          rw [List.filterMap_cons_some hform]
          by_cases hkind : record.kind = .terminal
          · have htext : terminalText platform update = some record.text := by
              rw [terminalText, hfound, Option.filter_some, if_pos (decide_eq_true hkind), Option.map_some]
            have hkeeps : decide ((redacted platform record).kind = .terminal) = true := by
              rw [redacted_kind]
              exact decide_eq_true hkind
            rw [List.filterMap_cons_some htext,
              List.filter_cons_of_pos (p := fun event : NormalizedUpdate => event.kind = .terminal) hkeeps, List.map_cons, List.map_cons, ih,
              redacted_text]
          · have htext : terminalText platform update = none := by
              rw [terminalText, hfound, Option.filter_some, if_neg (by simpa using hkind), Option.map_none]
            have hdrops : ¬ decide ((redacted platform record).kind = .terminal) = true := by
              rw [decide_eq_true_eq, redacted_kind]
              exact hkind
            rw [List.filterMap_cons_none htext,
              List.filter_cons_of_neg (p := fun event : NormalizedUpdate => event.kind = .terminal) hdrops, ih]

theorem clean_terminalTexts (updates : List JsonObject) :
    ∀ text ∈ terminalTexts platform updates, Clean platform.chars text := by
  intro text htext
  obtain ⟨said, _, rfl⟩ := List.mem_map.mp htext
  exact redact_clean platform.chars said

theorem form_clean {update : JsonObject} {event : NormalizedUpdate} (h : form platform update = some event) :
    Clean platform.chars event.text := by
  rw [form, Option.join_eq_some_iff, Attempts.toOption_eq_some] at h
  exact normalize_clean h

/-- **A turn returns no secret exactly where the raw text of its updates has none, and none runs from one redacted
terminal text into the next.** -/
theorem turn_redacted_iff {sessionId : Option String} {lines : List Line}
    {c : Conf Side ClientOp ClientRet Exn Unit Unit World} (h : (system platform).Steps (start platform sessionId lines) c)
    {result : PromptResult} (hresult : c.world.result = some result) :
    Redacted platform.chars result ↔ Clean platform.chars (rawText platform c.world.heard) ∧
      ¬ Crosses platform.chars (terminalTexts platform c.world.used) := by
  have hsound := sound_of_steps h
  obtain ⟨client, stopReason, htaken, hmade⟩ := hsound.result result hresult
  obtain ⟨hupdates, hevents⟩ := hsound.taken client htaken
  rw [Client.promptResult] at hmade
  obtain ⟨text, htext, hmade⟩ := Attempts.of_bind_ok hmade
  cases hmade
  have hraw : text = rawText platform c.world.heard := by
    rw [← hupdates]
    exact rawText_of_collectedText htext
  have houtput : String.join ((client.events.filter fun event => event.kind = .terminal).map NormalizedUpdate.text) =
      String.join (terminalTexts platform c.world.used) := by rw [hevents, terminalTexts_eq]
  have hclean := clean_join_iff platform.chars (clean_terminalTexts c.world.used)
  constructor
  · rintro ⟨hfirst, hsecond, _⟩
    rw [PromptResult.terminalOutput, houtput] at hsecond
    exact ⟨hraw ▸ hfirst, hclean.mp hsecond⟩
  · rintro ⟨hfirst, hsecond⟩
    refine ⟨hraw ▸ hfirst, ?_, ?_⟩
    · rw [PromptResult.terminalOutput, houtput]
      exact hclean.mpr hsecond
    · intro event hevent
      rw [hevents] at hevent
      obtain ⟨update, _, hform⟩ := List.mem_filterMap.mp hevent
      exact form_clean hform

/-! ### A turn with one message -/

def asciiPlatform : Platform where
  chars := asciiAlphabet
  toLowerInvariant := String.toLower
  lineEnd := ['\n']

/-- What the world answers where nothing goes wrong and nobody listens. -/
def plainly : (o : ClientOp) → World → ClientRet o
  | .prompt, _ => "go on"
  | .session, w => w.client.sessionId
  | .running, _ => true
  | .register, w => w.nextId + 1
  | .awaitAnswer id, w =>
    match w.settled id with
    | some (.result value) => .ok value
    | _ => .ok .null
  | .snapshot, w => w.client
  | .readLine, w => .ok w.lines.head?
  | .tryRemove id, w => w.pending.contains id
  | .hasOnUpdate, _ | .hasOnEvent, _ => false
  | .policy _, _ => .ok true
  | .write _, _ | .onUpdate .., _ | .onEvent _, _ => .ok ()
  | .reset, _ | .unregister _, _ | .returned _, _ | .trySet .., _ | .addUpdate _, _ | .addEvent _, _ | .addPermission _, _
  | .addDenied _, _ => ()

/-- The agent says a text. -/
def chunk (text : String) : Line :=
  .value (.obj [("method", .str "session/update"), ("params", .obj [("update", .obj
    [("sessionUpdate", .str "agent_message_chunk"), ("content", .obj [("type", .str "text"), ("text", .str text)])])])])

/-- The answer to a call. -/
def endOfTurn (id : String) : Line :=
  .value (.obj [("id", .num id), ("result", .obj [("stopReason", .str "end_turn")])])

/-- The agent says a text in the first turn. -/
def saidStart (text : String) : Conf Side ClientOp ClientRet Exn Unit Unit World :=
  start asciiPlatform (some "s1") [chunk text, endOfTurn "1"]

/-- The caller waits, the read loop reads both lines, and the caller goes on. -/
def said (text : String) : Conf Side ClientOp ClientRet Exn Unit Unit World :=
  (system asciiPlatform).play (List.replicate 6 (.caller, plainly) ++ List.replicate 9 (.reader, plainly) ++
    List.replicate 4 (.caller, plainly)) (saidStart text)

theorem said_steps (text : String) : (system asciiPlatform).Steps (saidStart text) (said text) :=
  System.play_steps _ _ _

theorem plain_text_is_redacted : ∃ result, (said "Hello").world.result = some result ∧
    Redacted asciiPlatform.chars result := by
  have hsome : (said "Hello").world.result.isSome = true := by decide +kernel
  obtain ⟨result, hresult⟩ := Option.isSome_iff_exists.mp hsome
  have hquiet : terminalTexts asciiPlatform (said "Hello").world.used = [] := by decide +kernel
  have hclean : ∀ pattern ∈ asciiAlphabet.defaults, pattern.isMatch asciiAlphabet.word none
      (rawText asciiPlatform (said "Hello").world.heard).toList = false := by decide +kernel
  refine ⟨result, hresult, (turn_redacted_iff (said_steps "Hello") hresult).mpr ⟨hclean, ?_⟩⟩
  rw [hquiet]
  exact (clean_join_iff asciiAlphabet (fun _ h => absurd h List.not_mem_nil)).mp (clean_empty asciiAlphabet)

/-- The text of a result is put together of the updates as they came. -/
theorem token_is_returned : ∃ result, (system asciiPlatform).Steps (saidStart "token: abc") (said "token: abc") ∧
    (said "token: abc").world.result = some result ∧ ¬ Redacted asciiPlatform.chars result := by
  have htext : (said "token: abc").world.result.map PromptResult.text = some "token: abc" := by decide +kernel
  obtain ⟨result, hresult, htext⟩ := Option.map_eq_some_iff.mp htext
  refine ⟨result, said_steps "token: abc", hresult, fun hredacted => ?_⟩
  have hclean := hredacted.text asciiAlphabet.keyValuePattern List.mem_cons_self
  rw [htext] at hclean
  have hmatch : asciiAlphabet.keyValuePattern.isMatch asciiAlphabet.word none "token: abc".toList = true := by
    decide +kernel
  exact Bool.noConfusion (hmatch.symm.trans hclean)

/-! ## The order of the lists -/

variable (platform) in
/-- The lists begin with what arrived, and with the records of it. -/
def Begins (arrived : List JsonObject) (updates : List JsonObject) (events : List NormalizedUpdate) : Prop :=
  arrived <+: updates ∧ arrived.filterMap (form platform) <+: events

theorem Begins.append {arrived updates updates' : List JsonObject} {events events' : List NormalizedUpdate}
    (h : Begins platform arrived updates events) :
    Begins platform arrived (updates ++ updates') (events ++ events') :=
  ⟨h.1.trans (List.prefix_append updates updates'), h.2.trans (List.prefix_append events events')⟩

variable (platform) in
/-- While the answer has not come, the lists and what is still to be put into them are what arrived. -/
structure Gathered (w : World) : Prop where
  updates : w.arrived = w.client.updates ++ w.owed.toList
  events : w.arrived.filterMap (form platform) = w.client.events ++ (w.due.toList ++ (w.owed.bind (form platform)).toList)

theorem Gathered.begins {w : World} (h : Gathered platform w) (hfree : w.Free) :
    Begins platform w.arrived w.client.updates w.client.events := by
  obtain ⟨howed, hdue⟩ := hfree
  have hupdates := h.updates
  have hevents := h.events
  rw [howed, Option.toList_none, List.append_nil] at hupdates
  rw [howed, hdue, Option.bind_none, Option.toList_none, List.append_nil, List.append_nil] at hevents
  rw [Begins, hevents, hupdates]
  exact ⟨List.prefix_refl _, List.prefix_refl _⟩

theorem filterMap_toList {α β : Type} (f : α → Option β) (o : Option α) : o.toList.filterMap f = (o.bind f).toList := by
  cases o with
  | none => rfl
  | some a =>
      rw [Option.toList_some, Option.bind_some]
      cases hf : f a with
      | none => rw [List.filterMap_cons_none hf, List.filterMap_nil, Option.toList_none]
      | some b => rw [List.filterMap_cons_some hf, List.filterMap_nil, Option.toList_some]

theorem Gathered.free {w w' : World} (h : Gathered platform w) (hfree : w.Free)
    (hclient : w'.client = w.client) (hdue : w'.due = none)
    (harrived : w'.arrived = w.arrived ++ w'.owed.toList) : Gathered platform w' := by
  obtain ⟨howed, hdue'⟩ := hfree
  have hupdates := h.updates
  have hevents := h.events
  rw [howed, Option.toList_none, List.append_nil] at hupdates
  rw [howed, hdue', Option.bind_none, Option.toList_none, List.append_nil, List.append_nil] at hevents
  constructor
  · rw [harrived, hclient, hupdates]
  · rw [harrived, hclient, hdue, List.filterMap_append, hevents, Option.toList_none, List.nil_append]
    rw [filterMap_toList]

variable (platform) in
/-- In a turn that was calm when it began, the lists are in the order in which the updates arrived. -/
structure InOrder (w : World) : Prop where
  opened : w.isOpen = true → Gathered platform w
  closed : w.isOpen = false → Begins platform w.arrived w.client.updates w.client.events
  taken : ∀ client, w.taken = some client → w.isOpen = false ∧ Begins platform w.arrived client.updates client.events

theorem InOrder.congr {w w' : World} (hw : InOrder platform w) (hopen : w'.isOpen = w.isOpen)
    (hupdates : w'.client.updates = w.client.updates) (hevents : w'.client.events = w.client.events)
    (harrived : w'.arrived = w.arrived) (howed : w'.owed = w.owed) (hdue : w'.due = w.due)
    (htaken : w'.taken = w.taken) : InOrder platform w' where
  opened h := by
    have hgathered := hw.opened (hopen ▸ h)
    constructor
    · rw [harrived, hupdates, howed, hgathered.updates]
    · rw [harrived, hevents, hdue, howed, hgathered.events]
  closed h := by
    rw [harrived, hupdates, hevents]
    exact hw.closed (hopen ▸ h)
  taken := by
    rw [htaken, hopen, harrived]
    exact hw.taken

theorem isOpen_settle_of_closed {w : World} {id : Int} {settlement : Settlement} (h : w.isOpen = false) :
    (w.settle id settlement).isOpen = false := by
  have hkeeps := keepsTurn_settle w id settlement
  rw [World.isOpen] at h ⊢
  rw [hkeeps.turn]
  cases hturn : w.turn with
  | none =>
      rw [hturn] at h
      exact h
  | some turn =>
      rw [hturn, Option.all_some, Option.isNone_eq_false_iff] at h
      rw [Option.all_some, Option.isNone_eq_false_iff]
      exact hkeeps.settled turn h

theorem InOrder.settle {w : World} (hw : InOrder platform w) (hfree : w.Free) (id : Int) (settlement : Settlement) :
    InOrder platform (w.settle id settlement) := by
  have hsame : (w.settle id settlement).client = w.client ∧ (w.settle id settlement).arrived = w.arrived ∧
      (w.settle id settlement).owed = w.owed ∧ (w.settle id settlement).due = w.due ∧
        (w.settle id settlement).taken = w.taken := by
    unfold World.settle
    split
    · exact ⟨rfl, rfl, rfl, rfl, rfl⟩
    · exact ⟨rfl, rfl, rfl, rfl, rfl⟩
  obtain ⟨hclient, harrived, howed, hdue, htaken⟩ := hsame
  cases hopen : w.isOpen with
  | false =>
      exact hw.congr ((isOpen_settle_of_closed hopen).trans hopen.symm) (by rw [hclient]) (by rw [hclient]) harrived howed
        hdue htaken
  | true =>
      have hgathered := hw.opened hopen
      constructor
      · intro _
        constructor
        · rw [harrived, hclient, howed, hgathered.updates]
        · rw [harrived, hclient, hdue, howed, hgathered.events]
      · intro _
        rw [harrived, hclient]
        exact hgathered.begins hfree
      · intro client h
        rw [htaken] at h
        exact absurd (hopen.symm.trans (hw.taken client h).1) Bool.noConfusion

theorem InOrder.read {w : World} (hw : InOrder platform w) (hfree : w.Free) (line : Line) (rest : List Line) :
    InOrder platform (w.read line rest) where
  opened h := by
    have hopen : w.isOpen = true := h
    refine (hw.opened hopen).free hfree rfl hfree.2 ?_
    show (if w.isOpen then _ else _) = _
    rw [if_pos hopen]
    rfl
  closed h := by
    have hopen : w.isOpen = false := h
    have harrived : (w.read line rest).arrived = w.arrived := if_neg (by rw [hopen]; exact Bool.false_ne_true)
    rw [harrived]
    exact hw.closed hopen
  taken client h := by
    obtain ⟨hopen, hbegins⟩ := hw.taken client h
    have harrived : (w.read line rest).arrived = w.arrived := if_neg (by rw [hopen]; exact Bool.false_ne_true)
    rw [harrived]
    exact ⟨hopen, hbegins⟩

theorem InOrder.addUpdate {w : World} (hw : InOrder platform w) {update : JsonObject} (howed : w.owed = some update)
    (hdue : w.due = none) : InOrder platform (w.addUpdate platform update) where
  opened h := by
    have hgathered := hw.opened h
    constructor
    · show w.arrived = (w.client.updates ++ [update]) ++ []
      rw [hgathered.updates, howed, List.append_nil]
      rfl
    · show w.arrived.filterMap (form platform) = w.client.events ++ ((form platform update).toList ++ [])
      rw [hgathered.events, howed, hdue, List.append_nil]
      rfl
  closed h := by
    obtain ⟨hupdates, hevents⟩ := hw.closed h
    exact ⟨hupdates.trans (List.prefix_append _ _), hevents⟩
  taken := hw.taken

theorem InOrder.addEvent {w : World} (hw : InOrder platform w) {event : NormalizedUpdate} (howed : w.owed = none)
    (hdue : w.due = some event) : InOrder platform (w.addEvent event) where
  opened h := by
    have hgathered := hw.opened h
    refine ⟨hgathered.updates, ?_⟩
    show w.arrived.filterMap (form platform) = (w.client.events ++ [event]) ++ ([] ++ (w.owed.bind (form platform)).toList)
    rw [hgathered.events, howed, hdue, List.append_assoc]
    rfl
  closed h := by
    obtain ⟨hupdates, hevents⟩ := hw.closed h
    exact ⟨hupdates, hevents.trans (List.prefix_append _ _)⟩
  taken := hw.taken

theorem InOrder.reset {w : World} (hfree : w.Free) : InOrder platform w.reset where
  opened _ := by
    obtain ⟨howed, hdue⟩ := hfree
    constructor
    · show [] = [] ++ w.owed.toList
      rw [howed]
      rfl
    · show [] = [] ++ (w.due.toList ++ (w.owed.bind (form platform)).toList)
      rw [howed, hdue]
      rfl
  closed h := Bool.noConfusion h
  taken client h := by cases h

theorem InOrder.register {w : World} (hw : InOrder platform w) (hbegun : Begun w) (id : Int) :
    InOrder platform (w.register id) := by
  have hopen : w.isOpen = true := by
    rw [World.isOpen, hbegun.1]
    rfl
  have hopen' : (w.register id).isOpen = true := by
    show (Option.all (fun id' => (Function.update w.settled id none id').isNone) (some id)) = true
    rw [Option.all_some, Function.update_self]
    rfl
  exact hw.congr (hopen'.trans hopen.symm) rfl rfl rfl rfl rfl rfl

theorem InOrder.take {w : World} (hw : InOrder platform w) (hopen : w.isOpen = false) : InOrder platform w.take where
  opened h := ⟨(hw.opened h).updates, (hw.opened h).events⟩
  closed := hw.closed
  taken client h := by
    cases h
    exact ⟨hopen, hw.closed hopen⟩

variable (platform) in
def Calm (w : World) : Prop := w.calm = true → InOrder platform w

theorem Calm.of_same {w w' : World} (hw : Calm platform w) (hcalm : w'.calm = w.calm)
    (h : InOrder platform w → InOrder platform w') : Calm platform w' := fun h' => h (hw (hcalm ▸ h'))

theorem calm_settle (w : World) (id : Int) (settlement : Settlement) : (w.settle id settlement).calm = w.calm := by
  unfold World.settle
  split <;> rfl

theorem Calm.step {i : Side} {o : ClientOp} {w w' : World} {r : ClientRet o} (hmeets : Meets platform i o w)
    (h : exec platform i o w r = some w') (hw : Calm platform w) : Calm platform w' := by
  cases i with
  | caller =>
      cases o <;> simp only [exec, reduceCtorEq, Option.some.injEq] at h
      case reset =>
          subst h
          exact fun hcalm => InOrder.reset (of_decide_eq_true hcalm)
      case register =>
          split at h
          · cases h
            exact hw.of_same rfl fun hin => hin.register hmeets r
          · cases h
      case snapshot =>
          split at h
          · cases h
            exact hw.of_same rfl fun hin => hin.take hmeets
          · cases h
      case awaitAnswer id =>
          split at h
          · split at h
            · cases h
              exact hw
            · cases h
          · cases h
            exact hw
      case session =>
          split at h
          · cases h
            exact hw
          · cases h
      all_goals
        subst h
        exact hw.of_same rfl fun hin => hin.congr rfl rfl rfl rfl rfl rfl rfl
  | reader =>
      cases o <;> simp only [exec, reduceCtorEq, Option.some.injEq] at h
      case readLine =>
          split at h
          · next line =>
            split at h
            · split at h
              · cases h
                exact hw.of_same rfl fun hin => hin.read hmeets line _
              · cases h
            · cases h
          · split at h
            · cases h
              exact hw
            · cases h
          · cases h
            exact hw
      case tryRemove id =>
          split at h
          · cases h
            exact hw.of_same rfl fun hin => hin.congr rfl rfl rfl rfl rfl rfl rfl
          · cases h
      case trySet id settlement =>
          subst h
          exact hw.of_same (calm_settle w id settlement) fun hin => hin.settle hmeets id settlement
      case addUpdate update =>
          subst h
          exact hw.of_same rfl fun hin => hin.addUpdate hmeets.1 hmeets.2
      case addEvent event =>
          subst h
          exact hw.of_same rfl fun hin => hin.addEvent hmeets.1 hmeets.2
      all_goals
        subst h
        exact hw.of_same rfl fun hin => hin.congr rfl rfl rfl rfl rfl rfl rfl

/-- **In a turn that is calm when it begins, what it returns begins with the updates that arrived before its answer, and
with the records of them.** -/
theorem turn_in_order {sessionId : Option String} {lines : List Line}
    {c : Conf Side ClientOp ClientRet Exn Unit Unit World} (h : (system platform).Steps (start platform sessionId lines) c)
    {result : PromptResult} (hresult : c.world.result = some result) (hcalm : c.world.calm = true) :
    c.world.arrived <+: result.updates ∧ c.world.arrived.filterMap (form platform) <+: result.events := by
  have hstart : Calm platform (start platform sessionId lines).world := fun h => Bool.noConfusion h
  have hcalmly : Calm platform c.world :=
    keeps_of_steps (fun _ _ _ _ _ hmeets hexec hw => hw.step hmeets hexec) h hstart
  obtain ⟨client, stopReason, htaken, hmade⟩ := (sound_of_steps h).result result hresult
  rw [Client.promptResult] at hmade
  obtain ⟨text, _, hmade⟩ := Attempts.of_bind_ok hmade
  cases hmade
  exact ((hcalmly hcalm).taken client htaken).2

theorem plain_turn_is_in_order : ∃ result, (said "Hello").world.result = some result ∧
    (said "Hello").world.arrived.length = 1 ∧ (said "Hello").world.arrived <+: result.updates ∧
      (said "Hello").world.arrived.filterMap (form asciiPlatform) <+: result.events := by
  have hsome : (said "Hello").world.result.isSome = true := by decide +kernel
  obtain ⟨result, hresult⟩ := Option.isSome_iff_exists.mp hsome
  exact ⟨result, hresult, by decide +kernel, turn_in_order (said_steps "Hello") hresult (by decide +kernel)⟩

/-- Waiting for the answer takes too long. -/
def impatiently : (o : ClientOp) → World → ClientRet o
  | .awaitAnswer _, _ => .error (.acp "ACP call 'session/prompt' timed out after 300s")
  | o, w => plainly o w

/-- The agent says something in the first turn, which ends without an answer, and something in the second. -/
def lateStart : Conf Side ClientOp ClientRet Exn Unit Unit World :=
  start asciiPlatform (some "s1") [chunk "old", chunk "new", endOfTurn "2"]

/-- The second turn begins while the first update is in the one list and not yet in the other. -/
def late : Conf Side ClientOp ClientRet Exn Unit Unit World :=
  (system asciiPlatform).play (List.replicate 6 (.caller, plainly) ++ List.replicate 2 (.reader, plainly) ++
    List.replicate 9 (.caller, impatiently) ++ List.replicate 13 (.reader, plainly) ++
      List.replicate 4 (.caller, plainly)) lateStart

theorem late_event_comes_first : ∃ result, (system asciiPlatform).Steps lateStart late ∧
    late.world.result = some result ∧ ¬ late.world.arrived.filterMap (form asciiPlatform) <+: result.events := by
  have hevents : late.world.result.map (fun result => result.events.map NormalizedUpdate.text) =
      some ["old", "new"] := by decide +kernel
  obtain ⟨result, hresult, hevents⟩ := Option.map_eq_some_iff.mp hevents
  have harrived : (late.world.arrived.filterMap (form asciiPlatform)).map NormalizedUpdate.text = ["new"] := by
    decide +kernel
  refine ⟨result, System.play_steps _ _ _, hresult, fun hprefix => ?_⟩
  have hmap := hprefix.map NormalizedUpdate.text
  rw [harrived, hevents] at hmap
  exact absurd hmap (by decide)

end AtlasFlow.Acp.Client.Turn
