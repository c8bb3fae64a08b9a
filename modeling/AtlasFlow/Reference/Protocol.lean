import Mathlib.Data.List.Infix
import Mathlib.Logic.Function.Basic
import AtlasFlow.Concurrency.Promises
import AtlasFlow.Data.Dict
import AtlasFlow.Data.Json

/-!
# The connection to an agent

`atlas_flow.acp.protocol`: calls put themselves into a table and wait, a reader takes the agent's lines and settles the
call an answer is for. All of it runs on one event loop, so a step is what happens between two awaits.

The reader should end only with the stream or the connection, an answer should settle its call, and no call should be
in the table whose caller is gone. In a run this holds at every moment if and only if every step of it is harmless
(`connection_keeps_iff`): a line can be of a shape that `dispatch` does not expect, a handler of notifications or the write of a
reply can raise, and a caller can leave its entry behind when its request cannot be written or it is cancelled.
-/

namespace AtlasFlow.Reference.Protocol

open Concurrency (guard_eq_some)

/-! ## Lines -/

/-- A line as `json.loads` takes it: it is no JSON, it raises something else (bytes that are no text, a text that is too
deep, a line that is too long), or it has a value. -/
inductive Line
  | notJson
  | unreadable
  | value (message : Json)
  deriving DecidableEq, Repr

/-- `message[key]` of an object; of a key that is there twice the last counts. -/
def member (members : List (String × Json)) (key : String) : Option Json := (Dict.ofItems members).get? key

/-- `key in message`; nothing where this raises. -/
def contains (key : String) : Json → Option Bool
  | .obj members => some (member members key).isSome
  | .arr items => some (decide (.str key ∈ items))
  | .str s => some (decide (key.toList <:+: s.toList))
  | _ => none

def hashable : Json → Bool
  | .arr _ | .obj _ => false
  | _ => true

/-! ## The connection -/

/-- What a future was completed with. -/
inductive Answer
  | result (value : Json)
  | remote (code message data : Json)
  | connection (message : String)
  | cancelled
  deriving DecidableEq, Repr

inductive Outcome
  | answered (answer : Answer)
  | timedOut
  | cancelled
  | writeFailed
  deriving DecidableEq, Repr

/-- Where a call is: its request is being written, it waits, its timer has fired, or it is over. -/
inductive Caller
  | absent
  | writing
  | waiting
  | expiring
  | gone (outcome : Outcome)
  deriving DecidableEq, Repr

inductive Cause | endOfStream | closed | raised
  deriving DecidableEq, Repr

/-- Where the reader is: it waits for a line, for the handler of a request, for a reply to be written, or for the handler
of notifications. -/
inductive Reader
  | reading
  | handling
  | replying
  | notifying
  | ended (cause : Cause)
  deriving DecidableEq, Repr

inductive Closing | open_ | closing | closed
  deriving DecidableEq, Repr

/-- What the connection was made with. `number` is the id that a number is equal to, as Python reads it. -/
structure Setup where
  requestHandlers : List String := []
  onNotification : Bool := false
  number : String → Option Nat

structure State where
  nextId : Nat := 0
  /-- The pending calls, with their methods. -/
  pending : Dict Nat String := []
  future : Nat → Option Answer := fun _ => none
  caller : Nat → Caller := fun _ => .absent
  reader : Reader := .reading
  closing : Closing := .open_

namespace State

variable (s : State)

def setCaller (id : Nat) (caller : Caller) : State := { s with caller := Function.update s.caller id caller }

def settle (id : Nat) (answer : Answer) : State := { s with future := Function.update s.future id (some answer) }

/-- `future.cancel()`, of no effect on one that is done. -/
def cancelFuture (id : Nat) : State := if s.future id = none then s.settle id .cancelled else s

def remove (id : Nat) : State := { s with pending := s.pending.pop id }

def setReader (reader : Reader) : State := { s with reader }

/-- `_fail_pending`. -/
def failPending (message : String) : State :=
  { s with
    future := fun id => if id ∈ s.pending.keys ∧ s.future id = none then some (.connection message) else s.future id
    pending := [] }

/-- The read loop ends, by its `finally`. -/
def endReader (cause : Cause) : State := (s.failPending "ACP agent closed the connection").setReader (.ended cause)

end State

section Dispatch

variable (c : Setup)

/-- The id that a JSON value is equal to. -/
def idOf : Json → Option Nat
  | .num literal => c.number literal
  | .bool b => some (if b then 1 else 0)
  | _ => none

/-- `error.get`, with the defaults. -/
def remoteError (error : List (String × Json)) : Answer :=
  .remote ((member error "code").getD (.num "-1")) ((member error "message").getD (.str ""))
    ((member error "data").getD .null)

/-- What an answer completes its call with; nothing where an error is no object. -/
def answerOf (members : List (String × Json)) : Option Answer :=
  match member members "error" with
  | none => some (.result ((member members "result").getD .null))
  | some (.obj error) => some (remoteError error)
  | some _ => none

/-- `_handle_request`, up to its first await. -/
def handleRequest (message : Json) (s : State) : State :=
  match message with
  | .obj members =>
    match member members "method" with
    | some method =>
      if !hashable method then s.endReader .raised
      else if c.requestHandlers.any (method = .str ·) then s.setReader .handling
      else s.setReader .replying
    | none => s.endReader .raised
  | _ => s.endReader .raised

/-- The call of `on_notification`. -/
def handleNotification (message : Json) (s : State) : State :=
  if !c.onNotification then s
  else
    match message with
    | .obj _ => s.setReader .notifying
    | _ => s.endReader .raised

/-- `_handle_response`. -/
def handleResponse (message : Json) (s : State) : State :=
  match message with
  | .obj members =>
    match member members "id" with
    | none => s.endReader .raised
    | some key =>
      -- an empty dict is asked for nothing: it does not hash the key
      if !hashable key && !s.pending.isEmpty then s.endReader .raised
      else
        match idOf c key with
        | none => s
        | some id =>
          if id ∉ s.pending.keys then s
          else if s.future id ≠ none then s.remove id
          else
            match answerOf members with
            | some answer => (s.remove id).settle id answer
            | none => (s.remove id).endReader .raised
  | _ => s.endReader .raised

/-- `_dispatch`. -/
def dispatch (message : Json) (s : State) : State :=
  match contains "method" message, contains "id" message with
  | some true, some true => handleRequest c message s
  | some true, _ => handleNotification c message s
  | some false, some true => handleResponse c message s
  | some false, _ => s
  | none, _ => s.endReader .raised

/-- One turn of `_read_loop`. -/
def readLine (line : Line) (s : State) : State :=
  match line with
  | .notJson => s
  | .unreadable => s.endReader .raised
  | .value message => dispatch c message s

end Dispatch

/-! ## Steps -/

inductive Event
  | call (method : String)
  | written (id : Nat)
  | writeFails (id : Nat)
  | expire (id : Nat)
  | resume (id : Nat)
  | cancel (id : Nat)
  | read (line : Line)
  | endOfStream
  | handled
  | replied
  | replyFails
  | notified
  | notificationRaises
  | close
  | stopReader
  | finishClose
  deriving DecidableEq, Repr

/-- A step, if this can happen. -/
def step (c : Setup) (s : State) : Event → Option State
  | .call method =>
    some { s.setCaller (s.nextId + 1) .writing with
      nextId := s.nextId + 1, pending := s.pending.set (s.nextId + 1) method }
  | .written id => if s.caller id = .writing then some (s.setCaller id .waiting) else none
  | .writeFails id => if s.caller id = .writing then some (s.setCaller id (.gone .writeFailed)) else none
  -- the timer cancels the future, if this is not done, and the caller learns of it later
  | .expire id => if s.caller id = .waiting then some ((s.cancelFuture id).setCaller id .expiring) else none
  | .resume id =>
    match s.caller id, s.future id with
    | .waiting, some answer => some (s.setCaller id (.gone (.answered answer)))
    | .expiring, _ => some ((s.remove id).setCaller id (.gone .timedOut))
    | _, _ => none
  | .cancel id =>
    match s.caller id with
    | .writing | .expiring => some (s.setCaller id (.gone .cancelled))
    | .waiting => some ((s.cancelFuture id).setCaller id (.gone .cancelled))
    | _ => none
  | .read line => if s.reader = .reading then some (readLine c line s) else none
  | .endOfStream => if s.reader = .reading then some (s.endReader .endOfStream) else none
  | .handled => if s.reader = .handling then some (s.setReader .replying) else none
  | .replied => if s.reader = .replying then some (s.setReader .reading) else none
  | .replyFails => if s.reader = .replying then some (s.endReader .raised) else none
  | .notified => if s.reader = .notifying then some (s.setReader .reading) else none
  | .notificationRaises => if s.reader = .notifying then some (s.endReader .raised) else none
  | .close => if s.closing = .open_ then some { s with closing := .closing } else none
  | .stopReader =>
    match s.closing, s.reader with
    | .closing, .ended _ => none
    | .closing, _ => some (s.endReader .closed)
    | _, _ => none
  | .finishClose =>
    match s.closing, s.reader with
    | .closing, .ended _ => some { s.failPending "ACP connection closed" with closing := .closed }
    | _, _ => none

/-! ## What is promised -/

/-- The reader has not been torn down by what it read, and no call is pending whose caller is gone. -/
structure Good (s : State) : Prop where
  reader : s.reader ≠ .ended .raised
  pending : ∀ id ∈ s.pending.keys, ∀ outcome, s.caller id ≠ .gone outcome

/-- An answer to a call that waits settles this call, and no other. -/
def Delivers (c : Setup) (s : State) (e : Event) (s' : State) : Prop :=
  ∀ members key id, e = .read (.value (.obj members)) → member members "method" = none →
    member members "id" = some key → idOf c key = some id → id ∈ s.pending.keys → s.future id = none →
    ∃ answer, (∀ a, answerOf members = some a → answer = a) ∧
      s'.future = Function.update s.future id (some answer) ∧ s'.pending = s.pending.pop id ∧ s'.caller = s.caller

/-- At every moment of a run all is as promised. -/
def Keeps (c : Setup) : State → List Event → Prop := Concurrency.Keeps (step c) Good (Delivers c)

/-- What `_dispatch` expects of a value: an object whose method, if it wants an answer, is no list or object, and whose
id, if it is an answer, is none either while calls are pending; and if it answers a call that waits with an error, this
is an object. Anything else may have no id in it, and a method only where nobody listens to notifications. -/
def Expected (c : Setup) (s : State) : Json → Prop
  | .obj members =>
    match member members "method", member members "id" with
    | some method, some _ => hashable method = true
    | none, some key => (hashable key = true ∨ s.pending = []) ∧
        ∀ id, idOf c key = some id → id ∈ s.pending.keys → s.future id = none → answerOf members ≠ none
    | _, none => True
  | message =>
    contains "id" message ≠ some true ∧
      (contains "method" message = some false ∨ contains "method" message = some true ∧ c.onNotification = false)

/-- **A harmless step**: a line is no JSON or of a value that is expected, a caller that cannot write its request or is
cancelled is not pending any more, and neither the handler of notifications nor the write of a reply raises. -/
def Harmless (c : Setup) (s : State) : Event → Prop
  | .read .unreadable => False
  | .read (.value message) => Expected c s message
  | .writeFails id => id ∉ s.pending.keys
  | .cancel id => id ∉ s.pending.keys
  | .replyFails => False
  | .notificationRaises => False
  | _ => True

/-- Every step of a run is harmless. -/
def AllHarmless (c : Setup) : State → List Event → Prop := Concurrency.Always (step c) (Harmless c)

/-! ## The invariant -/

/-- A caller that is there waits for its future, or for its timer to get through. -/
def Live (s : State) (id : Nat) : Prop :=
  ((s.caller id = .writing ∨ s.caller id = .waiting) ∧ s.future id = none) ∨ s.caller id = .expiring

/-- Whose call is pending is there, and the ids to come are not used. -/
structure Inv (s : State) : Prop where
  reader : s.reader ≠ .ended .raised
  live : ∀ id ∈ s.pending.keys, Live s id
  bound : ∀ id ∈ s.pending.keys, id ≤ s.nextId
  fresh : ∀ id, s.nextId < id → s.future id = none ∧ s.caller id = .absent

section Inv

variable {c : Setup} {s s' : State} {id : Nat}

theorem Live.not_gone (h : Live s id) (outcome : Outcome) : s.caller id ≠ .gone outcome := by
  intro hgone
  rcases h with ⟨hcaller | hcaller, _⟩ | hcaller
  all_goals
    rw [hgone] at hcaller
    cases hcaller

theorem Inv.good (h : Inv s) : Good s := ⟨h.reader, fun id hid => (h.live id hid).not_gone⟩

theorem Inv.start : Inv {} where
  reader h := by cases h
  live _ h := absurd h List.not_mem_nil
  bound _ h := absurd h List.not_mem_nil
  fresh _ _ := ⟨rfl, rfl⟩

theorem Inv.le_nextId (h : Inv s) (hcaller : s.caller id ≠ .absent) : id ≤ s.nextId := by
  by_contra hlt
  exact hcaller (h.fresh id (Nat.lt_of_not_le hlt)).2

theorem mem_keys_pop {d : Dict Nat String} {k : Nat} : k ∈ (d.pop id).keys ↔ k ∈ d.keys ∧ k ≠ id := by
  simp [Dict.pop, Dict.keys]

theorem Inv.setReader (h : Inv s) {reader : Reader} (hreader : reader ≠ .ended .raised) : Inv (s.setReader reader) :=
  ⟨hreader, h.live, h.bound, h.fresh⟩

theorem Inv.remove (h : Inv s) (id : Nat) : Inv (s.remove id) where
  reader := h.reader
  live k hk := h.live k (mem_keys_pop.mp hk).1
  bound k hk := h.bound k (mem_keys_pop.mp hk).1
  fresh := h.fresh

/-- Nothing is pending after this. -/
theorem Inv.failPending (h : Inv s) (message : String) : Inv (s.failPending message) where
  reader := h.reader
  live _ hk := absurd hk List.not_mem_nil
  bound _ hk := absurd hk List.not_mem_nil
  fresh k hk := by
    have hnew : k ∉ s.pending.keys := fun hmem => absurd (h.bound k hmem) (Nat.not_le_of_lt hk)
    refine ⟨?_, (h.fresh k hk).2⟩
    show (if k ∈ s.pending.keys ∧ s.future k = none then some (Answer.connection message) else s.future k) = none
    rw [if_neg fun hboth => hnew hboth.1]
    exact (h.fresh k hk).1

theorem Inv.endReader (h : Inv s) {cause : Cause} (hcause : cause ≠ .raised) : Inv (s.endReader cause) :=
  (h.failPending _).setReader fun heq => hcause (Reader.ended.inj heq)

/-- A caller moves on, and stays if its call is pending. -/
theorem Inv.setCaller (h : Inv s) (hid : id ≤ s.nextId) {caller : Caller}
    (hlive : id ∈ s.pending.keys → Live (s.setCaller id caller) id) : Inv (s.setCaller id caller) where
  reader := h.reader
  live k hk := by
    by_cases heq : k = id
    · rw [heq]
      exact hlive (heq ▸ hk)
    · have hcaller : (s.setCaller id caller).caller k = s.caller k := Function.update_of_ne heq ..
      have hold : Live s k := h.live k hk
      unfold Live
      rw [hcaller]
      exact hold
  bound := h.bound
  fresh k hk := by
    have hne : k ≠ id := fun heq => absurd hid (Nat.not_le_of_lt (heq ▸ hk))
    exact ⟨(h.fresh k hk).1, (Function.update_of_ne hne ..).trans (h.fresh k hk).2⟩

/-- The future of a call that is not pending, or whose timer has fired, is completed. -/
theorem Inv.settle (h : Inv s) (hid : id ≤ s.nextId) (hlive : id ∈ s.pending.keys → s.caller id = .expiring)
    (answer : Answer) : Inv (s.settle id answer) where
  reader := h.reader
  live k hk := by
    by_cases heq : k = id
    · rw [heq]
      exact .inr (hlive (heq ▸ hk))
    · have hfuture : (s.settle id answer).future k = s.future k := Function.update_of_ne heq ..
      have hold : Live s k := h.live k hk
      unfold Live
      rw [hfuture]
      exact hold
  bound := h.bound
  fresh k hk := by
    have hne : k ≠ id := fun heq => absurd hid (Nat.not_le_of_lt (heq ▸ hk))
    exact ⟨(Function.update_of_ne hne ..).trans (h.fresh k hk).1, (h.fresh k hk).2⟩

/-- A call is made, under an id that is new. -/
theorem Inv.call (h : Inv s) (method : String) :
    Inv { s.setCaller (s.nextId + 1) .writing with
      nextId := s.nextId + 1, pending := s.pending.set (s.nextId + 1) method } where
  reader := h.reader
  live k hk := by
    by_cases heq : k = s.nextId + 1
    · subst heq
      exact .inl ⟨.inl (Function.update_self ..), (h.fresh _ (Nat.lt_succ_self _)).1⟩
    · have hold : Live s k := h.live k ((Dict.mem_keys_set.mp hk).resolve_left heq)
      have hcaller : (s.setCaller (s.nextId + 1) .writing).caller k = s.caller k := Function.update_of_ne heq ..
      unfold Live
      dsimp only
      rw [hcaller]
      exact hold
  bound k hk := by
    show k ≤ s.nextId + 1
    rcases Dict.mem_keys_set.mp hk with heq | hk
    · exact Nat.le_of_eq heq
    · exact Nat.le_succ_of_le (h.bound k hk)
  fresh k hk := by
    have hlt : s.nextId + 1 < k := hk
    have hne : k ≠ s.nextId + 1 := Nat.ne_of_gt hlt
    obtain ⟨hfuture, hcaller⟩ := h.fresh k (Nat.lt_of_succ_lt hlt)
    exact ⟨hfuture, (Function.update_of_ne hne ..).trans hcaller⟩

/-- A caller is cancelled that nobody waits for in the table, or its timer fires. -/
theorem Inv.cancelFuture (h : Inv s) (hid : id ≤ s.nextId) {caller : Caller}
    (hlive : id ∈ s.pending.keys → caller = .expiring) : Inv ((s.cancelFuture id).setCaller id caller) := by
  have hself : ∀ s₁ : State, Live (s₁.setCaller id .expiring) id := fun s₁ => .inr (Function.update_self ..)
  unfold State.cancelFuture
  split
  · -- the caller is set first here, so that the future may be completed
    have hset : Inv (s.setCaller id caller) := h.setCaller hid fun hmem => hlive hmem ▸ hself s
    exact hset.settle hid (fun hmem => (Function.update_self ..).trans (hlive hmem)) .cancelled
  · exact h.setCaller hid fun hmem => hlive hmem ▸ hself s

end Inv

/-! ## Lines that are dispatched -/

section Dispatched

variable {c : Setup} {s : State} {message method key : Json} {members : List (String × Json)}

theorem dispatch_request (hmethod : member members "method" = some method) (hid : member members "id" = some key) :
    dispatch c (.obj members) s =
      if !hashable method then s.endReader .raised
      else if c.requestHandlers.any (method = .str ·) then s.setReader .handling
      else s.setReader .replying := by
  simp only [dispatch, contains, handleRequest, hmethod, hid, Option.isSome_some]

theorem dispatch_notification (hmethod : member members "method" = some method) (hid : member members "id" = none) :
    dispatch c (.obj members) s = if !c.onNotification then s else s.setReader .notifying := by
  simp only [dispatch, contains, handleNotification, hmethod, hid, Option.isSome_some, Option.isSome_none]

theorem dispatch_response (hmethod : member members "method" = none) (hid : member members "id" = some key) :
    dispatch c (.obj members) s = handleResponse c (.obj members) s := by
  simp only [dispatch, contains, hmethod, hid, Option.isSome_some, Option.isSome_none]

theorem dispatch_neither (hmethod : member members "method" = none) (hid : member members "id" = none) :
    dispatch c (.obj members) s = s := by
  simp only [dispatch, contains, hmethod, hid, Option.isSome_none]

/-- A value that is no object is passed over, or the reader ends. -/
theorem dispatch_other (hobj : ∀ members, message ≠ .obj members) :
    (Expected c s message ∧ dispatch c message s = s) ∨
      (¬ Expected c s message ∧ dispatch c message s = s.endReader .raised) := by
  have hrequest : handleRequest c message s = s.endReader .raised := by
    cases message with
    | obj members => exact absurd rfl (hobj members)
    | _ => rfl
  have hresponse : handleResponse c message s = s.endReader .raised := by
    cases message with
    | obj members => exact absurd rfl (hobj members)
    | _ => rfl
  have hnotification : handleNotification c message s = if !c.onNotification then s else s.endReader .raised := by
    cases message with
    | obj members => exact absurd rfl (hobj members)
    | _ => rfl
  have hexpected : Expected c s message ↔ contains "id" message ≠ some true ∧
      (contains "method" message = some false ∨ contains "method" message = some true ∧ c.onNotification = false) := by
    cases message with
    | obj members => exact absurd rfl (hobj members)
    | _ => exact Iff.rfl
  unfold dispatch
  rw [hexpected, hrequest, hresponse, hnotification]
  generalize contains "method" message = hasMethod
  generalize contains "id" message = hasId
  rcases hasMethod with _ | _ | _ <;> rcases hasId with _ | _ | _ <;> cases c.onNotification <;> simp

/-- An answer ends the reader, is nobody's, comes too late, or settles its call. -/
theorem handleResponse_cases (hid : member members "id" = some key) :
    (hashable key = false ∧ s.pending ≠ [] ∧ handleResponse c (.obj members) s = s.endReader .raised) ∨
      ((hashable key = true ∨ s.pending = []) ∧
        ((∀ id, idOf c key = some id → id ∉ s.pending.keys) ∧ handleResponse c (.obj members) s = s ∨
          ∃ id, idOf c key = some id ∧ id ∈ s.pending.keys ∧
            (s.future id ≠ none ∧ handleResponse c (.obj members) s = s.remove id ∨
              s.future id = none ∧
                (answerOf members = none ∧
                    handleResponse c (.obj members) s = (s.remove id).endReader .raised ∨
                  ∃ answer, answerOf members = some answer ∧
                    handleResponse c (.obj members) s = (s.remove id).settle id answer)))) := by
  have hunfold : handleResponse c (.obj members) s =
      if !hashable key && !s.pending.isEmpty then s.endReader .raised
      else
        match idOf c key with
        | none => s
        | some id =>
          if id ∉ s.pending.keys then s
          else if s.future id ≠ none then s.remove id
          else
            match answerOf members with
            | some answer => (s.remove id).settle id answer
            | none => (s.remove id).endReader .raised := by
    simp only [handleResponse, hid]
  rw [hunfold]
  by_cases hraises : (!hashable key && !s.pending.isEmpty) = true
  · refine .inl ⟨by simp_all, by simp_all, if_pos hraises⟩
  refine .inr ⟨by grind, ?_⟩
  rw [if_neg hraises]
  cases hidOf : idOf c key with
  | none => exact .inl ⟨fun id h => (Option.some_ne_none id h.symm).elim, rfl⟩
  | some id =>
    by_cases hpending : id ∈ s.pending.keys
    · refine .inr ⟨id, rfl, hpending, ?_⟩
      dsimp only
      rw [if_neg (not_not_intro hpending)]
      by_cases hdone : s.future id = none
      · refine .inr ⟨hdone, ?_⟩
        rw [if_neg (not_not_intro hdone)]
        cases answerOf members with
        | none => exact .inl ⟨rfl, rfl⟩
        | some answer => exact .inr ⟨answer, rfl, rfl⟩
      · exact .inl ⟨hdone, if_pos hdone⟩
    · exact .inl ⟨fun id' h => Option.some.inj h ▸ hpending, if_pos hpending⟩

theorem expected_response (hmethod : member members "method" = none) (hid : member members "id" = some key) :
    Expected c s (.obj members) ↔ (hashable key = true ∨ s.pending = []) ∧
      ∀ id, idOf c key = some id → id ∈ s.pending.keys → s.future id = none → answerOf members ≠ none := by
  simp only [Expected, hmethod, hid]

/-- A value that is expected leaves the invariant. -/
theorem Inv.dispatch (h : Inv s) (he : Expected c s message) : Inv (dispatch c message s) := by
  by_cases hobj : ∃ members, message = .obj members
  swap
  · rcases dispatch_other (not_exists.mp hobj) with ⟨_, heq⟩ | ⟨hnot, _⟩
    · rw [heq]
      exact h
    · exact absurd he hnot
  obtain ⟨members, rfl⟩ := hobj
  rcases hmethod : member members "method" with _ | method <;> rcases hid : member members "id" with _ | key
  · rw [dispatch_neither hmethod hid]
    exact h
  · rw [dispatch_response hmethod hid]
    obtain ⟨hkey, hanswer⟩ := (expected_response hmethod hid).mp he
    rcases handleResponse_cases (c := c) (s := s) hid with
      ⟨hhash, hpending, _⟩ | ⟨_, ⟨_, heq⟩ | ⟨id, hidOf, hmem, ⟨_, heq⟩ | ⟨hdone, ⟨hnone, _⟩ | ⟨answer, _, heq⟩⟩⟩⟩
    · exact absurd hkey (by simp [hhash, hpending])
    · rw [heq]
      exact h
    · rw [heq]
      exact h.remove id
    · exact absurd hnone (hanswer id hidOf hmem hdone)
    · rw [heq]
      have hgone : id ∉ (s.remove id).pending.keys := fun hid => (mem_keys_pop.mp hid).2 rfl
      exact (h.remove id).settle (h.bound id hmem) (fun hid => absurd hid hgone) answer
  · rw [dispatch_notification hmethod hid]
    split
    · exact h
    · exact h.setReader (by simp)
  · have hhash : hashable method = true := by
      simpa only [Expected, hmethod, hid] using he
    rw [dispatch_request hmethod hid, hhash, if_neg (by simp)]
    split
    · exact h.setReader (by simp)
    · exact h.setReader (by simp)

/-- Any other value ends the reader. -/
theorem dispatch_ends (he : ¬ Expected c s message) : (Protocol.dispatch c message s).reader = .ended .raised := by
  by_cases hobj : ∃ members, message = .obj members
  swap
  · rcases dispatch_other (not_exists.mp hobj) with ⟨hexpected, _⟩ | ⟨_, heq⟩
    · exact absurd hexpected he
    · rw [heq]
      rfl
  obtain ⟨members, rfl⟩ := hobj
  rcases hmethod : member members "method" with _ | method <;> rcases hid : member members "id" with _ | key
  · exact absurd (by simp only [Expected, hmethod, hid]) he
  · rw [expected_response hmethod hid] at he
    rw [dispatch_response hmethod hid]
    rcases handleResponse_cases (c := c) (s := s) hid with
      ⟨_, _, heq⟩ | ⟨hkey, ⟨hnone, _⟩ | ⟨id, hidOf, _, ⟨hdone, _⟩ | ⟨_, ⟨_, heq⟩ | ⟨answer, hanswer, _⟩⟩⟩⟩
    · rw [heq]
      rfl
    · exact absurd ⟨hkey, fun id hidOf hmem => absurd hmem (hnone id hidOf)⟩ he
    · refine absurd ⟨hkey, fun id' hidOf' _ hdone' => ?_⟩ he
      have hsame : id' = id := Option.some.inj (hidOf'.symm.trans hidOf)
      exact absurd (hsame ▸ hdone') hdone
    · rw [heq]
      rfl
    · refine absurd ⟨hkey, fun _ _ _ _ => ?_⟩ he
      rw [hanswer]
      exact Option.some_ne_none answer
  · exact absurd (by simp only [Expected, hmethod, hid]) he
  · have hhash : hashable method = false := by
      simpa only [Expected, hmethod, hid, Bool.not_eq_true] using he
    rw [dispatch_request hmethod hid, hhash]
    rfl

/-- The answer to a call that waits settles it, where its error is an object. -/
theorem dispatch_settles {id : Nat} (hmethod : member members "method" = none) (hid : member members "id" = some key)
    (hidOf : idOf c key = some id) (hpending : id ∈ s.pending.keys) (hdone : s.future id = none) {answer : Answer}
    (hanswer : answerOf members = some answer) :
    Protocol.dispatch c (.obj members) s = (s.remove id).settle id answer := by
  have hhash : hashable key = true := by
    cases key with
    | arr _ => cases hidOf
    | obj _ => cases hidOf
    | _ => rfl
  rw [dispatch_response hmethod hid]
  simp only [handleResponse, hid, hidOf, hhash, hanswer, hdone, hpending, not_true_eq_false, if_false, ne_eq,
    Bool.not_true, Bool.false_and, Bool.false_eq_true]

end Dispatched

/-! ## Runs -/

section Runs

variable {c : Setup} {s s' : State} {e : Event}

/-- A harmless step keeps the invariant. -/
theorem Inv.step (h : Inv s) (hstep : step c s e = some s') (he : Harmless c s e) : Inv s' := by
  cases e with
  | call method =>
    obtain rfl := Option.some.inj hstep
    exact h.call method
  | written id =>
    obtain ⟨hcaller, rfl⟩ := guard_eq_some.mp hstep
    refine h.setCaller (h.le_nextId (by simp [hcaller])) fun hmem => .inl ⟨.inr (Function.update_self ..), ?_⟩
    rcases h.live id hmem with ⟨_, hfuture⟩ | hexpiring
    · exact hfuture
    · rw [hcaller] at hexpiring
      cases hexpiring
  | writeFails id =>
    obtain ⟨hcaller, rfl⟩ := guard_eq_some.mp hstep
    exact h.setCaller (h.le_nextId (by simp [hcaller])) fun hmem => absurd hmem he
  | expire id =>
    obtain ⟨hcaller, rfl⟩ := guard_eq_some.mp hstep
    exact h.cancelFuture (h.le_nextId (by simp [hcaller])) fun _ => rfl
  | resume id =>
    simp only [Protocol.step] at hstep
    split at hstep
    next answer hcaller hfuture =>
      obtain rfl := Option.some.inj hstep
      refine h.setCaller (h.le_nextId (by simp [hcaller])) fun hmem => ?_
      -- its future is done, so the call is not pending any more
      rcases h.live id hmem with ⟨_, hnone⟩ | hexpiring
      · exact absurd (hfuture.symm.trans hnone) (Option.some_ne_none answer)
      · rw [hcaller] at hexpiring
        cases hexpiring
    next hcaller =>
      obtain rfl := Option.some.inj hstep
      exact (h.remove id).setCaller (h.le_nextId (by simp [hcaller])) fun hmem => absurd rfl (mem_keys_pop.mp hmem).2
    next => cases hstep
  | cancel id =>
    simp only [Protocol.step] at hstep
    split at hstep
    next hcaller =>
      obtain rfl := Option.some.inj hstep
      exact h.setCaller (h.le_nextId (by simp [hcaller])) fun hmem => absurd hmem he
    next hcaller =>
      obtain rfl := Option.some.inj hstep
      exact h.setCaller (h.le_nextId (by simp [hcaller])) fun hmem => absurd hmem he
    next hcaller =>
      obtain rfl := Option.some.inj hstep
      exact h.cancelFuture (h.le_nextId (by simp [hcaller])) fun hmem => absurd hmem he
    next => cases hstep
  | read line =>
    obtain ⟨_, rfl⟩ := guard_eq_some.mp hstep
    cases line with
    | notJson => exact h
    | unreadable => exact he.elim
    | value message => exact h.dispatch he
  | endOfStream =>
    obtain ⟨_, rfl⟩ := guard_eq_some.mp hstep
    exact h.endReader (by simp)
  | handled | replied | notified =>
    obtain ⟨_, rfl⟩ := guard_eq_some.mp hstep
    exact h.setReader (by simp)
  | replyFails | notificationRaises => exact he.elim
  | close =>
    obtain ⟨_, rfl⟩ := guard_eq_some.mp hstep
    exact ⟨h.reader, h.live, h.bound, h.fresh⟩
  | stopReader =>
    simp only [Protocol.step] at hstep
    split at hstep
    next => cases hstep
    next =>
      obtain rfl := Option.some.inj hstep
      exact h.endReader (by simp)
    next => cases hstep
  | finishClose =>
    simp only [Protocol.step] at hstep
    split at hstep
    next =>
      obtain rfl := Option.some.inj hstep
      have hfail : Inv (s.failPending "ACP connection closed") := h.failPending _
      exact ⟨hfail.reader, hfail.live, hfail.bound, hfail.fresh⟩
    next => cases hstep

/-- A step that is not harmless breaks the promise. -/
theorem not_good_of_step (hstep : step c s e = some s') (he : ¬ Harmless c s e) : ¬ Good s' := by
  have hgone : ∀ (s₁ : State) (id : Nat) (outcome : Outcome), id ∈ s₁.pending.keys →
      ¬ Good (s₁.setCaller id (.gone outcome)) := fun s₁ id outcome hmem hgood =>
    hgood.pending id hmem outcome (Function.update_self ..)
  cases e with
  | writeFails id =>
    obtain ⟨_, rfl⟩ := guard_eq_some.mp hstep
    exact hgone s id .writeFailed (not_not.mp he)
  | cancel id =>
    have hmem : id ∈ s.pending.keys := not_not.mp he
    simp only [step] at hstep
    split at hstep
    next =>
      obtain rfl := Option.some.inj hstep
      exact hgone s id .cancelled hmem
    next =>
      obtain rfl := Option.some.inj hstep
      exact hgone s id .cancelled hmem
    next =>
      obtain rfl := Option.some.inj hstep
      refine hgone (s.cancelFuture id) id .cancelled ?_
      unfold State.cancelFuture
      split
      · exact hmem
      · exact hmem
    next => cases hstep
  | read line =>
    obtain ⟨_, rfl⟩ := guard_eq_some.mp hstep
    cases line with
    | notJson => exact absurd trivial he
    | unreadable => exact fun hgood => hgood.reader rfl
    | value message => exact fun hgood => hgood.reader (dispatch_ends he)
  | replyFails | notificationRaises =>
    obtain ⟨_, rfl⟩ := guard_eq_some.mp hstep
    exact fun hgood => hgood.reader rfl
  | _ => exact absurd trivial he

/-- A harmless line that answers a call that waits settles this call. -/
theorem Harmless.delivers (hstep : step c s e = some s') (he : Harmless c s e) : Delivers c s e s' := by
  rintro members key id rfl hmethod hid hidOf hpending hdone
  obtain ⟨_, rfl⟩ := guard_eq_some.mp hstep
  have hexpected : answerOf members ≠ none := ((expected_response hmethod hid).mp he).2 id hidOf hpending hdone
  obtain ⟨answer, hanswer⟩ := Option.ne_none_iff_exists'.mp hexpected
  refine ⟨answer, fun a ha => Option.some.inj (hanswer.symm.trans ha), ?_⟩
  have heq : readLine c (.value (.obj members)) s = (s.remove id).settle id answer :=
    dispatch_settles hmethod hid hidOf hpending hdone hanswer
  rw [heq]
  exact ⟨rfl, rfl, rfl⟩

end Runs

/-- **What is promised holds all through a run if and only if every step of it is harmless.** -/
theorem connection_keeps_iff (c : Setup) (es : List Event) : Keeps c {} es ↔ AllHarmless c {} es := by
  have hkept : ∀ s e s', Inv s → step c s e = some s' → Harmless c s e → Inv s' ∧ Delivers c s e s' :=
    fun s e s' hinv hstep he => ⟨hinv.step hstep he, he.delivers hstep⟩
  have hbroken : ∀ s e s', Inv s → step c s e = some s' → ¬ Harmless c s e → ¬ (Delivers c s e s' ∧ Good s') :=
    fun s e s' _ hstep he hboth => not_good_of_step hstep he hboth.2
  exact Concurrency.keeps_iff_always (fun _ hinv => hinv.good) hkept hbroken Inv.start es

/-- An agent that answers with an error that is a text: nobody gets this answer, and nothing more is read. -/
theorem text_error_ends_reader :
    ¬ Keeps { number := fun literal => if literal = "1" then some 1 else none } {}
        [.call "session/prompt", .written 1, .read (.value (.obj [("id", .num "1"), ("error", .str "busy")]))] := by
  intro h
  obtain ⟨_, hwritten⟩ := (h.2 _ rfl).2
  obtain ⟨_, hread⟩ := (hwritten _ rfl).2
  have hgood : Good _ := (hread _ rfl).2
  exact hgood.reader rfl

end AtlasFlow.Reference.Protocol
