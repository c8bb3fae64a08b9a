import AtlasFlow.Concurrency.Pool
import AtlasFlow.Data.Dict
import AtlasFlow.Data.EnumText
import AtlasFlow.Data.JsonText

/-!
# The connection to an agent

`AtlasFlow.Protocols.Acp.AcpConnection`: JSON-RPC over an agent's standard input and output. Any number
of calls and notifications write to the one pipe under a lock; the read loop answers the calls through
the table of pending calls, and the agent's own requests through the same pipe; timers, callers and
whoever closes the connection get in between.

Somebody else's code, the handlers of requests and notifications, may answer anything. A JSON `null` is
the null node it is parsed to. `_nextId` counts in a `long`, which no connection exhausts.
-/

namespace AtlasFlow.Acp

open Concurrency

/-- The exceptions. `other` is whatever a handler throws. -/
inductive Exn where
  | argument (message : String)
  | acp (message : String)
  | remote (code : Int) (text : String) (errorData : Option String)
  | operationCanceled
  | io
  | objectDisposed
  | invalidOperation
  | other (message : String)
  deriving DecidableEq, Repr

/-- `Exception.Message`. -/
def Exn.message : Exn → String
  | .argument message | .acp message | .other message => message
  | .remote code text _ => s!"ACP error {code}: {text}"
  | .operationCanceled => "The operation was canceled."
  | .io => "I/O error occurred."
  | .objectDisposed => "Cannot access a disposed object."
  | .invalidOperation => "Operation is not valid due to the current state of the object."

/-! ## JSON nodes -/

abbrev JsonObject := List (String × Json)

/-- `TryGetPropertyValue`. The members are put into a dictionary when the first is asked for, which a
repeated name stops. -/
def tryGetPropertyValue (members : JsonObject) (name : String) : Except Exn (Option Json) :=
  if (members.map Prod.fst).Nodup then .ok ((members.find? fun member => member.1 = name).map Prod.snd)
  else .error (.argument "An item with the same key has already been added.")

/-- `node?.GetValue<string>() ?? string.Empty`. -/
def stringOf : Json → Except Exn String
  | .null => .ok ""
  | .str s => .ok s
  | _ => .error .invalidOperation

/-- The integer a number literal is, if it is one. -/
def integer? (literal : String) : Option Int :=
  let negative := literal.toList.head? = some '-'
  let digits := if negative then literal.toList.tail else literal.toList
  if digits ≠ [] ∧ digits.all Char.isDigit then
    some (if negative then -(EnumText.number digits : Int) else EnumText.number digits)
  else none

/-- `GetValue<int>()` and `GetValue<long>()`, by the number of bits. -/
def integerOf (bits : Nat) : Json → Except Exn Int
  | .num literal =>
    match integer? literal with
    | some n => if -2 ^ (bits - 1) ≤ n ∧ n < 2 ^ (bits - 1) then .ok n else .error .invalidOperation
    | none => .error .invalidOperation
  | _ => .error .invalidOperation

/-- `TryReadId`, for a node that is there. -/
def tryReadId (node : Json) : Option Int := (integerOf 64 node).toOption

/-- `ParamsOf`: no parameters where there is no object. -/
def paramsOf (message : JsonObject) : JsonObject :=
  match tryGetPropertyValue message "params" with
  | .ok (some (.obj members)) => members
  | _ => []

/-! ## Operations -/

/-- What a line of the agent's output is parsed to. -/
inductive Line
  | notJson
  | value (json : Json)
  deriving DecidableEq, Repr

/-- The cancellation tokens: none, the one of the connection, and those of its callers, which may share
them. -/
inductive Token
  | none
  | shutdown
  | caller (k : Nat)
  deriving DecidableEq, Repr

/-- What a `PendingCall` was completed with. -/
inductive Settlement
  | result (value : Json)
  | exception (e : Exn)
  | canceled
  deriving DecidableEq

/-- The calls that meet the process, the pipes, the lock, the table, the completion sources and the
tokens. A `PendingCall` goes by the number of its call. `tryRemoveFor` is a `TryRemove` that is made for an
answer. -/
inductive Op
  | running
  | isOpen
  | increment
  | store (id : Int)
  | tryRemove (id : Int)
  | tryRemoveFor (message : JsonObject) (id : Int)
  | keys
  | register
  | awaitTask
  | unregister
  | trySet (call : Nat) (settlement : Settlement)
  | isCancelled (token : Token)
  | cancel (token : Token)
  | waitLock (token : Token)
  | write (text : List Char) (token : Token)
  | flush (token : Token)
  | release
  | readLine
  | hasHandler (method : String)
  | handle (method : String) (parameters : JsonObject)
  | hasListener
  | notified (method : String) (parameters : JsonObject)
  | isClosed
  | setClosed
  | closeInput
  | disposeLock

abbrev Ret : Op → Type
  | .running | .isOpen => Except Exn Bool
  | .increment => Int
  | .tryRemove _ | .tryRemoveFor .. => Option Nat
  | .keys => List Int
  | .awaitTask => Settlement
  | .isCancelled _ | .hasHandler _ | .hasListener | .isClosed => Bool
  | .waitLock _ | .write .. | .flush _ | .release | .notified .. => Except Exn Unit
  | .readLine => Except Exn (Option Line)
  | .handle .. => Except Exn Json
  | .store _ | .register | .unregister | .trySet .. | .cancel _ | .setClosed | .closeInput | .disposeLock => Unit

abbrev Program (α : Type) := Prog Op Ret Exn α

abbrev call (o : Op) : Program (Ret o) := Prog.op o

/-! ## Writing -/

def closedInput : Exn := .acp "ACP agent closed its input stream"

/-- `WriteAsync`. -/
def writeAsync (message : JsonObject) (token : Token) : Program Unit := do
  if !(← Prog.ofExcept (← call .isOpen)) then throw (.acp "ACP connection is not open")
  Prog.ofExcept (← call (.waitLock token))
  Prog.ensure
    (Prog.handle (do
        Prog.ofExcept (← call (.write (Json.text (.obj message)) token))
        Prog.ofExcept (← call (.write ['\n'] token))
        Prog.ofExcept (← call (.flush token)))
      fun
        | .io => .raise closedInput
        | e => .raise e)
    (do Prog.ofExcept (← call .release))

structure Notification where
  method : String
  parameters : JsonObject
  token : Token

/-- `NotifyAsync`. -/
def notifyAsync (notification : Notification) : Program Unit := do
  if notification.method = "" then throw (.argument "method")
  writeAsync [("jsonrpc", .str "2.0"), ("method", .str notification.method),
    ("params", .obj notification.parameters)] notification.token

/-- A call to make. `totalSeconds` is how its timeout is printed. -/
structure Request extends Notification where
  totalSeconds : String

def requestMessage (id : Int) (request : Request) : JsonObject :=
  [("jsonrpc", .str "2.0"), ("id", .num (toString id)), ("method", .str request.method),
    ("params", .obj request.parameters)]

/-- What `await pending.Task` returns or throws. -/
def Settlement.get : Settlement → Except Exn Json
  | .result value => .ok value
  | .exception e => .error e
  | .canceled => .error .operationCanceled

/-- The handler around the wait: a cancellation that is not the caller's is the timer's. -/
def timedOut (request : Request) (e : Exn) : Program Json := do
  if e = .operationCanceled then
    if !(← call (.isCancelled request.token)) then
      throw (.acp s!"ACP call '{request.method}' timed out after {request.totalSeconds}s")
  throw e

/-- The `try` block of `CallAsync`. -/
def writeAndWait (id : Int) (request : Request) : Program Json := do
  writeAsync (requestMessage id request) request.token
  call .register
  let settlement ← call .awaitTask
  call .unregister
  Prog.ofExcept settlement.get

/-- `CallAsync`. -/
def callAsync (request : Request) : Program Json := do
  if request.method = "" then throw (.argument "method")
  if !(← Prog.ofExcept (← call .running)) then
    throw (.acp s!"Cannot call {request.method}: agent is not running")
  let id ← call .increment
  call (.store id)
  Prog.ensure (Prog.handle (writeAndWait id request) (timedOut request)) (do let _ ← call (.tryRemove id))

/-! ## Reading -/

/-- What the answer to a call completes it with. An `error` that is no object is a result. -/
def settlementOf (message : JsonObject) : Except Exn Settlement := do
  match ← tryGetPropertyValue message "error" with
  | some (.obj error) =>
    let code ← match ← tryGetPropertyValue error "code" with
      | none | some .null => pure (-1)
      | some node => integerOf 32 node
    let text ← match ← tryGetPropertyValue error "message" with
      | none => pure ""
      | some node => stringOf node
    let data := match ← tryGetPropertyValue error "data" with
      | none | some .null => none
      | some node => some node.toJsonString
    return .exception (.remote code text data)
  | _ => return .result ((← tryGetPropertyValue message "result").getD .null)

/-- `HandleResponse`. -/
def handleResponse (message : JsonObject) (idNode : Json) : Program Unit :=
  match tryReadId idNode with
  | none => return ()
  | some id => do
    match ← call (.tryRemoveFor message id) with
    | none => return ()
    | some pending =>
      let settlement ← Prog.ofExcept (settlementOf message)
      call (.trySet pending settlement)

/-- `WriteErrorAsync`. -/
def writeErrorAsync (id : Json) (code : Int) (message : String) : Program Unit :=
  writeAsync [("jsonrpc", .str "2.0"), ("id", id),
    ("error", .obj [("code", .num (toString code)), ("message", .str message)])] .shutdown

/-- `HandleRequestAsync`. -/
def handleRequestAsync (message : JsonObject) (methodNode idNode : Json) : Program Unit := do
  let method ← Prog.ofExcept (stringOf methodNode)
  if !(← call (.hasHandler method)) then
    writeErrorAsync idNode (-32601) s!"Method not found: {method}"
  else
    match ← call (.handle method (paramsOf message)) with
    | .error exc => writeErrorAsync idNode (-32603) exc.message
    | .ok result => writeAsync [("jsonrpc", .str "2.0"), ("id", idNode), ("result", result)] .shutdown

/-- The branch of `DispatchAsync` for a message with a method and no id. -/
def handleNotification (message : JsonObject) (methodNode : Json) : Program Unit := do
  if ← call .hasListener then
    let method ← Prog.ofExcept (stringOf methodNode)
    Prog.ofExcept (← call (.notified method (paramsOf message)))

/-- `DispatchAsync`. -/
def dispatchAsync (message : JsonObject) : Program Unit := do
  let methodNode ← Prog.ofExcept (tryGetPropertyValue message "method")
  let idNode ← Prog.ofExcept (tryGetPropertyValue message "id")
  match methodNode, idNode with
  | some method, some id => handleRequestAsync message method id
  | some method, none => handleNotification message method
  | none, some id => handleResponse message id
  | none, none => return ()

/-- One turn of the loop of `ReadLoopAsync`: whether to go on. -/
def readOne : Program Bool := do
  if ← call (.isCancelled .shutdown) then return false
  match ← Prog.ofExcept (← call .readLine) with
  | none => return false
  | some (.value (.obj message)) =>
    dispatchAsync message
    return true
  | some _ => return true

/-- `FailPending`. -/
def failPending (error : Exn) : Program Unit := do
  let keys ← call .keys
  Prog.forEach (fun key => do
    match ← call (.tryRemove key) with
    | none => return ()
    | some pending => call (.trySet pending (.exception error))) keys

/-- Where a party is: it has not begun, or it is about to begin, which the read loop is on every turn. -/
inductive Point
  | idle
  | ready
  deriving DecidableEq

def agentClosed : Exn := .acp "ACP agent closed the connection"

/-- `ReadLoopAsync`. However the loop is left, the calls that are pending fail. -/
def readLoopAsync : Program (Point ⊕ Json) := do
  let goesOn ← Prog.handle readOne fun
    | .operationCanceled | .io => return false
    | e => do
      failPending agentClosed
      throw e
  if goesOn then return .inl .ready
  failPending agentClosed
  return .inr .null

/-! ## Closing -/

/-- `DisposeAsync`. That it waits for the process and for the read loop is left out: it may go on at any
time. -/
def disposeAsync : Program Unit := do
  if ← call .isClosed then return ()
  call .setClosed
  call (.cancel .shutdown)
  call .closeInput
  failPending (.acp "ACP connection closed")
  call .disposeLock

/-! ## The parties -/

/-- The timer of a call is also what its caller's token runs. `cancel` cancels a token, `agent` closes its
end of the pipe. -/
inductive Party
  | call (n : Nat)
  | notify (n : Nat)
  | reader
  | timer (n : Nat)
  | cancel (token : Token)
  | agent
  | dispose (n : Nat)
  deriving DecidableEq

/-- An answer the read loop has looked up: the message, the id in it, and whether a call was pending under
that id. -/
structure Heard where
  message : JsonObject
  id : Int
  found : Bool
  deriving DecidableEq

/-- The connection. `id` is the number a call has drawn and `heard` what the read loop has looked up so
far; no call reads either. -/
structure World where
  lines : List Line := []
  nextId : Int := 0
  pending : Dict Int Nat := []
  task : Nat → Option Settlement := fun _ => none
  registered : Nat → Bool := fun _ => false
  cancelled : Token → Bool := fun _ => false
  holder : Option Party := none
  stdin : List Char := []
  inputOpen : Bool := true
  lockDisposed : Bool := false
  closed : Bool := false
  id : Nat → Option Int := fun _ => none
  heard : List Heard := []

namespace World

variable (w : World)

/-- `Interlocked.Increment(ref _nextId)`, by call `n`. -/
def draw (n : Nat) : World := { w with nextId := w.nextId + 1, id := Function.update w.id n (some (w.nextId + 1)) }

/-- `_pending[id] = pending`. -/
def store (n : Nat) (id : Int) : World := { w with pending := w.pending.set id n }

def remove (id : Int) : World := { w with pending := w.pending.pop id }

/-- The read loop looks up the id of an answer. -/
def hear (message : JsonObject) (id : Int) : World :=
  { w with heard := w.heard ++ [⟨message, id, (w.pending.get? id).isSome⟩] }

/-- `TrySetResult`, `TrySetException`, `TrySetCanceled`: only the first has an effect. -/
def trySet (n : Nat) (settlement : Settlement) : World :=
  if (w.task n).isSome then w else { w with task := Function.update w.task n (some settlement) }

/-- Whether the pipe may refuse a write or a flush with this exception. -/
def refuses (token : Token) (e : Exn) : Bool :=
  (e = .operationCanceled && w.cancelled token) || ((e = .io || e = .objectDisposed) && !w.inputOpen)

end World

/-- What every call may answer, and what it does. -/
def exec : Party → (o : Op) → World → Ret o → Option World
  | _, .running, w, r | _, .isOpen, w, r =>
      match r with
      | .ok _ => some w
      | .error e => if e = .invalidOperation then some w else none
  | .call n, .increment, w, r => if r = w.nextId + 1 then some (w.draw n) else none
  | .call n, .store id, w, _ => some (w.store n id)
  | .reader, .tryRemoveFor message id, w, r =>
      if r = w.pending.get? id then some ((w.hear message id).remove id) else none
  | _, .tryRemove id, w, r => if r = w.pending.get? id then some (w.remove id) else none
  | _, .keys, w, r => if r.Perm w.pending.keys then some w else none
  | .call n, .register, w, _ => some { w with registered := Function.update w.registered n true }
  | .call n, .awaitTask, w, r => if w.task n = some r then some w else none
  | .call n, .unregister, w, _ => some { w with registered := Function.update w.registered n false }
  | .timer _, .trySet n settlement, w, _ => if w.registered n then some (w.trySet n settlement) else none
  | _, .trySet n settlement, w, _ => some (w.trySet n settlement)
  | _, .isCancelled token, w, r => if r = w.cancelled token then some w else none
  | _, .cancel token, w, _ =>
      if token = .none then none else some { w with cancelled := Function.update w.cancelled token true }
  | i, .waitLock token, w, r =>
      match r with
      | .ok _ =>
        if w.holder = none && !w.cancelled token && !w.lockDisposed then some { w with holder := some i } else none
      | .error e =>
        if (e = .operationCanceled && w.cancelled token) || (e = .objectDisposed && w.lockDisposed) then some w
        else none
  | _, .write text token, w, r =>
      match r with
      | .ok _ => if !w.cancelled token && w.inputOpen then some { w with stdin := w.stdin ++ text } else none
      | .error e => if w.refuses token e then some w else none
  | _, .flush token, w, r =>
      match r with
      | .ok _ => if !w.cancelled token && w.inputOpen then some w else none
      | .error e => if w.refuses token e then some w else none
  | _, .release, w, r =>
      match r with
      | .ok _ => if w.lockDisposed then none else some { w with holder := none }
      | .error e => if e = .objectDisposed && w.lockDisposed then some { w with holder := none } else none
  | .reader, .readLine, w, r =>
      match r with
      | .ok (some line) =>
        match w.lines with
        | next :: rest => if next = line then some { w with lines := rest } else none
        | [] => none
      | .ok none => if w.lines = [] then some w else none
      | .error e => if (e = .operationCanceled && w.cancelled .shutdown) || e = .io then some w else none
  | .reader, .hasHandler _, w, _ => some w
  | .reader, .handle .., w, _ => some w
  | .reader, .hasListener, w, _ => some w
  | .reader, .notified .., w, _ => some w
  | _, .isClosed, w, r => if r = w.closed then some w else none
  | _, .setClosed, w, _ => some { w with closed := true }
  | _, .closeInput, w, _ => some { w with inputOpen := false }
  | _, .disposeLock, w, _ => some { w with lockDisposed := true }
  | _, _, _, _ => none

/-- What is asked of a connection. -/
structure Script where
  requests : Nat → Request
  notifications : Nat → Notification

/-- A connection with its parties. -/
def system (script : Script) : System Party Op Ret Exn Point Json World where
  exec := exec
  code
    | _, .idle => return .inl .ready
    | .call n, .ready => do return .inr (← callAsync (script.requests n))
    | .notify n, .ready => do
        notifyAsync (script.notifications n)
        return .inr .null
    | .reader, .ready => readLoopAsync
    | .timer n, .ready => do
        call (.trySet n .canceled)
        return .inr .null
    | .cancel token, .ready => do
        call (.cancel token)
        return .inr .null
    | .agent, .ready => do
        call .closeInput
        return .inr .null
    | .dispose _, .ready => do
        disposeAsync
        return .inr .null

/-- A connection has been opened, and the agent is going to write `lines`. -/
def start (script : Script) (lines : List Line) : Conf Party Op Ret Exn Point Json World :=
  (system script).init (fun _ => .idle) { lines }

/-! ### A strategy -/

/-- Every call is granted what it asks for. -/
def granted : (o : Op) → World → Ret o
  | .running, _ | .isOpen, _ => .ok true
  | .increment, w => w.nextId + 1
  | .tryRemove id, w | .tryRemoveFor _ id, w => w.pending.get? id
  | .keys, w => w.pending.keys
  | .awaitTask, _ => .canceled
  | .isCancelled token, w => w.cancelled token
  | .hasHandler _, _ | .hasListener, _ => false
  | .isClosed, w => w.closed
  | .waitLock _, _ | .write .., _ | .flush _, _ | .release, _ | .notified .., _ => .ok ()
  | .readLine, w => .ok w.lines.head?
  | .handle .., _ => .ok .null
  | .store _, _ | .register, _ | .unregister, _ | .trySet .., _ | .cancel _, _ | .setClosed, _ | .closeInput, _
  | .disposeLock, _ => ()

end AtlasFlow.Acp
