import AtlasFlow.Protocols.SessionUpdates

/-!
# The client of an agent

`AtlasFlow.Protocols.Acp.AcpClient`: prompts, and what the read loop of the connection gathers while one is answered.
The read loop hands the agent's notifications and permission requests to the client, which puts them into four lists
under a lock; whoever prompts empties the lists, makes the call, and takes what is in them when the answer is there.

Of the connection there is what a prompt meets: a call is in the table of pending calls from when it has its number,
its answer completes it, and waiting for it may also end with an exception at any time.
-/

namespace AtlasFlow.Acp

open Concurrency Security SessionUpdateNormalizer

/-- `PermissionRequest`. -/
structure PermissionRequest where
  sessionId : String
  toolName : String
  options : List JsonObject
  raw : Option JsonObject
  deriving DecidableEq

/-- The fields of an `AcpClient` that change. -/
structure Client where
  sessionId : Option String
  updates : List JsonObject := []
  events : List NormalizedUpdate := []
  permissions : List PermissionRequest := []
  denied : List String := []
  deriving DecidableEq

/-- `PromptResult`. -/
structure PromptResult where
  stopReason : String
  text : String
  updates : List JsonObject
  events : List NormalizedUpdate
  permissionsRequested : List PermissionRequest
  permissionsDenied : List String
  deriving DecidableEq

/-- `PromptResult.TerminalOutput`. -/
def PromptResult.terminalOutput (result : PromptResult) : String :=
  String.join ((result.events.filter fun event => event.kind = .terminal).map NormalizedUpdate.text)

variable (platform : Platform)

/-! ## What an update adds to the text -/

/-- What `CollectedText` takes from one update. -/
def blockText (update : JsonObject) : Except Exn String := do
  match ← tryGetPropertyValue update "content" with
  | some (.obj block) =>
    match ← tryGetPropertyValue block "type" with
    | none | some .null => return ""
    | some type =>
      if type.nodeToString platform.lineEnd = "text" then
        match ← tryGetPropertyValue block "text" with
        | none | some .null => return ""
        | some value => return value.nodeToString platform.lineEnd
      else return ""
  | _ => return ""

/-- `CollectedText`. -/
def collectedText : List JsonObject → Except Exn String
  | [] => return ""
  | update :: updates => do return (← blockText platform update) ++ (← collectedText updates)

/-- The stop reason that the agent gives. -/
def stopReasonOf (answer : Json) : Except Exn String := do
  match answer with
  | .obj payload =>
    match ← tryGetPropertyValue payload "stopReason" with
    | none | some .null => return ""
    | some reason => return reason.nodeToString platform.lineEnd
  | _ => return ""

/-- The lists are emptied. -/
def Client.reset (client : Client) : Client := { sessionId := client.sessionId }

/-- What `PromptAsync` makes of the lists. -/
def Client.promptResult (client : Client) (stopReason : String) : Except Exn PromptResult := do
  return {
    stopReason := stopReason
    text := ← collectedText platform client.updates
    updates := client.updates
    events := client.events
    permissionsRequested := client.permissions
    permissionsDenied := client.denied }

/-! ## Permissions -/

/-- `Text`. -/
def textOf (members : Option JsonObject) (key : String) : Except Exn String := do
  match members with
  | none => return ""
  | some members =>
    match ← tryGetPropertyValue members key with
    | none | some .null => return ""
    | some node => return node.nodeToString platform.lineEnd

/-- The request that the parameters make, up to where it is put into the list. -/
def permissionRequestOf (parameters : JsonObject) : Except Exn PermissionRequest := do
  let toolCall := match ← item parameters "toolCall" with
    | .obj members => some members
    | _ => none
  let title ← textOf platform toolCall "title"
  let kind ← if title = "" then textOf platform toolCall "kind" else pure title
  let options := objects (arrayOf (← item parameters "options"))
  let sessionId ← textOf platform (some parameters) "sessionId"
  return { sessionId := sessionId, toolName := if kind = "" then "unknown" else kind, options := options,
           raw := some parameters }

/-- `OptionId`. -/
def optionId (kind : String) : List JsonObject → Except Exn (Option String)
  | [] => return none
  | option :: options => do
    match ← tryGetPropertyValue option "kind" with
    | none | some .null => optionId kind options
    | some node =>
      if (← Acp.stringOf node) = kind then
        match ← tryGetPropertyValue option "optionId" with
        | none | some .null => optionId kind options
        | some id => return some (id.nodeToString platform.lineEnd)
      else optionId kind options

/-- The option that is selected where the policy allows the request. -/
def grantedId (options : List JsonObject) : Except Exn (Option String) := do
  match ← optionId platform "allow_once" options with
  | some id => return some id
  | none => optionId platform "allow_always" options

/-- `Outcome`. -/
def outcome (outcome : String) (optionId : Option String) : Json :=
  .obj [("outcome", .obj (("outcome", .str outcome) :: match optionId with
    | some id => [("optionId", .str id)]
    | none => []))]

/-! ## Operations -/

/-- The calls that meet the client's lock, the connection, or somebody else's code. -/
inductive ClientOp
  | prompt
  | session
  | reset
  | running
  | register
  | awaitAnswer (id : Int)
  | unregister (id : Int)
  | snapshot
  | returned (result : PromptResult)
  | write (message : JsonObject)
  | readLine
  | tryRemove (id : Int)
  | trySet (id : Int) (settlement : Settlement)
  | addUpdate (update : JsonObject)
  | hasOnUpdate
  | onUpdate (kind : String) (update : JsonObject)
  | addEvent (event : NormalizedUpdate)
  | hasOnEvent
  | onEvent (event : NormalizedUpdate)
  | addPermission (request : PermissionRequest)
  | policy (request : PermissionRequest)
  | addDenied (tool : String)

abbrev ClientRet : ClientOp → Type
  | .prompt => String
  | .session => Option String
  | .running | .hasOnUpdate | .hasOnEvent | .tryRemove _ => Bool
  | .register => Int
  | .awaitAnswer _ => Except Exn Json
  | .snapshot => Client
  | .write _ | .onUpdate .. | .onEvent _ => Except Exn Unit
  | .readLine => Except Exn (Option Line)
  | .policy _ => Except Exn Bool
  | .reset | .unregister _ | .returned _ | .trySet .. | .addUpdate _ | .addEvent _ | .addPermission _ | .addDenied _ =>
    Unit

abbrev ClientProgram (α : Type) := Prog ClientOp ClientRet Exn α

namespace Client

abbrev call (o : ClientOp) : ClientProgram (ClientRet o) := Prog.op o

/-! ## Prompting -/

/-- `AcpConnection.CallAsync`. -/
def callAsync (method : String) (parameters : JsonObject) : ClientProgram Json := do
  if !(← call .running) then throw (.acp s!"Cannot call {method}: agent is not running")
  let id ← call .register
  Prog.ensure (do
      Prog.ofExcept (← call (.write [("jsonrpc", .str "2.0"), ("id", .num (toString id)), ("method", .str method),
        ("params", .obj parameters)]))
      Prog.ofExcept (← call (.awaitAnswer id)))
    (call (.unregister id))

/-- `PromptAsync`. -/
def promptAsync (text : String) : ClientProgram PromptResult := do
  match ← call .session with
  | none => throw (.acp "prompt called before a session was created")
  | some sessionId =>
    call .reset
    let answer ← callAsync "session/prompt" [("sessionId", .str sessionId),
      ("prompt", .arr [.obj [("type", .str "text"), ("text", .str text)]])]
    let stopReason ← Prog.ofExcept (stopReasonOf platform answer)
    let client ← call .snapshot
    Prog.ofExcept (client.promptResult platform stopReason)

/-! ## The handlers -/

/-- The object under `update` in the parameters of a `session/update`. -/
def updateOf (method : String) (parameters : JsonObject) : Except Exn (Option JsonObject) := do
  if method ≠ "session/update" then return none
  match ← tryGetPropertyValue parameters "update" with
  | some (.obj update) => return some update
  | _ => return none

/-- The name that a listener is given with an update. -/
def sessionUpdateOf (update : JsonObject) : Except Exn String := do
  match ← tryGetPropertyValue update "sessionUpdate" with
  | none | some .null => return ""
  | some kind => return kind.nodeToString platform.lineEnd

/-- What `OnNotificationAsync` does with an update that is in the list and was told to the listener. -/
def publish (update : JsonObject) : ClientProgram Unit := do
  match ← Prog.ofExcept (normalize platform update) with
  | none => return ()
  | some event =>
    call (.addEvent event)
    if ← call .hasOnEvent then Prog.ofExcept (← call (.onEvent event))

/-- `OnNotificationAsync`. -/
def onNotificationAsync (method : String) (parameters : JsonObject) : ClientProgram Unit := do
  match ← Prog.ofExcept (updateOf method parameters) with
  | none => return ()
  | some update =>
    call (.addUpdate update)
    if ← call .hasOnUpdate then
      let kind ← Prog.ofExcept (sessionUpdateOf platform update)
      Prog.ofExcept (← call (.onUpdate kind update))
    publish platform update

/-- `OnPermissionRequestAsync`. -/
def onPermissionRequestAsync (parameters : JsonObject) : ClientProgram Json := do
  let request ← Prog.ofExcept (permissionRequestOf platform parameters)
  call (.addPermission request)
  let allowed ← Prog.ofExcept (← call (.policy request))
  match ← Prog.ofExcept (if allowed then grantedId platform request.options else .ok none) with
  | some id => return outcome "selected" (some id)
  | none =>
    call (.addDenied request.toolName)
    match ← Prog.ofExcept (optionId platform "reject_once" request.options) with
    | some id => return outcome "selected" (some id)
    | none => return outcome "cancelled" none

/-! ## Reading -/

def resultMessage (id result : Json) : JsonObject := [("jsonrpc", .str "2.0"), ("id", id), ("result", result)]

def errorMessage (id : Json) (code : Int) (message : String) : JsonObject :=
  [("jsonrpc", .str "2.0"), ("id", id), ("error", .obj [("code", .num (toString code)), ("message", .str message)])]

/-- The client's handler for the requests of the agent. -/
def requestHandler (method : String) : Option (JsonObject → ClientProgram Json) :=
  if method = "session/request_permission" then some (onPermissionRequestAsync platform) else none

/-- The outcome of a handler, whether it returned or threw. -/
def attempt {α : Type} (p : ClientProgram α) : ClientProgram (Except Exn α) :=
  Prog.handle (do return .ok (← p)) fun e => return .error e

/-- `HandleRequestAsync`. -/
def handleRequestAsync (message : JsonObject) (methodNode idNode : Json) : ClientProgram Unit := do
  let method ← Prog.ofExcept (Acp.stringOf methodNode)
  match requestHandler platform method with
  | none => Prog.ofExcept (← call (.write (errorMessage idNode (-32601) s!"Method not found: {method}")))
  | some handler =>
    match ← attempt (handler (paramsOf message)) with
    | .error exc => Prog.ofExcept (← call (.write (errorMessage idNode (-32603) exc.message)))
    | .ok result => Prog.ofExcept (← call (.write (resultMessage idNode result)))

/-- `HandleResponse`. -/
def handleResponse (message : JsonObject) (idNode : Json) : ClientProgram Unit :=
  match tryReadId idNode with
  | none => return ()
  | some id => do
    if ← call (.tryRemove id) then
      let settlement ← Prog.ofExcept (settlementOf message)
      call (.trySet id settlement)

/-- `DispatchAsync`. -/
def dispatchAsync (message : JsonObject) : ClientProgram Unit := do
  let methodNode ← Prog.ofExcept (tryGetPropertyValue message "method")
  let idNode ← Prog.ofExcept (tryGetPropertyValue message "id")
  match methodNode, idNode with
  | some method, some id => handleRequestAsync platform message method id
  | some method, none => do
    let name ← Prog.ofExcept (Acp.stringOf method)
    onNotificationAsync platform name (paramsOf message)
  | none, some id => handleResponse message id
  | none, none => return ()

/-- One turn of the loop of `ReadLoopAsync`: whether to go on. -/
def readOne : ClientProgram Bool := do
  match ← Prog.ofExcept (← call .readLine) with
  | none => return false
  | some (.value (.obj message)) =>
    dispatchAsync platform message
    return true
  | some _ => return true

end Client

end AtlasFlow.Acp
