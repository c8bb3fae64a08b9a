import AtlasFlow.Data.Dict
import AtlasFlow.Data.Json

/-!
# Which tool servers a role may reach

`mcp/registry.py`: the servers a file declared, and which of them an agent is handed for a role. An agent
reaches no server that its client did not hand it when the session was created.
-/

namespace AtlasFlow.Reference

def planningRoles : List String := ["goal-planner", "chief-architect", "repo-explorer"]

structure McpServer where
  name : String
  command : String
  args : List String := []
  env : Dict String String := []
  readOnly : Bool := false
  roles : List String := []
  deriving DecidableEq, Repr

namespace McpServer

/-- `sorted(self.env.items())`: no two items have one name. -/
def sortedEnv (server : McpServer) : List (String × String) :=
  server.env.mergeSort fun a b => decide (a.1 ≤ b.1)

/-- An empty role list means the server serves every role. -/
def serves (server : McpServer) (role : String) : Bool := server.roles.isEmpty || server.roles.contains role

/-- `to_acp`: what `session/new` is sent. -/
def toAcp (server : McpServer) : Json :=
  .obj [("name", .str server.name), ("command", .str server.command), ("args", .arr (server.args.map .str)),
    ("env", .arr (server.sortedEnv.map fun item => .obj [("name", .str item.1), ("value", .str item.2)]))]

end McpServer

structure McpRegistry where
  servers : List McpServer := []
  skipped : Dict String String := []
  enabled : Bool := true
  deriving DecidableEq, Repr

namespace McpRegistry

variable (registry : McpRegistry)

/-- `for_role`. -/
def forRole (role : String) : List McpServer :=
  let allowed := registry.servers.filter fun server => server.serves role
  if role ∈ planningRoles then allowed.filter fun server => server.readOnly else allowed

/-- `acp_servers`. -/
def acpServers (role : String) : List Json := (registry.forRole role).map McpServer.toAcp

/-- `explain`. -/
def explain (role : String) : String :=
  if registry.enabled then
    let granted := (registry.forRole role).map McpServer.name
    let names := if granted.isEmpty then "none" else ", ".intercalate granted
    let forwarded := s!"forwarded: {names}"
    if registry.skipped.isEmpty then forwarded
    else
      let reasons := (registry.skipped.mergeSort fun a b => decide (a.1 ≤ b.1)).map fun item => s!"{item.1} ({item.2})"
      forwarded ++ "; skipped: " ++ ", ".intercalate reasons
  else "MCP forwarding is disabled"

/-- A server is forwarded if it is declared, serves the role and, for a role that plans, is read-only. -/
theorem mem_forRole {role : String} {server : McpServer} :
    server ∈ registry.forRole role ↔ server ∈ registry.servers ∧ server.serves role = true ∧
      (role ∈ planningRoles → server.readOnly = true) := by
  unfold forRole
  dsimp only
  split
  · next hplans => simp [hplans, and_comm]
  · next hbuilds => simp [hbuilds]

end McpRegistry

end AtlasFlow.Reference
