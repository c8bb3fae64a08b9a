import AtlasFlow.Concurrency.Promises
import AtlasFlow.Protocols.SessionUpdates

/-!
# The live view of an agent

`hooks/useAgentStream.ts` over the `AgUiClient`. Each run of the effect has a client of its own, whose address, socket and
messages come in any order with those of other runs. What the list shows is the newest of all that was narrated to any of
them, said as the backend said it (`activity_narrated`). A socket that is let go reports its end late: the view then says
that it is connecting although it is connected, and it says so in no other way (`connected_iff`).
-/

namespace AtlasFlow.Reference.AgentStream

open Acp Concurrency

/-! ## Narration -/

/-- `AgentActivity`. -/
structure AgentActivity where
  key : String
  type : String
  taskId : String
  text : String
  paths : List String
  tool : String
  status : String
  deriving DecidableEq, Repr

def narration : List String :=
  ["atlas.agent.message", "atlas.agent.thought", "atlas.terminal.output", "atlas.file.changed", "atlas.tool.call",
    "atlas.plan.updated"]

section Activity

-- how a number is spelled that was read from its literal
variable (number : String → String)

mutual

/-- `String(value)`; nothing where it throws. What an object has for `toString` is not a function. -/
def toText : Json → Option String
  | .null => some "null"
  | .bool b => some (if b then "true" else "false")
  | .num literal => some (number literal)
  | .str s => some s
  | .arr items => (elementTexts items).map (",".intercalate ·)
  | .obj members => if "toString" ∈ members.map Prod.fst then none else some "[object Object]"

/-- The texts that `join` puts together. -/
def elementTexts : List Json → Option (List String)
  | [] => some []
  | .null :: items => (elementTexts items).map ("" :: ·)
  | item :: items => (toText item).bind fun text => (elementTexts items).map (text :: ·)

end

/-- `String(payload[key] ?? "")`. -/
def textOf (payload : Json) (key : String) : Option String :=
  match payload.get? key with
  | none | some .null => some ""
  | some value => toText number value

/-- `Array.isArray(payload.paths) ? payload.paths.map(String) : []`. -/
def pathsOf (payload : Json) : Option (List String) :=
  match payload.get? "paths" with
  | some (.arr items) => items.mapM (toText number)
  | _ => some []

/-- `message.payload ?? {}`. -/
def payloadOf (message : Json) : Json :=
  match message.get? "payload" with
  | none | some .null => .obj []
  | some payload => payload

/-- `message.timestamp` in a template. -/
def timestampOf (message : Json) : Option String :=
  match message.get? "timestamp" with
  | none => some "undefined"
  | some timestamp => toText number timestamp

/-- `toActivity`; nothing also where it throws, which `onmessage` ignores. -/
def toActivity (message : Json) (index : Nat) : Option AgentActivity :=
  match message.get? "type" with
  | some (.str type) =>
    if type ∈ narration then do
      let payload := payloadOf message
      return {
        key := (← timestampOf number message) ++ "-" ++ toString index
        type
        taskId := ← textOf number payload "task_id"
        text := ← textOf number payload "text"
        paths := ← pathsOf number payload
        tool := ← textOf number payload "tool"
        status := ← textOf number payload "status" }
    else none
  | _ => none

end Activity

/-- `EVENT_NAMES`. -/
def eventName : UpdateKind → String
  | .message => "atlas.agent.message"
  | .thought => "atlas.agent.thought"
  | .terminal => "atlas.terminal.output"
  | .file => "atlas.file.changed"
  | .tool => "atlas.tool.call"
  | .plan => "atlas.plan.updated"

/-- `str(kind)`. -/
def kindText : UpdateKind → String
  | .message => "message"
  | .thought => "thought"
  | .terminal => "terminal"
  | .file => "file"
  | .tool => "tool"
  | .plan => "plan"

/-- What `broadcast_agent_event` sends of a record: its `_envelope`. -/
def agentEvent (timestamp taskId : String) (event : NormalizedUpdate) : Json :=
  .obj [("type", .str (eventName event.kind)), ("timestamp", .str timestamp),
    ("payload", .obj [("task_id", .str taskId), ("kind", .str (kindText event.kind)), ("text", .str event.text),
      ("paths", .arr (event.paths.map .str)), ("tool", .str event.tool), ("status", .str event.status)])]

/-! ## The hook -/

/-- `readyState` of the socket of a client; `absent` before `connect`. -/
inductive Ready
  | absent
  | connecting
  | open
  | closing
  | closed
  deriving DecidableEq, Repr

/-- The state of the hook, the runs of its effect, the run that is not cleaned up, and for each run `counter` and the
socket of its client. -/
structure Hook where
  activity : List AgentActivity := []
  connected : Bool := false
  runs : Nat := 0
  current : Option Nat := none
  counter : Nat → Nat := fun _ => 0
  socket : Nat → Ready := fun _ => .absent

inductive Event
  /-- The effect runs, after the one before has been cleaned up; with `active` false also where the view goes away. -/
  | effect (active : Bool)
  /-- `socketUrl` answers a run. -/
  | resolved (run : Nat)
  | opened (run : Nat)
  /-- A message comes, with what `JSON.parse` makes of it. -/
  | message (run : Nat) (data : Option Json)
  | closed (run : Nat)

namespace Hook

variable (number : String → String) (limit : Nat) (hook : Hook)

/-- `ws.close()`. -/
def close (run : Nat) : Ready :=
  match hook.socket run with
  | .connecting | .open => .closing
  | ready => ready

/-- The cleanup of the effect: `dropped` is set, and the client disconnects. -/
def cleanup : Hook :=
  match hook.current with
  | none => hook
  | some run =>
    { hook with connected := false, current := none, socket := Function.update hook.socket run (hook.close run) }

def effect (active : Bool) : Hook :=
  if active then { hook.cleanup with runs := hook.cleanup.runs + 1, current := some hook.cleanup.runs }
  else { hook.cleanup with connected := false }

/-- `entries.slice(-limit)`, which is all of them for a limit of zero. -/
def sliceLast {α : Type} (limit : Nat) (entries : List α) : List α :=
  if limit = 0 then entries else entries.drop (entries.length - limit)

/-- `onmessage`. -/
def receive (run : Nat) (data : Option Json) : Hook :=
  match data with
  | none => hook
  | some message =>
    let counted := { hook with counter := Function.update hook.counter run (hook.counter run + 1) }
    match toActivity number message (hook.counter run) with
    | none => counted
    | some entry => { counted with activity := sliceLast limit (hook.activity ++ [entry]) }

end Hook

/-- What an event does, where it can come. A socket that is closing opens no more and has no more messages. -/
def step (number : String → String) (limit : Nat) (hook : Hook) : Event → Option Hook
  | .effect active => some (hook.effect active)
  | .resolved run =>
    if run < hook.runs ∧ hook.socket run = .absent then
      -- `if (!dropped) client.connect(...)`
      some (if hook.current = some run then { hook with socket := Function.update hook.socket run .connecting } else hook)
    else none
  | .opened run =>
    if hook.socket run = .connecting then
      some { hook with connected := true, socket := Function.update hook.socket run .open }
    else none
  | .message run data => if hook.socket run = .open then some (hook.receive number limit run data) else none
  | .closed run =>
    if hook.socket run ∈ [Ready.connecting, .open, .closing] then
      some { hook with connected := false, socket := Function.update hook.socket run .closed }
    else none

/-! ## What was narrated -/

/-- How many messages a run has parsed. -/
def parsed (run : Nat) (before : List Event) : Nat :=
  before.countP fun
    | .message other (some _) => other = run
    | _ => false

/-- What an event narrates. -/
def narratedBy (number : String → String) (before : List Event) : Event → Option AgentActivity
  | .message run (some message) => toActivity number message (parsed run before)
  | _ => none

/-- All that was narrated, in its order. -/
def narrated (number : String → String) (before : List Event) : List Event → List AgentActivity
  | [] => []
  | e :: es => (narratedBy number before e).toList ++ narrated number (before ++ [e]) es

/-- The socket of the run that is not cleaned up is open. -/
def Hook.isOpen (hook : Hook) : Bool := hook.current.any fun run => hook.socket run = .open

/-- A socket that was let go reports its end while another one is open. -/
def LateClose (hook : Hook) (e : Event) : Prop := ∃ run, e = .closed run ∧ hook.current ≠ some run ∧ hook.isOpen = true

section Runs

variable {number : String → String} {limit : Nat}

theorem sliceLast_append {α : Type} (limit : Nat) (entries : List α) (entry : α) :
    Hook.sliceLast limit (Hook.sliceLast limit entries ++ [entry]) = Hook.sliceLast limit (entries ++ [entry]) := by
  unfold Hook.sliceLast
  split
  · rfl
  · next hlimit =>
    have hlength : (entries.drop (entries.length - limit)).length = min limit entries.length := by
      rw [List.length_drop]
      omega
    rcases Nat.le_total entries.length limit with hle | hge
    · rw [Nat.sub_eq_zero_of_le hle, List.drop_zero]
    · have hdrop : (entries ++ [entry]).length - limit = (entries.length - limit) + 1 := by
        rw [List.length_append, List.length_singleton]
        omega
      rw [hdrop, ← List.drop_drop, List.drop_append_of_le_length (Nat.sub_le ..), List.length_append, hlength,
        List.length_singleton, Nat.min_eq_left hge, Nat.add_sub_cancel_left]

theorem narrated_append (before es : List Event) (e : Event) :
    narrated number before (es ++ [e]) = narrated number before es ++ (narratedBy number (before ++ es) e).toList := by
  induction es generalizing before with
  | nil => simp [narrated]
  | cons e' es ih => rw [List.cons_append, narrated, narrated, ih, List.append_assoc, List.append_assoc]; rfl

theorem parsed_append (run : Nat) (before : List Event) (e : Event) :
    parsed run (before ++ [e]) = parsed run before + parsed run [e] := List.countP_append ..

/-- What holds of the hook after some events. -/
structure Inv (number : String → String) (limit : Nat) (before : List Event) (hook : Hook) : Prop where
  activity : hook.activity = Hook.sliceLast limit (narrated number [] before)
  counter : ∀ run, hook.counter run = parsed run before
  /-- Only the run that is not cleaned up has a socket that goes on. -/
  live : ∀ run, hook.socket run = .connecting ∨ hook.socket run = .open → hook.current = some run
  current : ∀ run, hook.current = some run → run < hook.runs
  fresh : ∀ run, hook.runs ≤ run → hook.socket run = .absent
  connected : hook.connected = true → hook.isOpen = true

theorem Inv.initial : Inv number limit [] {} where
  activity := by
    show [] = Hook.sliceLast limit []
    unfold Hook.sliceLast
    rw [List.drop_nil, ite_self]
  counter _ := rfl
  live run h := by rcases h with h | h <;> cases h
  current run h := by cases h
  fresh _ _ := rfl
  connected h := by cases h

variable {before : List Event} {hook hook' : Hook}

theorem isOpen_iff : hook.isOpen = true ↔ ∃ run, hook.current = some run ∧ hook.socket run = .open := by
  unfold Hook.isOpen
  cases hcurrent : hook.current with
  | none => simp
  | some run => simp

/-- Events that say nothing leave what was narrated as it is. -/
theorem Inv.quiet (h : Inv number limit before hook) {e : Event} (he : narratedBy number before e = none)
    (hparsed : ∀ run, parsed run [e] = 0) :
    hook.activity = Hook.sliceLast limit (narrated number [] (before ++ [e])) ∧
      ∀ run, hook.counter run = parsed run (before ++ [e]) := by
  constructor
  · rw [narrated_append, List.nil_append, he, Option.toList_none, List.append_nil]
    exact h.activity
  · intro run
    rw [parsed_append, hparsed, Nat.add_zero]
    exact h.counter run

theorem close_ne (hook : Hook) (run : Nat) : hook.close run ≠ .connecting ∧ hook.close run ≠ .open := by
  unfold Hook.close
  cases hook.socket run <;> simp

theorem cleanup_none (h : hook.current = none) : hook.cleanup = hook := by rw [Hook.cleanup, h]

theorem cleanup_some {run : Nat} (h : hook.current = some run) : hook.cleanup =
    { hook with connected := false, current := none, socket := Function.update hook.socket run (hook.close run) } := by
  rw [Hook.cleanup, h]

/-- After the cleanup no socket goes on. -/
theorem Inv.cleanup_dead (h : Inv number limit before hook) (run : Nat) :
    ¬ (hook.cleanup.socket run = .connecting ∨ hook.cleanup.socket run = .open) := by
  intro hlive
  cases hcurrent : hook.current with
  | none =>
      rw [cleanup_none hcurrent] at hlive
      exact absurd ((h.live run hlive).symm.trans hcurrent) (Option.some_ne_none run)
  | some current =>
      rw [cleanup_some hcurrent] at hlive
      change Function.update _ _ _ run = _ ∨ Function.update _ _ _ run = _ at hlive
      by_cases hrun : run = current
      · subst hrun
        rw [Function.update_self] at hlive
        exact hlive.elim (close_ne hook run).1 (close_ne hook run).2
      · rw [Function.update_of_ne hrun] at hlive
        exact hrun (Option.some.inj ((h.live run hlive).symm.trans hcurrent))

theorem Inv.cleanup_fresh (h : Inv number limit before hook) {run : Nat} (hrun : hook.cleanup.runs ≤ run) :
    hook.cleanup.socket run = .absent := by
  cases hcurrent : hook.current with
  | none =>
      rw [cleanup_none hcurrent] at hrun ⊢
      exact h.fresh run hrun
  | some current =>
      rw [cleanup_some hcurrent] at hrun ⊢
      have hne : run ≠ current := fun heq => absurd (h.current current hcurrent) (Nat.not_lt_of_le (heq ▸ hrun))
      show Function.update hook.socket current _ run = .absent
      rw [Function.update_of_ne hne]
      exact h.fresh run hrun

theorem cleanup_activity (hook : Hook) : hook.cleanup.activity = hook.activity ∧ hook.cleanup.counter = hook.counter := by
  unfold Hook.cleanup
  cases hook.current <;> exact ⟨rfl, rfl⟩

theorem cleanup_current (hook : Hook) : hook.cleanup.current = none := by
  unfold Hook.cleanup
  cases hcurrent : hook.current with
  | none => exact hcurrent
  | some run => rfl

theorem Inv.cleanup_connected (h : Inv number limit before hook) : hook.cleanup.connected = false := by
  unfold Hook.cleanup
  cases hcurrent : hook.current with
  | none =>
      by_contra hne
      obtain ⟨run, hrun, _⟩ := isOpen_iff.mp (h.connected (Bool.of_not_eq_false hne))
      rw [hcurrent] at hrun
      cases hrun
  | some run => rfl

theorem Inv.effect (h : Inv number limit before hook) (active : Bool) :
    Inv number limit (before ++ [.effect active]) (hook.effect active) := by
  have hquiet := h.quiet (e := .effect active) rfl fun _ => rfl
  have hkept := cleanup_activity hook
  unfold Hook.effect
  split
  · constructor
    · exact hkept.1.trans hquiet.1
    · exact fun run => (congrFun hkept.2 run).trans (hquiet.2 run)
    · exact fun run hlive => absurd hlive (h.cleanup_dead run)
    · intro run hrun
      cases hrun
      exact Nat.lt_succ_self _
    · exact fun run hrun => h.cleanup_fresh (Nat.le_of_succ_le hrun)
    · intro hconnected
      rw [show hook.cleanup.connected = false from h.cleanup_connected] at hconnected
      cases hconnected
  · constructor
    · exact hkept.1.trans hquiet.1
    · exact fun run => (congrFun hkept.2 run).trans (hquiet.2 run)
    · exact fun run hlive => absurd hlive (h.cleanup_dead run)
    · intro run hrun
      rw [show hook.cleanup.current = none from cleanup_current hook] at hrun
      cases hrun
    · exact fun run hrun => h.cleanup_fresh hrun
    · intro hconnected
      cases hconnected

theorem Inv.message (h : Inv number limit before hook) (run : Nat) (data : Option Json) :
    Inv number limit (before ++ [.message run data]) (hook.receive number limit run data) := by
  cases data with
  | none =>
      have hquiet := h.quiet (e := .message run none) rfl fun _ => rfl
      exact ⟨hquiet.1, hquiet.2, h.live, h.current, h.fresh, h.connected⟩
  | some message =>
      have hcounter : ∀ other, Function.update hook.counter run (hook.counter run + 1) other =
          parsed other (before ++ [.message run (some message)]) := by
        intro other
        rw [parsed_append, ← h.counter other, Function.update_apply]
        by_cases hother : other = run
        · subst hother
          simp [parsed]
        · rw [if_neg hother]
          simp [parsed, Ne.symm hother]
      have hby : narratedBy number before (.message run (some message)) = toActivity number message (hook.counter run) := by
        rw [h.counter run]
        rfl
      unfold Hook.receive
      dsimp only
      cases hentry : toActivity number message (hook.counter run) with
      | none =>
          refine ⟨?_, hcounter, h.live, h.current, h.fresh, h.connected⟩
          rw [narrated_append, List.nil_append, hby, hentry, Option.toList_none, List.append_nil]
          exact h.activity
      | some entry =>
          refine ⟨?_, hcounter, h.live, h.current, h.fresh, h.connected⟩
          show Hook.sliceLast limit (hook.activity ++ [entry]) = _
          rw [narrated_append, List.nil_append, hby, hentry, Option.toList_some, h.activity, sliceLast_append]

/-- The socket of one run changes. -/
theorem Inv.socket (h : Inv number limit before hook) {e : Event} (he : narratedBy number before e = none)
    (hparsed : ∀ run, parsed run [e] = 0) {run : Nat} (hrun : run < hook.runs) {ready : Ready} {connected : Bool}
    (hlive : ready = .connecting ∨ ready = .open → hook.current = some run)
    (hconnected : connected = true → Hook.isOpen { hook with socket := Function.update hook.socket run ready } = true) :
    Inv number limit (before ++ [e]) { hook with connected, socket := Function.update hook.socket run ready } := by
  have hquiet := h.quiet he hparsed
  refine ⟨hquiet.1, hquiet.2, fun other hother => ?_, h.current, fun other hother => ?_, hconnected⟩
  · by_cases heq : other = run
    · subst heq
      exact hlive (by simpa only [Function.update_self] using hother)
    · exact h.live other (by simpa only [Function.update_of_ne heq] using hother)
  · have hne : other ≠ run := fun heq => absurd hrun (Nat.not_lt_of_le (heq ▸ hother))
    show Function.update hook.socket run ready other = .absent
    rw [Function.update_of_ne hne]
    exact h.fresh other hother

/-- A run whose socket is not absent has begun. -/
theorem Inv.lt_runs (h : Inv number limit before hook) {run : Nat} (hrun : hook.socket run ≠ .absent) : run < hook.runs := by
  by_contra hge
  exact hrun (h.fresh run (Nat.le_of_not_lt hge))

/-- **An event.** -/
theorem Inv.step (h : Inv number limit before hook) {e : Event} (hstep : step number limit hook e = some hook') :
    Inv number limit (before ++ [e]) hook' := by
  cases e with
  | effect active =>
      cases hstep
      exact h.effect active
  | resolved run =>
      obtain ⟨⟨hrun, habsent⟩, rfl⟩ := guard_eq_some.mp hstep
      split
      · next hcurrent =>
        refine h.socket rfl (fun _ => rfl) hrun (fun _ => hcurrent) fun hconnected => ?_
        -- a view that is connected has an open socket, and this one was not there yet
        obtain ⟨other, hother, hopen⟩ := isOpen_iff.mp (h.connected hconnected)
        cases hcurrent.symm.trans hother
        rw [habsent] at hopen
        cases hopen
      · have hquiet := h.quiet (e := .resolved run) rfl fun _ => rfl
        exact ⟨hquiet.1, hquiet.2, h.live, h.current, h.fresh, h.connected⟩
  | opened run =>
      obtain ⟨hconnecting, rfl⟩ := guard_eq_some.mp hstep
      have hcurrent := h.live run (.inl hconnecting)
      refine h.socket rfl (fun _ => rfl) (h.current run hcurrent) (fun _ => hcurrent) fun _ => ?_
      exact isOpen_iff.mpr ⟨run, hcurrent, Function.update_self ..⟩
  | message run data =>
      obtain ⟨hopen, rfl⟩ := guard_eq_some.mp hstep
      exact h.message run data
  | closed run =>
      obtain ⟨hready, rfl⟩ := guard_eq_some.mp hstep
      have hne : hook.socket run ≠ .absent := by
        intro habsent
        rw [habsent] at hready
        revert hready
        decide
      refine h.socket rfl (fun _ => rfl) (h.lt_runs hne) (fun hlive => ?_) fun hconnected => Bool.noConfusion hconnected
      rcases hlive with hlive | hlive <;> cases hlive

theorem inv_run {es : List Event} (hafter : after (AgentStream.step number limit) {} es = some hook) :
    Inv number limit es hook :=
  history_after (P := Inv number limit) (fun _ _ _ _ h hstep => h.step hstep) [] es Inv.initial hafter

/-! ## What is shown -/

theorem mapM_toText (paths : List String) : (paths.map Json.str).mapM (toText number) = some paths := by
  rw [List.mapM_map]
  induction paths with
  | nil => rfl
  | cons path paths ih =>
      rw [List.mapM_cons, ih]
      rfl

/-- **A record is shown as it was said.** -/
theorem toActivity_agentEvent (timestamp taskId : String) (event : NormalizedUpdate) (index : Nat) :
    toActivity number (agentEvent timestamp taskId event) index = some
      { key := timestamp ++ "-" ++ toString index, type := eventName event.kind, taskId, text := event.text,
        paths := event.paths, tool := event.tool, status := event.status } := by
  have hpaths : (event.paths.map Json.str).mapM (toText number) = some event.paths := mapM_toText event.paths
  have hname : eventName event.kind ∈ narration := by cases event.kind <;> decide
  unfold toActivity
  simp [agentEvent, Json.get?, hname, payloadOf, timestampOf, textOf, pathsOf, hpaths, toText]

/-- **The live view**: after any run of events it lists the newest `limit` of all that was narrated, to whichever run of
the effect, and what the backend sends of a record is narrated as it is. At most the run that is not cleaned up has a
socket that is open. -/
theorem activity_narrated (number : String → String) (limit : Nat) (es : List Event) (hook : Hook)
    (h : after (step number limit) {} es = some hook) :
    hook.activity = Hook.sliceLast limit (narrated number [] es) ∧
      (∀ run, hook.socket run = .open → hook.current = some run) ∧
      ∀ before run timestamp taskId event,
        narratedBy number before (.message run (some (agentEvent timestamp taskId event))) = some
          { key := timestamp ++ "-" ++ toString (parsed run before), type := eventName event.kind, taskId,
            text := event.text, paths := event.paths, tool := event.tool, status := event.status } := by
  have hinv := inv_run h
  exact ⟨hinv.activity, fun run hopen => hinv.live run (.inr hopen), fun _ _ _ _ _ => toActivity_agentEvent ..⟩

/-- What the view says of its connection is right. -/
def Tells (hook : Hook) : Prop := hook.connected = hook.isOpen

theorem isOpen_none (h : hook.current = none) : hook.isOpen = false := by rw [Hook.isOpen, h, Option.any_none]

theorem isOpen_some {run : Nat} (h : hook.current = some run) : hook.isOpen = decide (hook.socket run = .open) := by
  rw [Hook.isOpen, h, Option.any_some]

/-- The socket of one run has changed. -/
theorem isOpen_update (hook : Hook) (connected : Bool) (run : Nat) (ready : Ready) :
    Hook.isOpen { hook with connected, socket := Function.update hook.socket run ready } =
      if hook.current = some run then decide (ready = .open) else hook.isOpen := by
  show hook.current.any (fun other => decide (Function.update hook.socket run ready other = .open)) = _
  cases hcurrent : hook.current with
  | none => exact (isOpen_none hcurrent).symm
  | some current =>
      rw [Option.any_some, isOpen_some hcurrent]
      by_cases hrun : current = run
      · subst hrun
        rw [Function.update_self, if_pos rfl]
      · rw [Function.update_of_ne hrun, if_neg fun heq => hrun (Option.some.inj heq)]

/-- **Only a late end makes it wrong.** -/
theorem tells_step (h : Inv number limit before hook) (htells : Tells hook) {e : Event}
    (hstep : step number limit hook e = some hook') : Tells hook' ↔ ¬ LateClose hook e := by
  have hright : (∀ run, e ≠ .closed run) → Tells hook' → (Tells hook' ↔ ¬ LateClose hook e) := by
    intro hne htells'
    refine ⟨fun _ hlate => ?_, fun _ => htells'⟩
    obtain ⟨run, heq, -⟩ := hlate
    exact hne run heq
  cases e with
  | effect active =>
      refine hright (fun _ heq => by cases heq) ?_
      cases hstep
      unfold Hook.effect
      split
      · have hfresh := h.cleanup_fresh (Nat.le_refl hook.cleanup.runs)
        show hook.cleanup.connected = _
        rw [h.cleanup_connected, isOpen_some rfl, hfresh]
        rfl
      · exact (isOpen_none (cleanup_current hook)).symm
  | resolved run =>
      refine hright (fun _ heq => by cases heq) ?_
      obtain ⟨⟨-, habsent⟩, rfl⟩ := guard_eq_some.mp hstep
      split
      · next hcurrent =>
        have hclosed : hook.isOpen = false := by
          rw [isOpen_some hcurrent, habsent]
          rfl
        refine (htells.trans hclosed).trans ?_
        rw [isOpen_update hook hook.connected run .connecting, if_pos hcurrent]
        rfl
      · exact htells
  | opened run =>
      refine hright (fun _ heq => by cases heq) ?_
      obtain ⟨hconnecting, rfl⟩ := guard_eq_some.mp hstep
      show true = Hook.isOpen _
      rw [isOpen_update hook true run .open, if_pos (h.live run (.inl hconnecting))]
      rfl
  | message run data =>
      refine hright (fun _ heq => by cases heq) ?_
      obtain ⟨-, rfl⟩ := guard_eq_some.mp hstep
      have hkept : (hook.receive number limit run data).connected = hook.connected ∧
          (hook.receive number limit run data).isOpen = hook.isOpen := by
        cases data with
        | none => exact ⟨rfl, rfl⟩
        | some message =>
            unfold Hook.receive
            dsimp only
            split <;> exact ⟨rfl, rfl⟩
      exact hkept.1.trans (htells.trans hkept.2.symm)
  | closed run =>
      obtain ⟨-, rfl⟩ := guard_eq_some.mp hstep
      show false = Hook.isOpen _ ↔ _
      rw [isOpen_update hook false run .closed]
      split
      · next hcurrent =>
        refine iff_of_true rfl fun hlate => ?_
        obtain ⟨other, heq, hother, -⟩ := hlate
        cases heq
        exact hother hcurrent
      · next hcurrent =>
        -- the socket of the run that goes on is as it was
        have hlate : LateClose hook (.closed run) ↔ hook.isOpen = true := by
          constructor
          · intro h
            obtain ⟨_, -, -, hopen⟩ := h
            exact hopen
          · exact fun hopen => ⟨run, rfl, hcurrent, hopen⟩
        rw [hlate, Bool.not_eq_true]
        exact eq_comm

/-- A state of a run, in which the view is right. -/
def Sound (number : String → String) (limit : Nat) (hook : Hook) : Prop :=
  (∃ before, Inv number limit before hook) ∧ Tells hook

/-- **The line about the connection** is right all through a run of events exactly if no socket that was let go reports
its end while the one after it is open. In every run a view that says it is connected is connected. -/
theorem connected_iff (number : String → String) (limit : Nat) (es : List Event) :
    (Keeps (step number limit) Tells (fun _ _ _ => True) {} es ↔
      Always (step number limit) (fun hook e => ¬ LateClose hook e) {} es) ∧
    ∀ hook, after (step number limit) {} es = some hook → hook.connected = true → hook.isOpen = true := by
  have hgood : ∀ hook, Sound number limit hook → Tells hook := fun _ h => h.2
  refine ⟨keeps_iff_always hgood (fun hook e hook' h hstep hclean => ?_) (fun hook e hook' h hstep hlate => ?_)
    ⟨⟨[], Inv.initial⟩, rfl⟩ es, fun hook h => (inv_run h).connected⟩
  · obtain ⟨⟨before, hinv⟩, htells⟩ := h
    exact ⟨⟨⟨_, hinv.step hstep⟩, (tells_step hinv htells hstep).mpr hclean⟩, trivial⟩
  · obtain ⟨⟨before, hinv⟩, htells⟩ := h
    exact fun hright => hlate ((tells_step hinv htells hstep).mp hright.2)

end Runs

/-- The run goes on to another one: the second socket opens, and the first one reports its end. -/
def switched : List Event :=
  [.effect true, .resolved 0, .opened 0, .effect true, .resolved 1, .opened 1, .closed 0]

example : (after (step id 200) {} switched).map (fun hook => (hook.connected, hook.isOpen)) = some (false, true) := by
  decide

theorem activity_narrated_switched :
    ∃ hook, after (step id 200) {} switched = some hook ∧
      (hook.activity = Hook.sliceLast 200 (narrated id [] switched) ∧
        (∀ run, hook.socket run = .open → hook.current = some run) ∧
        ∀ before run timestamp taskId event,
          narratedBy id before (.message run (some (agentEvent timestamp taskId event))) = some
            { key := timestamp ++ "-" ++ toString (parsed run before), type := eventName event.kind, taskId,
              text := event.text, paths := event.paths, tool := event.tool, status := event.status }) :=
  ⟨_, rfl, activity_narrated id 200 switched _ rfl⟩

end AtlasFlow.Reference.AgentStream
