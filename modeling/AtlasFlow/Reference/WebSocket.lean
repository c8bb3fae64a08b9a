import Mathlib.Data.List.Infix
import AtlasFlow.Concurrency.Registry
import AtlasFlow.Data.Dict
import AtlasFlow.Data.Json

/-!
# The sockets of the desktop

`api/websocket.py`. Any number of sockets, each of which asks for one session, and any number of
broadcasts, on one event loop: an `Input` is the end of one `await`, and `step` is what the program does
from there to the next. Whether a client is still there, and whether a send fails, is up to the outside;
timestamps are left out.
-/

namespace AtlasFlow.Reference.WebSocket

open Concurrency

/-! ## The program -/

/-- A `WebSocket`, told apart by a number. -/
abbrev Socket := Nat

/-- `_envelope`. -/
structure Envelope where
  type : String
  payload : Json
  deriving DecidableEq

/-- Where the handler of a socket awaits: `sending` the error about a malformed message, or an answer. -/
inductive Phase
  | idle
  | accepting
  | receiving
  | sending (ws : Socket) (envelope : Envelope) (malformed : Bool)
  | ended
  deriving DecidableEq

/-- The handler has a connection. -/
def Phase.live : Phase → Bool
  | .receiving | .sending .. => true
  | _ => false

/-- A broadcast: its message, `list(self._connections.items())`, how many of them have been sent to, and who
was there as the newest of a session when it began. -/
structure Broadcast where
  message : Envelope
  recipients : List (String × Socket)
  sent : Nat := 0
  due : Socket → Bool

/-- `_connections` of the manager, every handler, whose client is gone, and the broadcasts. `newest` is the
socket of a session that was accepted last. -/
structure State where
  connections : Dict String Socket := []
  phase : Socket → Phase := fun _ => .idle
  gone : Socket → Bool := fun _ => false
  newest : String → Option Socket := fun _ => none
  broadcasts : List Broadcast := []

/-- What `receive_text` and `json.loads` make of what a client sends. -/
inductive Received
  | disconnect
  | malformed
  | message (value : Json)
  /-- Any other exception. -/
  | raises

inductive Input
  /-- A client connects. -/
  | connect (s : Socket)
  /-- `accept` returns, or raises. -/
  | accepted (s : Socket)
  | refused (s : Socket)
  | received (s : Socket) (r : Received)
  /-- The handler's `send_json` returns, or raises. -/
  | sent (s : Socket) (ok : Bool)
  /-- `broadcast` is called. -/
  | broadcast (message : Envelope)
  /-- The `send_json` of a broadcast returns, or raises. -/
  | delivered (n : Nat) (ok : Bool)
  /-- A client is gone. -/
  | leave (s : Socket)

namespace State

variable (session : Socket → String) (σ : State)

/-- A socket whose handler has a connection to a client that is there. -/
def isOpen (s : Socket) : Bool := (σ.phase s).live && !σ.gone s

/-- The handler of a socket awaits something else. -/
def goto (s : Socket) (phase : Phase) : State := { σ with phase := Function.update σ.phase s phase }

/-- `disconnect`. -/
def disconnect (sessionId : String) : State := { σ with connections := σ.connections.pop sessionId }

/-- What follows `send_event`. -/
def resume (s : Socket) (malformed : Bool) : State :=
  if malformed then (σ.disconnect (session s)).goto s .ended else σ.goto s .receiving

/-- `send_event` up to its await. -/
def sendEvent (s : Socket) (envelope : Envelope) (malformed : Bool) : State :=
  match σ.connections.get? (session s) with
  | none => σ.resume session s malformed
  | some ws => σ.goto s (.sending ws envelope malformed)

/-- What follows `receive_text`. A message that is not an object has no `get`. -/
def receive (s : Socket) : Received → State
  | .disconnect => (σ.disconnect (session s)).goto s .ended
  | .malformed => σ.sendEvent session s ⟨"atlas.error", .obj [("reason", .str "malformed message")]⟩ true
  | .raises => σ.goto s .ended
  | .message (.obj members) =>
    let message := Json.obj members
    let kind := (message.get? "kind").getD (.str "message")
    if kind = .str "message" then
      σ.sendEvent session s
        ⟨"atlas.discuss.message", .obj [("content", (message.get? "content").getD (.str "")), ("role", .str "user")]⟩ false
    else if kind = .str "decision_propose" then
      σ.sendEvent session s ⟨"atlas.decision.proposed", (message.get? "data").getD (.obj [])⟩ false
    else σ.goto s .receiving
  | .message _ => σ.goto s .ended

/-- `connect` from where `accept` has returned. -/
def connect (s : Socket) : State :=
  { σ with
    connections := σ.connections.set (session s) s
    phase := Function.update σ.phase s .receiving
    newest := Function.update σ.newest (session s) (some s) }

/-- `broadcast` up to its first await. -/
def broadcast (message : Envelope) : State :=
  { σ with
    broadcasts := σ.broadcasts ++ [{
      message
      recipients := σ.connections
      due := fun s => σ.isOpen s && σ.newest (session s) = some s }] }

/-- One broadcast has sent to one more of its recipients. -/
def deliver (n : Nat) : State :=
  { σ with broadcasts := σ.broadcasts.modify n fun b => { b with sent := b.sent + 1 } }

end State

/-- The recipient whose send a broadcast awaits. -/
def State.awaited (σ : State) (n : Nat) : Option (String × Socket) := do
  let b ← σ.broadcasts[n]?
  b.recipients[b.sent]?

/-- What an input does, where it can come. -/
def step (session : Socket → String) (σ : State) : Input → Option State
  | .connect s => if σ.phase s = .idle then some (σ.goto s .accepting) else none
  | .accepted s => if σ.phase s = .accepting then some (σ.connect session s) else none
  | .refused s => if σ.phase s = .accepting then some (σ.goto s .ended) else none
  | .received s r => if σ.phase s = .receiving then some (σ.receive session s r) else none
  | .sent s ok =>
    match σ.phase s with
    | .sending _ _ malformed =>
      some ((if ok then σ else σ.disconnect (session s)).resume session s malformed)
    | _ => none
  | .broadcast message => some (σ.broadcast session message)
  | .delivered n ok =>
    match σ.awaited n with
    | some (sessionId, _) => some ((if ok then σ else σ.disconnect sessionId).deliver n)
    | none => none
  | .leave s => some { σ with gone := Function.update σ.gone s true }

/-- A run from a server nobody has connected to. -/
def run (session : Socket → String) (inputs : List Input) : Option State := inputs.foldlM (step session) {}

/-! ## What it is for -/

/-- Registration follows the newest connection: the newest socket of a session is registered while it is
open, nobody is whose handler has ended, and no broadcast has left out who was due. -/
structure Registered (session : Socket → String) (σ : State) : Prop where
  present : ∀ s, σ.isOpen s = true → σ.newest (session s) = some s → σ.connections.get? (session s) = some s
  ended : ∀ s sessionId, σ.phase s = .ended → σ.connections.get? sessionId ≠ some s
  delivered : ∀ b ∈ σ.broadcasts, ∀ s, b.due s = true → (session s, s) ∈ b.recipients

/-! ## The registry it keeps -/

/-- How a socket stands, where its handler awaits. -/
def Phase.standing (gone : Bool) : Phase → Concurrency.Standing
  | .idle | .accepting => .absent
  | .receiving | .sending .. => if gone then .lost else .present
  | .ended => .ended

/-- The sockets as owners of their sessions. -/
def State.registry (σ : State) : Registry String Socket where
  entry := σ.connections.get?
  newest := σ.newest
  standing s := (σ.phase s).standing (σ.gone s)

/-- What an input does to the registry. -/
def move (session : Socket → String) (σ : State) : Input → Option (Registry.Move String Socket)
  | .accepted s => some (.register s (σ.gone s))
  | .refused s => some (.finish s)
  | .received s .disconnect => some (.remove (session s) (some s))
  | .received s .malformed =>
    if σ.connections.get? (session s) = none then some (.remove (session s) (some s)) else none
  | .received _ (.message (.obj _)) => none
  | .received s _ => some (.finish s)
  | .sent s ok =>
    match σ.phase s with
    | .sending _ _ true => some (.remove (session s) (some s))
    | _ => if ok then none else some (.remove (session s) none)
  | .delivered n ok => if ok then none else (σ.awaited n).map fun recipient => .remove recipient.1 none
  | .leave s => if σ.isOpen s then some (.lose s) else none
  | .connect _ | .broadcast _ => none

/-- An input that hits nobody else: a session is removed only if the socket registered for it is the one
whose handler ends, or its client is gone; and a handler that ends without `disconnect` is not registered. -/
def Clean (session : Socket → String) (σ : State) (i : Input) : Prop :=
  ∀ m, move session σ i = some m → σ.registry.Clean session m

section Registry

variable {session : Socket → String} {σ σ' : State} {s : Socket}

theorem present_iff : σ.registry.standing s = .present ↔ σ.isOpen s = true := by
  show (σ.phase s).standing (σ.gone s) = .present ↔ _
  cases hphase : σ.phase s <;> cases hgone : σ.gone s <;>
    simp [State.isOpen, Phase.standing, Phase.live, hphase, hgone]

theorem ended_iff : σ.registry.standing s = .ended ↔ σ.phase s = .ended := by
  show (σ.phase s).standing (σ.gone s) = .ended ↔ _
  cases hphase : σ.phase s <;> cases hgone : σ.gone s <;> simp [Phase.standing]

theorem registry_goto (phase : Phase) : (σ.goto s phase).registry =
    { σ.registry with standing := Function.update σ.registry.standing s (phase.standing (σ.gone s)) } := by
  ext1
  · rfl
  · rfl
  · funext u
    show (Function.update σ.phase s phase u).standing (σ.gone u) =
      Function.update σ.registry.standing s (phase.standing (σ.gone s)) u
    by_cases hus : u = s
    · rw [hus, Function.update_self, Function.update_self]
    · rw [Function.update_of_ne hus, Function.update_of_ne hus]
      rfl

/-- A handler that goes on to stand as before. -/
theorem registry_goto_same {phase : Phase} (h : phase.standing (σ.gone s) = (σ.phase s).standing (σ.gone s)) :
    (σ.goto s phase).registry = σ.registry := by
  rw [registry_goto, h]
  exact congrArg (Registry.mk _ _) (Function.update_eq_self ..)

theorem registry_disconnect (sessionId : String) : (σ.disconnect sessionId).registry =
    { σ.registry with entry := Function.update σ.registry.entry sessionId none } := by
  ext1
  · funext k
    show (σ.connections.pop sessionId).get? k = Function.update σ.connections.get? sessionId none k
    rw [Dict.get?_pop, Function.update_apply]
    by_cases hk : sessionId = k
    · rw [if_pos hk, if_pos hk.symm]
    · rw [if_neg hk, if_neg (Ne.symm hk)]
  · rfl
  · rfl

/-- A handler ends, and disconnects its session. -/
theorem registry_end : ((σ.disconnect (session s)).goto s .ended).registry =
    σ.registry.apply session (.remove (session s) (some s)) := by
  rw [registry_goto, registry_disconnect]
  rfl

theorem registry_resume {malformed : Bool} (hlive : (σ.phase s).live = true) :
    (σ.resume session s malformed).registry =
      if malformed then σ.registry.apply session (.remove (session s) (some s)) else σ.registry := by
  unfold State.resume
  split
  · exact registry_end
  · apply registry_goto_same
    cases hphase : σ.phase s <;> first | rfl | (rw [hphase] at hlive; cases hlive)

theorem registry_sendEvent {envelope : Envelope} {malformed : Bool} (hlive : (σ.phase s).live = true) :
    (σ.sendEvent session s envelope malformed).registry =
      if malformed = true ∧ σ.connections.get? (session s) = none then
        σ.registry.apply session (.remove (session s) (some s)) else σ.registry := by
  unfold State.sendEvent
  split
  · next hnone =>
      rw [registry_resume hlive]
      simp [hnone]
  · next ws hsome =>
      rw [if_neg (by simp [hsome])]
      apply registry_goto_same
      cases hphase : σ.phase s <;> first | rfl | (rw [hphase] at hlive; cases hlive)

/-- **What an input does to the registry is its move**, and the move makes sense. -/
theorem step_move {i : Input} (h : step session σ i = some σ') :
    σ'.registry = (move session σ i).elim σ.registry (σ.registry.apply session) ∧
      ∀ m, move session σ i = some m → σ.registry.Fits session m := by
  cases i with
  | connect s =>
      simp only [step] at h
      split at h
      · next hphase =>
          cases h
          exact ⟨registry_goto_same (by rw [hphase]; rfl), by rintro m ⟨⟩⟩
      · cases h
  | accepted s =>
      simp only [step] at h
      split at h
      · next hphase =>
          cases h
          refine ⟨?_, fun m hm => ?_⟩
          · ext1
            · funext k
              show (σ.connections.set (session s) s).get? k =
                Function.update σ.connections.get? (session s) (some s) k
              rw [Dict.get?_set, Function.update_apply]
              by_cases hk : session s = k
              · rw [if_pos hk, if_pos hk.symm]
              · rw [if_neg hk, if_neg (Ne.symm hk)]
            · rfl
            · show (σ.goto s .receiving).registry.standing = _
              rw [registry_goto]
              rfl
          · cases hm
            show (σ.phase s).standing (σ.gone s) = .absent
            rw [hphase]
            rfl
      · cases h
  | refused s =>
      simp only [step] at h
      split at h
      · cases h
        exact ⟨registry_goto .ended, fun m hm => by cases hm; trivial⟩
      · cases h
  | received s r =>
      simp only [step] at h
      split at h
      · next hphase =>
          cases h
          have hlive : (σ.phase s).live = true := by rw [hphase]; rfl
          cases r with
          | disconnect => exact ⟨registry_end, fun m hm => by cases hm; rfl⟩
          | malformed =>
              refine ⟨(registry_sendEvent hlive).trans ?_, fun m hm => ?_⟩
              · simp only [move, true_and]
                split <;> rfl
              · simp only [move] at hm
                split at hm
                · cases hm
                  rfl
                · cases hm
          | raises => exact ⟨registry_goto .ended, fun m hm => by cases hm; trivial⟩
          | message value =>
              cases value with
              | obj members =>
                  refine ⟨?_, by rintro m ⟨⟩⟩
                  show (State.receive session σ s (.message (.obj members))).registry = σ.registry
                  have hsend : ∀ envelope, (σ.sendEvent session s envelope false).registry = σ.registry :=
                    fun envelope => (registry_sendEvent hlive).trans (if_neg fun h => Bool.noConfusion h.1)
                  simp only [State.receive]
                  split
                  · exact hsend _
                  split
                  · exact hsend _
                  · exact registry_goto_same (by rw [hphase])
              | _ => exact ⟨registry_goto .ended, fun m hm => by cases hm; trivial⟩
      · cases h
  | sent s ok =>
      simp only [step] at h
      split at h
      · next ws envelope malformed hphase =>
          cases h
          have hlive : (σ.phase s).live = true := by rw [hphase]; rfl
          cases malformed with
          | true =>
              refine ⟨?_, fun m hm => ?_⟩
              · simp only [move, hphase, Option.elim_some]
                cases ok with
                | true => exact registry_resume hlive
                | false =>
                    -- the failed send has disconnected the session already
                    rw [if_neg Bool.false_ne_true]
                    refine (registry_resume (σ := σ.disconnect (session s)) hlive).trans ?_
                    rw [if_pos rfl, registry_disconnect]
                    ext1
                    · exact Function.update_idem ..
                    · rfl
                    · rfl
              · simp only [move, hphase] at hm
                cases hm
                rfl
          | false =>
              refine ⟨?_, fun m hm => ?_⟩
              · simp only [move, hphase]
                cases ok with
                | true => exact registry_resume hlive
                | false => exact (registry_resume (σ := σ.disconnect (session s)) hlive).trans (registry_disconnect _)
              · simp only [move, hphase] at hm
                cases ok <;> cases hm
                trivial
      · cases h
  | broadcast message =>
      cases h
      exact ⟨rfl, by rintro m ⟨⟩⟩
  | delivered n ok =>
      simp only [step] at h
      split at h
      · next sessionId ws hrecipient =>
          cases h
          refine ⟨?_, fun m hm => ?_⟩
          · simp only [move, hrecipient]
            cases ok with
            | true => rfl
            | false => exact registry_disconnect _
          · simp only [move, hrecipient] at hm
            cases ok <;> cases hm
            trivial
      · cases h
  | leave s =>
      cases h
      have hleave : ∀ u, (σ.phase u).standing (Function.update σ.gone s true u) =
          if u = s ∧ σ.isOpen s = true then .lost else (σ.phase u).standing (σ.gone u) := by
        intro u
        by_cases hus : u = s
        · subst hus
          rw [Function.update_self]
          cases hphase : σ.phase u <;> cases hgone : σ.gone u <;> simp [State.isOpen, hphase, hgone, Phase.standing, Phase.live]
        · rw [Function.update_of_ne hus, if_neg fun h => hus h.1]
      simp only [move]
      split
      · next hopen =>
          refine ⟨?_, fun m hm => ?_⟩
          · ext1
            · rfl
            · rfl
            · funext u
              show (σ.phase u).standing (Function.update σ.gone s true u) = Function.update σ.registry.standing s .lost u
              rw [hleave, Function.update_apply]
              by_cases hus : u = s
              · rw [if_pos ⟨hus, hopen⟩, if_pos hus]
              · rw [if_neg fun h => hus h.1, if_neg hus]
                rfl
          · cases hm
            exact present_iff.mpr hopen
      · next hopen =>
          refine ⟨?_, by rintro m ⟨⟩⟩
          ext1
          · rfl
          · rfl
          · funext u
            show (σ.phase u).standing (Function.update σ.gone s true u) = (σ.phase u).standing (σ.gone u)
            rw [hleave, if_neg fun h => hopen h.2]

theorem broadcasts_resume (malformed : Bool) : (σ.resume session s malformed).broadcasts = σ.broadcasts := by
  unfold State.resume
  split <;> rfl

theorem broadcasts_sendEvent (envelope : Envelope) (malformed : Bool) :
    (σ.sendEvent session s envelope malformed).broadcasts = σ.broadcasts := by
  unfold State.sendEvent
  split
  · exact broadcasts_resume _
  · rfl

theorem broadcasts_receive (r : Received) : (σ.receive session s r).broadcasts = σ.broadcasts := by
  unfold State.receive
  split
  · rfl
  · exact broadcasts_sendEvent ..
  · rfl
  · dsimp only
    split
    · exact broadcasts_sendEvent ..
    split
    · exact broadcasts_sendEvent ..
    · rfl
  · rfl

/-- A broadcast keeps its recipients, and a new one leaves out nobody who is registered. -/
theorem step_broadcasts {i : Input} (h : step session σ i = some σ') (hregistered : Registered session σ) :
    ∀ b ∈ σ'.broadcasts, ∀ s, b.due s = true → (session s, s) ∈ b.recipients := by
  have hsame : σ'.broadcasts = σ.broadcasts →
      ∀ b ∈ σ'.broadcasts, ∀ s, b.due s = true → (session s, s) ∈ b.recipients := by
    intro heq
    rw [heq]
    exact hregistered.delivered
  cases i with
  | broadcast message =>
      cases h
      intro b hb s hdue
      rcases List.mem_append.mp hb with hold | hnew
      · exact hregistered.delivered b hold s hdue
      · cases List.mem_singleton.mp hnew
        obtain ⟨hopen, hnewest⟩ := Bool.and_eq_true_iff.mp hdue
        exact Dict.mem_of_get? (hregistered.present s hopen (of_decide_eq_true hnewest))
  | delivered n ok =>
      simp only [step] at h
      split at h
      · next sessionId ws hrecipient =>
          cases h
          intro b hb s hdue
          have hbroadcasts : ((if ok then σ else σ.disconnect sessionId).deliver n).broadcasts =
              σ.broadcasts.modify n fun b => { b with sent := b.sent + 1 } := by
            cases ok <;> rfl
          rw [hbroadcasts] at hb
          obtain ⟨b', hb', hrecipients, hdue'⟩ : ∃ b' ∈ σ.broadcasts, b.recipients = b'.recipients ∧ b.due = b'.due := by
            obtain ⟨j, hj⟩ := List.mem_iff_getElem?.mp hb
            rw [List.getElem?_modify] at hj
            obtain ⟨b', hb', rfl⟩ := Option.map_eq_some_iff.mp hj
            refine ⟨b', List.mem_of_getElem? hb', ?_⟩
            split <;> exact ⟨rfl, rfl⟩
          rw [hrecipients]
          exact hregistered.delivered b' hb' s (hdue' ▸ hdue)
      · cases h
  | received s r =>
      simp only [step] at h
      split at h <;> cases h
      exact hsame (broadcasts_receive r)
  | sent s ok =>
      simp only [step] at h
      split at h <;> cases h
      refine hsame ((broadcasts_resume _).trans ?_)
      cases ok <;> rfl
  | connect s =>
      simp only [step] at h
      split at h <;> cases h
      exact hsame rfl
  | accepted s =>
      simp only [step] at h
      split at h <;> cases h
      exact hsame rfl
  | refused s =>
      simp only [step] at h
      split at h <;> cases h
      exact hsame rfl
  | leave s =>
      cases h
      exact hsame rfl

theorem Registered.follows (h : Registered session σ) : σ.registry.Follows session :=
  ⟨fun s hs hnewest => h.present s (present_iff.mp hs) hnewest,
    fun sessionId s hs => h.ended s sessionId (ended_iff.mp hs)⟩

/-- **One input keeps registration right if and only if it hits nobody else.** -/
theorem step_registered_iff {i : Input} (h : step session σ i = some σ') (hsound : σ.registry.Sound session)
    (hregistered : Registered session σ) : Registered session σ' ↔ Clean session σ i := by
  obtain ⟨hregistry, hfits⟩ := step_move h
  have hiff : σ'.registry.Follows session ↔ Clean session σ i := by
    rw [hregistry]
    cases hm : move session σ i with
    | none =>
        refine ⟨fun _ m hm' => ?_, fun _ => hregistered.follows⟩
        rw [hm] at hm'
        cases hm'
    | some m =>
        rw [Option.elim_some, Registry.follows_apply_iff hregistered.follows hsound (hfits m hm)]
        refine ⟨fun hclean m' hm' => ?_, fun hclean => hclean m hm⟩
        rw [hm] at hm'
        cases hm'
        exact hclean
  rw [← hiff]
  refine ⟨Registered.follows, fun hfollows => ⟨?_, ?_, step_broadcasts h hregistered⟩⟩
  · exact fun s hopen hnewest => hfollows.present s (present_iff.mpr hopen) hnewest
  · exact fun s sessionId hended => hfollows.ended sessionId s (ended_iff.mpr hended)

/-- What is registered is sound in every run. -/
theorem step_sound {i : Input} (h : step session σ i = some σ') (hsound : σ.registry.Sound session) :
    σ'.registry.Sound session := by
  rw [(step_move h).1]
  cases move session σ i with
  | none => exact hsound
  | some m => exact hsound.apply m

end Registry

/-! ## Every run -/

section Runs

variable {session : Socket → String} {σ σ' : State} {inputs : List Input}

theorem run_append {i : Input} (h : run session (inputs ++ [i]) = some σ') :
    ∃ σ, run session inputs = some σ ∧ step session σ i = some σ' := by
  unfold run at h
  rw [List.foldlM_append] at h
  obtain ⟨σ, hσ, hstep⟩ := Option.bind_eq_some_iff.mp h
  refine ⟨σ, hσ, ?_⟩
  simpa using hstep

theorem run_sound (h : run session inputs = some σ) : σ.registry.Sound session := by
  induction inputs using List.reverseRecOn generalizing σ with
  | nil =>
      cases h
      exact ⟨nofun, nofun, nofun⟩
  | append_singleton inputs i ih =>
      obtain ⟨σ₀, hσ₀, hstep⟩ := run_append h
      exact step_sound hstep (ih hσ₀)

/-- **Registration follows the newest connection throughout a run if and only if no input of it hits
anybody else.** -/
theorem run_registered_iff (session : Socket → String) (inputs : List Input) :
    (∀ p, p <+: inputs → ∀ σ, run session p = some σ → Registered session σ) ↔
      ∀ p i, p ++ [i] <+: inputs → ∀ σ σ', run session p = some σ → step session σ i = some σ' →
        Clean session σ i := by
  constructor
  · intro hregistered p i hp σ σ' hrun hstep
    have hnext : run session (p ++ [i]) = some σ' := by
      unfold run at hrun ⊢
      rw [List.foldlM_append, hrun]
      simpa using hstep
    refine (step_registered_iff hstep (run_sound hrun) ?_).mp (hregistered _ hp _ hnext)
    exact hregistered p ((List.prefix_append p [i]).trans hp) σ hrun
  · intro hclean p
    induction p using List.reverseRecOn with
    | nil =>
        intro _ σ hrun
        cases hrun
        exact ⟨nofun, nofun, nofun⟩
    | append_singleton p i ih =>
        intro hp σ hrun
        obtain ⟨σ₀, hσ₀, hstep⟩ := run_append hrun
        have hbefore := ih ((List.prefix_append p [i]).trans hp) σ₀ hσ₀
        exact (step_registered_iff hstep (run_sound hσ₀) hbefore).mpr (hclean p i hp σ₀ σ hσ₀ hstep)

/-- Two sockets ask for one session: the client of the first reconnects before its handler has ended. -/
def reconnect : List Input :=
  [.connect 0, .accepted 0, .leave 0, .connect 1, .accepted 1, .received 0 .disconnect]

/-- A client sends a message that is not an object. -/
def unreadable : List Input := [.connect 0, .accepted 0, .received 0 (.message (.arr []))]

/-- The end of the old handler removes the socket of the new connection, which is open and the newest of its
session; and a handler that ends on a message that is not an object stays registered. -/
theorem registration_lost :
    (∃ σ, run (fun _ => "desktop") reconnect = some σ ∧ σ.isOpen 1 = true ∧ σ.newest "desktop" = some 1 ∧
      σ.connections.get? "desktop" = none) ∧
    (∃ σ, run (fun _ => "desktop") unreadable = some σ ∧ σ.phase 0 = .ended ∧
      σ.connections.get? "desktop" = some 0) ∧
    ¬∀ inputs σ, run (fun _ => "desktop") inputs = some σ → Registered (fun _ => "desktop") σ := by
  have hreconnect : ∃ σ, run (fun _ => "desktop") reconnect = some σ ∧ σ.isOpen 1 = true ∧
      σ.newest "desktop" = some 1 ∧ σ.connections.get? "desktop" = none :=
    ⟨_, rfl, by decide +kernel, by decide +kernel, by decide +kernel⟩
  refine ⟨hreconnect, ⟨_, rfl, by decide +kernel, by decide +kernel⟩, fun hall => ?_⟩
  obtain ⟨σ, hrun, hopen, hnewest, hnone⟩ := hreconnect
  have hregistered := (hall reconnect σ hrun).present 1 hopen hnewest
  rw [hnone] at hregistered
  cases hregistered

end Runs

end AtlasFlow.Reference.WebSocket
