import AtlasFlow.Data.EnumText
import AtlasFlow.Persistence.RunRepository

/-!
# Watching a run

`RunService.WatchAsync`: subscribe, replay the log, then read what the subscription has collected,
leaving out what the replay delivered. Every run is written by one engine, which commits an event
and then publishes it to the listeners it finds at that moment; any number of `WatchAsync` calls
run beside the engines. What a watcher delivers is always a beginning of the run's log up to its
first stopping event, and all of it once the watcher is done (`watch_delivers`).
-/

namespace AtlasFlow

open Concurrency

/-! ## The end of a stream -/

/-- The members of `RunState` with their values. -/
def RunState.all : List RunState :=
  [.created, .planning, .ready, .running, .verifying, .reviewing, .completed, .blocked, .cancelled,
    .failed]

def RunState.members : List (String × Nat) := RunState.all.map fun s => (s.name, s.ctorIdx)

/-- The member with a value, if one has it. -/
def RunState.ofValue (value : Int) : Option RunState :=
  RunState.all.find? fun s => (s.ctorIdx : Int) = value

namespace RunService

def isWhereTheEngineStops (state : RunState) : Bool :=
  state.isTerminal || state = .verifying || state = .blocked

/-- `StopsStream`. A value that no member has is not where the engine stops. -/
def stopsStream (event : DomainEvent) : Bool :=
  match event.payload.get? "next" with
  | some (.str nextState) =>
    match EnumText.tryParse RunState.members nextState with
    | some value => (RunState.ofValue value).any isWhereTheEngineStops
    | none => false
  | _ => false

/-- On the name of a state, as `Scheduler.RunEvent` writes it, the test is about that state. -/
theorem stopsStream_name {event : DomainEvent} {state : RunState}
    (h : event.payload.get? "next" = some (.str state.name)) :
    stopsStream event = isWhereTheEngineStops state := by
  rw [stopsStream, h]
  cases state <;> rfl

/-- The events up to and including the first one that stops the stream. -/
def untilStop : List DomainEvent → List DomainEvent
  | [] => []
  | event :: events => if stopsStream event then [event] else event :: untilStop events

theorem untilStop_append {before : List DomainEvent} (after : List DomainEvent)
    (h : ∀ event ∈ before, stopsStream event = false) :
    untilStop (before ++ after) = before ++ untilStop after := by
  induction before with
  | nil => rfl
  | cons event events ih =>
      have hevent := h event List.mem_cons_self
      rw [List.cons_append, untilStop, hevent, ih fun e he => h e (List.mem_cons_of_mem _ he)]
      rfl

theorem untilStop_isPrefix (events : List DomainEvent) : untilStop events <+: events := by
  induction events with
  | nil => exact List.prefix_rfl
  | cons event events ih =>
      rw [untilStop]
      split
      · exact ⟨events, rfl⟩
      · exact (List.prefix_cons_inj event).mpr ih

/-! ## The watcher -/

/-- Where a process goes round its loop: an engine before its `k`-th commit, a watcher before it
subscribes and before it reads its channel. -/
inductive Point
  | publish (k : Nat)
  | watch
  | live (listener : Nat) (delivered : List String)

/-- `using IDisposable subscription`: an exception closes the subscription. -/
def disposing {α : Type} (listener : Nat) (p : Program α) : Program α :=
  tryCatch p fun e => do
    Prog.op (Op.unsubscribe listener)
    throw e

/-- The replay: every recorded event, until one stops the stream. -/
def replay (live : Nat) : List String → List DomainEvent → Program (Point ⊕ Unit)
  | delivered, [] => return .inl (.live live delivered)
  | delivered, recorded :: rest => do
      Prog.op (Op.yieldReturn recorded)
      if stopsStream recorded then
        Prog.op (Op.unsubscribe live)
        return .inr ()
      else replay live (recorded.id :: delivered) rest

/-- `WatchAsync` up to its loop over the channel. -/
def watchAsync (id : RunId) (ct : CancellationToken) : Program (Point ⊕ Unit) := do
  let live ← Prog.op (.subscribe id)
  let recorded ← disposing live do Prog.ofExcept (← Prog.op (.selectEvents id ct))
  replay live [] recorded

/-- One round of the loop over the channel. -/
def watchLive (live : Nat) (delivered : List String) (ct : CancellationToken) :
    Program (Point ⊕ Unit) := do
  let event ← disposing live do Prog.ofExcept (← Prog.op (.readChannel live ct))
  if delivered.contains event.id then return .inl (.live live delivered)
  else
    Prog.op (Op.yieldReturn event)
    if stopsStream event then
      Prog.op (Op.unsubscribe live)
      return .inr ()
    else return .inl (.live live (event.id :: delivered))

end RunService

/-! ## Engines and watchers over one event store -/

namespace Watch

open RunService

/-- One `CommitAsync`. -/
structure Commit where
  write : Write
  event : DomainEvent
  ct : CancellationToken

/-- What the engines are going to commit: engine `r` only events of run `r`, no id twice. -/
structure Script where
  commits : RunId → Nat → Commit
  runId : ∀ r k, (commits r k).event.runId = some r
  distinct : ∀ r k r' k', (commits r k).event.id = (commits r' k').event.id → r = r' ∧ k = k'

/-- The engine of a run, and the `n`-th call of `WatchAsync`, which is also the name of the listener
it subscribes. -/
inductive Pid
  | engine (r : RunId)
  | watcher (n : Nat)
  deriving DecidableEq

/-- What an engine still has to tell: an event that is committed while its listeners are not
determined yet, or the notifications it has not made. -/
inductive Publication
  | committed (event : DomainEvent)
  | notifying (outstanding : List (Nat × DomainEvent))

/-- The event store and its subscriptions. `topic` is what a listener filters on, `channel` what it
has collected and nobody has read, `delivered` what its watcher has yielded. `publication` is
derived from what the engines have done; no call reads it. -/
structure World where
  db : Database
  listeners : List Nat := []
  topic : Nat → Option RunId := fun _ => none
  channel : Nat → List DomainEvent := fun _ => []
  delivered : Nat → List DomainEvent := fun _ => []
  publication : RunId → Publication := fun _ => .notifying []

namespace World

/-- The engine of `r` has got to `publication`. -/
def tell (r : RunId) (publication : Publication) (w : World) : World :=
  { w with publication := Function.update w.publication r publication }

/-- The engine of `r` has committed. -/
def commit (r : RunId) (event : DomainEvent) (db : Database) (w : World) : World :=
  { w with db }.tell r (.committed event)

/-- The engine of `r` has taken its snapshot of the listeners. -/
def snapshot (r : RunId) (w : World) : World :=
  match w.publication r with
  | .committed event => w.tell r (.notifying (w.listeners.map fun n => (n, event)))
  | .notifying _ => w

/-- The listener of watcher `n`: it writes the events of its run to its channel. -/
def hear (n : Nat) (event : DomainEvent) (w : World) : World :=
  if event.runId.isSome ∧ w.topic n = event.runId then
    { w with channel := Function.update w.channel n (w.channel n ++ [event]) }
  else w

/-- The engine of `r` has called one listener. -/
def notified (r : RunId) (w : World) : World :=
  match w.publication r with
  | .notifying (_ :: rest) => w.tell r (.notifying rest)
  | _ => w

@[simp] theorem hear_publication (n : Nat) (event : DomainEvent) (w : World) :
    (w.hear n event).publication = w.publication := by
  rw [hear]
  split <;> rfl

@[simp] theorem hear_db (n : Nat) (event : DomainEvent) (w : World) :
    (w.hear n event).db = w.db := by
  rw [hear]
  split <;> rfl

theorem notified_eq {r : RunId} {m : Nat × DomainEvent} {rest : List (Nat × DomainEvent)} {w : World}
    (h : w.publication r = .notifying (m :: rest)) :
    w.notified r = w.tell r (.notifying rest) := by
  rw [notified, h]

def subscribed (n : Nat) (id : RunId) (w : World) : World :=
  { w with
    listeners := w.listeners ++ [n]
    topic := Function.update w.topic n (some id)
    channel := Function.update w.channel n [] }

def read (n : Nat) (w : World) : World :=
  { w with channel := Function.update w.channel n (w.channel n).tail }

def yield (n : Nat) (event : DomainEvent) (w : World) : World :=
  { w with delivered := Function.update w.delivered n (w.delivered n ++ [event]) }

end World

/-- What every call may answer, and what it does. -/
def exec : Pid → (o : Op) → World → Ret o → Option World
  | .engine r, .executeInTransaction write event ct, w, answer =>
      (Database.answers (.executeInTransaction write event ct) w.db answer).map fun db =>
        match answer with
        | .ok _ => w.commit r event db
        | .error _ => w
  | .engine r, .listeners, w, answer => if answer = w.listeners then some (w.snapshot r) else none
  | .engine r, .notify n event, w, _ => some ((w.hear n event).notified r)
  | .watcher n, .subscribe id, w, answer => if answer = n then some (w.subscribed n id) else none
  | .watcher _, .selectEvents id ct, w, answer =>
      (Database.answers (.selectEvents id ct) w.db answer).map fun _ => w
  | .watcher _, .readChannel n ct, w, answer =>
      match answer with
      | .ok event => if (w.channel n).head? = some event then some (w.read n) else none
      | .error e => if ct = .source ∧ e = .operationCanceled then some w else none
  | .watcher n, .yieldReturn event, w, _ => some (w.yield n event)
  | .watcher _, .unsubscribe n, w, _ => some { w with listeners := w.listeners.erase n }
  | _, _, _, _ => none

/-- Engines that commit their scripts, and watchers of the runs `request` names. A commit that is
called off is skipped. -/
def system (script : Script) (request : Nat → RunId × CancellationToken) :
    System Pid Op Ret Exn Point Unit World where
  exec := exec
  code
    | .engine r, .publish k =>
        let commit := script.commits r k
        Prog.bind (Prog.handle (RunRepository.commitAsync commit.write commit.event commit.ct)
          fun _ => .ret ()) fun _ => .ret (.inl (.publish (k + 1)))
    | .watcher n, .watch => watchAsync (request n).1 (request n).2
    | .watcher n, .live listener delivered => watchLive listener delivered (request n).2
    | _, _ => .ret (.inr ())

def start : Pid → Point
  | .engine _ => .publish 0
  | .watcher _ => .watch

/-! ### Positions in a log -/

section Positions

variable {α β : Type} {xs log : List α} {a : α} {rest : List α}

theorem prefix_snoc (h : xs <+: log) (hdrop : log.drop xs.length = a :: rest) :
    xs ++ [a] <+: log := by
  obtain ⟨ys, rfl⟩ := h
  rw [List.drop_left] at hdrop
  rw [hdrop]
  exact ⟨rest, by simp⟩

/-- Among entries without a repeated key, the one at position `p` is in a beginning of the log
exactly when `p` is a position of it. -/
theorem mem_prefix_iff {f : α → β} (hnodup : (log.map f).Nodup) (h : xs <+: log) {p : Nat}
    (hdrop : log.drop p = a :: rest) : f a ∈ xs.map f ↔ p < xs.length := by
  obtain ⟨ys, rfl⟩ := h
  constructor
  · intro hmem
    by_contra hp
    have hys : a ∈ ys := by
      have ha : a ∈ (xs ++ ys).drop p := hdrop ▸ List.mem_cons_self
      rw [List.drop_append, List.drop_eq_nil_of_le (by omega), List.nil_append] at ha
      exact List.mem_of_mem_drop ha
    rw [List.map_append] at hnodup
    exact (List.nodup_append.mp hnodup).2.2 _ hmem _ (List.mem_map_of_mem hys) rfl
  · intro hp
    have hget : (xs ++ ys)[p]? = some a := by
      rw [← List.head?_drop, hdrop]
      rfl
    rw [List.getElem?_append_left hp] at hget
    exact List.mem_map_of_mem (List.mem_of_getElem? hget)

end Positions

/-! ### The log and the notifications -/

open Database (persistedEvent)

@[simp] theorem persistedEvent_idem (event : DomainEvent) :
    persistedEvent (persistedEvent event) = persistedEvent event := rfl

@[simp] theorem stopsStream_persistedEvent (event : DomainEvent) :
    stopsStream (persistedEvent event) = stopsStream event := rfl

/-- What is still to be told to listener `n`, with these listeners subscribed. -/
def Publication.owed (listeners : List Nat) (n : Nat) : Publication → List DomainEvent
  | .committed event => (listeners.filter (· = n)).map fun _ => event
  | .notifying outstanding => (outstanding.filter (·.1 = n)).map Prod.snd

namespace World

/-- The events of a run as they are read back, in order. -/
def log (w : World) (r : RunId) : List DomainEvent := (w.db.eventsOf r).map persistedEvent

def ids (w : World) : List String := w.db.events.map DomainEvent.id

/-- What the engine of `r` will still write to the channel of listener `n`. -/
def owed (w : World) (r : RunId) (n : Nat) : List DomainEvent :=
  (w.publication r).owed w.listeners n

theorem log_ids_nodup {w : World} (h : w.ids.Nodup) (r : RunId) :
    ((w.log r).map DomainEvent.id).Nodup := by
  rw [log, List.map_map]
  exact h.sublist (List.filter_sublist.map DomainEvent.id)

end World

/-- Watcher `n` listens to run `r`: what is in its channel or on the way to it is the log from
position `p` on. -/
structure Linked (n : Nat) (r : RunId) (p : Nat) (w : World) : Prop where
  listens : n ∈ w.listeners
  topic : w.topic n = some r
  le : p ≤ (w.log r).length
  rest : (w.log r).drop p = (w.channel n ++ w.owed r n).map persistedEvent

/-- No listener of watcher `n` is or will be called. -/
structure Absent (n : Nat) (w : World) : Prop where
  listeners : n ∉ w.listeners
  outstanding : ∀ r out, w.publication r = .notifying out → ∀ m ∈ out, m.1 ≠ n

/-- What holds of the event store in every state. -/
structure Sound (request : Nat → RunId × CancellationToken) (w : World) : Prop where
  ids : w.ids.Nodup
  listeners : w.listeners.Nodup
  committed : ∀ r event, w.publication r = .committed event →
    ∃ old, w.log r = old ++ [persistedEvent event]
  delivered : ∀ n, (w.delivered n).map persistedEvent <+: untilStop (w.log (request n).1)

/-! ### What the others leave alone -/

variable (script : Script) (request : Nat → RunId × CancellationToken)

/-- What the others leave alone for an engine. -/
structure RelyEngine (r : RunId) (w w' : World) : Prop where
  sound : Sound request w → Sound request w'
  publication : w'.publication r = w.publication r
  fresh : ∀ k, (script.commits r k).event.id ∈ w'.ids → (script.commits r k).event.id ∈ w.ids

/-- What the others leave alone for a watcher. -/
structure RelyWatcher (n : Nat) (w w' : World) : Prop where
  sound : Sound request w → Sound request w'
  delivered : w'.delivered n = w.delivered n
  log : ∀ r, w.log r <+: w'.log r
  absent : Absent n w → Absent n w'
  linked : ∀ r p, Linked n r p w → Linked n r p w'

def Rely : Pid → World → World → Prop
  | .engine r => RelyEngine script request r
  | .watcher n => RelyWatcher request n

/-- What each call of `i` guarantees. -/
structure Guar (i : Pid) (w w' : World) : Prop where
  sound : Sound request w → Sound request w'
  rely : ∀ j, i ≠ j → Rely script request j w w'

theorem rely_refl (i : Pid) (w : World) : Rely script request i w w := by
  cases i with
  | engine r => exact ⟨id, rfl, fun _ h => h⟩
  | watcher n => exact ⟨id, rfl, fun _ => List.prefix_rfl, id, fun _ _ => id⟩

theorem rely_trans (i : Pid) (a b c : World) (hab : Rely script request i a b)
    (hbc : Rely script request i b c) : Rely script request i a c := by
  cases i with
  | engine r =>
      exact ⟨fun h => hbc.sound (hab.sound h), hbc.publication.trans hab.publication,
        fun k h => hab.fresh k (hbc.fresh k h)⟩
  | watcher n =>
      exact ⟨fun h => hbc.sound (hab.sound h), hbc.delivered.trans hab.delivered,
        fun r => (hab.log r).trans (hbc.log r), fun h => hbc.absent (hab.absent h),
        fun r p h => hbc.linked r p (hab.linked r p h)⟩

theorem Guar.refl (i : Pid) (w : World) : Guar script request i w w :=
  ⟨id, fun j _ => rely_refl script request j w⟩

/-! ### What each call does -/

variable {script request} {r : RunId} {n : Nat} {event : DomainEvent} {w : World}

theorem untilStop_mono {xs ys : List DomainEvent} (h : xs <+: ys) : untilStop xs <+: untilStop ys := by
  obtain ⟨zs, rfl⟩ := h
  induction xs with
  | nil => exact List.nil_prefix
  | cons x xs ih =>
      rw [List.cons_append, untilStop, untilStop]
      split
      · exact List.prefix_rfl
      · exact (List.prefix_cons_inj x).mpr ih

section Commit

variable (write : Write)

theorem commit_events (hfresh : event.id ∉ w.ids) :
    ((w.db.apply write).insertEvent event).events = w.db.events ++ [persistedEvent event] := by
  have happly : (w.db.apply write).events = w.db.events := by cases write <;> rfl
  rw [Database.insertEvent, happly, if_neg]
  intro hany
  obtain ⟨e, he, heq⟩ := List.any_eq_true.mp hany
  exact hfresh (List.mem_map.mpr ⟨e, he, of_decide_eq_true heq⟩)

variable (hfresh : event.id ∉ w.ids) (hrun : event.runId = some r)
include hfresh hrun

theorem log_commit (r' : RunId) :
    (w.commit r event ((w.db.apply write).insertEvent event)).log r' =
      w.log r' ++ if r' = r then [persistedEvent event] else [] := by
  show (List.filter _ ((w.db.apply write).insertEvent event).events).map _ = _
  rw [commit_events _ hfresh, List.filter_append, List.map_append]
  congr 1
  by_cases hr : r' = r
  · subst hr
    have hmine : (persistedEvent event).runId = some r' := hrun
    rw [if_pos rfl, List.filter_cons_of_pos (by simpa using hmine)]
    rfl
  · rw [if_neg hr, List.filter_cons_of_neg]
    · rfl
    · have hne : event.runId ≠ some r' := fun h => hr (Option.some.inj (h.symm.trans hrun))
      exact fun h => hne (of_decide_eq_true h)

/-- **A commit**: the log of its run grows by the event, and every listener is owed that event. -/
theorem guar_commit (hidle : w.publication r = .notifying [])
    (hother : ∀ r' k, r' ≠ r → (script.commits r' k).event.id ≠ event.id) (hw : Sound request w) :
    Guar script request (.engine r) w
      (w.commit r event ((w.db.apply write).insertEvent event)) := by
  let w' := w.commit r event ((w.db.apply write).insertEvent event)
  have hlog := log_commit write hfresh hrun
  have hgrows : ∀ r', w.log r' <+: w'.log r' := fun r' => by
    rw [hlog]
    exact List.prefix_append _ _
  have hids : w'.ids = w.ids ++ [event.id] := by
    show (((w.db.apply write).insertEvent event).events).map _ = _
    rw [commit_events _ hfresh, List.map_append]
    rfl
  have hpub : ∀ r', w'.publication r' =
      if r' = r then .committed event else w.publication r' := fun r' => by
    show Function.update _ _ _ r' = _
    rw [Function.update_apply]
  have hsound : Sound request w' := by
    refine ⟨?_, hw.listeners, fun r' e he => ?_, fun m => ?_⟩
    · rw [hids]
      exact List.nodup_append.mpr ⟨hw.ids, List.nodup_singleton _, fun a ha b hb heq =>
        hfresh (List.mem_singleton.mp hb ▸ heq ▸ ha)⟩
    · rw [hpub] at he
      by_cases hr : r' = r
      · rw [if_pos hr] at he
        cases he
        exact ⟨w.log r', by rw [hlog, if_pos hr]⟩
      · rw [if_neg hr] at he
        rw [hlog, if_neg hr, List.append_nil]
        exact hw.committed r' e he
    · exact (hw.delivered m).trans (untilStop_mono (hgrows _))
  refine ⟨fun _ => hsound, fun j hj => ?_⟩
  cases j with
  | engine r' =>
      have hr : r' ≠ r := fun h => hj (by rw [h])
      refine ⟨fun _ => hsound, by rw [hpub, if_neg hr], fun k hk => ?_⟩
      rw [hids] at hk
      rcases List.mem_append.mp hk with hold | hnew
      · exact hold
      · exact absurd (List.mem_singleton.mp hnew) (hother r' k hr)
  | watcher n =>
      refine ⟨fun _ => hsound, rfl, hgrows, fun h => ⟨h.listeners, fun r' out hout => ?_⟩, ?_⟩
      · rw [hpub] at hout
        by_cases hr : r' = r
        · rw [if_pos hr] at hout
          cases hout
        · rw [if_neg hr] at hout
          exact h.outstanding r' out hout
      · intro r' p h
        refine ⟨h.listens, h.topic, Nat.le_trans h.le (hgrows r').length_le, ?_⟩
        rw [hlog, List.drop_append_of_le_length h.le, h.rest]
        show _ = (w.channel n ++ (w'.publication r').owed w.listeners n).map persistedEvent
        rw [hpub]
        by_cases hr : r' = r
        · subst hr
          -- Nothing was owed before, now one event is.
          have howed : w.owed r' n = [] := by rw [World.owed, hidle]; rfl
          have hone : w.listeners.filter (· = n) = [n] := by
            rw [List.filter_eq, List.count_eq_one_of_mem hw.listeners h.listens]
            rfl
          rw [howed, if_pos rfl, if_pos rfl, Publication.owed, hone, List.append_nil,
            List.map_append]
          rfl
        · rw [if_neg hr, if_neg hr, List.append_nil]
          rfl

end Commit

/-- A step of an engine after its commit: nothing changes but how far it is with its event, and what
the listeners have heard. It keeps `Linked` if it only moves events from the owed to the heard. -/
theorem guar_tell {publication : Publication} {channel : Nat → List DomainEvent}
    (hcommitted : ∀ e, publication ≠ .committed e)
    (habsent : ∀ n, Absent n w → ∀ out, publication = .notifying out → ∀ m ∈ out, m.1 ≠ n)
    (hlinked : ∀ n p, Linked n r p w →
      channel n ++ publication.owed w.listeners n = w.channel n ++ w.owed r n)
    (hother : ∀ n r', r' ≠ r → w.topic n = some r' → channel n = w.channel n) :
    Guar script request (.engine r) w ({ w with channel }.tell r publication) := by
  let w' := { w with channel }.tell r publication
  have hne : ∀ r', r' ≠ r → w'.publication r' = w.publication r' := fun r' hr =>
    Function.update_of_ne hr _ _
  have hself : w'.publication r = publication := Function.update_self ..
  have hsound : Sound request w → Sound request w' := fun hw => by
    refine ⟨hw.ids, hw.listeners, fun r' e he => ?_, hw.delivered⟩
    rcases eq_or_ne r' r with rfl | hr
    · exact absurd (hself.symm.trans he) (hcommitted e)
    · exact hw.committed r' e ((hne r' hr).symm.trans he)
  refine ⟨hsound, fun j hj => ?_⟩
  cases j with
  | engine r' => exact ⟨hsound, hne r' fun h => hj (by rw [h]), fun _ h => h⟩
  | watcher n =>
      refine ⟨hsound, rfl, fun _ => List.prefix_rfl, fun h => ⟨h.listeners, ?_⟩, ?_⟩
      · intro r' out hout
        rcases eq_or_ne r' r with rfl | hr
        · exact habsent n h out (hself.symm.trans hout)
        · exact h.outstanding r' out ((hne r' hr).symm.trans hout)
      · intro r' p h
        refine ⟨h.listens, h.topic, h.le, h.rest.trans (congrArg (List.map persistedEvent) ?_)⟩
        show _ = channel n ++ (w'.publication r').owed w.listeners n
        rcases eq_or_ne r' r with rfl | hr
        · rw [hself]
          exact (hlinked n p h).symm
        · rw [hne r' hr, hother n r' hr h.topic]
          rfl

variable (script request) in
/-- **The snapshot**: what the engine owed every listener of that moment it owes it still. -/
theorem guar_snapshot (hpub : w.publication r = .committed event) :
    Guar script request (.engine r) w (w.snapshot r) := by
  rw [World.snapshot, hpub]
  refine guar_tell (fun e h => by cases h) ?_ (fun n p h => ?_) fun _ _ _ _ => rfl
  · rintro n hn out hout m hm rfl
    cases hout
    obtain ⟨l, hl, rfl⟩ := List.mem_map.mp hm
    exact hn.listeners hl
  · rw [World.owed, hpub, Publication.owed, Publication.owed, List.filter_map, List.map_map]
    rfl

variable (script request) in
/-- **A notification**: what one listener was owed goes to its channel. -/
theorem guar_notify {rest : List (Nat × DomainEvent)}
    (hpub : w.publication r = .notifying ((n, event) :: rest)) (hrun : event.runId = some r) :
    Guar script request (.engine r) w ((w.hear n event).notified r) := by
  have howed : ∀ m, w.owed r m = (if m = n then [event] else []) ++
      (Publication.notifying rest).owed w.listeners m := fun m => by
    rw [World.owed, hpub, Publication.owed, Publication.owed]
    by_cases hm : m = n
    · rw [if_pos hm, List.filter_cons_of_pos (by simpa using hm.symm)]
      rfl
    · rw [if_neg hm, List.filter_cons_of_neg (by simpa using fun h => hm h.symm)]
      rfl
  rw [World.notified_eq (by rw [World.hear_publication, hpub])]
  have habsent : ∀ m, Absent m w → ∀ out, Publication.notifying rest = .notifying out →
      ∀ x ∈ out, x.1 ≠ m := by
    rintro m hm out ⟨⟩ x hx
    exact hm.outstanding r _ hpub x (List.mem_cons_of_mem _ hx)
  rw [World.hear]
  by_cases htopic : event.runId.isSome ∧ w.topic n = event.runId
  · rw [if_pos htopic]
    refine guar_tell (fun e h => by cases h) habsent ?_ ?_
    · intro m p h
      rw [howed]
      rcases eq_or_ne m n with rfl | hm
      · rw [Function.update_self, if_pos rfl, List.append_assoc]
      · rw [Function.update_of_ne hm, if_neg hm, List.nil_append]
    · intro m r' hr' hm
      refine Function.update_of_ne ?_ _ _
      rintro rfl
      exact hr' (Option.some.inj (hm.symm.trans (htopic.2.trans hrun)))
  · rw [if_neg htopic]
    refine guar_tell (fun e h => by cases h) habsent (fun m p h => ?_) fun _ _ _ _ => rfl
    have hm : m ≠ n := by
      rintro rfl
      exact htopic ⟨by rw [hrun]; rfl, h.topic.trans hrun.symm⟩
    rw [howed, if_neg hm, List.nil_append]

/-- **A step of a watcher** on its own listener, channel and output disturbs nobody else. -/
theorem guar_watcher {w' : World} (hdb : w'.db = w.db) (hpub : w'.publication = w.publication)
    (hlisteners : w.listeners.Nodup → w'.listeners.Nodup)
    (hothers : ∀ m, m ≠ n → w'.listeners.filter (· = m) = w.listeners.filter (· = m))
    (htopic : ∀ m, m ≠ n → w'.topic m = w.topic m)
    (hchannel : ∀ m, m ≠ n → w'.channel m = w.channel m)
    (hdelivered : ∀ m, m ≠ n → w'.delivered m = w.delivered m)
    (hmine : (w'.delivered n).map persistedEvent <+: untilStop (w.log (request n).1)) :
    Guar script request (.watcher n) w w' := by
  have hlog : ∀ r, w'.log r = w.log r := fun r => by rw [World.log, hdb]; rfl
  have hids : w'.ids = w.ids := by rw [World.ids, hdb]; rfl
  have hsound : Sound request w → Sound request w' := fun hw => by
    refine ⟨hids ▸ hw.ids, hlisteners hw.listeners, fun r e he => ?_, fun m => ?_⟩
    · rw [hlog]
      exact hw.committed r e (hpub ▸ he)
    · rw [hlog]
      rcases eq_or_ne m n with rfl | hm
      · exact hmine
      · exact hdelivered m hm ▸ hw.delivered m
  have hmem : ∀ m, m ≠ n → (m ∈ w'.listeners ↔ m ∈ w.listeners) := fun m hm => by
    have hfilter := congrArg (m ∈ ·) (hothers m hm)
    simpa using hfilter
  refine ⟨hsound, fun j hj => ?_⟩
  cases j with
  | engine r => exact ⟨hsound, congrFun hpub r, fun _ h => hids ▸ h⟩
  | watcher m =>
      have hm : m ≠ n := fun h => hj (by rw [h])
      refine ⟨hsound, hdelivered m hm, fun r => hlog r ▸ List.prefix_rfl, fun h => ?_,
        fun r p h => ?_⟩
      · exact ⟨fun hl => h.listeners ((hmem m hm).mp hl), fun r out hout =>
          h.outstanding r out (hpub ▸ hout)⟩
      · refine ⟨(hmem m hm).mpr h.listens, (htopic m hm).trans h.topic, hlog r ▸ h.le, ?_⟩
        rw [hlog, h.rest, hchannel m hm]
        have howed : w'.owed r m = w.owed r m := by
          rw [World.owed, World.owed, hpub]
          cases w.publication r with
          | committed e => exact congrArg (List.map fun _ => e) (hothers m hm)
          | notifying out => rfl
        rw [howed]

/-! ### An engine keeps the contract -/

abbrev contract (script : Script) (request : Nat → RunId × CancellationToken) (i : Pid) :
    Contract Op Ret World :=
  ⟨exec i, Rely script request i, fun _ w _ w' => Guar script request i w w'⟩

/-- Engine `r` has used up its script before `k` and has got to `publication`. -/
structure Publishing (script : Script) (request : Nat → RunId × CancellationToken) (r : RunId)
    (k : Nat) (publication : Publication) (w : World) : Prop where
  sound : Sound request w
  publication : w.publication r = publication
  fresh : ∀ k', k ≤ k' → (script.commits r k').event.id ∉ w.ids

theorem Publishing.step {k : Nat} {publication : Publication} {w' : World}
    (h : Publishing script request r k publication w) (hrely : RelyEngine script request r w w') :
    Publishing script request r k publication w' :=
  ⟨hrely.sound h.sound, hrely.publication.trans h.publication,
    fun k' hk hmem => h.fresh k' hk (hrely.fresh k' hmem)⟩

/-- What `Publishing` says after a step of the engine itself that leaves the log alone. -/
theorem Publishing.tell {k : Nat} {old new : Publication} {w' : World}
    (h : Publishing script request r k old w) (hguar : Guar script request (.engine r) w w')
    (hdb : w'.db = w.db) (hpub : w'.publication r = new) :
    Publishing script request r k new w' := by
  refine ⟨hguar.sound h.sound, hpub, fun k' hk => ?_⟩
  rw [World.ids, hdb]
  exact h.fresh k' hk

/-- `PublishAsync` after the commit of `event`. -/
theorem wp_publish {k : Nat} (hrun : event.runId = some r)
    (h : Publishing script request r k (.committed event) w) :
    wp (contract script request (.engine r)) (EventStore.publishAsync event)
      (fun _ => Publishing script request r k (.notifying [])) (fun _ _ => False) w := by
  simp only [EventStore.publishAsync, Prog.bind_eq, Prog.op_bind]
  refine wp_call _ h (fun _ _ hrely h => h.step hrely) ?_
  intro w listeners w' h hexec
  have hexec : (if listeners = w.listeners then some (w.snapshot r) else none) = some w' := hexec
  obtain ⟨rfl, rfl⟩ : listeners = w.listeners ∧ w.snapshot r = w' := by
    simpa using hexec
  have hguar := guar_snapshot script request h.publication
  have hsnap : w.snapshot r = w.tell r (.notifying (w.listeners.map fun n => (n, event))) := by
    rw [World.snapshot, h.publication]
  refine ⟨hguar, ?_⟩
  -- The listeners still to be called are the ones the engine owes the event.
  refine wp_mono (wp_forEach (fun done w' => ∃ todo, w.listeners = done ++ todo ∧
    Publishing script request r k (.notifying (todo.map fun n => (n, event))) w') ?_ ?_) ?_
    fun _ _ h => h
  · exact ⟨w.listeners, rfl, h.tell hguar (by rw [hsnap]; rfl)
      (by rw [hsnap]; exact Function.update_self ..)⟩
  · rintro done n rest w₁ hall ⟨todo, htodo, h⟩
    obtain rfl : todo = n :: rest := List.append_cancel_left (htodo.symm.trans hall)
    refine wp_call _ h (fun _ _ hrely h => h.step hrely) ?_
    intro w₂ _ w₃ h hexec
    have hexec : some ((w₂.hear n event).notified r) = some w₃ := hexec
    obtain rfl := Option.some.inj hexec
    have hguar := guar_notify script request h.publication hrun
    refine ⟨hguar, rest, by rw [hall, List.append_assoc]; rfl, h.tell hguar ?_ ?_⟩
    · rw [World.notified_eq (by rw [World.hear_publication, h.publication]; rfl)]
      exact World.hear_db ..
    · rw [World.notified_eq (by rw [World.hear_publication, h.publication]; rfl)]
      exact Function.update_self ..
  · rintro _ w₁ ⟨todo, htodo, h⟩
    obtain rfl : todo = [] := List.self_eq_append_right.mp htodo
    exact h

/-- **One commit of an engine**, called off or not, brings it to the next one. -/
theorem wp_commit {k : Nat} (h : Publishing script request r k (.notifying []) w) :
    let commit := script.commits r k
    wp (contract script request (.engine r))
      (RunRepository.commitAsync commit.write commit.event commit.ct)
      (fun _ => Publishing script request r (k + 1) (.notifying []))
      (fun _ => Publishing script request r (k + 1) (.notifying [])) w := by
  intro commit
  simp only [RunRepository.commitAsync, Prog.bind_eq, Prog.op_bind]
  refine wp_call _ h (fun _ _ hrely h => h.step hrely) ?_
  intro w answer w' h hexec
  have hlater : ∀ k', k + 1 ≤ k' → (script.commits r k').event.id ∉ w.ids := fun k' hk =>
    h.fresh k' (Nat.le_of_succ_le hk)
  obtain ⟨db, hanswers, hw'⟩ := Option.map_eq_some_iff.mp hexec
  cases answer with
  | error e =>
      subst hw'
      exact ⟨.refl script request _ _, h.sound, h.publication, hlater⟩
  | ok u =>
      obtain rfl : (w.db.apply commit.write).insertEvent commit.event = db :=
        Option.some.inj hanswers
      subst hw'
      have hfresh := h.fresh k (Nat.le_refl k)
      have hother : ∀ r' k', r' ≠ r → (script.commits r' k').event.id ≠ commit.event.id :=
        fun r' k' hr heq => hr (script.distinct _ _ _ _ heq).1
      have hguar := guar_commit commit.write hfresh (script.runId r k) h.publication
        hother h.sound
      refine ⟨hguar, ?_⟩
      simp only [Prog.ofExcept_ok, Prog.ret_bind]
      refine wp_mono (wp_publish (script.runId r k) ?_) (fun _ _ h => h) (fun _ _ h => h.elim)
      refine ⟨hguar.sound h.sound, Function.update_self .., fun k' hk hmem => ?_⟩
      have hmem : (script.commits r k').event.id ∈
          ((w.db.apply commit.write).insertEvent commit.event).events.map DomainEvent.id := hmem
      rw [commit_events _ hfresh, List.map_append] at hmem
      rcases List.mem_append.mp hmem with hold | hnew
      · exact hlater k' hk hold
      · have := (script.distinct _ _ _ _ (List.mem_singleton.mp hnew)).2
        omega

/-! ### A watcher keeps the contract -/

/-- A watcher that has not subscribed. -/
structure Waiting (request : Nat → RunId × CancellationToken) (n : Nat) (w : World) : Prop where
  sound : Sound request w
  absent : Absent n w
  delivered : w.delivered n = []

/-- A watcher that has delivered `done`, none of which stops the stream, and is going to deliver
`todo`; its channel starts at position `p` of the log. -/
structure Reading (request : Nat → RunId × CancellationToken) (n p : Nat)
    (done todo : List DomainEvent) (w : World) : Prop where
  sound : Sound request w
  linked : Linked n (request n).1 p w
  delivered : w.delivered n = done
  log : (done ++ todo).map persistedEvent <+: w.log (request n).1
  quiet : ∀ event ∈ done, stopsStream event = false
  le : p ≤ (done ++ todo).length

/-- A watcher whose stream has stopped. -/
def Finished (request : Nat → RunId × CancellationToken) (n : Nat) (w : World) : Prop :=
  ∃ done last, w.delivered n = done ++ [last] ∧ (∀ event ∈ done, stopsStream event = false) ∧
    stopsStream last = true ∧ (done ++ [last]).map persistedEvent <+: w.log (request n).1

theorem Waiting.step {w' : World} (h : Waiting request n w) (hrely : RelyWatcher request n w w') :
    Waiting request n w' :=
  ⟨hrely.sound h.sound, hrely.absent h.absent, hrely.delivered.trans h.delivered⟩

theorem Reading.step {p : Nat} {done todo : List DomainEvent} {w' : World}
    (h : Reading request n p done todo w) (hrely : RelyWatcher request n w w') :
    Reading request n p done todo w' :=
  ⟨hrely.sound h.sound, hrely.linked _ _ h.linked, hrely.delivered.trans h.delivered,
    h.log.trans (hrely.log _), h.quiet, h.le⟩

theorem Finished.step {w' : World} (h : Finished request n w)
    (hrely : RelyWatcher request n w w') : Finished request n w' := by
  obtain ⟨done, last, hdelivered, hquiet, hstop, hlog⟩ := h
  exact ⟨done, last, hrely.delivered.trans hdelivered, hquiet, hstop, hlog.trans (hrely.log _)⟩

theorem quiet_persisted {events : List DomainEvent}
    (h : ∀ event ∈ events, stopsStream event = false) :
    ∀ event ∈ events.map persistedEvent, stopsStream event = false := by
  intro event hevent
  obtain ⟨e, he, rfl⟩ := List.mem_map.mp hevent
  exact h e he

/-- A watcher that is done has delivered its run's log up to the first stopping event. -/
theorem Finished.delivered (h : Finished request n w) :
    (w.delivered n).map persistedEvent = untilStop (w.log (request n).1) := by
  obtain ⟨done, last, hdelivered, hquiet, hstop, after, hlog⟩ := h
  rw [hdelivered, ← hlog, List.map_append, List.append_assoc,
    untilStop_append _ (quiet_persisted hquiet)]
  show _ ++ [persistedEvent last] = _ ++ untilStop (persistedEvent last :: after)
  rw [untilStop, stopsStream_persistedEvent, hstop]
  rfl

/-- Delivering the next event of the log stays a beginning of the log up to the stop. -/
theorem prefix_untilStop {done log : List DomainEvent} (event : DomainEvent)
    (hquiet : ∀ e ∈ done, stopsStream e = false)
    (hlog : (done ++ [event]).map persistedEvent <+: log) :
    (done ++ [event]).map persistedEvent <+: untilStop log := by
  obtain ⟨after, rfl⟩ := hlog
  rw [List.map_append, List.append_assoc, untilStop_append _ (quiet_persisted hquiet)]
  refine (List.prefix_append_right_inj _).mpr ?_
  show [persistedEvent event] <+: untilStop (persistedEvent event :: after)
  rw [untilStop]
  split
  · exact List.prefix_rfl
  · exact ⟨untilStop after, rfl⟩

/-- Where a watcher may be when a round of its loop ends. -/
def pre (script : Script) (request : Nat → RunId × CancellationToken) : Pid → Point → World → Prop
  | .engine r, .publish k => Publishing script request r k (.notifying [])
  | .watcher n, .watch => Waiting request n
  | .watcher n, .live listener seen => fun w => listener = n ∧
      ∃ p done, Reading request n p done [] w ∧ ∀ id, id ∈ seen ↔ id ∈ done.map DomainEvent.id
  | _, _ => fun _ => False

def post (request : Nat → RunId × CancellationToken) : Pid → World → Prop
  | .engine _ => fun _ => False
  | .watcher n => Finished request n

def exit (script : Script) (request : Nat → RunId × CancellationToken) (i : Pid) :
    Point ⊕ Unit → World → Prop
  | .inl s => pre script request i s
  | .inr _ => post request i

section Watcher

variable {p : Nat} {done todo : List DomainEvent}

theorem guar_unsubscribe (hw : Sound request w) :
    Guar script request (.watcher n) w { w with listeners := w.listeners.erase n } := by
  refine guar_watcher rfl rfl (fun h => h.erase n) (fun m hm => ?_) (fun _ _ => rfl)
    (fun _ _ => rfl) (fun _ _ => rfl) (hw.delivered n)
  rw [List.filter_eq, List.filter_eq]
  show List.replicate ((w.listeners.erase n).count m) m = _
  rw [List.count_erase_of_ne hm]

/-- Closing the subscription and raising. -/
theorem wp_dispose {e : Exn} {Q : Point ⊕ Unit → World → Prop} (h : Sound request w) :
    wp (contract script request (.watcher n))
      (.call (Op.unsubscribe n) fun _ => .raise e : Program (Point ⊕ Unit)) Q (fun _ _ => True) w := by
  refine wp_call _ h (fun _ _ (hrely : RelyWatcher request n _ _) h => hrely.sound h) ?_
  intro w _ w' h hexec
  have hexec : some { w with listeners := w.listeners.erase n } = some w' := hexec
  obtain rfl := Option.some.inj hexec
  exact ⟨guar_unsubscribe h, trivial⟩

/-- **Delivering the next event**, and stopping there or going on. -/
theorem wp_deliver {next : Program (Point ⊕ Unit)}
    (h : Reading request n p done (event :: todo) w)
    (hnext : ∀ w, Reading request n p (done ++ [event]) todo w →
      wp (contract script request (.watcher n)) next (exit script request (.watcher n))
        (fun _ _ => True) w) :
    wp (contract script request (.watcher n))
      (.call (Op.yieldReturn event) fun _ =>
        if stopsStream event then .call (Op.unsubscribe n) fun _ => .ret (.inr ()) else next)
      (exit script request (.watcher n)) (fun _ _ => True) w := by
  refine wp_call _ h (fun _ _ hrely h => h.step hrely) ?_
  intro w _ w' h hexec
  have hexec : some (w.yield n event) = some w' := hexec
  obtain rfl := Option.some.inj hexec
  have hdelivered : (w.yield n event).delivered n = done ++ [event] := by
    rw [← h.delivered]
    exact Function.update_self ..
  have hlog : (done ++ [event]).map persistedEvent <+: w.log (request n).1 := by
    refine List.IsPrefix.trans ?_ h.log
    rw [List.append_cons done event todo]
    exact (List.prefix_append _ _).map persistedEvent
  have hguar : Guar script request (.watcher n) w (w.yield n event) := by
    refine guar_watcher rfl rfl (fun h => h) (fun _ _ => rfl) (fun _ _ => rfl) (fun _ _ => rfl)
      (fun m hm => Function.update_of_ne hm _ _) ?_
    rw [hdelivered]
    exact prefix_untilStop event h.quiet hlog
  refine ⟨hguar, ?_⟩
  split
  · next hstop =>
      have hfinished : Finished request n (w.yield n event) :=
        ⟨done, event, hdelivered, h.quiet, hstop, hlog⟩
      refine wp_call (fun w => Finished request n w ∧ Sound request w)
        ⟨hfinished, hguar.sound h.sound⟩
        (fun _ _ hrely h => ⟨h.1.step hrely, hrely.sound h.2⟩) ?_
      rintro w₁ _ w₂ ⟨hfinished, hsound⟩ hexec
      have hexec : some { w₁ with listeners := w₁.listeners.erase n } = some w₂ := hexec
      obtain rfl := Option.some.inj hexec
      exact ⟨guar_unsubscribe hsound, hfinished⟩
  · next hstop =>
      refine hnext _ ⟨hguar.sound h.sound, ?_, hdelivered, ?_, ?_, ?_⟩
      · exact ⟨h.linked.listens, h.linked.topic, h.linked.le, h.linked.rest⟩
      · have := h.log
        rwa [List.append_cons] at this
      · intro e he
        rcases List.mem_append.mp he with hold | hnew
        · exact h.quiet e hold
        · rw [List.mem_singleton.mp hnew]
          simpa using hstop
      · have := h.le
        rwa [List.append_cons] at this

/-- The replay delivers what it has read. -/
theorem wp_replay {recorded : List DomainEvent} {seen : List String}
    (h : Reading request n p done recorded w)
    (hseen : ∀ id, id ∈ seen ↔ id ∈ done.map DomainEvent.id) :
    wp (contract script request (.watcher n)) (replay n seen recorded)
      (exit script request (.watcher n)) (fun _ _ => True) w := by
  induction recorded generalizing done seen w with
  | nil => exact ⟨rfl, p, done, h, hseen⟩
  | cons event rest ih =>
      refine wp_deliver h fun w h => ih h fun id => ?_
      rw [List.mem_cons, hseen, List.map_append, List.mem_append, or_comm]
      exact or_congr_right List.mem_singleton.symm

/-- **Subscribing**: whatever the log does not hold yet will reach the channel, and an event that is
committed but not published reaches both. -/
theorem subscribe_linked (r : RunId) (h : Waiting request n w) :
    ∃ p, Linked n r p (w.subscribed n r) := by
  have hlistens : n ∈ (w.subscribed n r).listeners :=
    List.mem_append.mpr (.inr List.mem_cons_self)
  have htopic : (w.subscribed n r).topic n = some r := Function.update_self ..
  have hchannel : (w.subscribed n r).channel n = [] := Function.update_self ..
  have hlog : (w.subscribed n r).log r = w.log r := rfl
  cases hpub : w.publication r with
  | committed event =>
      obtain ⟨old, hold⟩ := h.sound.committed r event hpub
      have howed : (w.subscribed n r).owed r n = [event] := by
        show (w.publication r).owed (w.listeners ++ [n]) n = [event]
        rw [hpub, Publication.owed, List.filter_append, List.filter_eq,
          List.count_eq_zero_of_not_mem h.absent.listeners]
        simp
      refine ⟨old.length, hlistens, htopic, ?_, ?_⟩
      · rw [hlog, hold, List.length_append]
        omega
      · rw [hlog, hold, hchannel, howed, List.drop_left]
        rfl
  | notifying out =>
      have howed : (w.subscribed n r).owed r n = [] := by
        show (w.publication r).owed (w.listeners ++ [n]) n = []
        rw [hpub, Publication.owed, List.map_eq_nil_iff, List.filter_eq_nil_iff]
        intro m hm
        simpa using h.absent.outstanding r out hpub m hm
      refine ⟨(w.log r).length, hlistens, htopic, hlog ▸ Nat.le_refl _, ?_⟩
      rw [hlog, hchannel, howed, List.drop_length]
      rfl

variable (script) in
theorem guar_subscribe (r : RunId) (h : Waiting request n w) :
    Guar script request (.watcher n) w (w.subscribed n r) := by
  refine guar_watcher rfl rfl (fun hnodup => ?_) (fun m hm => ?_)
    (fun m hm => Function.update_of_ne hm _ _) (fun m hm => Function.update_of_ne hm _ _)
    (fun _ _ => rfl) (h.sound.delivered n)
  · exact List.nodup_append.mpr ⟨hnodup, List.nodup_singleton _, fun a ha b hb heq =>
      h.absent.listeners (List.mem_singleton.mp hb ▸ heq ▸ ha)⟩
  · show (w.listeners ++ [n]).filter (· = m) = _
    rw [List.filter_append, List.filter_cons_of_neg (by simpa using hm.symm)]
    exact List.append_nil _

/-- Subscribing, reading the log and replaying it. -/
theorem wp_watchAsync (h : Waiting request n w) :
    wp (contract script request (.watcher n)) (watchAsync (request n).1 (request n).2)
      (exit script request (.watcher n)) (fun _ _ => True) w := by
  simp only [watchAsync, disposing, Prog.bind_eq, Prog.op_bind, Prog.tryCatch_eq]
  refine wp_call _ h (fun _ _ hrely h => h.step hrely) ?_
  intro w live w' h hexec
  have hexec : (if live = n then some (w.subscribed n (request n).1) else none) = some w' := hexec
  obtain ⟨hlive, hw'⟩ : n = live ∧ w.subscribed n (request n).1 = w' := by
    simpa [eq_comm] using hexec
  subst hlive hw'
  have hguar := guar_subscribe script (request n).1 h
  obtain ⟨p, hlinked⟩ := subscribe_linked (request n).1 h
  refine ⟨hguar, ?_⟩
  simp only [Prog.call_bind, Prog.call_handle]
  refine wp_call
    (fun w => Sound request w ∧ Linked n (request n).1 p w ∧ w.delivered n = [])
    ⟨hguar.sound h.sound, hlinked, h.delivered⟩
    (fun _ _ (hrely : RelyWatcher request n _ _) h =>
      ⟨hrely.sound h.1, hrely.linked _ _ h.2.1, hrely.delivered.trans h.2.2⟩) ?_
  intro w answer w' ⟨hsound, hlinked, hdelivered⟩ hexec
  obtain ⟨db, hanswers, rfl⟩ := Option.map_eq_some_iff.mp hexec
  refine ⟨.refl script request _ _, ?_⟩
  cases answer with
  | error e => exact wp_dispose hsound
  | ok recorded =>
      have hrecorded : recorded = w.db.eventsOf (request n).1 := by
        have hanswers : (if recorded = w.db.eventsOf (request n).1 then some w.db else none) =
            some db := hanswers
        split at hanswers
        · assumption
        · cases hanswers
      refine wp_replay (p := p) ⟨hsound, hlinked, hdelivered, ?_, by simp, ?_⟩ fun id => by simp
      · rw [hrecorded]
        exact List.prefix_rfl
      · rw [hrecorded, List.nil_append, ← List.length_map (f := persistedEvent)]
        exact hlinked.le

/-- The head of the channel is the log's entry at its position. -/
theorem linked_read {r : RunId} (h : Linked n r p w) (hhead : (w.channel n).head? = some event) :
    (∃ rest, (w.log r).drop p = persistedEvent event :: rest) ∧ Linked n r (p + 1) (w.read n) := by
  obtain ⟨rest, hchannel⟩ := List.head?_eq_some_iff.mp hhead
  have hrest := h.rest
  rw [hchannel] at hrest
  refine ⟨⟨_, hrest⟩, h.listens, h.topic, ?_, ?_⟩
  · have hlen := congrArg List.length hrest
    simp only [List.length_drop, List.cons_append, List.map_cons, List.length_cons] at hlen
    show p + 1 ≤ (w.log r).length
    omega
  · have htail : (w.read n).channel n = rest := by
      show Function.update w.channel n (w.channel n).tail n = rest
      rw [Function.update_self, hchannel]
      rfl
    rw [htail, ← List.drop_drop]
    show List.drop 1 ((w.log r).drop p) = _
    rw [hrest]
    rfl

/-- One event from the channel: a repeated one is dropped, the next one is delivered. -/
theorem wp_watchLive {seen : List String} {ct : CancellationToken}
    (h : Reading request n p done [] w) (hseen : ∀ id, id ∈ seen ↔ id ∈ done.map DomainEvent.id) :
    wp (contract script request (.watcher n)) (watchLive n seen ct)
      (exit script request (.watcher n)) (fun _ _ => True) w := by
  simp only [watchLive, disposing, Prog.bind_eq, Prog.op_bind, Prog.tryCatch_eq, Prog.call_handle,
    Prog.call_bind]
  refine wp_call _ h (fun _ _ hrely h => h.step hrely) ?_
  intro w answer w' h hexec
  cases answer with
  | error e =>
      have hexec : (if ct = .source ∧ e = .operationCanceled then some w else none) = some w' := hexec
      obtain ⟨_, rfl⟩ : (ct = .source ∧ e = .operationCanceled) ∧ w = w' := by simpa using hexec
      exact ⟨.refl script request _ _, wp_dispose h.sound⟩
  | ok event =>
      have hexec : (if (w.channel n).head? = some event then some (w.read n) else none) = some w' :=
        hexec
      obtain ⟨hhead, rfl⟩ : (w.channel n).head? = some event ∧ w.read n = w' := by simpa using hexec
      have hguar : Guar script request (.watcher n) w (w.read n) :=
        guar_watcher rfl rfl (fun h => h) (fun _ _ => rfl) (fun _ _ => rfl)
          (fun m hm => Function.update_of_ne hm _ _) (fun _ _ => rfl) (h.sound.delivered n)
      refine ⟨hguar, ?_⟩
      obtain ⟨⟨rest, hdrop⟩, hlinked⟩ := linked_read h.linked hhead
      have hlog := h.log
      rw [List.append_nil] at hlog
      have hle := h.le
      rw [List.append_nil] at hle
      -- An event was delivered before exactly if its position comes before the next one to deliver.
      have hmem : event.id ∈ done.map DomainEvent.id ↔ p < done.length := by
        have := mem_prefix_iff (World.log_ids_nodup h.sound.ids _) hlog hdrop
        rwa [List.map_map, List.length_map] at this
      simp only [Prog.ofExcept_ok, Prog.ret_handle, Prog.ret_bind]
      split
      · next hcontains =>
          have hp := hmem.mp ((hseen _).mp (List.contains_iff_mem.mp hcontains))
          exact ⟨rfl, p + 1, done, ⟨hguar.sound h.sound, hlinked, h.delivered, h.log, h.quiet,
            by rw [List.append_nil]; omega⟩, hseen⟩
      · next hcontains =>
          have hp : p = done.length := by
            have hnot : ¬ p < done.length := fun hp =>
              hcontains (List.contains_iff_mem.mpr ((hseen _).mpr (hmem.mpr hp)))
            omega
          have hnext : (done ++ [event]).map persistedEvent <+: w.log (request n).1 := by
            rw [List.map_append]
            exact prefix_snoc hlog (by rw [List.length_map, ← hp]; exact hdrop)
          have hreading : Reading request n (p + 1) done [event] (w.read n) :=
            ⟨hguar.sound h.sound, hlinked, h.delivered, hnext, h.quiet,
              by rw [List.length_append, hp]; exact Nat.le_refl _⟩
          refine wp_deliver hreading fun w h => ⟨rfl, p + 1, done ++ [event], h, fun id => ?_⟩
          rw [List.mem_cons, hseen, List.map_append, List.mem_append, or_comm]
          exact or_congr_right List.mem_singleton.symm

end Watcher

/-- Engines and watchers keep to their contracts. -/
def outline (script : Script) (request : Nat → RunId × CancellationToken) :
    Outline (system script request) where
  rely := Rely script request
  guar i _ w _ w' := Guar script request i w w'
  pre := pre script request
  post i _ := post request i
  fail _ _ _ := True
  rely_refl := rely_refl script request
  rely_trans := rely_trans script request
  guar_rely _ j _ _ _ _ hij h := h.rely j hij
  pre_stable i s w w' hrely h := by
    cases i with
    | engine r =>
        cases s with
        | publish k => exact Publishing.step h hrely
        | watch => exact h
        | live listener seen => exact h
    | watcher n =>
        cases s with
        | publish k => exact h
        | watch => exact Waiting.step h hrely
        | live listener seen =>
            obtain ⟨hn, p, done, hreading, hseen⟩ := h
            exact ⟨hn, p, done, hreading.step hrely, hseen⟩
  post_stable i _ w w' hrely h := by
    cases i with
    | engine r => exact h
    | watcher n => exact Finished.step h hrely
  fail_stable _ _ _ _ _ h := h
  body i s w hw := by
    cases i with
    | engine r =>
        cases s with
        | publish k =>
            refine wp_seq (M := fun _ => Publishing script request r (k + 1) (.notifying []))
              (wp_handle.mpr ?_) fun _ _ h => h
            exact wp_mono (wp_commit hw) (fun _ _ h => h) fun _ _ h => h
        | watch => exact hw.elim
        | live listener seen => exact hw.elim
    | watcher n =>
        cases s with
        | publish k => exact hw.elim
        | watch =>
            refine wp_mono (wp_watchAsync hw) (fun x w h => ?_) fun _ _ h => h
            cases x <;> exact h
        | live listener seen =>
            obtain ⟨rfl, p, done, hreading, hseen⟩ := hw
            refine wp_mono (wp_watchLive hreading hseen) (fun x w h => ?_) fun _ _ h => h
            cases x <;> exact h

/-- **A watcher loses nothing and repeats nothing.** In every reachable state, what the `n`-th
`WatchAsync` has delivered is a beginning of its run's log up to the first stopping event, without a
repeated id; it is all of it once the watcher is done, and it is the whole log while the watcher has
nothing to read and the engine of the run is between two commits. -/
theorem watch_delivers (script : Script) (request : Nat → RunId × CancellationToken) (db : Database)
    (hdb : (db.events.map DomainEvent.id).Nodup)
    (hfresh : ∀ r k, (script.commits r k).event.id ∉ db.events.map DomainEvent.id)
    {c : Conf Pid Op Ret Exn Point Unit World}
    (h : (system script request).Steps ((system script request).init start { db }) c) (n : Nat) :
    let delivered := (c.world.delivered n).map persistedEvent
    let log := c.world.log (request n).1
    delivered <+: untilStop log ∧ (delivered.map DomainEvent.id).Nodup ∧
      (c.cur (.watcher n) = .ret (.inr ()) → delivered = untilStop log) ∧
      (∀ listener seen k, c.cur (.watcher n) = .ret (.inl (.live listener seen)) →
        c.world.channel n = [] → c.cur (.engine (request n).1) = .ret (.inl (.publish k)) →
        delivered = log) := by
  have hsound : Sound request { db } := by
    refine ⟨hdb, List.nodup_nil, fun r event he => ?_, fun m => List.nil_prefix⟩
    cases he
  have hinit : (outline script request).Holds ((system script request).init start { db }) := by
    refine Outline.holds_init _ fun i => ?_
    cases i with
    | engine r => exact ⟨hsound, rfl, fun k _ => hfresh r k⟩
    | watcher n =>
        refine ⟨hsound, ⟨List.not_mem_nil, fun r out hout => ?_⟩, rfl⟩
        cases hout
        exact fun m hm => absurd hm List.not_mem_nil
  have hholds := Outline.holds_steps _ hinit h
  have hnow : Sound request c.world :=
    Outline.world_steps (P := Sound request) (outline script request)
      (fun _ _ _ _ _ hguar => Guar.sound hguar) hinit hsound h
  have hbegins := hnow.delivered n
  refine ⟨hbegins, ?_, fun hret => ?_, fun listener seen k hlive hchannel hengine => ?_⟩
  · have hnodup := World.log_ids_nodup hnow.ids (request n).1
    exact hnodup.sublist ((hbegins.trans (untilStop_isPrefix _)).sublist.map _)
  · have hpost := Outline.post_of_ret _ hholds hret
    exact Finished.delivered hpost
  · have hwatcher := hholds (.watcher n)
    rw [hlive] at hwatcher
    obtain ⟨_, p, done, hreading, _⟩ := hwatcher
    have hpublishing := hholds (.engine (request n).1)
    rw [hengine] at hpublishing
    have howed : c.world.owed (request n).1 n = [] := by
      rw [World.owed, hpublishing.publication]
      rfl
    -- Nothing is in the channel or on the way, so the position is the end of the log.
    have hrest := hreading.linked.rest
    rw [hchannel, howed] at hrest
    have hend : (c.world.log (request n).1).length ≤ p := List.drop_eq_nil_iff.mp hrest
    have hlog := hreading.log
    have hle := hreading.le
    rw [List.append_nil] at hlog hle
    rw [hreading.delivered]
    refine hlog.eq_of_length_le ?_
    rw [List.length_map]
    omega

/-! ### A watcher that subscribes between a commit and its publication -/

/-- The `k`-th event of a run: first to running, then to verifying. -/
def transition (r : RunId) (k : Nat) : DomainEvent where
  id := String.ofList (List.replicate k '+' ++ '-' :: r.value.toList)
  timestamp := ⟨0, 0⟩
  type := .stateChange
  projectId := "atlas"
  runId := some r
  payload := .obj [("next", .str (if k = 0 then RunState.running.name else RunState.verifying.name))]

theorem replicate_append_inj {k k' : Nat} {xs ys : List Char}
    (h : List.replicate k '+' ++ '-' :: xs = List.replicate k' '+' ++ '-' :: ys) :
    k = k' ∧ xs = ys := by
  induction k generalizing k' with
  | zero => cases k' <;> simp_all [List.replicate_succ]
  | succ k ih =>
      cases k' with
      | zero => simp [List.replicate_succ] at h
      | succ k' =>
          rw [List.replicate_succ, List.replicate_succ, List.cons_append, List.cons_append] at h
          obtain ⟨rfl, rfl⟩ := ih (List.cons.inj h).2
          exact ⟨rfl, rfl⟩

def transitions : Script where
  commits r k := ⟨.run { (default : Run) with id := r }, transition r k, .source⟩
  runId _ _ := rfl
  distinct r k r' k' h := by
    obtain ⟨hk, hr⟩ := replicate_append_inj (String.ofList_injective h)
    exact ⟨congrArg RunId.mk (String.toList_injective hr), hk⟩

def watched : RunId := ⟨"run-1"⟩

def requests : Nat → RunId × CancellationToken := fun _ => (watched, .none)

def answer : (o : Op) → World → Ret o
  | .executeInTransaction .., _ => .ok ()
  | .listeners, w => w.listeners
  | .selectEvents id _, w => .ok (w.db.eventsOf id)
  | .readChannel n _, w => .ok ((w.channel n).headD default)
  | .subscribe _, _ => (0 : Nat)
  | _, _ => default

def schedule : List (Pid × ((o : Op) → World → Ret o)) :=
  let engine := (Pid.engine watched, answer)
  let watcher := (Pid.watcher 0, answer)
  engine :: List.replicate 3 watcher ++ List.replicate 6 engine ++ List.replicate 6 watcher

/-- The first event reaches the watcher twice, from the log and from the channel; it is delivered
once, and the second one ends the stream. -/
theorem watch_delivers_between :
    let S := system transitions requests
    let c := S.play schedule (S.init start { db := {} })
    (c.world.delivered 0).map DomainEvent.id = ["-run-1", "+-run-1"] ∧
      (c.world.delivered 0).map persistedEvent = untilStop (c.world.log watched) :=
  ⟨rfl, (watch_delivers transitions requests {} List.nodup_nil (fun _ _ => List.not_mem_nil)
    (System.play_steps _ schedule _) 0).2.2.1 rfl⟩

end Watch

end AtlasFlow
