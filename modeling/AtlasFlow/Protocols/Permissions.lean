import AtlasFlow.Protocols.PromptTurn

/-!
# Permission requests

An agent asks for permission with a request that has options of several kinds; the client asks its policy, and the
connection sends the reply. An option that allows something is selected only where the policy said so
(`permissions_fail_closed`).
-/

namespace AtlasFlow.Acp.Client

open Concurrency SessionUpdateNormalizer

variable (platform : Platform)

/-- A call with its answer. -/
abbrev Answered := (o : ClientOp) × ClientRet o

/-- What the calls of the read loop do, with a record of them. -/
def answering (o : ClientOp) (s : Turn.World × List Answered) (r : ClientRet o) : Option (Turn.World × List Answered) :=
  (Turn.exec platform .reader o s.1 r).map fun w => (w, s.2 ++ [⟨o, r⟩])

/-- What the policy was asked, and what it answered. -/
def consultations (calls : List Answered) : List (PermissionRequest × Except Exn Bool) :=
  calls.filterMap fun call => match call with
    | ⟨.policy request, answer⟩ => some (request, answer)
    | _ => none

/-- The messages that were written. -/
def replies (calls : List Answered) : List JsonObject :=
  calls.filterMap fun call => match call with
    | ⟨.write message, _⟩ => some message
    | _ => none

/-- The id of an option as a text, if it has one. -/
def idText (option : JsonObject) : Option String :=
  match tryGetPropertyValue option "optionId" with
  | .ok (some id) => if id = .null then none else some (id.nodeToString platform.lineEnd)
  | _ => none

def HasKind (option : JsonObject) (kind : String) : Prop := tryGetPropertyValue option "kind" = .ok (some (.str kind))

/-- The option allows what is asked for, once or from now on. -/
def Allows (option : JsonObject) : Prop := HasKind option "allow_once" ∨ HasKind option "allow_always"

/-- The answer to a request selects an option by its id. -/
def Selects (answer : Json) (option : JsonObject) : Prop :=
  ∃ id, idText platform option = some id ∧ answer = outcome "selected" (some id)

/-- Nothing is allowed unless the policy allowed it, and what is not allowed is refused and written down. -/
structure FailsClosed (request : PermissionRequest) (allowed : Bool) (answer : Json) (denied : List String) : Prop where
  granted : ∀ option ∈ request.options, Selects platform answer option → Allows option → allowed = true
  refused : (¬ ∃ option ∈ request.options, Selects platform answer option ∧ Allows option) →
    (answer = outcome "cancelled" none ∨
      ∃ option ∈ request.options, Selects platform answer option ∧ HasKind option "reject_once") ∧
    request.toolName ∈ denied

/-! ## Options -/

variable {platform}

theorem HasKind.eq {option : JsonObject} {kind kind' : String} (h : HasKind option kind) (h' : HasKind option kind') :
    kind = kind' := by
  rw [HasKind] at h h'
  rw [h] at h'
  exact Json.str.inj (Option.some.inj (Except.ok.inj h'))

theorem str_of_stringOf {node : Json} {text : String} (h : Acp.stringOf node = .ok text) (hnode : node ≠ .null) :
    node = .str text := by
  cases node with
  | null => exact absurd rfl hnode
  | str s =>
      cases h
      rfl
  | bool | num | arr | obj => cases h

/-- The option that is found has the kind that is looked for, and the id that is given back. -/
theorem optionId_found {kind : String} {options : List JsonObject} {id : String}
    (h : optionId platform kind options = .ok (some id)) :
    ∃ option ∈ options, HasKind option kind ∧ idText platform option = some id := by
  induction options with
  | nil => cases h
  | cons option options ih =>
      have hlater : optionId platform kind options = .ok (some id) →
          ∃ option' ∈ option :: options, HasKind option' kind ∧ idText platform option' = some id := by
        intro h
        obtain ⟨option', hmem, hfound⟩ := ih h
        exact ⟨option', List.mem_cons_of_mem _ hmem, hfound⟩
      rw [optionId] at h
      obtain ⟨found, hfound, h⟩ := Attempts.of_bind_ok h
      split at h
      · exact hlater h
      · exact hlater h
      · next node hnull =>
        obtain ⟨text, htext, h⟩ := Attempts.of_bind_ok h
        split at h
        · next hkind =>
          obtain ⟨value, hvalue, h⟩ := Attempts.of_bind_ok h
          split at h
          · exact hlater h
          · exact hlater h
          · next id hid =>
            cases h
            refine ⟨option, List.mem_cons_self, ?_, ?_⟩
            · rw [HasKind, hfound, str_of_stringOf htext hnull, hkind]
            · rw [idText, hvalue]
              exact if_neg hid
        · exact hlater h

theorem grantedId_found {options : List JsonObject} {id : String} (h : grantedId platform options = .ok (some id)) :
    ∃ option ∈ options, Allows option ∧ idText platform option = some id := by
  rw [grantedId] at h
  obtain ⟨found, hfound, h⟩ := Attempts.of_bind_ok h
  cases found with
  | some id' =>
      cases h
      obtain ⟨option, hmem, hkind, hid⟩ := optionId_found hfound
      exact ⟨option, hmem, .inl hkind, hid⟩
  | none =>
      obtain ⟨option, hmem, hkind, hid⟩ := optionId_found h
      exact ⟨option, hmem, .inr hkind, hid⟩

theorem eq_of_filterMap {α β : Type} {f : α → Option β} {xs : List α} (h : (xs.filterMap f).Nodup) {x y : α}
    (hx : x ∈ xs) (hy : y ∈ xs) {b : β} (hfx : f x = some b) (hfy : f y = some b) : x = y := by
  induction xs with
  | nil => cases hx
  | cons z xs ih =>
      have hhead : ∀ {u : α}, f z = some b → u ∈ xs → f u = some b → False := by
        intro u hz hu hfu
        rw [List.filterMap_cons_some hz, List.nodup_cons] at h
        exact h.1 (List.mem_filterMap.mpr ⟨u, hu, hfu⟩)
      have htail : (xs.filterMap f).Nodup := by
        cases hz : f z with
        | none => rwa [List.filterMap_cons_none hz] at h
        | some c =>
            rw [List.filterMap_cons_some hz, List.nodup_cons] at h
            exact h.2
      rcases List.mem_cons.mp hx with rfl | hx'
      · rcases List.mem_cons.mp hy with rfl | hy'
        · rfl
        · exact (hhead hfx hy' hfy).elim
      · rcases List.mem_cons.mp hy with rfl | hy'
        · exact (hhead hfy hx' hfx).elim
        · exact ih htail hx' hy'

theorem outcome_inj {text text' id id' : String} (h : outcome text (some id) = outcome text' (some id')) : id = id' := by
  simp only [outcome, Json.obj.injEq, List.cons.injEq, Prod.mk.injEq, Json.str.injEq] at h
  exact h.1.2.2.1.2

theorem Selects.eq {options : List JsonObject} (hids : (options.filterMap (idText platform)).Nodup) {id : String}
    {option option' : JsonObject} (hmem : option ∈ options) (hid : idText platform option = some id)
    (hmem' : option' ∈ options) (h : Selects platform (outcome "selected" (some id)) option') : option' = option := by
  obtain ⟨id', hid', hanswer⟩ := h
  rw [← outcome_inj hanswer] at hid'
  exact eq_of_filterMap hids hmem' hmem hid' hid

/-! ## The handler -/

section Handler

variable {request : PermissionRequest} {id : String} {denied : List String}

/-- A granted request: the policy allowed it. -/
theorem failsClosed_granted (h : grantedId platform request.options = .ok (some id)) :
    FailsClosed platform request true (outcome "selected" (some id)) denied where
  granted _ _ _ _ := rfl
  refused hnone := by
    obtain ⟨option, hmem, hallows, hid⟩ := grantedId_found h
    exact absurd ⟨option, hmem, ⟨id, hid, rfl⟩, hallows⟩ hnone

/-- A refused request: an option to reject it is selected, which is no option that allows it. -/
theorem failsClosed_rejected (hids : (request.options.filterMap (idText platform)).Nodup) (allowed : Bool)
    (h : optionId platform "reject_once" request.options = .ok (some id)) (hdenied : request.toolName ∈ denied) :
    FailsClosed platform request allowed (outcome "selected" (some id)) denied := by
  obtain ⟨option, hmem, hkind, hid⟩ := optionId_found h
  constructor
  · intro option' hmem' hselects hallows
    rw [hselects.eq hids hmem hid hmem'] at hallows
    rcases hallows with honce | halways
    · exact absurd (hkind.eq honce) (by decide)
    · exact absurd (hkind.eq halways) (by decide)
  · intro _
    exact ⟨.inr ⟨option, hmem, ⟨id, hid, rfl⟩, hkind⟩, hdenied⟩

theorem failsClosed_cancelled (allowed : Bool) (hdenied : request.toolName ∈ denied) :
    FailsClosed platform request allowed (outcome "cancelled" none) denied where
  granted option _ hselects _ := by
    obtain ⟨id, _, hanswer⟩ := hselects
    exact absurd hanswer (by simp [outcome])
  refused _ := ⟨.inl rfl, hdenied⟩

end Handler

variable (platform) in
abbrev handling : Contract ClientOp ClientRet (Turn.World × List Answered) :=
  alone (answering platform) fun _ _ _ _ => True

variable (platform) in
/-- The handler has an answer: the policy was asked, once, and the answer fails closed. -/
def Replied (parameters : JsonObject) (answer : Json) (s : Turn.World × List Answered) : Prop :=
  replies s.2 = [] ∧ ∃ request allowed, permissionRequestOf platform parameters = .ok request ∧
    consultations s.2 = [(request, .ok allowed)] ∧ ((request.options.filterMap (idText platform)).Nodup →
      FailsClosed platform request allowed answer s.1.client.denied)

/-- The handler threw. -/
def Threw (s : Turn.World × List Answered) : Prop := replies s.2 = [] ∧ (consultations s.2).length ≤ 1

theorem wp_onPermissionRequestAsync (parameters : JsonObject) (w : Turn.World) :
    wp (handling platform) (onPermissionRequestAsync platform parameters) (Replied platform parameters)
      (fun _ => Threw) (w, []) := by
  simp only [onPermissionRequestAsync, Prog.bind_eq, Prog.op_bind]
  cases hrequest : permissionRequestOf platform parameters with
  | error e => exact ⟨rfl, Nat.zero_le 1⟩
  | ok request =>
      refine wp_alone_call fun _ s hlisted => ⟨trivial, ?_⟩
      cases hlisted
      refine wp_alone_call fun answer s hasked => ⟨trivial, ?_⟩
      cases hasked
      cases answer with
      | error e => exact ⟨rfl, Nat.le_refl 1⟩
      | ok allowed =>
          simp only [Prog.ofExcept_ok, Prog.ret_bind]
          cases hgranted : if allowed then grantedId platform request.options else .ok none with
          | error e => exact ⟨rfl, Nat.le_refl 1⟩
          | ok found =>
              cases found with
              | some id =>
                  cases allowed with
                  | false => cases hgranted
                  | true => exact ⟨rfl, request, true, hrequest, rfl, fun _ => failsClosed_granted hgranted⟩
              | none =>
                  refine wp_alone_call fun _ s hdenied => ⟨trivial, ?_⟩
                  cases hdenied
                  cases hrejected : optionId platform "reject_once" request.options with
                  | error e => exact ⟨rfl, Nat.le_refl 1⟩
                  | ok found =>
                      have hlast : request.toolName ∈ w.client.denied ++ [request.toolName] :=
                        List.mem_append_right _ (List.mem_singleton_self _)
                      cases found with
                      | some id =>
                          exact ⟨rfl, request, allowed, hrequest, rfl, fun hids =>
                            failsClosed_rejected hids allowed hrejected hlast⟩
                      | none => exact ⟨rfl, request, allowed, hrequest, rfl, fun _ => failsClosed_cancelled allowed hlast⟩

variable (platform) in
/-- What the calls of a request come to. -/
def Handled (message : JsonObject) (idNode : Json) (s : Turn.World × List Answered) : Prop :=
  ∃ reply, replies s.2 = [reply] ∧ (consultations s.2).length ≤ 1 ∧
    ((∃ text, reply = errorMessage idNode (-32603) text) ∨
      ∃ request allowed answer, permissionRequestOf platform (paramsOf message) = .ok request ∧
        consultations s.2 = [(request, .ok allowed)] ∧ reply = resultMessage idNode answer ∧
          ((request.options.filterMap (idText platform)).Nodup →
            FailsClosed platform request allowed answer s.1.client.denied))

theorem replies_write (calls : List Answered) (message : JsonObject) (written : Except Exn Unit) :
    replies (calls ++ [⟨.write message, written⟩]) = replies calls ++ [message] := by
  rw [replies, List.filterMap_append]
  rfl

theorem consultations_write (calls : List Answered) (message : JsonObject) (written : Except Exn Unit) :
    consultations (calls ++ [⟨.write message, written⟩]) = consultations calls := by
  rw [consultations, List.filterMap_append]
  exact List.append_nil _

/-- The reply is written last. -/
theorem wp_reply {reply : JsonObject} {Q : Turn.World × List Answered → Prop} {s : Turn.World × List Answered}
    (h : ∀ written, Q (s.1, s.2 ++ [⟨.write reply, written⟩])) :
    wp (handling platform) (Prog.bind (Prog.op (.write reply)) Prog.ofExcept : ClientProgram Unit) (fun _ => Q)
      (fun _ => Q) s := by
  refine wp_alone_call fun written s' hwritten => ⟨trivial, ?_⟩
  cases hwritten
  cases written with
  | error e => exact h (.error e)
  | ok u => exact h (.ok u)

theorem wp_handleRequestAsync (message : JsonObject) (idNode : Json) (w : Turn.World) :
    wp (handling platform) (handleRequestAsync platform message (.str "session/request_permission") idNode)
      (fun _ => Handled platform message idNode) (fun _ => Handled platform message idNode) (w, []) := by
  simp only [handleRequestAsync, Acp.stringOf, Prog.ofExcept_ok, Prog.bind_eq, Prog.ret_bind, requestHandler, if_true]
  refine wp_bind.mpr (wp_handle.mpr (wp_bind.mpr (wp_mono (wp_onPermissionRequestAsync (paramsOf message) w) ?_ ?_)))
  · rintro answer s ⟨hreplies, request, allowed, hrequest, hasked, hcloses⟩
    refine wp_reply fun written => ⟨resultMessage idNode answer, ?_⟩
    rw [replies_write, consultations_write, hreplies, hasked]
    exact ⟨rfl, Nat.le_refl 1, .inr ⟨request, allowed, answer, hrequest, rfl, rfl, hcloses⟩⟩
  · rintro e s ⟨hreplies, hasked⟩
    refine wp_reply fun written => ⟨errorMessage idNode (-32603) e.message, ?_⟩
    rw [replies_write, consultations_write, hreplies]
    exact ⟨rfl, hasked, .inl ⟨e.message, rfl⟩⟩

def askFor (toolCall : JsonObject) (options : List Json) : JsonObject :=
  [("method", .str "session/request_permission"), ("id", .num "9"),
    ("params", .obj [("toolCall", .obj toolCall), ("options", .arr options)])]

def optionOf (kind : String) (id : Json) : JsonObject := [("kind", .str kind), ("optionId", id)]

/-- The policy refuses, and everything else goes well. -/
def refusing (o : ClientOp) (s : Turn.World × List Answered) : ClientRet o :=
  match o with
  | .policy _ => .ok false
  | o => Turn.plainly o s.1

abbrev fresh : Turn.World × List Answered := ({ client := { sessionId := some "s1" }, lines := [] }, [])

abbrev Run (message : JsonObject) (out : Except Exn Unit) (s : Turn.World × List Answered) : Prop :=
  Prog.Runs (answering Turn.asciiPlatform)
    (handleRequestAsync Turn.asciiPlatform message (.str "session/request_permission") (.num "9")) fresh out s

def removing : JsonObject :=
  askFor [("title", .str "rm -rf /")] [.obj (optionOf "allow_once" (.str "yes")), .obj (optionOf "reject_once" (.str "no"))]

/-- The title of the tool is there twice. -/
def unreadable : JsonObject := askFor [("title", .str "ls"), ("title", .str "rm")] []

/-- The ids differ, and are the same text. -/
def alike : JsonObject := askFor [("title", .str "rm")]
  [.obj (optionOf "reject_once" (.num "1")), .obj (optionOf "allow_once" (.str "1"))]

end AtlasFlow.Acp.Client
