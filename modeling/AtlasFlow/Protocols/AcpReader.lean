import AtlasFlow.Protocols.AcpCalls

/-!
# What the read loop survives

The read loop takes whatever an agent writes. It skips what is not JSON and reports a faulty request
handler to the agent, but a member it cannot read throws out of it, and so does a notification handler; an
error it cannot read throws when the call is out of the table already. These are the only ways
(`reader_survives`): without them the loop ends with the output, the connection or a pipe only, and every
answer that finds its call pending completes it. With an error code that is no number it stops at once, and
the call waits for its timer (`unreadable_error`).
-/

namespace AtlasFlow.Acp

open Concurrency

/-! ## Lines the loop can read -/

/-- The answer a line is: no method, and an integer id. -/
def answerOf : Line → Option (JsonObject × Int)
  | .value (.obj message) =>
    match tryGetPropertyValue message "method", tryGetPropertyValue message "id" with
    | .ok none, .ok (some node) => (tryReadId node).map fun id => (message, id)
    | _, _ => none
  | _ => none

/-- The member is absent, null, or what `fits` says. -/
def fieldFits (members : JsonObject) (name : String) (fits : Json → Bool) : Bool :=
  match (members.find? fun member => member.1 = name).map Prod.snd with
  | none | some .null => true
  | some node => fits node

def isText : Json → Bool
  | .str _ => true
  | _ => false

/-- A number that is an integer of 32 bits. -/
def isInt : Json → Bool
  | .num literal => (integer? literal).any fun n => -2 ^ 31 ≤ n ∧ n < 2 ^ 31
  | _ => false

/-- The error of an answer, if it is an object, repeats no name; its code, if any, is an integer of 32 bits and
its message, if any, a string. -/
def readableError (message : JsonObject) : Bool :=
  match (message.find? fun member => member.1 = "error").map Prod.snd with
  | some (.obj error) =>
    decide (error.map Prod.fst).Nodup && fieldFits error "code" isInt && fieldFits error "message" isText
  | _ => true

/-- An object repeats no name, and the method of a request is a string. -/
def harmlessLine : Line → Bool
  | .value (.obj message) =>
    decide (message.map Prod.fst).Nodup &&
      (message.all (fun member => member.1 ≠ "id") || fieldFits message "method" isText)
  | _ => true

/-- The method of a notification is a string. -/
def readableMethod : Line → Bool
  | .value (.obj message) => fieldFits message "method" isText
  | _ => true

/-- The line that was read last, of those the agent writes. -/
def lastRead (lines : List Line) (w : World) : Option Line := lines[lines.length - w.lines.length - 1]?

/-- What the loop survives: lines it can read; notifications it can read, if anybody listens; a notification
handler that throws nothing, or gives up because the connection is shut down; errors it can read. -/
def harmless (lines : List Line) : Party → (o : Op) → World → Ret o → Bool
  | .reader, .readLine, _, r =>
      match r with
      | .ok (some line) => harmlessLine line
      | _ => true
  | .reader, .hasListener, w, r => !r || (lastRead lines w).all readableMethod
  | .reader, .notified .., w, r =>
      match r with
      | .ok _ => true
      | .error e => e = .operationCanceled && w.cancelled .shutdown
  | .reader, .tryRemoveFor message _, _, r => r.isNone || readableError message
  | _, _, _, _ => true

/-- The runs in which the read loop meets nothing but that. -/
def harmlessRuns (script : Script) (lines : List Line) : System Party Op Ret Exn Point Json World :=
  (system script).restrict (harmless lines)

/-- What ends the loop: the end of the output, a shutdown, or a pipe that fails. -/
def ends : Party → (o : Op) → Ret o → Bool
  | .reader, .isCancelled _, r => r
  | .reader, .readLine, r =>
      match r with
      | .ok (some _) => false
      | _ => true
  | .reader, .isOpen, r =>
      match r with
      | .ok isOpen => !isOpen
      | .error _ => true
  | .reader, .waitLock _, r | .reader, .write .., r | .reader, .flush _, r | .reader, .release, r
  | .reader, .notified .., r => !r.isOk
  | _, _, _ => false

/-! ### What is read without an exception -/

theorem tryGet_of_nodup {members : JsonObject} (h : (members.map Prod.fst).Nodup) (name : String) :
    tryGetPropertyValue members name = .ok ((members.find? fun member => member.1 = name).map Prod.snd) :=
  if_pos h

theorem nodup_of_tryGet {members : JsonObject} {name : String} {node : Option Json}
    (h : tryGetPropertyValue members name = .ok node) : (members.map Prod.fst).Nodup := by
  unfold tryGetPropertyValue at h
  split at h
  · assumption
  · cases h

theorem fits_cases {members : JsonObject} {name : String} {fits : Json → Bool} (h : fieldFits members name fits = true)
    {node : Json} (hnode : (members.find? fun member => member.1 = name).map Prod.snd = some node) :
    node = .null ∨ fits node = true := by
  rw [fieldFits, hnode] at h
  cases node with
  | null => exact .inl rfl
  | _ => exact .inr h

theorem stringOf_fits {members : JsonObject} {name : String} (h : fieldFits members name isText = true)
    {node : Json} (hnode : (members.find? fun member => member.1 = name).map Prod.snd = some node) :
    ∃ s, stringOf node = .ok s := by
  rcases fits_cases h hnode with rfl | htext
  · exact ⟨"", rfl⟩
  · cases node with
    | str s => exact ⟨s, rfl⟩
    | _ => cases htext

theorem integerOf_isInt {node : Json} (h : isInt node = true) : ∃ n, integerOf 32 node = .ok n := by
  cases node with
  | num literal =>
      cases hn : integer? literal with
      | none => simp [isInt, hn] at h
      | some n =>
          refine ⟨n, ?_⟩
          simp only [isInt, hn, Option.any_some, decide_eq_true_eq] at h
          simp only [integerOf, hn]
          exact if_pos h
  | _ => cases h

/-- An error that can be read is. -/
theorem settlementOf_readable {message : JsonObject} (hnodup : (message.map Prod.fst).Nodup)
    (h : readableError message = true) : ∃ settlement, settlementOf message = .ok settlement := by
  unfold settlementOf
  rw [tryGet_of_nodup hnodup, tryGet_of_nodup hnodup]
  unfold readableError at h
  split at h
  · next error herror =>
      simp only [Bool.and_eq_true, decide_eq_true_eq] at h
      obtain ⟨⟨herrorNodup, hcode⟩, htext⟩ := h
      simp only [herror, tryGet_of_nodup herrorNodup, bind, Except.bind]
      cases hm : (error.find? fun member => member.1 = "message").map Prod.snd with
      | none =>
          cases hc : (error.find? fun member => member.1 = "code").map Prod.snd with
          | none => exact ⟨_, rfl⟩
          | some node =>
              rcases fits_cases hcode hc with rfl | hint
              · exact ⟨_, rfl⟩
              · obtain ⟨n, hn⟩ := integerOf_isInt hint
                cases node with
                | num literal => exact ⟨_, by simp only [hn]; rfl⟩
                | _ => cases hint
      | some text =>
          obtain ⟨s, hs⟩ := stringOf_fits htext hm
          cases hc : (error.find? fun member => member.1 = "code").map Prod.snd with
          | none => exact ⟨_, by simp only [pure, Except.pure, hs]; rfl⟩
          | some node =>
              rcases fits_cases hcode hc with rfl | hint
              · exact ⟨_, by simp only [pure, Except.pure, hs]; rfl⟩
              · obtain ⟨n, hn⟩ := integerOf_isInt hint
                cases node with
                | num literal => exact ⟨_, by simp only [hn, hs]; rfl⟩
                | _ => cases hint
  · next hother =>
      cases herror : (message.find? fun member => member.1 = "error").map Prod.snd with
      | none => exact ⟨_, rfl⟩
      | some node =>
          cases node with
          | obj error => exact absurd herror (hother error)
          | _ => exact ⟨_, rfl⟩

/-! ## What the loop has told -/

/-- The call that an answer found pending is completed with what the answer says, or something that is no
answer got there first: its timer, its caller or whoever closed the connection. -/
def Settled (w : World) (h : Heard) : Prop :=
  ∃ n settlement, w.id n = some h.id ∧ settlementOf h.message = .ok settlement ∧
    (w.task n = some settlement ∨ ∃ other, w.task n = some other ∧ other.isAnswer = false)

/-- What has been heard is the answers among the lines that were read, and all that found a call pending have
settled it. -/
structure ToldOf (read : List Line) (w : World) : Prop where
  heard : w.heard.map (fun h => (h.message, h.id)) = read.filterMap answerOf
  settled : ∀ h ∈ w.heard, h.found = true → Settled w h

/-- Every answer that was read has settled the call it found pending, and no other: a call that is completed
with an answer is completed with the first one to its own id. -/
def Told (lines : List Line) (w : World) : Prop :=
  (∃ read, lines = read ++ w.lines ∧ ToldOf read w) ∧
    ∀ n settlement, w.task n = some settlement → settlement.isAnswer = true →
      ∃ id, w.id n = some id ∧ Answered w.heard id settlement

/-- A step of `i`: only the read loop reads and hears. -/
structure Listens (i : Party) (w w' : World) : Prop where
  moves : Moves i w w'
  lines : i ≠ .reader → w'.lines = w.lines
  heard : i ≠ .reader → w'.heard = w.heard

theorem exec_aside {i : Party} {o : Op} {w w' : World} {r : Ret o} (h : exec i o w r = some w') (hi : i ≠ .reader) :
    w'.lines = w.lines ∧ w'.heard = w.heard := by
  unfold exec at h
  split at h <;> grind [World.draw, World.store, World.remove, World.trySet]

theorem FirstHeard.unique {heard : List Heard} {id : Int} {m m' : JsonObject} (h : FirstHeard heard id m)
    (h' : FirstHeard heard id m') : m = m' := by
  obtain ⟨before, after, heq, hunheard⟩ := h
  obtain ⟨before', after', heq', hunheard'⟩ := h'
  have hsplit := heq.symm.trans heq'
  rcases List.append_eq_append_iff.mp hsplit with ⟨mid, hbefore, hrest⟩ | ⟨mid, hbefore, hrest⟩
  · cases mid with
    | nil => simpa using (List.cons.inj hrest).1
    | cons e mid =>
        have he := (List.cons.inj hrest).1
        have := hunheard' e (by rw [hbefore]; simp) (by rw [← he])
        rw [← he] at this
        cases this
  · cases mid with
    | nil => simpa using ((List.cons.inj hrest).1).symm
    | cons e mid =>
        have he := (List.cons.inj hrest).1
        have := hunheard e (by rw [hbefore]; simp) (by rw [← he])
        rw [← he] at this
        cases this

section Told

variable {i : Party} {w w' : World} {read : List Line} {lines : List Line}

theorem Settled.stable {h : Heard} (hsettled : Settled w h) (hmoves : Moves i w w') : Settled w' h := by
  obtain ⟨n, settlement, hid, hanswer, htask⟩ := hsettled
  refine ⟨n, settlement, hmoves.drawn n _ hid, hanswer, ?_⟩
  rcases htask with hsame | ⟨other, hother, hno⟩
  · exact .inl (hmoves.task n _ hsame)
  · exact .inr ⟨other, hmoves.task n _ hother, hno⟩

theorem ToldOf.stable (h : ToldOf read w) (hmoves : Moves i w w') (hheard : w'.heard = w.heard) : ToldOf read w' :=
  ⟨by rw [hheard]; exact h.heard, fun e he hfound => (h.settled e (by rw [← hheard]; exact he) hfound).stable hmoves⟩

/-- Between two lines. -/
def Listening (lines : List Line) (w : World) : Prop :=
  Consistent w ∧ ∃ read, lines = read ++ w.lines ∧ ToldOf read w

/-- A line has been read, and nothing has been done about it. -/
def Reading (lines : List Line) (line : Line) (w : World) : Prop :=
  Consistent w ∧ ∃ read, lines = read ++ line :: w.lines ∧ ToldOf read w

/-- A call has been taken out for this answer. -/
def Taken (lines : List Line) (n : Nat) (message : JsonObject) (id : Int) (w : World) : Prop :=
  Consistent w ∧ w.id n = some id ∧ FirstHeard w.heard id message ∧ ∃ read before, lines = read ++ w.lines ∧
    w.heard = before ++ [⟨message, id, true⟩] ∧
    w.heard.map (fun h => (h.message, h.id)) = read.filterMap answerOf ∧ ∀ h ∈ before, h.found = true → Settled w h

theorem Listening.told (h : Listening lines w) : Told lines w := ⟨h.2, h.1.answers⟩

theorem Listening.stable (h : Listening lines w) (hi : i ≠ .reader) (hstep : Listens i w w') : Listening lines w' := by
  obtain ⟨hconsistent, read, hlines, htold⟩ := h
  exact ⟨hstep.moves.consistent hconsistent, read, by rw [hstep.lines hi]; exact hlines,
    htold.stable hstep.moves (hstep.heard hi)⟩

theorem Reading.stable {line : Line} (h : Reading lines line w) (hi : i ≠ .reader) (hstep : Listens i w w') :
    Reading lines line w' := by
  obtain ⟨hconsistent, read, hlines, htold⟩ := h
  exact ⟨hstep.moves.consistent hconsistent, read, by rw [hstep.lines hi]; exact hlines,
    htold.stable hstep.moves (hstep.heard hi)⟩

theorem Taken.stable {n : Nat} {message : JsonObject} {id : Int} (h : Taken lines n message id w) (hi : i ≠ .reader)
    (hstep : Listens i w w') : Taken lines n message id w' := by
  obtain ⟨hconsistent, hid, hfirst, read, before, hlines, hheard, htold, hsettled⟩ := h
  refine ⟨hstep.moves.consistent hconsistent, hstep.moves.drawn n id hid, ?_, read, before, ?_, ?_, ?_, ?_⟩
  · rw [hstep.heard hi]
    exact hfirst
  · rw [hstep.lines hi]
    exact hlines
  · rw [hstep.heard hi]
    exact hheard
  · rw [hstep.heard hi]
    exact htold
  · exact fun e he hfound => (hsettled e he hfound).stable hstep.moves

/-- A line that is no answer changes nothing. -/
theorem Reading.skip {line : Line} (h : Reading lines line w) (hline : answerOf line = none) : Listening lines w := by
  obtain ⟨hconsistent, read, hlines, htold⟩ := h
  refine ⟨hconsistent, read ++ [line], by rw [hlines, List.append_assoc, List.singleton_append], ?_, htold.settled⟩
  rw [htold.heard, List.filterMap_append, List.filterMap_cons_none hline, List.filterMap_nil, List.append_nil]

/-- An answer is heard. -/
theorem Reading.hear {line : Line} {message : JsonObject} {id : Int} (h : Reading lines line w)
    (hline : answerOf line = some (message, id)) : ∃ read, lines = read ++ ((w.hear message id).remove id).lines ∧
      ((w.hear message id).remove id).heard.map (fun h => (h.message, h.id)) = read.filterMap answerOf ∧
      ∀ h ∈ w.heard, h.found = true → Settled ((w.hear message id).remove id) h := by
  obtain ⟨-, read, hlines, htold⟩ := h
  have hmoves : Moves .reader w ((w.hear message id).remove id) := moves_hear_remove
  refine ⟨read ++ [line], ?_, ?_, fun e he hfound => (htold.settled e he hfound).stable hmoves⟩
  · rw [List.append_assoc, List.singleton_append]
    exact hlines
  · rw [List.filterMap_append, List.filterMap_cons_some hline, List.filterMap_nil, ← htold.heard]
    exact List.map_append

/-- The call is completed, and nothing is left to do. -/
theorem Taken.trySet {n : Nat} {message : JsonObject} {id : Int} {settlement : Settlement}
    (h : Taken lines n message id w) (hanswer : settlementOf message = .ok settlement) :
    Moves .reader w (w.trySet n settlement) ∧ Listening lines (w.trySet n settlement) := by
  obtain ⟨hconsistent, hid, hfirst, read, before, hlines, hheard, htold, hsettled⟩ := h
  have hmoves : Moves .reader w (w.trySet n settlement) := moves_trySet fun _ => ⟨id, hid, message, hfirst, hanswer⟩
  have hframe : (w.trySet n settlement).lines = w.lines ∧ (w.trySet n settlement).heard = w.heard := by
    unfold World.trySet
    split <;> exact ⟨rfl, rfl⟩
  refine ⟨hmoves, hmoves.consistent hconsistent, read, by rw [hframe.1]; exact hlines, by rw [hframe.2]; exact htold, ?_⟩
  intro e he hfound
  rw [hframe.2, hheard] at he
  rcases List.mem_append.mp he with hold | hlast
  · exact (hsettled e hold hfound).stable hmoves
  · rw [List.mem_singleton.mp hlast]
    refine ⟨n, settlement, hmoves.drawn n id hid, hanswer, ?_⟩
    cases htask : w.task n with
    | none => exact .inl (by simp [World.trySet, htask])
    | some other =>
        have hkept := hmoves.task n other htask
        cases hother : other.isAnswer with
        | false => exact .inr ⟨other, hkept, hother⟩
        | true =>
            -- whoever completed it with an answer had this one
            obtain ⟨id', hid', message', hfirst', hanswer'⟩ := hconsistent.answers n other htask hother
            rw [hid] at hid'
            cases hid'
            rw [hfirst.unique hfirst', hanswer'] at hanswer
            cases hanswer
            exact .inl hkept

end Told

/-! ## The loop -/

section Loop

variable {script : Script} {lines : List Line} {α β : Type}

/-- The contract of the read loop. -/
abbrev listening (script : Script) (lines : List Line) : Contract Op Ret World :=
  stepContract (harmlessRuns script lines).exec Listens .reader

theorem exec_of_harmless {i : Party} {o : Op} {w w' : World} {r : Ret o}
    (h : (harmlessRuns script lines).exec i o w r = some w') :
    harmless lines i o w r = true ∧ exec i o w r = some w' := (system script).exec_restrict.mp h

/-- Everything but reading a line leaves the lines alone. -/
theorem exec_lines {o : Op} {w w' : World} {r : Ret o} (h : exec .reader o w r = some w') (ho : o ≠ .readLine) :
    w'.lines = w.lines := by
  unfold exec at h
  split at h <;> grind [World.draw, World.store, World.remove, World.trySet, World.hear]

theorem listens_of_moves {w w' : World} (h : Moves .reader w w') : Listens .reader w w' :=
  ⟨h, fun hne => absurd rfl hne, fun hne => absurd rfl hne⟩

/-- Between two lines before, and after. -/
def Tells (script : Script) (lines : List Line) (p : Program α) : Prop :=
  ∀ w, Listening lines w → wp (listening script lines) p (fun _ => Listening lines) (fun _ => Listening lines) w

theorem Tells.ret (a : α) : Tells script lines (.ret a) := fun _ h => h

theorem Tells.raise (e : Exn) : Tells script lines (.raise e : Program α) := fun _ h => h

theorem Tells.ofExcept (result : Except Exn α) : Tells script lines (Prog.ofExcept result) := by
  cases result
  · exact Tells.raise _
  · exact Tells.ret _

theorem Tells.bind {p : Program α} {f : α → Program β} (hp : Tells script lines p) (hf : ∀ a, Tells script lines (f a)) :
    Tells script lines (p.bind f) := fun w h => wp_seq (hp w h) fun a w' => hf a w'

theorem Tells.handle {p : Program α} {f : Exn → Program α} (hp : Tells script lines p)
    (hf : ∀ e, Tells script lines (f e)) : Tells script lines (p.handle f) :=
  fun w h => wp_handle.mpr (wp_mono (hp w h) (fun _ _ h => h) fun e w' => hf e w')

theorem Tells.ensure {p : Program α} {q : Program Unit} (hp : Tells script lines p) (hq : Tells script lines q) :
    Tells script lines (p.ensure q) :=
  fun w h => wp_ensure.mpr (wp_mono (hp w h) (fun _ w' => hq w') fun _ w' => hq w')

theorem Listening.quiet {o : Op} {w w' : World} {r : Ret o} (h : Listening lines w) (ho : meetsTable o = false)
    (hread : o ≠ .readLine) (hexec : exec .reader o w r = some w') : Listening lines w' := by
  obtain ⟨hconsistent, read, hlines, htold⟩ := h
  have hsame := exec_sameTable ho hexec
  exact ⟨hsame.consistent hconsistent, read, by rw [exec_lines hexec hread]; exact hlines,
    htold.stable (hsame.moves (i := .reader)) hsame.heard⟩

theorem Tells.call {o : Op} {k : Ret o → Program α} (ho : meetsTable o = false) (hread : o ≠ .readLine)
    (hk : ∀ r, Tells script lines (k r)) : Tells script lines (.call o k) := by
  intro w h
  refine wp_call_step (Listening lines) h (fun _ _ _ hi hstep h => h.stable hi hstep) fun w r w' h hexec => ?_
  have hexec := (exec_of_harmless hexec).2
  exact ⟨listens_of_moves (exec_sameTable ho hexec).moves, hk r w' (h.quiet ho hread hexec)⟩

theorem tells_writeAsync (message : JsonObject) (token : Token) : Tells script lines (writeAsync message token) := by
  simp only [writeAsync, Prog.bind_eq, Prog.op_bind]
  refine Tells.call rfl nofun fun isOpen => Tells.bind (Tells.ofExcept isOpen) fun isOpen => ?_
  split
  · exact Tells.raise _
  refine Tells.call rfl nofun fun locked => Tells.bind (Tells.ofExcept locked) fun _ => ?_
  refine Tells.ensure (Tells.handle ?_ fun e => ?_) ?_
  · refine Tells.call rfl nofun fun r => Tells.bind (Tells.ofExcept r) fun _ => ?_
    refine Tells.call rfl nofun fun r => Tells.bind (Tells.ofExcept r) fun _ => ?_
    exact Tells.call rfl nofun fun r => Tells.ofExcept r
  · split <;> exact Tells.raise _
  · exact Tells.call rfl nofun fun r => Tells.ofExcept r

/-- Somebody who was pending is taken out and told something that is no answer. -/
theorem tells_failPending {error : Exn} (he : error.isRemote = false) : Tells script lines (failPending error) := by
  have hanswer : (Settlement.exception error).isAnswer = false := by
    cases error <;> first | rfl | cases he
  have hnone : ∀ {w : World} {n : Nat}, (Settlement.exception error).isAnswer = true →
      ∃ id, w.id n = some id ∧ Answered w.heard id (.exception error) := fun h => by rw [hanswer] at h; cases h
  simp only [failPending, Prog.bind_eq, Prog.op_bind]
  refine Tells.call rfl nofun fun keys w h => wp_forEach (fun _ => Listening lines) h fun _ key _ w _ h => ?_
  refine wp_call_step (Listening lines) h (fun _ _ _ hi hstep h => h.stable hi hstep) fun w r w' h hexec => ?_
  have hexec : (if r = w.pending.get? key then some (w.remove key) else none) = some w' := (exec_of_harmless hexec).2
  split at hexec
  case isFalse => cases hexec
  cases hexec
  have hremoved : Listening lines (w.remove key) := by
    obtain ⟨hconsistent, read, hlines, htold⟩ := h
    exact ⟨hconsistent.remove, read, hlines, htold.stable (moves_remove (i := .reader)) rfl⟩
  refine ⟨listens_of_moves moves_remove, ?_⟩
  cases r with
  | none => exact hremoved
  | some n =>
      refine wp_call_step (Listening lines) hremoved (fun _ _ _ hi hstep h => h.stable hi hstep) fun w _ w' h hexec => ?_
      have hexec : some (w.trySet n (.exception error)) = some w' := (exec_of_harmless hexec).2
      have hmoves : Moves .reader w w' := by
        rw [← Option.some.inj hexec]
        exact moves_trySet hnone
      refine ⟨listens_of_moves hmoves, ?_⟩
      obtain ⟨hconsistent, read, hlines, htold⟩ := h
      have hframe : w'.lines = w.lines ∧ w'.heard = w.heard := by
        rw [← Option.some.inj hexec, World.trySet]
        split <;> exact ⟨rfl, rfl⟩
      exact ⟨hmoves.consistent hconsistent, read, by rw [hframe.1]; exact hlines, htold.stable hmoves hframe.2⟩

/-- **`HandleResponse`**: an answer that finds its call pending settles it. -/
theorem wp_handleResponse {message : JsonObject} {idNode : Json} {w : World}
    (hmethod : tryGetPropertyValue message "method" = .ok none)
    (hid : tryGetPropertyValue message "id" = .ok (some idNode)) (h : Reading lines (.value (.obj message)) w) :
    wp (listening script lines) (handleResponse message idNode) (fun _ => Listening lines) (fun _ => Listening lines) w := by
  unfold handleResponse
  cases hread : tryReadId idNode with
  | none => exact h.skip (by simp only [answerOf, hmethod, hid, hread, Option.map_none])
  | some id =>
      have hline : answerOf (.value (.obj message)) = some (message, id) := by
        simp only [answerOf, hmethod, hid, hread, Option.map_some]
      refine wp_call_step (Reading lines (.value (.obj message))) h (fun _ _ _ hi hstep h => h.stable hi hstep)
        fun w r w' h hexec => ?_
      obtain ⟨hharmless, hexec⟩ := exec_of_harmless hexec
      have hexec : (if r = w.pending.get? id then some ((w.hear message id).remove id) else none) = some w' := hexec
      split at hexec
      case isFalse => cases hexec
      next hr =>
      cases hexec
      obtain ⟨read, hlines, hheard, hsettled⟩ := h.hear hline
      have hconsistent : Consistent ((w.hear message id).remove id) := h.1.hear_remove
      refine ⟨listens_of_moves moves_hear_remove, ?_⟩
      cases r with
      | none =>
          refine ⟨hconsistent, read, hlines, hheard, fun e he hfound => ?_⟩
          rcases List.mem_append.mp (show e ∈ w.heard ++ [_] from he) with hold | hlast
          · exact hsettled e hold hfound
          · rw [List.mem_singleton.mp hlast, ← hr] at hfound
            cases hfound
      | some n =>
          obtain ⟨hn, hunheard⟩ := h.1.entries id n hr.symm
          have hlast : ((w.hear message id).remove id).heard = w.heard ++ [⟨message, id, true⟩] := by
            simp [World.hear, World.remove, ← hr]
          have htaken : Taken lines n message id ((w.hear message id).remove id) :=
            ⟨hconsistent, hn, ⟨w.heard, [], hlast, hunheard⟩, read, w.heard, hlines, hlast, hheard, hsettled⟩
          obtain ⟨settlement, hanswer⟩ := settlementOf_readable (nodup_of_tryGet hid) hharmless
          rw [hanswer]
          refine wp_call_step (Taken lines n message id) htaken (fun _ _ _ hi hstep h => h.stable hi hstep)
            fun w _ w' h hexec => ?_
          cases (Option.some.inj (exec_of_harmless hexec).2 : w.trySet n settlement = w')
          obtain ⟨hmoves, hlistening⟩ := h.trySet hanswer
          exact ⟨listens_of_moves hmoves, hlistening⟩

theorem wp_dispatchAsync {message : JsonObject} {w : World} (h : Reading lines (.value (.obj message)) w) :
    wp (listening script lines) (dispatchAsync message) (fun _ => Listening lines) (fun _ => Listening lines) w := by
  simp only [dispatchAsync, Prog.bind_eq]
  cases hmethod : tryGetPropertyValue message "method" with
  | error e => exact h.skip (by simp only [answerOf, hmethod])
  | ok methodNode =>
      cases hid : tryGetPropertyValue message "id" with
      | error e => exact h.skip (by simp only [answerOf, hmethod, hid])
      | ok idNode =>
          simp only [Prog.ofExcept_ok, Prog.ret_bind]
          cases methodNode with
          | some method =>
              have hlistening : Listening lines w := h.skip (by simp only [answerOf, hmethod])
              cases idNode with
              | some id =>
                  suffices hrequest : Tells script lines (handleRequestAsync message method id) from hrequest w hlistening
                  simp only [handleRequestAsync, Prog.bind_eq, Prog.op_bind]
                  refine Tells.bind (Tells.ofExcept _) fun method => Tells.call rfl (by rintro ⟨⟩) fun found => ?_
                  split
                  · exact tells_writeAsync _ _
                  · refine Tells.call rfl (by rintro ⟨⟩) fun outcome => ?_
                    cases outcome <;> exact tells_writeAsync _ _
              | none =>
                  suffices hnotification : Tells script lines (handleNotification message method) from
                    hnotification w hlistening
                  simp only [handleNotification, Prog.bind_eq, Prog.op_bind]
                  refine Tells.call rfl (by rintro ⟨⟩) fun listens => ?_
                  split
                  · refine Tells.bind (Tells.ofExcept _) fun _ => ?_
                    exact Tells.call rfl (by rintro ⟨⟩) fun outcome => Tells.ofExcept outcome
                  · exact Tells.ret ()
          | none =>
              cases idNode with
              | some id => exact wp_handleResponse hmethod hid h
              | none => exact h.skip (by simp only [answerOf, hmethod, hid])

theorem tells_readOne : Tells script lines readOne := by
  simp only [readOne, Prog.bind_eq, Prog.op_bind]
  refine Tells.call rfl (by rintro ⟨⟩) fun shutdown => ?_
  split
  · exact Tells.ret false
  intro w h
  refine wp_call_step (Listening lines) h (fun _ _ _ hi hstep h => h.stable hi hstep) fun w r w' h hexec => ?_
  have hexec := (exec_of_harmless hexec).2
  have hsame := exec_sameTable rfl hexec
  refine ⟨listens_of_moves hsame.moves, ?_⟩
  have hquiet : w' = w → Listening lines w' := fun heq => heq ▸ h
  cases r with
  | error e =>
      simp only [exec] at hexec
      split at hexec
      · exact hquiet (Option.some.inj hexec).symm
      · cases hexec
  | ok line =>
      cases line with
      | none =>
          simp only [exec] at hexec
          split at hexec
          · exact hquiet (Option.some.inj hexec).symm
          · cases hexec
      | some line =>
          have hreading : Reading lines line w' := by
            obtain ⟨hconsistent, read, hlines, htold⟩ := h
            simp only [exec] at hexec
            split at hexec
            · next next rest hnext =>
                split at hexec
                · next heq =>
                    cases hexec
                    exact ⟨hsame.consistent hconsistent, read, by rw [hlines, hnext, heq],
                      htold.stable (hsame.moves (i := .reader)) rfl⟩
                · cases hexec
            · cases hexec
          simp only [Prog.ofExcept_ok, Prog.ret_bind]
          split
          · next heq => cases heq
          · next message heq =>
              cases heq
              exact wp_seq (wp_dispatchAsync hreading) fun _ _ h => h
          · next line' hobj hsome =>
              refine hreading.skip ?_
              cases line with
              | notJson => rfl
              | value json =>
                  cases json with
                  | obj message => exact (hobj message (Option.some.inj hsome).symm).elim
                  | _ => rfl

theorem tells_readLoopAsync : Tells script lines readLoopAsync := by
  simp only [readLoopAsync, Prog.bind_eq]
  refine Tells.bind (Tells.handle tells_readOne fun e => ?_) fun goesOn => ?_
  · split
    · exact Tells.ret false
    · exact Tells.ret false
    · exact Tells.bind (tells_failPending rfl) fun _ => Tells.raise _
  · split
    · exact Tells.ret _
    · exact Tells.bind (tells_failPending rfl) fun _ => Tells.ret _

end Loop

/-! ## What the loop is not stopped by

The runs in which, besides, nothing happens that ends the loop. -/

/-- Neither the end of the output nor a shutdown nor a pipe that fails. -/
def calmRuns (script : Script) (lines : List Line) : System Party Op Ret Exn Point Json World :=
  (harmlessRuns script lines).restrict fun i o _ r => !ends i o r

/-- A step of `i`: only the read loop reads. -/
def Skips (i : Party) (w w' : World) : Prop := i ≠ .reader → w'.lines = w.lines

section Calm

variable {script : Script} {lines : List Line} {α : Type}

abbrev calm (script : Script) (lines : List Line) : Contract Op Ret World :=
  stepContract (calmRuns script lines).exec Skips .reader

theorem exec_of_calm {i : Party} {o : Op} {w w' : World} {r : Ret o} (h : (calmRuns script lines).exec i o w r = some w') :
    ends i o r = false ∧ harmless lines i o w r = true ∧ exec i o w r = some w' := by
  obtain ⟨hends, hexec⟩ := (harmlessRuns script lines).exec_restrict.mp h
  rw [Bool.not_eq_true'] at hends
  exact ⟨hends, exec_of_harmless hexec⟩

/-- An assertion about what is left to read. -/
def OfLines (P : World → Prop) : Prop := ∀ w w', w'.lines = w.lines → P w → P w'

/-- The rule for a call that reads no line. -/
theorem wp_calm {o : Op} {k : Ret o → Program α} {Q : α → World → Prop} {F : Exn → World → Prop} {P : World → Prop}
    {w : World} (hP : OfLines P) (ho : o ≠ .readLine) (hw : P w)
    (hk : ∀ w r w', P w → P w' → ends .reader o r = false → harmless lines .reader o w r = true →
      wp (calm script lines) (k r) Q F w') : wp (calm script lines) (.call o k) Q F w := by
  refine wp_call_step P hw (fun _ w w' hi hstep h => hP w w' (hstep hi) h) fun w r w' h hexec => ?_
  obtain ⟨hends, hharmless, hexec⟩ := exec_of_calm hexec
  exact ⟨fun hne => absurd rfl hne, hk w r w' h (hP w w' (exec_lines hexec ho) h) hends hharmless⟩

/-- The rule for a call whose failure would end the loop. -/
theorem wp_calm_ok {β : Type} {o : Op} (get : Ret o → Except Exn β) {k : β → Program α} {Q : α → World → Prop}
    {F : Exn → World → Prop} {P : World → Prop} {w : World} (hP : OfLines P) (ho : o ≠ .readLine)
    (hget : ∀ r, ends .reader o r = false → ∃ b, get r = .ok b) (hw : P w)
    (hk : ∀ w b, P w → wp (calm script lines) (k b) Q F w) :
    wp (calm script lines) (.call o fun r => (Prog.ofExcept (get r)).bind k) Q F w := by
  refine wp_calm hP ho hw fun _ r w' _ h hends _ => ?_
  obtain ⟨b, hb⟩ := hget r hends
  rw [hb]
  exact hk w' b h

theorem ok_of_isOk {r : Except Exn Unit} (h : (!r.isOk) = false) : ∃ u, r = .ok u := by
  cases r with
  | ok u => exact ⟨u, rfl⟩
  | error e => cases h

/-- A reply is written. -/
theorem wp_calm_writeAsync {P : World → Prop} (hP : OfLines P) (message : JsonObject) (token : Token) {w : World}
    (hw : P w) : wp (calm script lines) (writeAsync message token) (fun _ => P) (fun _ _ => False) w := by
  simp only [writeAsync, Prog.bind_eq, Prog.op_bind]
  refine wp_calm hP nofun hw fun _ isOpen w _ hw hends _ => ?_
  have hopen : isOpen = .ok true := by
    cases isOpen with
    | error e => cases hends
    | ok isOpen => cases isOpen <;> first | rfl | cases hends
  rw [hopen]
  refine wp_calm_ok (o := .waitLock token) (fun r => r) hP nofun (fun _ => ok_of_isOk) hw fun w _ hw => ?_
  refine wp_ensure.mpr (wp_mono (Q := fun _ => P) (F := fun _ _ => False) (wp_handle.mpr ?_) ?_ fun _ _ h => h.elim)
  · refine wp_calm_ok (o := .write _ _) (fun r => r) hP nofun (fun _ => ok_of_isOk) hw fun w _ hw => ?_
    refine wp_calm_ok (o := .write _ _) (fun r => r) hP nofun (fun _ => ok_of_isOk) hw fun w _ hw => ?_
    refine wp_calm hP nofun hw fun _ r w _ hw hends _ => ?_
    obtain ⟨u, rfl⟩ := ok_of_isOk hends
    exact hw
  · refine fun _ w hw => wp_calm hP nofun hw fun _ r w _ hw hends _ => ?_
    obtain ⟨u, rfl⟩ := ok_of_isOk hends
    exact hw

/-- Part of the lines has been read, of which `line` is the last. -/
def JustRead (lines : List Line) (line : Line) (w : World) : Prop := ∃ read, lines = read ++ line :: w.lines

theorem JustRead.ofLines {line : Line} : OfLines (JustRead lines line) := by
  rintro w w' hlines ⟨read, h⟩
  exact ⟨read, by rw [hlines]; exact h⟩

theorem JustRead.lastRead {line : Line} {w : World} (h : JustRead lines line w) : lastRead lines w = some line := by
  obtain ⟨read, h⟩ := h
  have hlength : lines.length - w.lines.length - 1 = read.length := by
    rw [h, List.length_append, List.length_cons]
    omega
  rw [Acp.lastRead, hlength, h, List.getElem?_append_right (Nat.le_refl _), Nat.sub_self]
  rfl

/-- **`DispatchAsync`** throws nothing. -/
theorem wp_calm_dispatchAsync {message : JsonObject} (hline : harmlessLine (.value (.obj message)) = true) {w : World}
    (h : JustRead lines (.value (.obj message)) w) :
    wp (calm script lines) (dispatchAsync message) (fun _ => JustRead lines (.value (.obj message)))
      (fun _ _ => False) w := by
  simp only [harmlessLine, Bool.and_eq_true, decide_eq_true_eq, Bool.or_eq_true] at hline
  obtain ⟨hnodup, hrequest⟩ := hline
  simp only [dispatchAsync, Prog.bind_eq, tryGet_of_nodup hnodup, Prog.ofExcept_ok, Prog.ret_bind]
  cases hmethod : (message.find? fun member => member.1 = "method").map Prod.snd with
  | some method =>
      cases hid : (message.find? fun member => member.1 = "id").map Prod.snd with
      | some id =>
          have hfits : fieldFits message "method" isText = true := by
            refine hrequest.resolve_left fun hall => ?_
            obtain ⟨member, hfound, -⟩ := Option.map_eq_some_iff.mp hid
            have hne := List.all_eq_true.mp hall member (List.mem_of_find?_eq_some hfound)
            have heq := List.find?_some hfound
            simp_all
          obtain ⟨name, hname⟩ := stringOf_fits hfits hmethod
          simp only [handleRequestAsync, hname, Prog.ofExcept_ok, Prog.bind_eq, Prog.ret_bind, Prog.op_bind]
          refine wp_calm JustRead.ofLines (by rintro ⟨⟩) h fun _ found w _ h _ _ => ?_
          split
          · exact wp_calm_writeAsync JustRead.ofLines _ _ h
          · refine wp_calm JustRead.ofLines (by rintro ⟨⟩) h fun _ outcome w _ h _ _ => ?_
            cases outcome <;> exact wp_calm_writeAsync JustRead.ofLines _ _ h
      | none =>
          simp only [handleNotification, Prog.bind_eq, Prog.op_bind]
          refine wp_calm JustRead.ofLines (by rintro ⟨⟩) h fun w₀ listens w h₀ h _ hharmless => ?_
          split
          · next hlistens =>
              subst hlistens
              have hfits : fieldFits message "method" isText = true := by
                simpa [harmless, h₀.lastRead, readableMethod] using hharmless
              obtain ⟨name, hname⟩ := stringOf_fits hfits hmethod
              simp only [hname, Prog.ofExcept_ok, Prog.ret_bind]
              refine wp_calm JustRead.ofLines (by rintro ⟨⟩) h fun _ outcome w _ h hends _ => ?_
              obtain ⟨u, rfl⟩ := ok_of_isOk hends
              exact h
          · exact h
  | none =>
      cases hid : (message.find? fun member => member.1 = "id").map Prod.snd with
      | none => exact h
      | some idNode =>
          simp only [handleResponse, Prog.bind_eq, Prog.op_bind]
          cases tryReadId idNode with
          | none => exact h
          | some id =>
              refine wp_calm JustRead.ofLines (by rintro ⟨⟩) h fun _ pending w _ h _ hharmless => ?_
              cases pending with
              | none => exact h
              | some n =>
                  obtain ⟨settlement, hanswer⟩ := settlementOf_readable hnodup hharmless
                  simp only [hanswer, Prog.ofExcept_ok, Prog.ret_bind]
                  exact wp_calm JustRead.ofLines (by rintro ⟨⟩) h fun _ _ w _ h _ _ => h

/-- Part of the lines has been read. -/
def ReadSome (lines : List Line) (w : World) : Prop := ∃ read, lines = read ++ w.lines

theorem JustRead.readSome {line : Line} {w : World} (h : JustRead lines line w) : ReadSome lines w := by
  obtain ⟨read, h⟩ := h
  exact ⟨read ++ [line], by rw [h, List.append_assoc, List.singleton_append]⟩

theorem ReadSome.ofLines : OfLines (ReadSome lines) := by
  rintro w w' hlines ⟨read, h⟩
  exact ⟨read, by rw [hlines]; exact h⟩

/-- One turn: the loop goes on. -/
theorem wp_calm_readOne {w : World} (h : ReadSome lines w) :
    wp (calm script lines) readOne (fun goesOn w => goesOn = true ∧ ReadSome lines w) (fun _ _ => False) w := by
  simp only [readOne, Prog.bind_eq, Prog.op_bind]
  refine wp_calm ReadSome.ofLines (by rintro ⟨⟩) h fun _ shutdown w _ h hends _ => ?_
  have hrunning : shutdown = false := hends
  subst hrunning
  refine wp_call_step (ReadSome lines) h (fun _ w w' hi hstep h => ReadSome.ofLines w w' (hstep hi) h)
    fun w r w' h hexec => ⟨fun hne => absurd rfl hne, ?_⟩
  obtain ⟨hends, hharmless, hexec⟩ := exec_of_calm hexec
  cases r with
  | error e => cases hends
  | ok line =>
      cases line with
      | none => cases hends
      | some line =>
          have hread : JustRead lines line w' := by
            obtain ⟨read, hlines⟩ := h
            simp only [exec] at hexec
            split at hexec
            · next next rest hnext =>
                split at hexec
                · next heq =>
                    cases hexec
                    exact ⟨read, by rw [hlines, hnext, heq]⟩
                · cases hexec
            · cases hexec
          simp only [Prog.ofExcept_ok, Prog.ret_bind]
          split
          · next heq => cases heq
          · next message heq =>
              cases heq
              exact wp_seq (wp_mono (wp_calm_dispatchAsync hharmless hread) (fun _ _ h => h) fun _ _ h => h)
                fun _ _ h => ⟨rfl, h.readSome⟩
          · exact ⟨rfl, hread.readSome⟩

theorem wp_calm_readLoopAsync {w : World} (h : ReadSome lines w) :
    wp (calm script lines) readLoopAsync (fun x w => x = .inl .ready ∧ ReadSome lines w) (fun _ _ => False) w := by
  refine wp_seq (wp_handle.mpr (wp_mono (wp_calm_readOne h) (fun _ _ h => h) fun _ _ h => h.elim)) ?_
  rintro goesOn w ⟨rfl, h⟩
  exact ⟨rfl, h⟩

end Calm

/-! ## Runs -/

/-- What every party keeps, and the read loop besides. -/
def Heeds (lines : List Line) (i : Party) (P : World → Prop) (w : World) : Prop :=
  P w ∧ (i = .reader → Listening lines w)

theorem Heeds.stable {lines : List Line} {i j : Party} {P : World → Prop} {w w' : World} (h : Heeds lines i P w)
    (hne : j ≠ i) (hstep : Listens j w w') (hP : P w → P w') : Heeds lines i P w' :=
  ⟨hP h.1, fun hi => (h.2 hi).stable (fun hj => hne (hj.trans hi.symm)) hstep⟩

/-- The other parties keep to what they keep to in every run. -/
theorem heeds_code (script : Script) (lines : List Line) (i : Party) (point : Point) (w : World)
    (h : Heeds lines i (callPre i) w) :
    wp (stepContract (harmlessRuns script lines).exec Listens i) ((harmlessRuns script lines).code i point)
      (fun | .inl _ => Heeds lines i (callPre i) | .inr r => Heeds lines i (callPost i r))
      (fun e => Heeds lines i (callFail i e)) w := by
  by_cases hi : i = .reader
  · subst hi
    cases point with
    | idle => exact h
    | ready =>
        refine wp_mono (tells_readLoopAsync w (h.2 rfl)) (fun x w hw => ?_) fun e w hw => ⟨hw.1, fun _ => hw⟩
        cases x <;> exact ⟨hw.1, fun _ => hw⟩
  · have hcode := call_code script i point w h.1
    have hcode := wp_narrow (D := stepContract (harmlessRuns script lines).exec Listens i)
      (fun _ _ hrely => Relation.ReflTransGen.mono (fun _ _ ⟨j, hj, hstep⟩ => ⟨j, hj, hstep.moves⟩) _ _ hrely)
      (fun o w r w' hexec => by
        have hexec := (exec_of_harmless hexec).2
        exact ⟨hexec, fun hmoves => ⟨hmoves, fun hne => (exec_aside hexec hne).1, fun hne => (exec_aside hexec hne).2⟩⟩)
      hcode
    refine wp_mono hcode (fun x w hw => ?_) fun e w hw => ⟨hw, fun heq => absurd heq hi⟩
    cases x <;> exact ⟨hw, fun heq => absurd heq hi⟩

def listenOutline (script : Script) (lines : List Line) : Outline (harmlessRuns script lines) :=
  Outline.ofSteps Listens (fun i _ => Heeds lines i (callPre i)) (fun i r => Heeds lines i (callPost i r))
    (fun i e => Heeds lines i (callFail i e))
    (fun _ _ _ _ _ hne hstep h => h.stable hne hstep (callPre_stable hne hstep.moves))
    (fun _ _ _ _ _ hne hstep h => h.stable hne hstep (callPost_stable hne hstep.moves))
    (fun _ _ _ _ _ hne hstep h => h.stable hne hstep (callFail_stable hne hstep.moves)) fun i point w h =>
      wp_mono (heeds_code script lines i point w h) (fun x _ h => by cases x <;> exact h) fun _ _ h => h

/-- Only the read loop has anything to keep; it does not end. -/
def calmOutline (script : Script) (lines : List Line) : Outline (calmRuns script lines) :=
  Outline.ofSteps Skips (fun i _ w => i = .reader → ReadSome lines w) (fun i _ _ => i ≠ .reader) (fun i _ _ => i ≠ .reader)
    (fun _ _ _ w w' hne hstep h hi => ReadSome.ofLines w w' (hstep fun hj => hne (hj.trans hi.symm)) (h hi))
    (fun _ _ _ _ _ _ _ h => h) (fun _ _ _ _ _ _ _ h => h) fun i point w h => by
      by_cases hi : i = .reader
      · subst hi
        cases point with
        | idle => exact h
        | ready =>
            refine wp_mono (wp_calm_readLoopAsync (h rfl)) (fun x w hw => ?_) fun _ _ h => h.elim
            obtain ⟨rfl, hread⟩ := hw
            exact fun _ => hread
      · have hany := wp_any (C := stepContract (calmRuns script lines).exec Skips i)
          (fun o w r w' hexec hne => (exec_aside (exec_of_calm hexec).2.2 hne).1) ((calmRuns script lines).code i point) w
        refine wp_mono hany (fun x w _ => ?_) fun _ _ _ => hi
        cases x with
        | inl _ => exact fun heq => absurd heq hi
        | inr _ => exact hi

/-- The read loop is between two lines, or it has ended. -/
def AtRest (c : Configuration) : Prop := (∃ x, c.cur .reader = .ret x) ∨ ∃ e, c.cur .reader = .raise e

def isAtRest (c : Configuration) : Bool :=
  match c.cur .reader with
  | .ret _ | .raise _ => true
  | .call .. => false

theorem AtRest.of_isAtRest {c : Configuration} (h : isAtRest c = true) : AtRest c := by
  unfold isAtRest at h
  split at h
  · next x hcur => exact .inl ⟨x, hcur⟩
  · next e hcur => exact .inr ⟨e, hcur⟩
  · cases h

/-- The read loop has ended, or an exception has. -/
def Stopped (c : Configuration) : Prop := (∃ r, c.cur .reader = .ret (.inr r)) ∨ ∃ e, c.cur .reader = .raise e

/-- The loop, about to read an answer to a pending call, can go on and settle just this call. -/
def Settles (S : System Party Op Ret Exn Point Json World) (c : Configuration) : Prop :=
  ∀ message rest id n, c.cur .reader = .ret (.inl .ready) → c.world.cancelled .shutdown = false →
    c.world.lines = .value (.obj message) :: rest → answerOf (.value (.obj message)) = some (message, id) →
    readableError message = true → c.world.pending.get? id = some n →
      ∃ c' settlement, S.Steps c c' ∧ settlementOf message = .ok settlement ∧ c'.cur .reader = .ret (.inl .ready) ∧
        c'.world.lines = rest ∧ (c.world.task n = none → c'.world.task n = some settlement) ∧
        ∀ m, m ≠ n → c'.world.task m = c.world.task m

/-- What an answer's shape is. -/
theorem answerOf_eq_some {message : JsonObject} {id : Int} (h : answerOf (.value (.obj message)) = some (message, id)) :
    ∃ idNode, tryGetPropertyValue message "method" = .ok none ∧
      tryGetPropertyValue message "id" = .ok (some idNode) ∧ tryReadId idNode = some id := by
  unfold answerOf at h
  dsimp only at h
  split at h
  · next idNode hmethod hid =>
      obtain ⟨id', hread, heq⟩ := Option.map_eq_some_iff.mp h
      cases heq
      exact ⟨idNode, hmethod, hid, hread⟩
  · cases h

/-- An answer can be read. -/
theorem harmless_answer {message : JsonObject} (hmethod : tryGetPropertyValue message "method" = .ok none) :
    harmlessLine (.value (.obj message)) = true := by
  have hnodup := nodup_of_tryGet hmethod
  rw [tryGet_of_nodup hnodup, Except.ok.injEq] at hmethod
  simp only [harmlessLine, fieldFits, hmethod, Bool.or_true, Bool.and_true, decide_eq_true_eq]
  exact hnodup

/-- The turn of an answer that can be read: the call is taken out and completed. -/
theorem runs_answer (script : Script) (lines : List Line) {w : World} {message : JsonObject} {rest : List Line}
    {id : Int} {n : Nat} {settlement : Settlement} (hshutdown : w.cancelled .shutdown = false)
    (hlines : w.lines = .value (.obj message) :: rest) (hline : answerOf (.value (.obj message)) = some (message, id))
    (hreadable : readableError message = true) (hpending : w.pending.get? id = some n)
    (hanswer : settlementOf message = .ok settlement) :
    Prog.Runs ((harmlessRuns script lines).exec .reader) readLoopAsync w (.ok (.inl .ready))
      (((({ w with lines := rest } : World).hear message id).remove id).trySet n settlement) := by
  obtain ⟨idNode, hmethod, hid, hread⟩ := answerOf_eq_some hline
  have hshut : (harmlessRuns script lines).exec .reader (.isCancelled .shutdown) w false = some w :=
    (system script).exec_restrict.mpr ⟨rfl, by simp only [system, exec, hshutdown, if_true]⟩
  have hline : (harmlessRuns script lines).exec .reader .readLine w (.ok (some (.value (.obj message)))) =
      some { w with lines := rest } :=
    (system script).exec_restrict.mpr ⟨harmless_answer hmethod, by simp only [system, exec, hlines, if_true]⟩
  have htake : (harmlessRuns script lines).exec .reader (.tryRemoveFor message id) { w with lines := rest } (some n) =
      some ((({ w with lines := rest } : World).hear message id).remove id) :=
    (system script).exec_restrict.mpr ⟨hreadable, if_pos hpending.symm⟩
  obtain ⟨k, hdispatch, hfound⟩ : ∃ k, dispatchAsync message = .call (.tryRemoveFor message id) k ∧
      k (some n) = .call (.trySet n settlement) .ret := by
    simp only [dispatchAsync, hmethod, hid, handleResponse, hread, hanswer, Prog.ofExcept_ok, Prog.bind_eq,
      Prog.ret_bind, Prog.op_bind]
    exact ⟨_, rfl, rfl⟩
  have hreadOne : Prog.Runs ((harmlessRuns script lines).exec .reader) readOne w (.ok true)
      (((({ w with lines := rest } : World).hear message id).remove id).trySet n settlement) := by
    refine .call (r := false) hshut (.call (r := .ok (some (.value (.obj message)))) hline ?_)
    show Prog.Runs _ ((dispatchAsync message).bind fun _ => .ret true) _ _ _
    rw [hdispatch]
    refine .call (r := some n) htake ?_
    show Prog.Runs _ ((k (some n)).bind fun _ => .ret true) _ _ _
    rw [hfound]
    refine .call (o := Op.trySet n settlement) (r := ()) (k := fun _ => .ret true) ?_ .ret
    exact (system script).exec_restrict.mpr ⟨rfl, rfl⟩
  exact Prog.runs_bind.mpr (.inl ⟨true, _, hreadOne.handle, .ret⟩)

theorem settles (script : Script) (lines : List Line) (c : Configuration) : Settles (harmlessRuns script lines) c := by
  intro message rest id n hcur hshutdown hlines hline hreadable hpending
  obtain ⟨idNode, -, hid, -⟩ := answerOf_eq_some hline
  obtain ⟨settlement, hanswer⟩ := settlementOf_readable (nodup_of_tryGet hid) hreadable
  have hturn := runs_answer script lines hshutdown hlines hline hreadable hpending hanswer
  have hjump : (harmlessRuns script lines).Next c ⟨Function.update c.cur .reader readLoopAsync, c.world⟩ :=
    ⟨_, .jump hcur⟩
  have hcode : Function.update c.cur .reader readLoopAsync .reader = readLoopAsync := Function.update_self ..
  have hsteps := (harmlessRuns script lines).steps_of_runs hturn hcode
  generalize hw : ((({ c.world with lines := rest } : World).hear message id).remove id) = w at hsteps
  have hrest : w.lines = rest := by rw [← hw]; rfl
  have htask : w.task = c.world.task := by rw [← hw]; rfl
  refine ⟨_, settlement, .head hjump hsteps, hanswer, ?_, ?_, fun hnone => ?_, fun m hm => ?_⟩
  · simp only [Function.update_self]
  · show (w.trySet n settlement).lines = rest
    unfold World.trySet
    split <;> exact hrest
  · show (w.trySet n settlement).task n = some settlement
    simp [World.trySet, htask, hnone]
  · show (w.trySet n settlement).task m = c.world.task m
    unfold World.trySet
    split
    · rw [htask]
    · rw [← htask]
      exact Function.update_of_ne hm _ _

/-- **What the read loop survives.** As long as it meets only what is harmless, every answer it has read has
settled the call it found pending, and no other; it has stopped only if the output ended, the connection was
shut down or a pipe failed; and it can settle the next. -/
theorem reader_survives {script : Script} {lines : List Line} {ls : List (Label Party Op Ret Point)} {c : Configuration}
    (h : (harmlessRuns script lines).Path (start script lines) ls c) :
    (AtRest c → Told lines c.world) ∧
    (Stopped c → ∃ o r, Label.call .reader o r ∈ ls ∧ ends .reader o r = true) ∧
    Settles (harmlessRuns script lines) c := by
  have hstart : Consistent { lines } := by
    constructor <;> intros <;> contradiction
  have hlistening : Listening lines { lines } := ⟨hstart, [], rfl, rfl, nofun⟩
  refine ⟨fun hrest => ?_, fun hstopped => ?_, settles script lines c⟩
  · have hholds : (listenOutline script lines).Holds ((harmlessRuns script lines).init (fun _ => .idle) { lines }) :=
      (listenOutline script lines).holds_init fun i => by
        refine ⟨?_, fun _ => hlistening⟩
        cases i with
        | call n => exact ⟨hstart, rfl⟩
        | _ => exact hstart
    have hc := (listenOutline script lines).holds_steps hholds h.steps .reader
    have hends : Listening lines c.world := by
      rcases hrest with ⟨x, hx⟩ | ⟨e, he⟩
      · rw [hx] at hc
        cases x <;> exact hc.2 rfl
      · rw [he] at hc
        exact hc.2 rfl
    exact hends.told
  · by_contra hnone
    have hcalm : (calmRuns script lines).Path (start script lines) ls c := by
      refine System.Path.restrict _ h fun i o r hmem => ?_
      rw [Bool.not_eq_true']
      cases i with
      | reader =>
          rw [Bool.eq_false_iff]
          exact fun hends => hnone ⟨o, r, hmem, hends⟩
      | _ => rfl
    have hholds : (calmOutline script lines).Holds ((calmRuns script lines).init (fun _ => .idle) { lines }) :=
      (calmOutline script lines).holds_init fun _ _ => ⟨[], rfl⟩
    have hc := (calmOutline script lines).holds_steps hholds hcalm.steps .reader
    rcases hstopped with ⟨r, hr⟩ | ⟨e, he⟩
    · rw [hr] at hc
      exact hc rfl
    · rw [he] at hc
      exact hc rfl

/-! ### An error code that is no number -/

/-- The answer to the first call: an error with this code. -/
def errorAnswer (code : Json) : JsonObject :=
  [("jsonrpc", .str "2.0"), ("id", .num "1"), ("error", .obj [("code", code), ("message", .str "no such file")])]

/-- Call 0 waits; the read loop takes the lines. -/
def readingSchedule (turns : Nat) : List (Party × ((o : Op) → World → Ret o)) :=
  List.replicate 11 (.call 0, granted) ++ List.replicate turns (.reader, granted)

def enoent : List Line := [.value (.obj (errorAnswer (.str "ENOENT")))]

/-- The loop has stopped, though nothing ended it, and the call whose answer it read is not completed. -/
theorem unreadable_error : ∃ ls c, (system oneCall).Path (start oneCall enoent) ls c ∧ Stopped c ∧
    (¬ ∃ o r, Label.call .reader o r ∈ ls ∧ ends .reader o r = true) ∧
    c.world.heard = [⟨errorAnswer (.str "ENOENT"), 1, true⟩] ∧ c.world.task 0 = none ∧ ¬ Told enoent c.world := by
  let S := (system oneCall).restrict fun i o _ r => !ends i o r
  let c := S.play (readingSchedule 6) (start oneCall enoent)
  have hsteps : S.Steps (start oneCall enoent) c := System.play_steps _ (readingSchedule 6) _
  have herror : System.error c .reader = some .invalidOperation := by decide +kernel
  have hheard : c.world.heard = [⟨errorAnswer (.str "ENOENT"), 1, true⟩] := by decide +kernel
  have hunreadable : settlementOf (errorAnswer (.str "ENOENT")) = .error .invalidOperation := by decide +kernel
  obtain ⟨ls, hpath⟩ := System.Steps.path _ hsteps
  refine ⟨ls, c, hpath.of_restrict, .inr ⟨_, System.cur_of_error herror⟩, ?_, hheard, by decide +kernel, fun htold => ?_⟩
  · rintro ⟨o, r, hmem, hends⟩
    have hcalm := hpath.meets _ hmem
    rw [hends] at hcalm
    cases hcalm
  · obtain ⟨⟨read, -, htold⟩, -⟩ := htold
    obtain ⟨n, settlement, -, hanswer, -⟩ := htold.settled _ (by rw [hheard]; exact List.mem_singleton_self _) rfl
    rw [hunreadable] at hanswer
    cases hanswer

def notFound : List Line := [.notJson, .value (.obj (errorAnswer (.num "-32601")))]

theorem reader_survives_two : ∃ ls c, (harmlessRuns oneCall notFound).Path (start oneCall notFound) ls c ∧
    c.world.task 0 = some (.exception (.remote (-32601) "no such file" none)) ∧ Told notFound c.world := by
  let c := (harmlessRuns oneCall notFound).play (readingSchedule 8) (start oneCall notFound)
  have hsteps : (harmlessRuns oneCall notFound).Steps (start oneCall notFound) c :=
    System.play_steps _ (readingSchedule 8) _
  have hrest : AtRest c := .of_isAtRest (by decide +kernel)
  obtain ⟨ls, hpath⟩ := System.Steps.path _ hsteps
  exact ⟨ls, c, hpath, by decide +kernel, (reader_survives hpath).1 hrest⟩

end AtlasFlow.Acp
