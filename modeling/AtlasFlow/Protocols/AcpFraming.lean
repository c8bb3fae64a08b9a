import AtlasFlow.Protocols.AcpConnection

/-!
# What the agent reads

A message is written as a document, a line end and a flush, under a lock that is released whatever
happens. So no two messages are mixed; but a writer whose token is cancelled after its document leaves a
line without an end, to which the next writer adds its own (`cancelled_line`). In every run in which that
does not happen the agent reads one document a line (`framed_unless_cut`).
-/

namespace AtlasFlow.Acp

open Concurrency

/-! ## Lines -/

/-- Documents, one a line. -/
def documentLines (documents : List JsonObject) : List Char :=
  documents.flatMap fun document => Json.text (.obj document) ++ ['\n']

theorem documentLines_append (documents : List JsonObject) (document : JsonObject) :
    documentLines (documents ++ [document]) = documentLines documents ++ Json.text (.obj document) ++ ['\n'] := by
  simp [documentLines]

/-- What was written is complete documents, each with one line end, and while a writer holds the lock
perhaps one more that has none yet. -/
def Framed (w : World) : Prop :=
  ∃ documents unfinished, w.stdin = documentLines documents ++ unfinished ∧
    (unfinished = [] ∨ w.holder.isSome ∧ ∃ document, unfinished = Json.text (.obj document))

/-- Where a text of lines begins with a document, that document is the first line. -/
theorem firstDocument_lines {documents : List JsonObject} {first : JsonObject} {rest : List Char}
    (h : documentLines documents = Json.text (.obj first) ++ rest) : rest.head? = some '\n' := by
  cases documents with
  | nil =>
      rw [documentLines, List.flatMap_nil, Json.text] at h
      cases h
  | cons document documents =>
      have hfirst := Json.firstDocument_text first rest
      rw [← h, documentLines, List.flatMap_cons, List.append_assoc, Json.firstDocument_text] at hfirst
      obtain rfl := Option.some.inj hfirst
      rfl

/-! ## Writers -/

/-- The writer that holds the lock is between two messages. -/
def Between (i : Party) (w : World) : Prop := w.holder = some i ∧ ∃ documents, w.stdin = documentLines documents

/-- The writer that holds the lock has written a document and not its line end. -/
def Halfway (i : Party) (document : JsonObject) (w : World) : Prop :=
  w.holder = some i ∧ ∃ documents, w.stdin = documentLines documents ++ Json.text (.obj document)

theorem Between.framed {i : Party} {w : World} (h : Between i w) : Framed w := by
  obtain ⟨-, documents, hstdin⟩ := h
  exact ⟨documents, [], by rw [hstdin, List.append_nil], .inl rfl⟩

theorem Halfway.framed {i : Party} {document : JsonObject} {w : World} (h : Halfway i document w) : Framed w := by
  obtain ⟨hholder, documents, hstdin⟩ := h
  exact ⟨documents, _, hstdin, .inr ⟨by rw [hholder]; rfl, document, rfl⟩⟩

/-- While nobody holds the lock, nothing is unfinished. -/
theorem Framed.unlocked {w : World} (h : Framed w) (hholder : w.holder = none) :
    ∃ documents, w.stdin = documentLines documents := by
  obtain ⟨documents, unfinished, hstdin, rfl | ⟨hlocked, -⟩⟩ := h
  · exact ⟨documents, by rw [hstdin, List.append_nil]⟩
  · rw [hholder] at hlocked
    cases hlocked

/-- The writer is not cut off between a document and its line end: its token is not cancelled when it
comes to the line end, and the pipe is open. -/
def notCut (_ : Party) : (o : Op) → World → Ret o → Bool
  | .write text token, w, _ => text ≠ ['\n'] || (!w.cancelled token && w.inputOpen)
  | _, _, _ => true

/-- The runs in which no writer is cut off. -/
def uncut (script : Script) : System Party Op Ret Exn Point Json World := (system script).restrict notCut

/-! ### Steps -/

/-- A step of `i`: it leaves the text framed, and it does nothing to the text or the lock while another
writer holds it. -/
structure Writes (i : Party) (w w' : World) : Prop where
  framed : Framed w → Framed w'
  locked : ∀ j, j ≠ i → w.holder = some j → w'.holder = some j ∧ w'.stdin = w.stdin

theorem Writes.stdin_of_between {i j : Party} {w w' : World} (hne : j ≠ i) (h : Writes j w w') (hi : Between i w) :
    Between i w' := by
  obtain ⟨hholder, documents, hstdin⟩ := hi
  obtain ⟨hholder', hstdin'⟩ := h.locked i (Ne.symm hne) hholder
  exact ⟨hholder', documents, hstdin'.trans hstdin⟩

theorem Writes.stdin_of_halfway {i j : Party} {document : JsonObject} {w w' : World} (hne : j ≠ i)
    (h : Writes j w w') (hi : Halfway i document w) : Halfway i document w' := by
  obtain ⟨hholder, documents, hstdin⟩ := hi
  obtain ⟨hholder', hstdin'⟩ := h.locked i (Ne.symm hne) hholder
  exact ⟨hholder', documents, hstdin'.trans hstdin⟩

/-- A step that meets neither the text nor the lock. -/
theorem Writes.of_eq {i : Party} {w w' : World} (hstdin : w'.stdin = w.stdin) (hholder : w'.holder = w.holder) :
    Writes i w w' := by
  constructor
  · intro h
    rw [Framed, hstdin, hholder]
    exact h
  · intro j _ hj
    exact ⟨hholder.trans hj, hstdin⟩

/-- A step of the writer that holds the lock, or takes it. -/
theorem Writes.of_holder {i : Party} {w w' : World} (hholder : w.holder = none ∨ w.holder = some i)
    (hframed : Framed w') : Writes i w w' := by
  refine ⟨fun _ => hframed, fun j hne hj => ?_⟩
  rcases hholder with h | h
  · rw [h] at hj
    cases hj
  · rw [h] at hj
    exact absurd (Option.some.inj hj).symm hne

/-- The operations that meet the text or the lock. -/
def meetsPipe : Op → Bool
  | .waitLock _ | .write .. | .release => true
  | _ => false

theorem exec_pipe {i : Party} {o : Op} {w w' : World} {r : Ret o} (ho : meetsPipe o = false)
    (h : exec i o w r = some w') : w'.stdin = w.stdin ∧ w'.holder = w.holder := by
  unfold exec at h
  split at h <;> grind [meetsPipe, World.draw, World.store, World.remove, World.hear, World.trySet]

/-! ### Programs -/

section Programs

variable {script : Script} {i : Party} {α β : Type}

/-- The contract of a writer. -/
abbrev writing (script : Script) (i : Party) : Contract Op Ret World := stepContract (uncut script).exec Writes i

/-- Started on framed text, the program leaves it framed with each of its calls. -/
def Safe (script : Script) (i : Party) (p : Program α) : Prop :=
  ∀ w, Framed w → wp (writing script i) p (fun _ => Framed) (fun _ => Framed) w

theorem uncut_exec {o : Op} {w w' : World} {r : Ret o} (h : (uncut script).exec i o w r = some w') :
    notCut i o w r = true ∧ exec i o w r = some w' := (System.exec_restrict _).mp h

theorem framed_stable : ∀ (j : Party) (w w' : World), j ≠ i → Writes j w w' → Framed w → Framed w' :=
  fun _ _ _ _ hstep => hstep.framed

theorem Safe.ret (a : α) : Safe script i (.ret a) := fun _ h => h

theorem Safe.raise (e : Exn) : Safe script i (.raise e : Program α) := fun _ h => h

theorem Safe.ofExcept (result : Except Exn α) : Safe script i (Prog.ofExcept result) := by
  cases result with
  | ok a => exact Safe.ret a
  | error e => exact Safe.raise e

theorem Safe.call {o : Op} {k : Ret o → Program α} (ho : meetsPipe o = false) (hk : ∀ r, Safe script i (k r)) :
    Safe script i (.call o k) := by
  intro w h
  refine wp_call_step Framed h framed_stable fun w r w' hframed hexec => ?_
  obtain ⟨hstdin, hholder⟩ := exec_pipe ho (uncut_exec hexec).2
  have hstep : Writes i w w' := .of_eq hstdin hholder
  exact ⟨hstep, hk r w' (hstep.framed hframed)⟩

theorem Safe.bind {p : Program α} {f : α → Program β} (hp : Safe script i p) (hf : ∀ a, Safe script i (f a)) :
    Safe script i (p.bind f) := fun w h => wp_seq (hp w h) fun a w' => hf a w'

theorem Safe.handle {p : Program α} {f : Exn → Program α} (hp : Safe script i p) (hf : ∀ e, Safe script i (f e)) :
    Safe script i (p.handle f) :=
  fun w h => wp_handle.mpr (wp_mono (hp w h) (fun _ _ h => h) fun e w' => hf e w')

theorem Safe.ensure {p : Program α} {q : Program Unit} (hp : Safe script i p) (hq : Safe script i q) :
    Safe script i (p.ensure q) :=
  fun w h => wp_ensure.mpr (wp_mono (hp w h) (fun _ w' => hq w') fun _ w' => hq w')

theorem Safe.forEach {body : β → Program Unit} {all : List β} (hbody : ∀ b, Safe script i (body b)) :
    Safe script i (Prog.forEach body all) :=
  fun _ h => wp_forEach (fun _ => Framed) h fun _ b _ w' _ => hbody b w'

/-! ### One message -/

/-- The document: it is written, or the line is as it was. -/
theorem wp_document {message : JsonObject} {token : Token} {w : World} (h : Between i w) :
    wp (writing script i) (do Prog.ofExcept (← call (.write (Json.text (.obj message)) token)))
      (fun _ => Halfway i message) (fun _ => Between i) w := by
  refine wp_call_step (Between i) h (fun _ _ _ hne hstep => Writes.stdin_of_between hne hstep)
    fun w r w' hi hexec => ?_
  obtain ⟨hholder, documents, hstdin⟩ := hi
  have hexec := (uncut_exec hexec).2
  cases r with
  | ok _ =>
      simp only [exec] at hexec
      split at hexec
      · cases hexec
        have hhalf : Halfway i message { w with stdin := w.stdin ++ Json.text (.obj message) } :=
          ⟨hholder, documents, by rw [hstdin]⟩
        exact ⟨.of_holder (.inr hholder) hhalf.framed, hhalf⟩
      · cases hexec
  | error e =>
      simp only [exec] at hexec
      split at hexec
      · cases hexec
        exact ⟨.of_eq rfl rfl, hholder, documents, hstdin⟩
      · cases hexec

/-- The line end: nothing cuts the writer off here. -/
theorem wp_newline {message : JsonObject} {token : Token} {w : World} (h : Halfway i message w) :
    wp (writing script i) (do Prog.ofExcept (← call (.write ['\n'] token)))
      (fun _ => Between i) (fun _ _ => False) w := by
  refine wp_call_step (Halfway i message) h (fun _ _ _ hne hstep => Writes.stdin_of_halfway hne hstep)
    fun w r w' hi hexec => ?_
  obtain ⟨hholder, documents, hstdin⟩ := hi
  obtain ⟨hcut, hexec⟩ := uncut_exec hexec
  have hgranted : (!w.cancelled token && w.inputOpen) = true := by simpa [notCut] using hcut
  cases r with
  | ok _ =>
      simp only [exec, hgranted, if_true] at hexec
      cases hexec
      have hbetween : Between i { w with stdin := w.stdin ++ ['\n'] } :=
        ⟨hholder, documents ++ [message], by rw [documentLines_append, hstdin]⟩
      exact ⟨.of_holder (.inr hholder) hbetween.framed, hbetween⟩
  | error e =>
      obtain ⟨htoken, hopen⟩ := Bool.and_eq_true_iff.mp hgranted
      rw [Bool.not_eq_true'] at htoken
      simp [exec, World.refuses, htoken, hopen] at hexec

/-- The flush changes nothing. -/
theorem wp_flush {token : Token} {w : World} (h : Between i w) :
    wp (writing script i) (do Prog.ofExcept (← call (.flush token)))
      (fun _ => Between i) (fun _ => Between i) w := by
  refine wp_call_step (Between i) h (fun _ _ _ hne hstep => Writes.stdin_of_between hne hstep)
    fun w r w' hi hexec => ?_
  obtain ⟨hholder, documents, hstdin⟩ := hi
  obtain ⟨hstdin', hholder'⟩ := exec_pipe rfl (uncut_exec hexec).2
  have hbetween : Between i w' := ⟨hholder'.trans hholder, documents, hstdin'.trans hstdin⟩
  refine ⟨.of_eq hstdin' hholder', ?_⟩
  cases r <;> exact hbetween

/-- The lock is released, or it is gone. -/
theorem wp_release {w : World} (h : Between i w) :
    wp (writing script i) (do Prog.ofExcept (← call .release)) (fun _ => Framed) (fun _ => Framed) w := by
  refine wp_call_step (Between i) h (fun _ _ _ hne hstep => Writes.stdin_of_between hne hstep)
    fun w r w' hi hexec => ?_
  obtain ⟨hholder, documents, hstdin⟩ := hi
  have hexec := (uncut_exec hexec).2
  have hframed : Framed { w with holder := none } := ⟨documents, [], by rw [hstdin, List.append_nil], .inl rfl⟩
  cases r with
  | ok _ =>
      simp only [exec] at hexec
      split at hexec
      · cases hexec
      · cases hexec
        exact ⟨.of_holder (.inr hholder) hframed, hframed⟩
  | error e =>
      simp only [exec] at hexec
      split at hexec
      · cases hexec
        exact ⟨.of_holder (.inr hholder) hframed, hframed⟩
      · cases hexec

/-- **`WriteAsync`**: however it ends, the text is framed. -/
theorem safe_writeAsync (message : JsonObject) (token : Token) : Safe script i (writeAsync message token) := by
  simp only [writeAsync, Prog.bind_eq, Prog.op_bind]
  refine Safe.call rfl fun isOpen => Safe.bind (Safe.ofExcept isOpen) fun isOpen => ?_
  split
  · exact Safe.raise _
  intro w h
  refine wp_call_step Framed h framed_stable fun w r w' hframed hexec => ?_
  have hexec := (uncut_exec hexec).2
  cases r with
  | error e =>
      simp only [exec] at hexec
      split at hexec
      · cases hexec
        exact ⟨.of_eq rfl rfl, hframed⟩
      · cases hexec
  | ok _ =>
      simp only [exec] at hexec
      split at hexec
      · next hfree =>
          cases hexec
          have hholder : w.holder = none := by
            simp only [Bool.and_eq_true, decide_eq_true_eq] at hfree
            exact hfree.1.1
          obtain ⟨documents, hstdin⟩ := hframed.unlocked hholder
          have hbetween : Between i { w with holder := some i } := ⟨rfl, documents, hstdin⟩
          refine ⟨.of_holder (.inl hholder) hbetween.framed, ?_⟩
          -- whatever ends the three writes, the writer is between two messages
          refine wp_ensure.mpr (wp_mono (Q := fun _ => Between i) (F := fun _ => Between i) ?_
            (fun _ _ => wp_release) fun _ _ => wp_release)
          refine wp_handle.mpr (wp_mono (Q := fun _ => Between i) (F := fun _ => Between i) ?_ (fun _ _ h => h) ?_)
          · refine wp_seq (wp_mono (wp_document hbetween) (fun _ _ h => h) fun _ _ h => h) fun _ _ hhalf => ?_
            exact wp_seq (wp_mono (wp_newline hhalf) (fun _ _ h => h) fun _ _ h => h.elim) fun _ _ => wp_flush
          · intro e w h
            split <;> exact h
      · cases hexec

/-! ### The programs of the parties -/

theorem safe_notifyAsync (notification : Notification) : Safe script i (notifyAsync notification) := by
  unfold notifyAsync
  split
  · exact Safe.raise _
  · exact safe_writeAsync _ _

theorem safe_writeAndWait (id : Int) (request : Request) : Safe script i (writeAndWait id request) := by
  simp only [writeAndWait, Prog.bind_eq, Prog.op_bind]
  refine Safe.bind (safe_writeAsync _ _) fun _ => Safe.call rfl fun _ => ?_
  exact Safe.call rfl fun settlement => Safe.call rfl fun _ => Safe.ofExcept _

theorem safe_timedOut (request : Request) (e : Exn) : Safe script i (timedOut request e) := by
  unfold timedOut
  split
  · refine Safe.bind (Safe.call rfl fun cancelled => Safe.ret cancelled) fun cancelled => ?_
    split <;> exact Safe.raise _
  · exact Safe.raise _

theorem safe_callAsync (request : Request) : Safe script i (callAsync request) := by
  unfold callAsync
  split
  · exact Safe.raise _
  simp only [Prog.bind_eq, Prog.op_bind]
  refine Safe.call rfl fun running => Safe.bind (Safe.ofExcept running) fun running => ?_
  split
  · exact Safe.raise _
  refine Safe.call rfl fun id => Safe.call rfl fun _ => ?_
  refine Safe.ensure (Safe.handle (safe_writeAndWait id request) (safe_timedOut request)) ?_
  exact Safe.call rfl fun _ => Safe.ret ()

theorem safe_failPending (error : Exn) : Safe script i (failPending error) := by
  simp only [failPending, Prog.bind_eq, Prog.op_bind]
  refine Safe.call rfl fun keys => Safe.forEach fun key => Safe.call rfl fun pending => ?_
  cases pending with
  | none => exact Safe.ret ()
  | some pending => exact Safe.call rfl fun _ => Safe.ret ()

theorem safe_dispatchAsync (message : JsonObject) : Safe script i (dispatchAsync message) := by
  simp only [dispatchAsync, Prog.bind_eq]
  refine Safe.bind (Safe.ofExcept _) fun methodNode => Safe.bind (Safe.ofExcept _) fun idNode => ?_
  cases methodNode with
  | some method =>
      cases idNode with
      | some id =>
          simp only [handleRequestAsync, Prog.bind_eq, Prog.op_bind]
          refine Safe.bind (Safe.ofExcept _) fun method => Safe.call rfl fun found => ?_
          split
          · exact safe_writeAsync _ _
          · refine Safe.call rfl fun outcome => ?_
            cases outcome <;> exact safe_writeAsync _ _
      | none =>
          simp only [handleNotification, Prog.bind_eq, Prog.op_bind]
          refine Safe.call rfl fun listening => ?_
          split
          · exact Safe.bind (Safe.ofExcept _) fun _ => Safe.call rfl fun outcome => Safe.ofExcept outcome
          · exact Safe.ret ()
  | none =>
      cases idNode with
      | none => exact Safe.ret ()
      | some id =>
          simp only [handleResponse, Prog.bind_eq, Prog.op_bind]
          cases tryReadId id with
          | none => exact Safe.ret ()
          | some id =>
              refine Safe.call rfl fun pending => ?_
              cases pending with
              | none => exact Safe.ret ()
              | some pending => exact Safe.bind (Safe.ofExcept _) fun _ => Safe.call rfl fun _ => Safe.ret ()

theorem safe_readOne : Safe script i readOne := by
  simp only [readOne, Prog.bind_eq, Prog.op_bind]
  refine Safe.call rfl fun shutdown => ?_
  split
  · exact Safe.ret false
  refine Safe.call rfl fun line => Safe.bind (Safe.ofExcept line) fun line => ?_
  split
  · exact Safe.ret false
  · exact Safe.bind (safe_dispatchAsync _) fun _ => Safe.ret true
  · exact Safe.ret true

theorem safe_readLoopAsync : Safe script i readLoopAsync := by
  simp only [readLoopAsync, Prog.bind_eq]
  refine Safe.bind (Safe.handle safe_readOne fun e => ?_) fun goesOn => ?_
  · split
    · exact Safe.ret false
    · exact Safe.ret false
    · exact Safe.bind (safe_failPending _) fun _ => Safe.raise _
  · split
    · exact Safe.ret _
    · exact Safe.bind (safe_failPending _) fun _ => Safe.ret _

theorem safe_disposeAsync : Safe script i disposeAsync := by
  simp only [disposeAsync, Prog.bind_eq, Prog.op_bind]
  refine Safe.call rfl fun closed => ?_
  split
  · exact Safe.ret ()
  refine Safe.call rfl fun _ => Safe.call rfl fun _ => Safe.call rfl fun _ => ?_
  exact Safe.bind (safe_failPending _) fun _ => Safe.call rfl fun _ => Safe.ret ()

theorem safe_code (script : Script) : ∀ (i : Party) (point : Point), Safe script i ((uncut script).code i point)
  | .call _, .idle | .notify _, .idle | .reader, .idle | .timer _, .idle | .cancel _, .idle | .agent, .idle
  | .dispose _, .idle => Safe.ret _
  | .call _, .ready => Safe.bind (safe_callAsync _) fun _ => Safe.ret _
  | .notify _, .ready => Safe.bind (safe_notifyAsync _) fun _ => Safe.ret _
  | .reader, .ready => safe_readLoopAsync
  | .timer _, .ready => Safe.call rfl fun _ => Safe.ret _
  | .cancel _, .ready => Safe.call rfl fun _ => Safe.ret _
  | .agent, .ready => Safe.call rfl fun _ => Safe.ret _
  | .dispose _, .ready => Safe.bind safe_disposeAsync fun _ => Safe.ret _

end Programs

/-! ## Runs -/

def framingOutline (script : Script) : Outline (uncut script) :=
  Outline.ofSteps Writes (fun _ _ => Framed) (fun _ _ => Framed) (fun _ _ => Framed)
    (fun _ _ _ _ _ _ hstep => hstep.framed) (fun _ _ _ _ _ _ hstep => hstep.framed)
    (fun _ _ _ _ _ _ hstep => hstep.framed) fun i point w h =>
      wp_mono (safe_code script i point w h) (fun x _ h => by cases x <;> exact h) fun _ _ h => h

/-- **The agent reads one document a line**, in every run in which no writer is cut off between its document
and its line end. -/
theorem framed_unless_cut {script : Script} {lines : List Line} {c : Conf Party Op Ret Exn Point Json World}
    (h : (uncut script).Steps (start script lines) c) : Framed c.world := by
  have hsteps : (uncut script).Steps ((uncut script).init (fun _ => .idle) { lines }) c := h
  have hstart : Framed { lines } := ⟨[], [], rfl, .inl rfl⟩
  exact (framingOutline script).world_steps (fun _ _ _ _ _ hstep => hstep.framed)
    ((framingOutline script).holds_init fun _ => hstart) hstart hsteps

/-! ### Two calls -/

/-- A write is called off. -/
def calledOff : (o : Op) → World → Ret o
  | .write .., _ => .error .operationCanceled
  | o, w => granted o w

def twoCalls : Script where
  requests n := { method := "session/prompt", parameters := [], token := .caller n, totalSeconds := "60" }
  notifications _ := { method := "session/cancel", parameters := [], token := .none }

/-- Call `n` up to its document, or with its line end, its flush and the release of the lock. -/
def documentOf (n : Nat) : List (Party × ((o : Op) → World → Ret o)) := List.replicate 7 (.call n, granted)

def lineOf (n : Nat) : List (Party × ((o : Op) → World → Ret o)) := List.replicate 10 (.call n, granted)

/-- The token of call 0 is cancelled when its document is written; then call 1 writes its own. -/
def cutSchedule : List (Party × ((o : Op) → World → Ret o)) :=
  documentOf 0 ++ List.replicate 2 (.cancel (.caller 0), granted) ++ [(.call 0, calledOff), (.call 0, granted)] ++
    lineOf 1

/-- A message that nobody cancelled is the second half of a line that is no document. -/
theorem cancelled_line : ∃ c, (system twoCalls).Steps (start twoCalls []) c ∧
    c.world.stdin = Json.text (.obj (requestMessage 1 (twoCalls.requests 0))) ++
      (Json.text (.obj (requestMessage 2 (twoCalls.requests 1))) ++ ['\n']) ∧ ¬ Framed c.world := by
  let c := (system twoCalls).play cutSchedule (start twoCalls [])
  have hstdin : c.world.stdin = Json.text (.obj (requestMessage 1 (twoCalls.requests 0))) ++
      (Json.text (.obj (requestMessage 2 (twoCalls.requests 1))) ++ ['\n']) := by
    decide +kernel
  refine ⟨c, System.play_steps _ cutSchedule _, hstdin, fun hframed => ?_⟩
  have hholder : c.world.holder = none := by decide +kernel
  obtain ⟨documents, hlines⟩ := hframed.unlocked hholder
  have hhead := firstDocument_lines (hlines.symm.trans hstdin)
  revert hhead
  decide

theorem framed_unless_cut_two : ∃ c, (uncut twoCalls).Steps (start twoCalls []) c ∧
    c.world.stdin = documentLines [requestMessage 1 (twoCalls.requests 0), requestMessage 2 (twoCalls.requests 1)] ∧
      Framed c.world := by
  let c := (uncut twoCalls).play (lineOf 0 ++ lineOf 1) (start twoCalls [])
  have hsteps : (uncut twoCalls).Steps (start twoCalls []) c := System.play_steps _ (lineOf 0 ++ lineOf 1) _
  exact ⟨c, hsteps, by decide +kernel, framed_unless_cut hsteps⟩

end AtlasFlow.Acp
