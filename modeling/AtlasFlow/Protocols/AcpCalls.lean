import AtlasFlow.Protocols.AcpConnection

/-!
# Calls and their answers

A call draws an id, puts itself into the table of pending calls and waits; the read loop takes it out
when an answer with that id comes, and completes it; a timer, a caller's token and whoever closes the
connection may complete it first. Whoever takes an entry out of the table is alone with it: so a call that
ends with an answer ends with the first one that found it pending (`calls_get_their_answers`).
-/

namespace AtlasFlow.Acp

open Concurrency

/-! ## What has been heard -/

/-- No answer with this id has found a call pending. -/
def Unheard (heard : List Heard) (id : Int) : Prop := ∀ h ∈ heard, h.id = id → h.found = false

/-- This message is the first answer with this id that found a call pending. -/
def FirstHeard (heard : List Heard) (id : Int) (message : JsonObject) : Prop :=
  ∃ before after, heard = before ++ ⟨message, id, true⟩ :: after ∧ Unheard before id

/-- A call that drew `id` was completed with what its answer says. -/
def Answered (heard : List Heard) (id : Int) (settlement : Settlement) : Prop :=
  ∃ message, FirstHeard heard id message ∧ settlementOf message = .ok settlement

/-- A result or a remote error: what only an answer completes a call with. -/
def Settlement.isAnswer : Settlement → Bool
  | .result _ | .exception (.remote ..) => true
  | _ => false

def Exn.isRemote : Exn → Bool
  | .remote .. => true
  | _ => false

theorem FirstHeard.append {heard : List Heard} {id : Int} {message : JsonObject} (h : FirstHeard heard id message)
    (later : List Heard) : FirstHeard (heard ++ later) id message := by
  obtain ⟨before, after, rfl, hunheard⟩ := h
  exact ⟨before, after ++ later, by rw [List.append_assoc, List.cons_append], hunheard⟩

theorem Answered.append {heard : List Heard} {id : Int} {settlement : Settlement}
    (h : Answered heard id settlement) (later : List Heard) : Answered (heard ++ later) id settlement := by
  obtain ⟨message, hfirst, hsettlement⟩ := h
  exact ⟨message, hfirst.append later, hsettlement⟩

/-! ## The invariant -/

structure Consistent (w : World) : Prop where
  drawn : ∀ n id, w.id n = some id → id ≤ w.nextId
  distinct : ∀ n m id, w.id n = some id → w.id m = some id → n = m
  entries : ∀ id n, w.pending.get? id = some n → w.id n = some id ∧ Unheard w.heard id
  found : ∀ h ∈ w.heard, h.found = true → h.id ≤ w.nextId
  answers : ∀ n settlement, w.task n = some settlement → settlement.isAnswer = true →
    ∃ id, w.id n = some id ∧ Answered w.heard id settlement

/-- A step of `i`: what nobody but a call does to its own id and its own entry, and nobody but the read
loop to what has been heard. -/
structure Moves (i : Party) (w w' : World) : Prop where
  consistent : Consistent w → Consistent w'
  undrawn : ∀ n, i ≠ .call n → w'.id n = w.id n
  drawn : ∀ n id, w.id n = some id → w'.id n = some id
  entry : ∀ n, i ≠ .call n → ∀ id, w'.pending.get? id = some n → w.pending.get? id = some n
  heard : ∃ later, w'.heard = w.heard ++ later
  unheard : ∀ id, w.pending.get? id = none → Unheard w.heard id → Unheard w'.heard id
  task : ∀ n settlement, w.task n = some settlement → w'.task n = some settlement

/-- The same table, and the same of everything that is said of it. -/
structure SameTable (w w' : World) : Prop where
  nextId : w'.nextId = w.nextId
  pending : w'.pending = w.pending
  task : w'.task = w.task
  id : w'.id = w.id
  heard : w'.heard = w.heard

namespace SameTable

variable {i : Party} {w w' : World}

theorem consistent (hsame : SameTable w w') (h : Consistent w) : Consistent w' := by
  obtain ⟨hnextId, hpending, htask, hid, hheard⟩ := hsame
  obtain ⟨hdrawn, hdistinct, hentries, hfound, hanswers⟩ := h
  constructor
  · rwa [hnextId, hid]
  · rwa [hid]
  · rwa [hpending, hid, hheard]
  · rwa [hnextId, hheard]
  · rwa [htask, hid, hheard]

theorem moves (hsame : SameTable w w') : Moves i w w' where
  consistent := hsame.consistent
  undrawn n _ := by rw [hsame.id]
  drawn n id h := by rw [hsame.id, h]
  entry n _ id h := by rw [← hsame.pending, h]
  heard := ⟨[], by rw [hsame.heard, List.append_nil]⟩
  unheard id _ h := by rw [hsame.heard]; exact h
  task n settlement h := by rw [hsame.task, h]

end SameTable

/-! ### Steps that meet the table -/

section Steps

variable {i : Party} {w : World} {n : Nat} {id : Int} {message : JsonObject}

/-- A call draws the next id: nobody has it, and nothing has been heard of it. -/
theorem Consistent.draw (h : Consistent w) (hnone : w.id n = none) : Consistent (w.draw n) := by
  have hid : ∀ m id, (w.draw n).id m = some id → (m = n ∧ id = w.nextId + 1) ∨ w.id m = some id := by
    intro m id hm
    simp only [World.draw, Function.update_apply] at hm
    split at hm
    · next heq => exact .inl ⟨heq, (Option.some.inj hm).symm⟩
    · exact .inr hm
  have hkept : ∀ m id, w.id m = some id → (w.draw n).id m = some id := by
    intro m id hm
    have hne : m ≠ n := by
      rintro rfl
      rw [hnone] at hm
      cases hm
    simp only [World.draw, Function.update_of_ne hne, hm]
  have hnext : (w.draw n).nextId = w.nextId + 1 := rfl
  constructor
  · intro m id hm
    rcases hid m id hm with ⟨-, rfl⟩ | hold
    · exact Int.le_refl _
    · have hle := h.drawn m id hold
      omega
  · intro m m' k hm hm'
    rcases hid m k hm with ⟨hmn, hk⟩ | hold <;> rcases hid m' k hm' with ⟨hmn', hk'⟩ | hold'
    · rw [hmn, hmn']
    · have hle := h.drawn m' k hold'
      omega
    · have hle := h.drawn m k hold
      omega
    · exact h.distinct m m' k hold hold'
  · intro id m hm
    obtain ⟨hold, hunheard⟩ := h.entries id m hm
    exact ⟨hkept m id hold, hunheard⟩
  · intro e he hfound
    have hle := h.found e he hfound
    omega
  · intro m settlement hm hanswer
    obtain ⟨id, hold, hanswered⟩ := h.answers m settlement hm hanswer
    exact ⟨id, hkept m id hold, hanswered⟩

theorem moves_draw (h : w.id n = none) : Moves (.call n) w (w.draw n) where
  consistent hw := hw.draw h
  undrawn m hm := Function.update_of_ne (fun heq => hm (by rw [heq])) _ _
  drawn m id hm := by
    have hne : m ≠ n := by
      rintro rfl
      rw [h] at hm
      cases hm
    simp only [World.draw, Function.update_of_ne hne, hm]
  entry _ _ _ hm := hm
  heard := ⟨[], by simp [World.draw]⟩
  unheard _ _ hm := hm
  task _ _ hm := hm

/-- A call puts itself under the id it has drawn. -/
theorem Consistent.store (h : Consistent w) (hid : w.id n = some id) (hunheard : Unheard w.heard id) :
    Consistent (w.store n id) where
  drawn := h.drawn
  distinct := h.distinct
  entries k m hm := by
    simp only [World.store, Dict.get?_set] at hm
    split at hm
    · next heq =>
        cases hm
        subst heq
        exact ⟨hid, hunheard⟩
    · exact h.entries k m hm
  found := h.found
  answers := h.answers

theorem moves_store (hid : w.id n = some id) (hunheard : Unheard w.heard id) : Moves (.call n) w (w.store n id) where
  consistent hw := hw.store hid hunheard
  undrawn _ _ := rfl
  drawn _ _ hm := hm
  entry m hm k hk := by
    simp only [World.store, Dict.get?_set] at hk
    split at hk
    · cases hk
      exact absurd rfl hm
    · exact hk
  heard := ⟨[], by simp [World.store]⟩
  unheard _ _ hm := hm
  task _ _ hm := hm

theorem get?_remove {k : Int} {m : Nat} (h : (w.remove id).pending.get? k = some m) :
    k ≠ id ∧ w.pending.get? k = some m := by
  simp only [World.remove, Dict.get?_pop] at h
  split at h
  · cases h
  · next hne => exact ⟨Ne.symm hne, h⟩

/-- Taking an entry out. -/
theorem Consistent.remove (h : Consistent w) : Consistent (w.remove id) where
  drawn := h.drawn
  distinct := h.distinct
  entries k m hm := h.entries k m (get?_remove hm).2
  found := h.found
  answers := h.answers

theorem moves_remove : Moves i w (w.remove id) where
  consistent hw := hw.remove
  undrawn _ _ := rfl
  drawn _ _ hm := hm
  entry _ _ _ hm := (get?_remove hm).2
  heard := ⟨[], by simp [World.remove]⟩
  unheard _ _ hm := hm
  task _ _ hm := hm

/-- The read loop takes an entry out: what it notes is the first that finds this call pending. -/
theorem Consistent.hear_remove (h : Consistent w) : Consistent ((w.hear message id).remove id) where
  drawn := h.drawn
  distinct := h.distinct
  entries k m hm := by
    obtain ⟨hne, hk⟩ := get?_remove hm
    obtain ⟨hid, hunheard⟩ := h.entries k m hk
    refine ⟨hid, fun e he hek => ?_⟩
    rcases List.mem_append.mp (show e ∈ w.heard ++ [_] from he) with hold | hlast
    · exact hunheard e hold hek
    · rw [List.mem_singleton.mp hlast] at hek
      exact absurd hek.symm hne
  found e he hfound := by
    rcases List.mem_append.mp (show e ∈ w.heard ++ [_] from he) with hold | hlast
    · exact h.found e hold hfound
    · rw [List.mem_singleton.mp hlast] at hfound ⊢
      obtain ⟨m, hm⟩ := Option.isSome_iff_exists.mp hfound
      exact h.drawn m id (h.entries id m hm).1
  answers m settlement hm hanswer := by
    obtain ⟨k, hk, hanswered⟩ := h.answers m settlement hm hanswer
    exact ⟨k, hk, hanswered.append _⟩

theorem moves_hear_remove : Moves .reader w ((w.hear message id).remove id) where
  consistent hw := hw.hear_remove
  undrawn _ _ := rfl
  drawn _ _ hm := hm
  entry _ _ _ hm := (get?_remove hm).2
  heard := ⟨_, rfl⟩
  unheard k hk hm e he hek := by
    rcases List.mem_append.mp (show e ∈ w.heard ++ [_] from he) with hold | hlast
    · exact hm e hold hek
    · rw [List.mem_singleton.mp hlast] at hek ⊢
      have hek : id = k := hek
      subst hek
      simp [hk]
  task _ _ hm := hm

/-- A completion source is completed with an answer only when that answer was heard. -/
theorem Consistent.trySet {settlement : Settlement} (h : Consistent w)
    (hanswer : settlement.isAnswer = true → ∃ id, w.id n = some id ∧ Answered w.heard id settlement) :
    Consistent (w.trySet n settlement) := by
  unfold World.trySet
  split
  · exact h
  · refine ⟨h.drawn, h.distinct, h.entries, h.found, fun m s hm hs => ?_⟩
    simp only [Function.update_apply] at hm
    split at hm
    · next heq =>
        cases hm
        subst heq
        exact hanswer hs
    · exact h.answers m s hm hs

theorem moves_trySet {settlement : Settlement}
    (hanswer : settlement.isAnswer = true → ∃ id, w.id n = some id ∧ Answered w.heard id settlement) :
    Moves i w (w.trySet n settlement) := by
  refine ⟨fun hw => hw.trySet hanswer, ?_, ?_, ?_, ?_, ?_, ?_⟩ <;> unfold World.trySet <;> split
  case refine_6.isFalse hnone =>
    intro m s hm
    have hne : m ≠ n := by
      rintro rfl
      rw [hm] at hnone
      exact hnone rfl
    simp only [Function.update_of_ne hne, hm]
  case refine_4.isTrue | refine_4.isFalse => exact ⟨[], (List.append_nil _).symm⟩
  all_goals intros; first | rfl | assumption

end Steps

/-! ### Steps that do not -/

def meetsTable : Op → Bool
  | .increment | .store _ | .tryRemove _ | .tryRemoveFor .. | .trySet .. => true
  | _ => false

theorem exec_sameTable {i : Party} {o : Op} {w w' : World} {r : Ret o} (ho : meetsTable o = false)
    (h : exec i o w r = some w') : SameTable w w' := by
  have hsame : w'.nextId = w.nextId ∧ w'.pending = w.pending ∧ w'.task = w.task ∧ w'.id = w.id ∧
      w'.heard = w.heard := by
    unfold exec at h
    split at h <;> grind [meetsTable]
  obtain ⟨hnextId, hpending, htask, hid, hheard⟩ := hsame
  exact ⟨hnextId, hpending, htask, hid, hheard⟩

/-- What the process, the pipe and the lock throw is not what an agent answers. -/
def isLocal : (o : Op) → Ret o → Bool
  | .running, .error e | .isOpen, .error e | .waitLock _, .error e | .write .., .error e | .flush _, .error e
  | .release, .error e => !e.isRemote
  | _, _ => true

theorem exec_isLocal {i : Party} {o : Op} {w w' : World} {r : Ret o} (h : exec i o w r = some w') :
    isLocal o r = true := by
  unfold exec at h
  split at h <;> grind [isLocal, World.refuses, Exn.isRemote]

/-! ## Programs -/

section Programs

variable {script : Script} {i : Party} {α : Type}

/-- The contract of a party. -/
abbrev calling (script : Script) (i : Party) : Contract Op Ret World := stepContract (system script).exec Moves i

/-- Neither the others nor what `i` does beside the table touch the assertion. -/
structure Steady (i : Party) (P : World → Prop) : Prop where
  others : ∀ j w w', j ≠ i → Moves j w w' → P w → P w'
  same : ∀ w w', SameTable w w' → P w → P w'

/-- The rule for a call beside the table. -/
theorem wp_quiet {o : Op} {k : Ret o → Program α} {Q : α → World → Prop} {F : Exn → World → Prop} {w : World}
    {P : World → Prop} (hP : Steady i P) (ho : meetsTable o = false) (hw : P w)
    (hk : ∀ w r w', exec i o w r = some w' → P w' → wp (calling script i) (k r) Q F w') :
    wp (calling script i) (.call o k) Q F w := by
  refine wp_call_step P hw hP.others fun w r w' hw hexec => ?_
  have hsame := exec_sameTable ho hexec
  exact ⟨hsame.moves, hk w r w' hexec (hP.same w w' hsame hw)⟩

/-- An exception that is no answer of the agent. -/
def Unanswered (P : World → Prop) (e : Exn) (w : World) : Prop := P w ∧ e.isRemote = false

/-- The rule for a call beside the table that may throw, where it is made. -/
theorem wp_await {β : Type} {o : Op} (get : Ret o → Except Exn β) {k : β → Program α} {Q : α → World → Prop}
    {F : Exn → World → Prop} {w : World} {P : World → Prop} (hP : Steady i P) (ho : meetsTable o = false)
    (hget : ∀ r e, get r = .error e → isLocal o r = true → e.isRemote = false) (hw : P w)
    (hk : ∀ b w, P w → wp (calling script i) (k b) Q F w) (hF : ∀ e w, Unanswered P e w → F e w) :
    wp (calling script i) (.call o fun r => (Prog.ofExcept (get r)).bind k) Q F w := by
  refine wp_quiet hP ho hw fun _ r w hexec hw => ?_
  cases hr : get r with
  | ok b => exact hk b w hw
  | error e => exact hF e w ⟨hw, hget r e hr (exec_isLocal hexec)⟩

/-- The three writes of a message. -/
theorem wp_writes {P : World → Prop} (hP : Steady i P) {message : JsonObject} {token : Token} {w : World}
    (hw : P w) :
    wp (calling script i) (do
      Prog.ofExcept (← call (.write (Json.text (.obj message)) token))
      Prog.ofExcept (← call (.write ['\n'] token))
      Prog.ofExcept (← call (.flush token))) (fun _ => P) (Unanswered P) w := by
  have hlocal : ∀ text (r : Except Exn Unit) e, r = .error e → isLocal (.write text token) r = true →
      e.isRemote = false := by
    rintro text r e rfl h
    simpa [isLocal] using h
  refine wp_await (o := .write _ _) (fun r => r) hP rfl (hlocal _) hw (fun _ w hw => ?_) fun _ _ h => h
  refine wp_await (o := .write _ _) (fun r => r) hP rfl (hlocal _) hw (fun _ w hw => ?_) fun _ _ h => h
  refine wp_quiet hP rfl hw fun _ r w hexec hw => ?_
  cases r with
  | ok _ => exact hw
  | error e => exact ⟨hw, by simpa [isLocal] using exec_isLocal hexec⟩

/-- Releasing the lock. -/
theorem wp_releaseLock {P : World → Prop} (hP : Steady i P) {Q : Unit → World → Prop} {F : Exn → World → Prop}
    {w : World} (hw : P w) (hQ : ∀ w, P w → Q () w) (hF : ∀ e w, Unanswered P e w → F e w) :
    wp (calling script i) (do Prog.ofExcept (← call .release)) Q F w := by
  refine wp_quiet hP rfl hw fun _ r w hexec hw => ?_
  cases r with
  | ok _ => exact hQ w hw
  | error e => exact hF e w ⟨hw, by simpa [isLocal] using exec_isLocal hexec⟩

/-- **`WriteAsync`** does not meet the table, and what it throws is no answer. -/
theorem wp_writeAsync {P : World → Prop} (hP : Steady i P) {message : JsonObject} {token : Token} {w : World}
    (hw : P w) : wp (calling script i) (writeAsync message token) (fun _ => P) (Unanswered P) w := by
  have hopen : ∀ (r : Except Exn Bool) e, r = .error e → isLocal .isOpen r = true → e.isRemote = false := by
    rintro r e rfl h
    simpa [isLocal] using h
  have hlock : ∀ (r : Except Exn Unit) e, r = .error e → isLocal (.waitLock token) r = true → e.isRemote = false := by
    rintro r e rfl h
    simpa [isLocal] using h
  refine wp_await (o := .isOpen) (fun r => r) hP rfl hopen hw (fun isOpen w hw => ?_) fun _ _ h => h
  split
  · exact ⟨hw, rfl⟩
  refine wp_await (o := .waitLock token) (fun r => r) hP rfl hlock hw (fun _ w hw => ?_) fun _ _ h => h
  refine wp_ensure.mpr (wp_mono (Q := fun _ => P) (F := Unanswered P) ?_ ?_ ?_)
  · refine wp_handle.mpr (wp_mono (wp_writes hP hw) (fun _ _ h => h) fun e w h => ?_)
    split
    · exact ⟨h.1, rfl⟩
    · exact h
  · exact fun _ w h => wp_releaseLock hP h (fun _ h => h) fun _ _ h => h
  · exact fun e w h => wp_releaseLock hP h.1 (fun _ hw => ⟨hw, h.2⟩) fun _ _ h => h

end Programs

/-! ## A call -/

section Call

variable {script : Script} {i : Party} {n : Nat} {id : Int}

/-- The call has not drawn its id. -/
def Undrawn (n : Nat) (w : World) : Prop := Consistent w ∧ w.id n = none

/-- The call has drawn its id and is not in the table. -/
def Drawn (n : Nat) (id : Int) (w : World) : Prop :=
  Consistent w ∧ w.id n = some id ∧ w.pending.get? id = none ∧ Unheard w.heard id

/-- The call is waiting, or was taken out of the table. -/
def Waiting (n : Nat) (id : Int) (w : World) : Prop := Consistent w ∧ w.id n = some id

/-- The call was completed. -/
def Completed (n : Nat) (id : Int) (settlement : Settlement) (w : World) : Prop :=
  Waiting n id w ∧ w.task n = some settlement

/-- The call is not in the table, and will not be. -/
def Gone (n : Nat) (w : World) : Prop := Consistent w ∧ ∀ id, w.pending.get? id ≠ some n

theorem Waiting.steady : Steady i (Waiting n id) where
  others _ _ _ _ hmoves h := ⟨hmoves.consistent h.1, hmoves.drawn n id h.2⟩
  same _ _ hsame h := ⟨hsame.consistent h.1, by rw [hsame.id, h.2]⟩

theorem Completed.steady {settlement : Settlement} : Steady i (Completed n id settlement) where
  others _ _ _ hne hmoves h := ⟨Waiting.steady.others _ _ _ hne hmoves h.1, hmoves.task n settlement h.2⟩
  same _ _ hsame h := ⟨⟨hsame.consistent h.1.1, by rw [hsame.id, h.1.2]⟩, by rw [hsame.task, h.2]⟩

theorem Undrawn.steady : Steady (.call n) (Undrawn n) where
  others j _ _ hne hmoves h := ⟨hmoves.consistent h.1, by rw [hmoves.undrawn n hne, h.2]⟩
  same _ _ hsame h := ⟨hsame.consistent h.1, by rw [hsame.id, h.2]⟩

/-- Nobody else puts an entry under an id that a call has drawn. -/
theorem Drawn.others {j : Party} {w w' : World} (hne : j ≠ .call n) (hmoves : Moves j w w') (h : Drawn n id w) :
    Drawn n id w' := by
  obtain ⟨hconsistent, hid, hnone, hunheard⟩ := h
  have hconsistent' := hmoves.consistent hconsistent
  have hid' := hmoves.drawn n id hid
  refine ⟨hconsistent', hid', ?_, hmoves.unheard id hnone hunheard⟩
  cases hentry : w'.pending.get? id with
  | none => rfl
  | some m =>
      have hm : m = n := hconsistent'.distinct m n id (hconsistent'.entries id m hentry).1 hid'
      rw [hm] at hentry
      have hold := hmoves.entry n hne id hentry
      rw [hnone] at hold
      cases hold

theorem Gone.others {j : Party} {w w' : World} (hne : j ≠ .call n) (hmoves : Moves j w w') (h : Gone n w) :
    Gone n w' :=
  ⟨hmoves.consistent h.1, fun id hentry => h.2 id (hmoves.entry n hne id hentry)⟩

/-- Before it has drawn an id, a call is not in the table. -/
theorem Undrawn.gone {w : World} (h : Undrawn n w) : Gone n w := by
  refine ⟨h.1, fun id hentry => ?_⟩
  have hid := (h.1.entries id n hentry).1
  rw [h.2] at hid
  cases hid

/-- What a call ends with, if an answer, is what it was completed with. -/
def Returned (n : Nat) (value : Json) (w : World) : Prop := w.task n = some (.result value)

def Threw (n : Nat) (e : Exn) (w : World) : Prop := e.isRemote = true → w.task n = some (.exception e)

/-- The wait: what it returns or throws is what the call was completed with. -/
theorem wp_wait {w : World} (h : Waiting n id w) :
    wp (calling script (.call n)) (do
      call .register
      let settlement ← call .awaitTask
      call .unregister
      Prog.ofExcept settlement.get)
      (fun value w => Waiting n id w ∧ Returned n value w) (fun e w => Waiting n id w ∧ Threw n e w) w := by
  refine wp_quiet Waiting.steady rfl h fun _ _ w _ h => ?_
  refine wp_quiet Waiting.steady rfl h fun w settlement w' hexec h => ?_
  have hcompleted : Completed n id settlement w' := by
    have hexec : (if w.task n = some settlement then some w else none) = some w' := hexec
    split at hexec
    · next htask =>
        cases hexec
        exact ⟨h, htask⟩
    · cases hexec
  refine wp_quiet Completed.steady rfl hcompleted fun _ _ w _ h => ?_
  cases settlement with
  | result value => exact h
  | exception e => exact ⟨h.1, fun _ => h.2⟩
  | canceled => exact ⟨h.1, nofun⟩

theorem wp_writeAndWait {request : Request} {w : World} (h : Waiting n id w) :
    wp (calling script (.call n)) (writeAndWait id request)
      (fun value w => Waiting n id w ∧ Returned n value w) (fun e w => Waiting n id w ∧ Threw n e w) w := by
  refine wp_seq (wp_mono (wp_writeAsync Waiting.steady h) (fun _ _ h => h) fun e w h => ⟨h.1, fun he => ?_⟩)
    fun _ _ => wp_wait
  rw [h.2] at he
  cases he

/-- The handler of a cancellation: it turns it into an exception that is no answer either. -/
theorem wp_timedOut {request : Request} {e : Exn} {w : World} (h : Waiting n id w ∧ Threw n e w) :
    wp (calling script (.call n)) (timedOut request e) (fun _ _ => False)
      (fun e w => Waiting n id w ∧ Threw n e w) w := by
  unfold timedOut
  split
  · next he =>
      subst he
      refine wp_quiet Waiting.steady rfl h.1 fun _ cancelled w _ h => ?_
      cases cancelled <;> exact ⟨h, nofun⟩
  · exact h

/-- The `finally` block: the call leaves the table, and what it was completed with stays. -/
theorem wp_takeOut {settlement : Settlement} (answered : Bool) {w : World} (h : Waiting n id w)
    (htask : answered = true → w.task n = some settlement) :
    wp (calling script (.call n)) (do let _ ← call (.tryRemove id))
      (fun _ w => Gone n w ∧ (answered = true → Completed n id settlement w)) (fun _ _ => False) w := by
  refine wp_call_step (fun w => Waiting n id w ∧ (answered = true → w.task n = some settlement)) ⟨h, htask⟩
    (fun j w w' hne hmoves h => ⟨Waiting.steady.others j w w' hne hmoves h.1, fun ha => hmoves.task n _ (h.2 ha)⟩)
    fun w r w' ⟨⟨hconsistent, hid⟩, htask⟩ hexec => ?_
  have hexec : (if r = w.pending.get? id then some (w.remove id) else none) = some w' := hexec
  split at hexec
  · cases hexec
    refine ⟨moves_remove, ⟨hconsistent.remove, fun k hentry => ?_⟩, fun ha => ⟨⟨hconsistent.remove, hid⟩, htask ha⟩⟩
    obtain ⟨hne, hentry⟩ := get?_remove hentry
    have hid' := (hconsistent.entries k n hentry).1
    rw [hid] at hid'
    exact hne (Option.some.inj hid').symm
  · cases hexec

/-- Drawing an id. -/
theorem Undrawn.draw {w : World} (h : Undrawn n w) : Drawn n (w.nextId + 1) (w.draw n) := by
  refine ⟨h.1.draw h.2, Function.update_self .., ?_, fun e he heq => ?_⟩
  · cases hentry : w.pending.get? (w.nextId + 1) with
    | none => exact hentry
    | some m =>
        have hle := h.1.drawn m _ (h.1.entries _ m hentry).1
        omega
  · cases hfound : e.found with
    | false => rfl
    | true =>
        have hle := h.1.found e he hfound
        omega

/-- **`CallAsync`**: when it has ended, it is out of the table for good, and an answer it ends with is what it
was completed with. -/
theorem wp_callAsync {request : Request} {w : World} (h : Undrawn n w) :
    wp (calling script (.call n)) (callAsync request)
      (fun value w => Gone n w ∧ ∃ id, Completed n id (.result value) w)
      (fun e w => Gone n w ∧ (e.isRemote = true → ∃ id, Completed n id (.exception e) w)) w := by
  unfold callAsync
  split
  · exact ⟨h.gone, nofun⟩
  have hrunning : ∀ (r : Except Exn Bool) e, r = .error e → isLocal .running r = true → e.isRemote = false := by
    rintro r e rfl h
    simpa [isLocal] using h
  refine wp_await (o := .running) (fun r => r) Undrawn.steady rfl hrunning h (fun running w h => ?_) ?_
  · split
    · exact ⟨h.gone, nofun⟩
    refine wp_call_step (Undrawn n) h Undrawn.steady.others fun w id w' h hexec => ?_
    have hexec : (if id = w.nextId + 1 then some (w.draw n) else none) = some w' := hexec
    split at hexec
    case isFalse => cases hexec
    next hid =>
    cases hexec
    subst hid
    refine ⟨moves_draw h.2, ?_⟩
    refine wp_call_step (Drawn n _) h.draw (fun _ _ _ hne hmoves => Drawn.others hne hmoves)
      fun w _ w' ⟨hconsistent, hid, _, hunheard⟩ hexec => ?_
    cases (Option.some.inj hexec : w.store n _ = w')
    refine ⟨moves_store hid hunheard, ?_⟩
    have hwaiting : Waiting n _ (w.store n _) := ⟨hconsistent.store hid hunheard, hid⟩
    refine wp_ensure.mpr (wp_mono (wp_handle.mpr (wp_mono (wp_writeAndWait hwaiting) (fun _ _ h => h) fun e w h =>
      wp_mono (wp_timedOut h) (fun _ _ h => h.elim) fun _ _ h => h)) ?_ ?_)
    · rintro value w ⟨hwaiting, hreturned⟩
      refine wp_mono (wp_takeOut true hwaiting fun _ => hreturned) (fun _ w h => ?_) fun _ _ h => h.elim
      exact ⟨h.1, _, h.2 rfl⟩
    · rintro e w ⟨hwaiting, hthrew⟩
      refine wp_mono (wp_takeOut e.isRemote hwaiting hthrew) (fun _ w h => ?_) fun _ _ h => h.elim
      exact ⟨h.1, fun he => ⟨_, h.2 he⟩⟩
  · rintro e w ⟨h, hlocal⟩
    refine ⟨h.gone, fun he => ?_⟩
    rw [hlocal] at he
    cases he

end Call

/-! ## The other parties -/

section Others

variable {script : Script} {i : Party} {α : Type}

theorem Consistent.steady : Steady i Consistent where
  others _ _ _ _ hmoves h := hmoves.consistent h
  same _ _ hsame h := hsame.consistent h

/-- The program keeps the table consistent. -/
def Orderly (script : Script) (i : Party) (p : Program α) : Prop :=
  ∀ w, Consistent w → wp (calling script i) p (fun _ => Consistent) (fun _ => Consistent) w

theorem Orderly.ofExcept (result : Except Exn α) : Orderly script i (Prog.ofExcept result) := by
  intro w h
  cases result <;> exact h

theorem Orderly.bind {β : Type} {p : Program α} {f : α → Program β} (hp : Orderly script i p)
    (hf : ∀ a, Orderly script i (f a)) : Orderly script i (p.bind f) := fun w h => wp_seq (hp w h) fun a w' => hf a w'

theorem Orderly.call {o : Op} {k : Ret o → Program α} (ho : meetsTable o = false)
    (hk : ∀ r, Orderly script i (k r)) : Orderly script i (.call o k) :=
  fun _ h => wp_quiet Consistent.steady ho h fun _ r w _ => hk r w

theorem orderly_writeAsync {message : JsonObject} {token : Token} : Orderly script i (writeAsync message token) :=
  fun _ h => wp_mono (wp_writeAsync Consistent.steady h) (fun _ _ h => h) fun _ _ h => h.1

/-- Completing a call without an answer. -/
theorem Orderly.trySet {n : Nat} {settlement : Settlement} (hanswer : settlement.isAnswer = false) :
    Orderly script i (Prog.op (.trySet n settlement)) := by
  intro w h
  refine wp_call_step Consistent h Consistent.steady.others fun w r w' h hexec => ?_
  have hmoves : Moves i w (w.trySet n settlement) := moves_trySet fun hs => by rw [hanswer] at hs; cases hs
  have hw' : w.trySet n settlement = w' := by
    cases i with
    | timer m =>
        have hexec : (if w.registered n then some (w.trySet n settlement) else none) = some w' := hexec
        split at hexec <;> cases hexec
        rfl
    | _ => exact Option.some.inj hexec
  rw [← hw']
  exact ⟨hmoves, hmoves.consistent h⟩

/-- **`FailPending`**: what it takes out it completes without an answer. -/
theorem orderly_failPending {error : Exn} (he : error.isRemote = false) : Orderly script i (failPending error) := by
  have hanswer : (Settlement.exception error).isAnswer = false := by
    cases error <;> first | rfl | cases he
  refine Orderly.call rfl fun keys w h => ?_
  refine wp_forEach (fun _ => Consistent) h fun _ key _ w _ h => ?_
  refine wp_call_step Consistent h Consistent.steady.others fun w r w' h hexec => ?_
  have hexec : (if r = w.pending.get? key then some (w.remove key) else none) = some w' := by
    cases i <;> exact hexec
  split at hexec
  · cases hexec
    refine ⟨moves_remove, ?_⟩
    cases r with
    | none => exact h.remove
    | some pending => exact Orderly.trySet hanswer _ h.remove
  · cases hexec

/-- The read loop has taken this call out for this answer. -/
def Held (n : Nat) (message : JsonObject) (w : World) : Prop :=
  Consistent w ∧ ∃ id, w.id n = some id ∧ FirstHeard w.heard id message

theorem Held.steady {n : Nat} {message : JsonObject} : Steady i (Held n message) where
  others _ _ _ _ hmoves h := by
    obtain ⟨hconsistent, id, hid, hfirst⟩ := h
    obtain ⟨later, hlater⟩ := hmoves.heard
    exact ⟨hmoves.consistent hconsistent, id, hmoves.drawn n id hid, by rw [hlater]; exact hfirst.append later⟩
  same _ _ hsame h := by
    obtain ⟨hconsistent, id, hid, hfirst⟩ := h
    exact ⟨hsame.consistent hconsistent, id, by rw [hsame.id, hid], by rw [hsame.heard]; exact hfirst⟩

/-- **`HandleResponse`**: whoever is found under the id is completed with this answer. -/
theorem orderly_handleResponse {message : JsonObject} {idNode : Json} :
    Orderly script .reader (handleResponse message idNode) := by
  intro w h
  unfold handleResponse
  cases tryReadId idNode with
  | none => exact h
  | some id =>
      refine wp_call_step Consistent h Consistent.steady.others fun w r w' h hexec => ?_
      have hexec : (if r = w.pending.get? id then some ((w.hear message id).remove id) else none) = some w' := hexec
      split at hexec
      case isFalse => cases hexec
      next hr =>
      cases hexec
      refine ⟨moves_hear_remove, ?_⟩
      cases r with
      | none => exact h.hear_remove
      | some n =>
          obtain ⟨hid, hunheard⟩ := h.entries id n hr.symm
          have hheld : Held n message ((w.hear message id).remove id) :=
            ⟨h.hear_remove, id, hid, w.heard, [], by simp [World.hear, World.remove, ← hr], hunheard⟩
          cases hsettlement : settlementOf message with
          | error e => exact hheld.1
          | ok settlement =>
              refine wp_call_step (Held n message) hheld Held.steady.others fun w _ w' hheld hexec => ?_
              obtain ⟨hconsistent, id, hid, hfirst⟩ := hheld
              have hmoves : Moves .reader w (w.trySet n settlement) :=
                moves_trySet fun _ => ⟨id, hid, message, hfirst, hsettlement⟩
              cases (Option.some.inj hexec : w.trySet n settlement = w')
              exact ⟨hmoves, hmoves.consistent hconsistent⟩

theorem orderly_dispatchAsync {message : JsonObject} : Orderly script .reader (dispatchAsync message) := by
  simp only [dispatchAsync, Prog.bind_eq]
  refine Orderly.bind (Orderly.ofExcept _) fun methodNode => Orderly.bind (Orderly.ofExcept _) fun idNode => ?_
  cases methodNode with
  | some method =>
      cases idNode with
      | some id =>
          simp only [handleRequestAsync, Prog.bind_eq, Prog.op_bind]
          refine Orderly.bind (Orderly.ofExcept _) fun method => Orderly.call rfl fun found => ?_
          split
          · exact orderly_writeAsync
          · refine Orderly.call rfl fun outcome => ?_
            cases outcome <;> exact orderly_writeAsync
      | none =>
          simp only [handleNotification, Prog.bind_eq, Prog.op_bind]
          refine Orderly.call rfl fun listening => ?_
          split
          · exact Orderly.bind (Orderly.ofExcept _) fun _ => Orderly.call rfl fun outcome => Orderly.ofExcept outcome
          · exact fun _ h => h
  | none =>
      cases idNode with
      | some id => exact orderly_handleResponse
      | none => exact fun _ h => h

theorem orderly_readOne : Orderly script .reader readOne := by
  simp only [readOne, Prog.bind_eq, Prog.op_bind]
  refine Orderly.call rfl fun shutdown => ?_
  split
  · exact fun _ h => h
  refine Orderly.call rfl fun line => Orderly.bind (Orderly.ofExcept line) fun line => ?_
  split
  · exact fun _ h => h
  · exact Orderly.bind orderly_dispatchAsync fun _ _ h => h
  · exact fun _ h => h

theorem orderly_readLoopAsync : Orderly script .reader readLoopAsync := by
  intro w h
  refine wp_seq (wp_handle.mpr (wp_mono (orderly_readOne w h) (fun _ _ h => h) fun e w h => ?_)) fun goesOn w h => ?_
  · split
    · exact h
    · exact h
    · exact wp_seq (orderly_failPending rfl w h) fun _ _ h => h
  · split
    · exact h
    · exact wp_seq (orderly_failPending rfl w h) fun _ _ h => h

theorem orderly_disposeAsync : Orderly script i disposeAsync := by
  simp only [disposeAsync, Prog.bind_eq, Prog.op_bind]
  refine Orderly.call rfl fun closed => ?_
  split
  · exact fun _ h => h
  refine Orderly.call rfl fun _ => Orderly.call rfl fun _ => Orderly.call rfl fun _ => ?_
  exact Orderly.bind (orderly_failPending rfl) fun _ => Orderly.call rfl fun _ _ h => h

theorem orderly_notifyAsync {notification : Notification} : Orderly script i (notifyAsync notification) := by
  unfold notifyAsync
  split
  · exact fun _ h => h
  · exact orderly_writeAsync

end Others

/-! ## Runs -/

def callPre : Party → World → Prop
  | .call n => Undrawn n
  | _ => Consistent

def callPost : Party → Json → World → Prop
  | .call n, value => fun w => Gone n w ∧ ∃ id, Completed n id (.result value) w
  | _, _ => Consistent

def callFail : Party → Exn → World → Prop
  | .call n, e => fun w => Gone n w ∧ (e.isRemote = true → ∃ id, Completed n id (.exception e) w)
  | _, _ => Consistent

section Stable

variable {i j : Party} {w w' : World}

theorem callPre_stable (hne : j ≠ i) (hmoves : Moves j w w') (h : callPre i w) : callPre i w' := by
  cases i with
  | call n => exact Undrawn.steady.others j w w' hne hmoves h
  | _ => exact hmoves.consistent h

theorem callPost_stable {value : Json} (hne : j ≠ i) (hmoves : Moves j w w') (h : callPost i value w) :
    callPost i value w' := by
  cases i with
  | call n =>
      obtain ⟨hgone, id, hcompleted⟩ := h
      exact ⟨hgone.others hne hmoves, id, Completed.steady.others j w w' hne hmoves hcompleted⟩
  | _ => exact hmoves.consistent h

theorem callFail_stable {e : Exn} (hne : j ≠ i) (hmoves : Moves j w w') (h : callFail i e w) : callFail i e w' := by
  cases i with
  | call n =>
      refine ⟨h.1.others hne hmoves, fun he => ?_⟩
      obtain ⟨id, hcompleted⟩ := h.2 he
      exact ⟨id, Completed.steady.others j w w' hne hmoves hcompleted⟩
  | _ => exact hmoves.consistent h

end Stable

theorem call_code (script : Script) (i : Party) (point : Point) (w : World) (h : callPre i w) :
    wp (calling script i) ((system script).code i point)
      (fun | .inl _ => callPre i | .inr r => callPost i r) (callFail i) w := by
  cases point with
  | idle => cases i <;> exact h
  | ready =>
      cases i with
      | call n => exact wp_seq (wp_callAsync h) fun _ _ h => h
      | notify n => exact wp_seq (orderly_notifyAsync w h) fun _ _ h => h
      | reader => exact wp_mono (orderly_readLoopAsync w h) (fun x _ h => by cases x <;> exact h) fun _ _ h => h
      | timer n => exact wp_seq (Orderly.trySet rfl w h) fun _ _ h => h
      | cancel token => exact wp_quiet Consistent.steady rfl h fun _ _ _ _ h => h
      | agent => exact wp_quiet Consistent.steady rfl h fun _ _ _ _ h => h
      | dispose n => exact wp_seq (orderly_disposeAsync w h) fun _ _ h => h

def callOutline (script : Script) : Outline (system script) :=
  Outline.ofSteps Moves (fun i _ => callPre i) callPost callFail
    (fun _ _ _ _ _ hne hmoves => callPre_stable hne hmoves) (fun _ _ _ _ _ hne hmoves => callPost_stable hne hmoves)
    (fun _ _ _ _ _ hne hmoves => callFail_stable hne hmoves) fun i point w h =>
      wp_mono (call_code script i point w h) (fun x _ h => by cases x <;> exact h) fun _ _ h => h

/-! ## What a run shows of its calls -/

abbrev Configuration := Conf Party Op Ret Exn Point Json World

/-- The call has not been made. -/
def Unmade (c : Configuration) (n : Nat) : Prop := c.cur (.call n) = .ret (.inl .ready)

/-- The call has returned a value, or thrown an exception. -/
def Ended (c : Configuration) (n : Nat) : Prop := (∃ value, c.cur (.call n) = .ret (.inr value)) ∨ ∃ e, c.cur (.call n) = .raise e

/-- A call that has ended takes no further step. -/
theorem Ended.stable {script : Script} {c c' : Configuration} {n : Nat} (h : Ended c n)
    (hsteps : (system script).Steps c c') : c'.cur (.call n) = c.cur (.call n) := by
  induction hsteps with
  | refl => rfl
  | @tail c₁ c₂ _ hnext ih =>
      obtain ⟨l, hstep⟩ := hnext
      have hne : ∀ i, (∃ o k, c₁.cur i = .call o k) ∨ (∃ s, c₁.cur i = .ret (.inl s)) → (.call n) ≠ i := by
        rintro i hi rfl
        rw [ih] at hi
        rcases h with ⟨value, hc⟩ | ⟨e, hc⟩ <;> rw [hc] at hi <;>
          rcases hi with ⟨o, k, hi⟩ | ⟨s, hi⟩ <;> cases hi
      cases hstep with
      | call hcur _ => exact (Function.update_of_ne (hne _ (.inl ⟨_, _, hcur⟩)) _ _).trans ih
      | jump hcur => exact (Function.update_of_ne (hne _ (.inr ⟨_, hcur⟩)) _ _).trans ih

/-- **Every call gets its own answer.** Ids are distinct; a call ends once; what it returns, or the remote error
it throws, is what the first answer with its id says that found it pending; and when every call that was made has
ended, none is pending. -/
theorem calls_get_their_answers {script : Script} {lines : List Line} {c : Configuration}
    (h : (system script).Steps (start script lines) c) :
    (∀ n m id, c.world.id n = some id → c.world.id m = some id → n = m) ∧
    (∀ n, Ended c n → ∀ c', (system script).Steps c c' → c'.cur (.call n) = c.cur (.call n)) ∧
    (∀ n value, c.cur (.call n) = .ret (.inr value) →
      ∃ id, c.world.id n = some id ∧ Answered c.world.heard id (.result value)) ∧
    (∀ n code text data, c.cur (.call n) = .raise (.remote code text data) →
      ∃ id, c.world.id n = some id ∧ Answered c.world.heard id (.exception (.remote code text data))) ∧
    ((∀ n, Unmade c n ∨ Ended c n) → c.world.pending = []) := by
  have hstart : Consistent { lines } := by
    constructor <;> intros <;> contradiction
  have hholds : (callOutline script).Holds (start script lines) :=
    (callOutline script).holds_init fun i => by
      cases i with
      | call n => exact ⟨hstart, rfl⟩
      | _ => exact hstart
  have hc := (callOutline script).holds_steps hholds h
  have hconsistent : Consistent c.world :=
    (callOutline script).world_steps (fun _ _ _ _ _ hmoves => hmoves.consistent) hholds hstart h
  have hanswered : ∀ {n id settlement}, Completed n id settlement c.world → settlement.isAnswer = true →
      ∃ id, c.world.id n = some id ∧ Answered c.world.heard id settlement :=
    fun hcompleted hanswer => hconsistent.answers _ _ hcompleted.2 hanswer
  refine ⟨hconsistent.distinct, fun n hended c' => hended.stable, fun n value hret => ?_,
    fun n code text data hraise => ?_, fun hall => ?_⟩
  · obtain ⟨-, id, hcompleted⟩ := (callOutline script).post_of_ret hc hret
    exact hanswered hcompleted rfl
  · obtain ⟨id, hcompleted⟩ := ((callOutline script).fail_of_raise hc hraise).2 rfl
    exact hanswered hcompleted rfl
  · -- whoever is in the table was made and has not ended
    have hgone : ∀ n, Gone n c.world := by
      intro n
      rcases hall n with hunmade | ⟨value, hret⟩ | ⟨e, hraise⟩
      · have hn := hc (.call n)
        rw [hunmade] at hn
        exact Undrawn.gone hn
      · exact ((callOutline script).post_of_ret hc hret).1
      · exact ((callOutline script).fail_of_raise hc hraise).1
    cases hpending : c.world.pending with
    | nil => rfl
    | cons item rest =>
        have hread : c.world.pending.get? item.1 = some item.2 := by
          rw [hpending, Dict.get?_cons, if_pos rfl]
        exact absurd hread ((hgone item.2).2 item.1)

/-! ### An agent that answers too much -/

def response (id : String) (text : String) : Line := .value (.obj [("id", .num id), ("result", .str text)])

/-- An answer to nobody, and two to call 0. -/
def manyAnswers : List Line := [response "7" "stray", response "1" "first", response "1" "second"]

/-- What a call that waits is granted, too. -/
def hearing (n : Nat) : (o : Op) → World → Ret o
  | .awaitTask, w => (w.task n).getD .canceled
  | o, w => granted o w

def oneCall : Script where
  requests n := { method := "initialize", parameters := [], token := .caller n, totalSeconds := "60" }
  notifications _ := { method := "session/cancel", parameters := [], token := .none }

/-- Call 0 waits; the read loop takes every line; call 0 goes on. -/
def answeredSchedule : List (Party × ((o : Op) → World → Ret o)) :=
  List.replicate 11 (.call 0, hearing 0) ++ List.replicate 14 (.reader, granted) ++
    List.replicate 3 (.call 0, hearing 0)

theorem calls_get_their_answers_first : ∃ c, (system oneCall).Steps (start oneCall manyAnswers) c ∧
    c.cur (.call 0) = .ret (.inr (.str "first")) ∧ c.world.heard.map Heard.found = [false, true, false] ∧
      ∃ id, c.world.id 0 = some id ∧ Answered c.world.heard id (.result (.str "first")) := by
  let c := (system oneCall).play answeredSchedule (start oneCall manyAnswers)
  have hsteps : (system oneCall).Steps (start oneCall manyAnswers) c := System.play_steps _ answeredSchedule _
  have hresult : System.result c (.call 0) = some (.str "first") := by decide +kernel
  obtain ⟨value, hcur⟩ := System.cur_of_result (by rw [hresult]; rfl)
  have hvalue : value = .str "first" := by
    rw [System.result, hcur] at hresult
    exact Option.some.inj hresult
  rw [hvalue] at hcur
  exact ⟨c, hsteps, hcur, by decide +kernel, (calls_get_their_answers hsteps).2.2.1 0 _ hcur⟩

end AtlasFlow.Acp
