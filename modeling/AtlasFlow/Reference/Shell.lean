import AtlasFlow.Concurrency.Promises
import AtlasFlow.Data.EnumText
import AtlasFlow.Data.Recents
import AtlasFlow.Reference.BundleEnvironment

/-!
# The desktop shell

The commands of `src-tauri/src/lib.rs`, which are served one after the other: the backend process that the shell starts
and stops, the project that is open, and the file with the projects opened before. What a command asks of the operating
system is answered in its event; between two commands a process may end of itself.

The shell has lost a backend when it is alive and no longer in its slot: nothing stops it then, and the next one finds
its port taken. That happens in no other way than by a refusal of the operating system (`shell_keeps_iff`).
-/

namespace AtlasFlow.Reference.Shell

open Concurrency EnumText Recents

abbrev Path := List Char

/-- What the shell's own environment says. -/
structure Environment where
  /-- ATLAS_FLOW_API -/
  api : Option String := none
  /-- ATLAS_FLOW_BACKEND_CMD -/
  backendCmd : Option String := none
  /-- `backend_project_path` -/
  backendProject : Option String := none
  /-- `bundle_dir` -/
  bundle : Option Path := none
  /-- `backend_log_path` -/
  logPath : String

structure BackendStatus where
  running : Bool
  url : String
  command : List String
  projectRoot : Path
  logPath : String
  deriving DecidableEq, Repr

/-- A process the shell has spawned. -/
structure Child where
  directory : Path
  alive : Bool
  deriving DecidableEq, Repr

/-- Processes have their place in the list for an identifier. -/
structure State where
  children : List Child := []
  slot : Option Nat := none
  opened : Option Path := none
  /-- The text of `recents_path`, if it can be read. -/
  recents : Option (List Char) := none
  exited : Bool := false
  deriving DecidableEq, Repr

/-! ## The backend's command -/

def defaultBackendUrl : String := "http://localhost:8000"

def backendUrl (env : Environment) : String := env.api.getD defaultBackendUrl

/-- `default_backend_command`; DEFAULT_BACKEND_COMMAND has `backend` for the project. -/
def defaultBackendCommand (project : Option String) : List String :=
  ["uv", "run", "--project", project.getD "backend", "python", "-m", "uvicorn", "atlas_flow.api.app:create_app", "--factory",
    "--port", "8000"]

def isBlank (text : String) : Bool := text.toList.all isWhiteSpace

def splitWhitespace (text : String) : List String :=
  ((text.toList.splitOnP isWhiteSpace).filter (· ≠ [])).map String.ofList

/-- `parse_backend_command`. -/
def parseBackendCommand (raw : Option String) : List String :=
  match raw with
  | some value => if isBlank value then defaultBackendCommand none else splitWhitespace value
  | none => defaultBackendCommand none

/-- `backend_command`. -/
def backendCommand (env : Environment) : List String :=
  match env.backendCmd with
  | some value =>
    if isBlank value then defaultBackendCommand env.backendProject else parseBackendCommand (some value)
  | none => defaultBackendCommand env.backendProject

def statusOf (env : Environment) (running : Bool) (root : Path) : BackendStatus :=
  ⟨running, backendUrl env, backendCommand env, root, env.logPath⟩

/-! ## The file of recent projects -/

def maxRecents : Nat := 10

def chomp (line : List Char) : List Char := if line.getLast? = some '\r' then line.dropLast else line

/-- `str::lines`: only a line with its line feed loses a carriage return. -/
def lines (text : List Char) : List (List Char) :=
  (text.splitOn '\n').dropLast.map chomp ++ (text.splitOn '\n').getLast?.toList.filter (· ≠ [])

/-- `read_recents`; `isDir` says which paths are directories at the time. -/
def readRecents (isDir : Path → Bool) (file : Option (List Char)) : List Path :=
  (((lines (file.getD [])).map trim).filter (· ≠ [])).filter isDir

/-- `remember_recent`, with the text it writes. -/
def rememberRecent (isDir : Path → Bool) (file : Option (List Char)) (root : Path) : List Char :=
  ['\n'].intercalate (remember maxRecents (readRecents isDir file) root)

/-! ## Processes -/

/-- What `try_wait` says of a child. -/
inductive TryWait | exited | running | failed
  deriving DecidableEq

/-- What the operating system says to `start_backend`: of the child in the slot, an error of the log file or of the
spawn, of the new child after 400 ms, and, if that exited, its status and the text of its log. -/
structure StartAnswers where
  slot : TryWait := .running
  log : Option String := none
  spawned : Option String := none
  first : TryWait := .running
  status : String := ""
  tail : List Char := []

/-- Whether `kill`, and whether `wait`, succeeds. -/
structure StopAnswers where
  killed : Bool := true
  waited : Bool := true

namespace State

variable (s : State)

def isAliveAt (pid : Nat) : Bool := s.children[pid]?.any Child.alive

/-- Some backend of this shell is alive. -/
def anyAlive : Bool := s.children.any Child.alive

/-- A child ends. -/
def endChild (pid : Nat) : State :=
  { s with children := s.children.modify pid fun child => { child with alive := false } }

/-- `is_alive`. -/
def checkAlive (answer : TryWait) : Bool × State :=
  match s.slot, answer with
  | none, _ => (false, s)
  | some _, .running => (true, s)
  | some _, _ => (false, { s with slot := none })

/-- `try_wait` knows what it says. -/
def Says (answer : TryWait) : Prop :=
  ∀ pid, s.slot = some pid → (answer = .exited → s.isAliveAt pid = false) ∧ (answer = .running → s.isAliveAt pid = true)

instance (answer : TryWait) : Decidable (s.Says answer) :=
  match h : s.slot with
  | none => isTrue fun pid hpid => by rw [h] at hpid; cases hpid
  | some pid => decidable_of_iff ((answer = .exited → s.isAliveAt pid = false) ∧
      (answer = .running → s.isAliveAt pid = true)) ⟨fun htells other hother => by
        rw [h] at hother
        cases hother
        exact htells, fun htells => htells pid h⟩

/-- `start_backend`, for the project at `root`. -/
def startBackend (env : Environment) (root : Path) (a : StartAnswers) : Except String BackendStatus × State :=
  let (alive, s) := s.checkAlive a.slot
  if alive then (.ok (statusOf env true root), s)
  else if backendCommand env = [] then (.error "empty backend command", s)
  else
    match a.log with
    | some error => (.error s!"could not open {env.logPath}: {error}", s)
    | none =>
      if root = [] then
        (.error ("No project open. Use Open project…, launch Atlas Flow from a project " ++
          "directory, or set ATLAS_FLOW_PROJECT_ROOT."), s)
      else
        match a.spawned with
        | some error => (.error s!"could not start the backend: {error}", s)
        | none =>
          if a.first = .exited then
            let reason := " / ".intercalate (((lines a.tail).reverse.take 3).map String.ofList)
            (.error s!"the backend exited immediately ({a.status}). See {env.logPath}: {reason}",
              { s with children := s.children ++ [⟨root, false⟩] })
          else
            (.ok (statusOf env true root),
              { s with children := s.children ++ [⟨root, true⟩], slot := some s.children.length })

/-- `stop_running_backend`: a kill that fails is not asked about, and what is waited for has ended. -/
def stopRunningBackend (a : StopAnswers) : State :=
  match s.slot with
  | none => s
  | some pid =>
    let s := { s with slot := none }
    if a.killed || a.waited then s.endChild pid else s

/-- `stop_backend`; `killed` is the error of `kill`. -/
def stopBackend (env : Environment) (root : Path) (killed : Option String) : Except String BackendStatus × State :=
  match s.slot with
  | none => (.ok (statusOf env false root), s)
  | some pid =>
    let s := { s with slot := none }
    match killed with
    | some error => (.error error, s)
    | none => (.ok (statusOf env false root), s.endChild pid)

/-- `current_root`, where the environment implies `implied`. -/
def currentRoot (implied : Path) : Path := s.opened.getD implied

end State

/-- `root.starts_with(bundle)`, of a shell that runs from a bundle. -/
def inBundle (env : Environment) (root : Path) : Bool :=
  env.bundle.any fun bundle => decide (Desktop.components bundle <+: Desktop.components root)

/-! ## Commands -/

/-- A command, the window's end, or the end of a process. `implied` is what `project_root_path` gives at the time,
`isDir` which paths are directories, `written` whether the file of recent projects could be written. -/
inductive Event
  | status (implied : Path) (slot : TryWait)
  | start (implied : Path) (answers : StartAnswers)
  | stop (implied : Path) (killed : Option String)
  | openProject (path : Path) (isDir : Path → Bool) (written : Bool) (stopped : StopAnswers) (answers : StartAnswers)
  | exit (stopped : StopAnswers)
  | died (pid : Nat)

/-- The project a command is to open. -/
def Event.opens : Event → Option Path
  | .openProject path .. => some path
  | _ => none

namespace State

variable (env : Environment) (s : State)

/-- The shell on another project, its backend stopped. -/
def switchTo (path : Path) (isDir : Path → Bool) (written : Bool) (stopped : StopAnswers) : State :=
  let s := s.stopRunningBackend stopped
  { s with
    opened := some path
    recents := if written then some (rememberRecent isDir s.recents path) else s.recents }

/-- `open_project`. -/
def openProject (path : Path) (isDir : Path → Bool) (written : Bool) (stopped : StopAnswers) (a : StartAnswers) :
    Except String BackendStatus × State :=
  if !isDir path then (.error s!"{String.ofList path} is not an existing directory", s)
  else if inBundle env path then (.error "The Atlas Flow application bundle cannot be opened as a project", s)
  else (s.switchTo path isDir written stopped).startBackend env path a

/-- What an event is answered with, and the shell after it. -/
def serve : Event → Option (Except String BackendStatus) × State
  | .status implied slot =>
    let (alive, s') := s.checkAlive slot
    (some (.ok (statusOf env alive (s.currentRoot implied))), s')
  | .start implied a => (s.startBackend env (s.currentRoot implied) a).map some id
  | .stop implied killed => (s.stopBackend env (s.currentRoot implied) killed).map some id
  | .openProject path isDir written stopped a => (s.openProject env path isDir written stopped a).map some id
  | .exit stopped => (none, { s.stopRunningBackend stopped with exited := true })
  | .died pid => (none, s.endChild pid)

/-- The event can happen. -/
def Fits : Event → Prop
  | .status _ slot => s.exited = false ∧ s.Says slot
  | .start _ a => s.exited = false ∧ s.Says a.slot
  | .stop .. | .openProject .. | .exit _ => s.exited = false
  | .died pid => s.isAliveAt pid = true

instance (e : Event) : Decidable (s.Fits e) := by
  cases e <;> unfold Fits <;> infer_instance

def step (e : Event) : Option State := if s.Fits e then some (s.serve env e).2 else none

/-! ## What holds all through a run -/

/-- The child in the slot is alive. -/
def slotAlive : Bool := s.slot.any s.isAliveAt

/-- No backend is lost: one that is alive is in the slot, and it runs in the project that is open. When the window has
ended, none is alive. -/
structure Kept : Prop where
  inSlot : ∀ pid child, s.children[pid]? = some child → child.alive = true →
    s.slot = some pid ∧ ∀ root, s.opened = some root → child.directory = root
  exited : s.exited = true → s.anyAlive = false

/-- A status says whether a backend is alive. A project that could be opened has one, and the shell is on it. -/
def Answered (e : Event) (s' : State) : Prop :=
  ∀ status, (s.serve env e).1 = some (.ok status) → status.running = s'.anyAlive ∧
    ∀ path, e.opens = some path → s'.anyAlive = true ∧ s'.opened = some path ∧ status.projectRoot = path

/-- The operating system refuses neither to say what became of a backend that is alive, nor to end it. -/
def Obeyed : Event → Prop
  | .status _ slot => slot = .failed → s.slotAlive = false
  | .start _ a => a.slot = .failed → s.slotAlive = false
  | .stop _ killed => killed ≠ none → s.slotAlive = false
  | .openProject path isDir _ stopped _ =>
    isDir path = true → inBundle env path = false → stopped.killed = false → stopped.waited = false → s.slotAlive = false
  | .exit stopped => stopped.killed = false → stopped.waited = false → s.slotAlive = false
  | .died _ => True

/-- The invariant: what is kept, and that the slot holds a child. -/
structure Inv : Prop extends Kept s where
  spawned : ∀ pid, s.slot = some pid → pid < s.children.length

/-- A backend that is alive outside the slot. -/
def Lost : Prop := ∃ pid child, s.children[pid]? = some child ∧ child.alive = true ∧ s.slot ≠ some pid

variable {env s} {s' : State} {e : Event}

theorem Kept.not_lost (h : s.Kept) : ¬ s.Lost := by
  rintro ⟨pid, child, hchild, halive, hslot⟩
  exact hslot (h.inSlot pid child hchild halive).1

theorem anyAlive_iff : s.anyAlive = true ↔ ∃ pid : Nat, ∃ child : Child,
    s.children[pid]? = some child ∧ child.alive = true := by
  rw [anyAlive, List.any_eq_true]
  constructor
  · rintro ⟨child, hmem, halive⟩
    obtain ⟨pid, hpid⟩ := List.mem_iff_getElem?.mp hmem
    exact ⟨pid, child, hpid, halive⟩
  · rintro ⟨pid, child, hpid, halive⟩
    exact ⟨child, List.mem_of_getElem? hpid, halive⟩

theorem isAliveAt_iff {pid : Nat} : s.isAliveAt pid = true ↔ ∃ child, s.children[pid]? = some child ∧ child.alive = true :=
  Option.any_eq_true ..

theorem slotAlive_iff : s.slotAlive = true ↔ ∃ pid, s.slot = some pid ∧ s.isAliveAt pid = true := Option.any_eq_true ..

/-- No backend is alive but the one in the slot. -/
theorem Kept.anyAlive_eq (h : s.Kept) : s.anyAlive = s.slotAlive := by
  rw [Bool.eq_iff_iff, anyAlive_iff, slotAlive_iff]
  constructor
  · rintro ⟨pid, child, hchild, halive⟩
    exact ⟨pid, (h.inSlot pid child hchild halive).1, isAliveAt_iff.mpr ⟨child, hchild, halive⟩⟩
  · rintro ⟨pid, -, halive⟩
    obtain ⟨child, hchild, halive⟩ := isAliveAt_iff.mp halive
    exact ⟨pid, child, hchild, halive⟩

/-- Where none is alive, nothing is lost. -/
theorem inv_of_quiet (h : s.anyAlive = false) (hspawned : ∀ pid, s.slot = some pid → pid < s.children.length) : s.Inv where
  inSlot pid child hchild halive := by
    rw [anyAlive_iff.mpr ⟨pid, child, hchild, halive⟩] at h
    cases h
  exited _ := h
  spawned := hspawned

/-! ### The pieces of the commands -/

/-- `is_alive` says what is so, and forgets a child that has ended. -/
theorem Inv.checkAlive (h : s.Inv) {answer : TryWait} (htells : s.Says answer)
    (hfailed : answer = .failed → s.slotAlive = false) :
    (s.checkAlive answer).1 = s.anyAlive ∧ (s.checkAlive answer).2.Inv ∧
      (s.checkAlive answer).2.anyAlive = s.anyAlive ∧ (s.checkAlive answer).2.opened = s.opened ∧
      (s.checkAlive answer).2.exited = s.exited := by
  have hall := h.toKept.anyAlive_eq
  have hforgotten : s.slotAlive = false → s.anyAlive = false ∧ ({ s with slot := none } : State).Inv := by
    intro hdead
    have hnone := hall.trans hdead
    exact ⟨hnone, inv_of_quiet hnone nofun⟩
  unfold State.checkAlive
  cases hslot : s.slot with
  | none =>
      have hnone : s.anyAlive = false := by simp [hall, slotAlive, hslot]
      exact ⟨hnone.symm, h, rfl, hnone ▸ rfl, rfl⟩
  | some pid =>
      obtain ⟨hexited, hrunning⟩ := htells pid hslot
      cases answer with
      | running =>
          have hsome : s.anyAlive = true := by simp [hall, slotAlive, hslot, hrunning rfl]
          exact ⟨hsome.symm, h, rfl, rfl, rfl⟩
      | exited =>
          obtain ⟨hnone, hinv⟩ := hforgotten (by simpa [slotAlive, hslot] using hexited rfl)
          exact ⟨hnone.symm, hinv, rfl, rfl, rfl⟩
      | failed =>
          obtain ⟨hnone, hinv⟩ := hforgotten (hfailed rfl)
          exact ⟨hnone.symm, hinv, rfl, rfl, rfl⟩

theorem children_endChild_alive {pid other : Nat} {child : Child} (hchild : (s.endChild pid).children[other]? = some child)
    (halive : child.alive = true) : other ≠ pid ∧ s.children[other]? = some child := by
  rw [endChild, List.getElem?_modify] at hchild
  split at hchild
  · next heq =>
    obtain ⟨old, -, rfl⟩ := Option.map_eq_some_iff.mp hchild
    cases halive
  · next hne => exact ⟨Ne.symm hne, by simpa using hchild⟩

/-- The only backend that can be alive ends. -/
theorem Kept.quiet_endChild (h : s.Kept) {pid : Nat} (hslot : s.slot = some pid) : (s.endChild pid).anyAlive = false := by
  rw [Bool.eq_false_iff]
  intro hany
  obtain ⟨other, child, hchild, halive⟩ := anyAlive_iff.mp hany
  obtain ⟨hne, hchild⟩ := children_endChild_alive hchild halive
  have hsame := (h.inSlot other child hchild halive).1
  rw [hslot] at hsame
  exact hne (Option.some.inj hsame).symm

theorem Inv.stopRunningBackend (h : s.Inv) {a : StopAnswers}
    (hobeyed : a.killed = false → a.waited = false → s.slotAlive = false) :
    (s.stopRunningBackend a).anyAlive = false ∧ (s.stopRunningBackend a).slot = none := by
  unfold State.stopRunningBackend
  split
  · next hslot =>
    refine ⟨?_, hslot⟩
    rw [h.toKept.anyAlive_eq]
    simp [slotAlive, hslot]
  · next pid hslot =>
    dsimp only
    split
    · exact ⟨h.toKept.quiet_endChild hslot, rfl⟩
    · next hrefused =>
      simp only [Bool.or_eq_true, not_or, Bool.not_eq_true] at hrefused
      exact ⟨h.toKept.anyAlive_eq.trans (hobeyed hrefused.1 hrefused.2), rfl⟩

variable (env) in
/-- `start_backend`, where the root it is given is that of the project that is open. -/
theorem Inv.startBackend (h : s.Inv) {root : Path} (hroot : ∀ opened, s.opened = some opened → root = opened)
    (hopen : s.exited = false) {a : StartAnswers} (htells : s.Says a.slot)
    (hfailed : a.slot = .failed → s.slotAlive = false) :
    (s.startBackend env root a).2.Inv ∧ (s.startBackend env root a).2.opened = s.opened ∧
      ∀ status, (s.startBackend env root a).1 = .ok status → status.running = true ∧ status.projectRoot = root ∧
        (s.startBackend env root a).2.anyAlive = true := by
  obtain ⟨halive, hinv, hany, hopened, hexited⟩ := h.checkAlive htells hfailed
  unfold State.startBackend
  generalize s.checkAlive a.slot = checked at *
  obtain ⟨alive, s₁⟩ := checked
  dsimp only at halive hinv hany hopened hexited ⊢
  split
  · next hrunning =>
    refine ⟨hinv, hopened, fun status hstatus => ?_⟩
    cases hstatus
    exact ⟨rfl, rfl, hany.trans (halive.symm.trans hrunning)⟩
  · next hnot =>
    have hquiet : s₁.anyAlive = false := by simpa [hany, ← halive] using hnot
    split
    · exact ⟨hinv, hopened, nofun⟩
    · split
      · exact ⟨hinv, hopened, nofun⟩
      · split
        · exact ⟨hinv, hopened, nofun⟩
        · split
          · exact ⟨hinv, hopened, nofun⟩
          · split
            · -- the new child has ended already
              refine ⟨inv_of_quiet (by simpa [anyAlive] using hquiet) fun pid hpid => ?_, hopened, nofun⟩
              simpa using Nat.lt_succ_of_lt (hinv.spawned pid hpid)
            · -- the new child takes the slot, and no other is alive
              refine ⟨⟨⟨fun pid child hchild hlives => ?_, fun hexit => ?_⟩, fun pid hpid => ?_⟩, hopened, ?_⟩
              · rcases Nat.lt_trichotomy pid s₁.children.length with hlt | rfl | hgt
                · rw [List.getElem?_append_left hlt] at hchild
                  rw [anyAlive_iff.mpr ⟨pid, child, hchild, hlives⟩] at hquiet
                  cases hquiet
                · rw [List.getElem?_concat_length] at hchild
                  cases hchild
                  refine ⟨rfl, fun opened hroot' => hroot opened ?_⟩
                  rw [← hopened]
                  exact hroot'
                · rw [List.getElem?_eq_none (by simpa using Nat.succ_le_of_lt hgt)] at hchild
                  cases hchild
              · rw [hexited, hopen] at hexit
                cases hexit
              · cases hpid
                simp
              · intro status hstatus
                cases hstatus
                exact ⟨rfl, rfl, by simp [anyAlive]⟩

variable (env) in
theorem Inv.stopBackend (h : s.Inv) (root : Path) {killed : Option String} (hobeyed : killed ≠ none → s.slotAlive = false) :
    (s.stopBackend env root killed).2.Inv ∧ ∀ status, (s.stopBackend env root killed).1 = .ok status →
      status.running = (s.stopBackend env root killed).2.anyAlive := by
  unfold State.stopBackend
  cases hslot : s.slot with
  | none =>
      have hnone : s.anyAlive = false := by simp [h.toKept.anyAlive_eq, slotAlive, hslot]
      refine ⟨h, fun status hstatus => ?_⟩
      cases hstatus
      exact hnone.symm
  | some pid =>
      cases killed with
      | some error => exact ⟨inv_of_quiet (h.toKept.anyAlive_eq.trans (hobeyed nofun)) nofun, nofun⟩
      | none =>
          have hquiet := h.toKept.quiet_endChild hslot
          refine ⟨inv_of_quiet hquiet nofun, fun status hstatus => ?_⟩
          cases hstatus
          exact hquiet.symm

theorem Inv.switchTo (h : s.Inv) (path : Path) (isDir : Path → Bool) (written : Bool) {a : StopAnswers}
    (hobeyed : a.killed = false → a.waited = false → s.slotAlive = false) :
    (s.switchTo path isDir written a).Inv ∧ (s.switchTo path isDir written a).slot = none ∧
      (s.switchTo path isDir written a).exited = s.exited := by
  obtain ⟨hquiet, hslot⟩ := h.stopRunningBackend hobeyed
  refine ⟨inv_of_quiet hquiet fun pid hpid => ?_, hslot, ?_⟩
  · rw [show (s.switchTo path isDir written a).slot = none from hslot] at hpid
    cases hpid
  · show (s.stopRunningBackend a).exited = s.exited
    unfold State.stopRunningBackend
    split
    · rfl
    · dsimp only
      split <;> rfl

/-- **One event, obeyed**, keeps the invariant and is answered with what is so. -/
theorem Inv.step (h : s.Inv) (hstep : s.step env e = some s') (hobeyed : s.Obeyed env e) :
    s'.Inv ∧ s.Answered env e s' := by
  obtain ⟨hfits, rfl⟩ := guard_eq_some.mp hstep
  cases e with
  | status implied slot =>
      obtain ⟨hrunning, hinv, hany, -, -⟩ := h.checkAlive hfits.2 hobeyed
      refine ⟨hinv, fun status hstatus => ?_⟩
      cases hstatus
      exact ⟨hrunning.trans hany.symm, nofun⟩
  | start implied a =>
      have hroot : ∀ opened, s.opened = some opened → s.currentRoot implied = opened := by
        intro opened hopened
        simp [currentRoot, hopened]
      obtain ⟨hinv, -, hok⟩ := h.startBackend env hroot hfits.1 hfits.2 hobeyed
      refine ⟨hinv, fun status hstatus => ?_⟩
      obtain ⟨hrunning, -, hany⟩ := hok status (Option.some.inj hstatus)
      exact ⟨hrunning.trans hany.symm, nofun⟩
  | stop implied killed =>
      obtain ⟨hinv, hok⟩ := h.stopBackend env (s.currentRoot implied) hobeyed
      refine ⟨hinv, fun status hstatus => ⟨hok status (Option.some.inj hstatus), nofun⟩⟩
  | openProject path isDir written stopped a =>
      show (s.openProject env path isDir written stopped a).2.Inv ∧ Answered ..
      unfold Answered serve
      simp only [State.openProject]
      split
      · exact ⟨h, nofun⟩
      · next hdir =>
        split
        · exact ⟨h, nofun⟩
        · next hbundle =>
          have hstopped := hobeyed (by simpa using hdir) (by simpa using hbundle)
          obtain ⟨hinv, hslot, hexited⟩ := h.switchTo path isDir written hstopped
          have htells : (s.switchTo path isDir written stopped).Says a.slot := by
            intro pid hpid
            rw [hslot] at hpid
            cases hpid
          have hroot : ∀ opened, (s.switchTo path isDir written stopped).opened = some opened → path = opened :=
            fun opened hopened => Option.some.inj hopened
          obtain ⟨hstarted, hopened, hok⟩ := hinv.startBackend env hroot (hexited.trans hfits) htells
            fun _ => by simp [slotAlive, hslot]
          refine ⟨hstarted, fun status hstatus => ?_⟩
          obtain ⟨hrunning, hplace, hany⟩ := hok status (Option.some.inj hstatus)
          refine ⟨hrunning.trans hany.symm, fun opened hpath => ?_⟩
          cases hpath
          exact ⟨hany, hopened, hplace⟩
  | exit stopped =>
      obtain ⟨hquiet, hslot⟩ := h.stopRunningBackend hobeyed
      refine ⟨inv_of_quiet hquiet fun pid hpid => ?_, nofun⟩
      rw [show (s.serve env (.exit stopped)).2.slot = none from hslot] at hpid
      cases hpid
  | died pid =>
      refine ⟨⟨⟨fun other child hchild halive => ?_, fun hexited => ?_⟩, fun other hother => ?_⟩, nofun⟩
      · obtain ⟨-, hchild⟩ := children_endChild_alive hchild halive
        exact h.inSlot other child hchild halive
      · rw [Bool.eq_false_iff]
        intro hany
        obtain ⟨other, child, hchild, halive⟩ := anyAlive_iff.mp hany
        obtain ⟨-, hchild⟩ := children_endChild_alive hchild halive
        have hnone := h.exited hexited
        rw [anyAlive_iff.mpr ⟨other, child, hchild, halive⟩] at hnone
        cases hnone
      · show other < (s.children.modify pid _).length
        rw [List.length_modify]
        exact h.spawned other hother

/-! ### A refusal -/

/-- The slot lets go of a backend that is alive. -/
theorem lost_of_slotAlive (h : s.slotAlive = true) (hchildren : s'.children = s.children) (hslot : s'.slot = none) :
    s'.Lost := by
  obtain ⟨pid, -, halive⟩ := slotAlive_iff.mp h
  obtain ⟨child, hchild, halive⟩ := isAliveAt_iff.mp halive
  refine ⟨pid, child, hchildren ▸ hchild, halive, fun hsome => ?_⟩
  rw [hslot] at hsome
  cases hsome

theorem checkAlive_empty (h : s.slot = none) (answer : TryWait) : s.checkAlive answer = (false, s) := by
  simp [State.checkAlive, h]

/-- A backend that is lost stays lost when another is started. -/
theorem Lost.startBackend {s₁ : State} {a : StartAnswers} (hchecked : s.checkAlive a.slot = (false, s₁)) (h : s₁.Lost)
    (root : Path) : (s.startBackend env root a).2.Lost := by
  obtain ⟨pid, child, hchild, halive, hslot⟩ := h
  have hlt : pid < s₁.children.length := (List.getElem?_eq_some_iff.mp hchild).1
  have hstays : ∀ new : Child, (s₁.children ++ [new])[pid]? = some child := fun new => by
    rw [List.getElem?_append_left hlt, hchild]
  unfold State.startBackend
  rw [hchecked]
  dsimp only
  split
  · next hfalse => cases hfalse
  · split
    · exact ⟨pid, child, hchild, halive, hslot⟩
    · split
      · exact ⟨pid, child, hchild, halive, hslot⟩
      · split
        · exact ⟨pid, child, hchild, halive, hslot⟩
        · split
          · exact ⟨pid, child, hchild, halive, hslot⟩
          · split
            · exact ⟨pid, child, hstays _, halive, hslot⟩
            · refine ⟨pid, child, hstays _, halive, fun hnew => ?_⟩
              exact absurd (Option.some.inj hnew) (Nat.ne_of_gt hlt)

/-- A child that is alive and cannot be asked after is forgotten. -/
theorem checkAlive_failed (h : s.slotAlive = true) : s.checkAlive .failed = (false, { s with slot := none }) := by
  obtain ⟨pid, hslot, -⟩ := slotAlive_iff.mp h
  simp [State.checkAlive, hslot]

/-- A child that is alive and can neither be killed nor waited for is forgotten. -/
theorem stopRunningBackend_refused (h : s.slotAlive = true) {a : StopAnswers} (hkilled : a.killed = false)
    (hwaited : a.waited = false) : s.stopRunningBackend a = { s with slot := none } := by
  obtain ⟨pid, hslot, -⟩ := slotAlive_iff.mp h
  simp [State.stopRunningBackend, hslot, hkilled, hwaited]

/-- **A refusal loses a backend.** -/
theorem lost_of_refused (hstep : s.step env e = some s') (hrefused : ¬ s.Obeyed env e) : s'.Lost := by
  obtain ⟨-, rfl⟩ := guard_eq_some.mp hstep
  cases e with
  | status implied slot =>
      simp only [Obeyed, Classical.not_imp, Bool.not_eq_false] at hrefused
      obtain ⟨rfl, halive⟩ := hrefused
      show (s.checkAlive .failed).2.Lost
      rw [checkAlive_failed halive]
      exact lost_of_slotAlive halive rfl rfl
  | start implied a =>
      simp only [Obeyed, Classical.not_imp, Bool.not_eq_false] at hrefused
      obtain ⟨hfailed, halive⟩ := hrefused
      have hchecked : s.checkAlive a.slot = (false, { s with slot := none }) := by rw [hfailed, checkAlive_failed halive]
      exact Lost.startBackend hchecked (lost_of_slotAlive halive rfl rfl) _
  | stop implied killed =>
      simp only [Obeyed, Classical.not_imp, Bool.not_eq_false] at hrefused
      obtain ⟨hkilled, halive⟩ := hrefused
      obtain ⟨error, rfl⟩ := Option.ne_none_iff_exists'.mp hkilled
      obtain ⟨pid, hslot, -⟩ := slotAlive_iff.mp halive
      show (s.stopBackend env _ (some error)).2.Lost
      simp only [State.stopBackend, hslot]
      exact lost_of_slotAlive halive rfl rfl
  | openProject path isDir written stopped a =>
      simp only [Obeyed, Classical.not_imp, Bool.not_eq_false] at hrefused
      obtain ⟨hdir, hbundle, hkilled, hwaited, halive⟩ := hrefused
      show (s.openProject env path isDir written stopped a).2.Lost
      have hswitched : s.switchTo path isDir written stopped =
          { s with slot := none, opened := some path
                   recents := if written then some (rememberRecent isDir s.recents path) else s.recents } := by
        rw [switchTo, stopRunningBackend_refused halive hkilled hwaited]
      simp only [State.openProject, hdir, hbundle, Bool.not_true, Bool.false_eq_true, if_false, hswitched]
      apply Lost.startBackend (checkAlive_empty rfl _)
      exact lost_of_slotAlive halive rfl rfl
  | exit stopped =>
      simp only [Obeyed, Classical.not_imp, Bool.not_eq_false] at hrefused
      obtain ⟨hkilled, hwaited, halive⟩ := hrefused
      show State.Lost { s.stopRunningBackend stopped with exited := true }
      rw [stopRunningBackend_refused halive hkilled hwaited]
      exact lost_of_slotAlive halive rfl rfl
  | died pid => exact absurd trivial hrefused

end State

/-! ## What the file of recent projects lists -/

section RecentProjects

/-- A path that a line can hold: it has no line feed in it, and no blank at either end. -/
structure IsEntry (path : Path) : Prop where
  nonempty : path ≠ []
  line : '\n' ∉ path
  head : ∀ c, path.head? = some c → isWhiteSpace c = false
  last : ∀ c, path.getLast? = some c → isWhiteSpace c = false

variable {path : Path} {entries : List Path} {isDir : Path → Bool}

theorem dropWhile_of_head {p : Char → Bool} {text : List Char} (h : ∀ c, text.head? = some c → p c = false) :
    text.dropWhile p = text := by
  cases text with
  | nil => rfl
  | cons c text => rw [List.dropWhile_cons_of_neg (by simp [h c rfl])]

theorem IsEntry.trim (h : IsEntry path) : EnumText.trim path = path := by
  have hlast : ∀ c, path.reverse.head? = some c → isWhiteSpace c = false := by
    intro c hc
    exact h.last c (by rwa [List.head?_reverse] at hc)
  rw [EnumText.trim, trimStart, trimStart, dropWhile_of_head h.head, dropWhile_of_head hlast, List.reverse_reverse]

theorem IsEntry.chomp (h : IsEntry path) : Shell.chomp path = path := by
  rw [Shell.chomp, if_neg]
  intro hreturn
  exact absurd (h.last _ hreturn) (by decide)

/-- What is left after trimming has no blank at either end. -/
theorem isEntry_trim {text : List Char} (hline : '\n' ∉ text) (hne : EnumText.trim text ≠ []) :
    IsEntry (EnumText.trim text) := by
  have hhead : ∀ (text : List Char) c, (trimStart text).head? = some c → isWhiteSpace c = false := by
    intro text c hc
    have hnot := List.head?_dropWhile_not isWhiteSpace text
    rw [trimStart] at hc
    rw [hc] at hnot
    simpa using hnot
  have hsuffix : (trimStart (trimStart text).reverse) <:+ (trimStart text).reverse := List.dropWhile_suffix _
  constructor
  · exact hne
  · intro hmem
    have hmem' : '\n' ∈ (trimStart text).reverse := hsuffix.subset (List.mem_reverse.mp hmem)
    exact hline ((List.dropWhile_suffix _).subset (List.mem_reverse.mp hmem'))
  · intro c hc
    -- the trimmed text begins like the text whose end was not trimmed yet
    obtain ⟨rest, hrest⟩ := hsuffix
    have hwhole : EnumText.trim text ++ rest.reverse = trimStart text := by
      rw [EnumText.trim, ← List.reverse_append, hrest, List.reverse_reverse]
    apply hhead text c
    rw [← hwhole, List.head?_append, hc]
    rfl
  · intro c hc
    apply hhead (trimStart text).reverse c
    rw [← hc, EnumText.trim, List.getLast?_reverse]

/-- The lines of what was joined. -/
theorem lines_join (h : ∀ entry ∈ entries, IsEntry entry) : lines (['\n'].intercalate entries) = entries := by
  rcases List.eq_nil_or_concat' entries with rfl | ⟨init, last, rfl⟩
  · rfl
  · have hsplit : (['\n'].intercalate (init ++ [last])).splitOn '\n' = init ++ [last] :=
      List.splitOn_intercalate '\n' (fun entry hentry => (h entry hentry).line) (by simp)
    have hinit : init.map chomp = init := by
      conv_rhs => rw [← List.map_id init]
      exact List.map_congr_left fun entry hentry => (h entry (List.mem_append_left _ hentry)).chomp
    have hlast := (h last (by simp)).nonempty
    rw [lines, hsplit, List.dropLast_concat, List.getLast?_concat, hinit]
    simp [hlast]

theorem readRecents_join (h : ∀ entry ∈ entries, IsEntry entry) :
    readRecents isDir (some (['\n'].intercalate entries)) = entries.filter isDir := by
  have htrim : entries.map EnumText.trim = entries := by
    conv_rhs => rw [← List.map_id entries]
    exact List.map_congr_left fun entry hentry => (h entry hentry).trim
  have hne : entries.filter (· ≠ []) = entries :=
    List.filter_eq_self.mpr fun entry hentry => by simpa using (h entry hentry).nonempty
  rw [readRecents, Option.getD_some, lines_join h, htrim, hne]

theorem mem_lines {text line : List Char} (h : line ∈ lines text) : '\n' ∉ line := by
  have hpieces : ∀ piece ∈ text.splitOn '\n', '\n' ∉ piece := fun piece => Lines.not_mem_of_mem_splitOn '\n'
  rcases List.mem_append.mp h with hmem | hmem
  · obtain ⟨piece, hpiece, rfl⟩ := List.mem_map.mp hmem
    have hnot := hpieces piece (List.dropLast_subset _ hpiece)
    unfold chomp
    split
    · exact fun hline => hnot (List.dropLast_subset _ hline)
    · exact hnot
  · exact hpieces line (List.mem_of_getLast? (Option.mem_toList.mp (List.mem_filter.mp hmem).1))

theorem isEntry_of_mem_readRecents {file : Option (List Char)} (h : path ∈ readRecents isDir file) :
    IsEntry path ∧ isDir path = true := by
  obtain ⟨hmem, hdir⟩ := List.mem_filter.mp h
  obtain ⟨hmem, hne⟩ := List.mem_filter.mp hmem
  obtain ⟨line, hline, rfl⟩ := List.mem_map.mp hmem
  exact ⟨isEntry_trim (mem_lines hline) (by simpa using hne), hdir⟩

/-- **What is remembered is read back.** -/
theorem readRecents_rememberRecent (file : Option (List Char)) (h : IsEntry path) (hdir : isDir path = true) :
    readRecents isDir (some (rememberRecent isDir file path)) =
      remember maxRecents (readRecents isDir file) path := by
  have hentries : ∀ entry ∈ remember maxRecents (readRecents isDir file) path, IsEntry entry ∧ isDir entry = true := by
    intro entry hentry
    rcases List.mem_cons.mp (List.mem_of_mem_take hentry) with rfl | hmem
    · exact ⟨h, hdir⟩
    · exact isEntry_of_mem_readRecents (List.mem_filter.mp hmem).1
  rw [rememberRecent, readRecents_join fun entry hentry => (hentries entry hentry).1]
  exact List.filter_eq_self.mpr fun entry hentry => (hentries entry hentry).2

/-! ### Over a run -/

variable {env : Environment} {s s' : State}

theorem recents_checkAlive (answer : TryWait) : (s.checkAlive answer).2.recents = s.recents := by
  unfold State.checkAlive
  split <;> rfl

theorem recents_startBackend (root : Path) (a : StartAnswers) :
    (s.startBackend env root a).2.recents = s.recents := by
  have hchecked := recents_checkAlive (s := s) a.slot
  unfold State.startBackend
  generalize s.checkAlive a.slot = checked at *
  dsimp only
  repeat' split
  all_goals exact hchecked

theorem recents_stopRunningBackend (a : StopAnswers) : (s.stopRunningBackend a).recents = s.recents := by
  unfold State.stopRunningBackend
  split
  · rfl
  · dsimp only
    split <;> rfl

theorem recents_stopBackend (root : Path) (killed : Option String) :
    (s.stopBackend env root killed).2.recents = s.recents := by
  unfold State.stopBackend
  split
  · rfl
  · dsimp only
    split <;> rfl

/-- The project that an event opens, where nothing forbids it. -/
def opening (env : Environment) : Event → Option Path
  | .openProject path isDir .. => if isDir path && !inBundle env path then some path else none
  | _ => none

/-- The projects opened in a run, the first one first. -/
def openings (env : Environment) (es : List Event) : List Path := es.filterMap (opening env)

/-- The directories stay what they are, the file can be written, and a line can hold the path. -/
def Usual (isDir : Path → Bool) : Event → Prop
  | .openProject path isDir' written .. => isDir' = isDir ∧ written = true ∧ (isDir path = true → IsEntry path)
  | _ => True

/-- What one event does to the list. -/
theorem readRecents_step {e : Event} (hstep : s.step env e = some s') (husual : Usual isDir e) :
    readRecents isDir s'.recents =
      (opening env e).toList.foldl (remember maxRecents) (readRecents isDir s.recents) := by
  obtain ⟨-, rfl⟩ := guard_eq_some.mp hstep
  cases e with
  | status implied slot => exact congrArg _ (recents_checkAlive slot)
  | start implied a => exact congrArg _ (recents_startBackend _ a)
  | stop implied killed => exact congrArg _ (recents_stopBackend _ killed)
  | exit stopped => exact congrArg _ (recents_stopRunningBackend stopped)
  | died pid => rfl
  | openProject path isDir' written stopped a =>
      obtain ⟨rfl, rfl, hentry⟩ := husual
      show readRecents isDir' (s.openProject env path isDir' true stopped a).2.recents = _
      unfold State.openProject opening
      by_cases hdir : isDir' path = true
      · by_cases hbundle : inBundle env path = true
        · simp [hdir, hbundle]
        · simp only [hdir, hbundle, Bool.not_true, Bool.not_false, Bool.false_eq_true, if_false, Bool.and_self, if_true,
            recents_startBackend, State.switchTo, recents_stopRunningBackend, Option.toList_some, List.foldl_cons,
            List.foldl_nil]
          exact readRecents_rememberRecent s.recents (hentry hdir) hdir
      · simp [hdir]

theorem foldl_step {es : List Event} (hafter : after (State.step env) s es = some s')
    (husual : ∀ e ∈ es, Usual isDir e) :
    readRecents isDir s'.recents = (openings env es).foldl (remember maxRecents) (readRecents isDir s.recents) := by
  induction es generalizing s with
  | nil =>
      cases hafter
      rfl
  | cons e es ih =>
      obtain ⟨s₁, hstep, hrest⟩ := Option.bind_eq_some_iff.mp hafter
      rw [ih hrest fun e' he' => husual e' (List.mem_cons_of_mem _ he'), readRecents_step hstep (husual e List.mem_cons_self)]
      cases hopening : opening env e with
      | none => simp [openings, hopening]
      | some path => simp [openings, hopening]

/-- Two projects are opened in turn, in a shell that knows of one more. -/
def twoProjects : List Event :=
  [['/', 'b'], ['/', 'a'], ['/', 'b']].map fun path => .openProject path (fun _ => true) true {} {}

def knowingOne : State := { recents := some ['/', 'a', '\n', '/', 'c'] }

end RecentProjects

end AtlasFlow.Reference.Shell
