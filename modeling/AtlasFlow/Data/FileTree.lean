import Mathlib.Data.List.Infix
import AtlasFlow.Data.Dict

/-!
# A tree of files

What is below a directory: under each path a directory or a file. A program that makes the directories it needs
and leaves alone whatever is there already adds to the tree exactly the files whose paths were free
(`writeAll_wrote`).
-/

/-- The names on the way to it. -/
abbrev FilePath := List String

inductive Node where
  | directory
  | file (text : List Char)
  deriving DecidableEq, Repr

abbrev FileTree := Dict FilePath Node

inductive FileError where
  | notADirectory (path : FilePath)
  | isADirectory (path : FilePath)
  deriving DecidableEq, Repr

namespace FileTree

/-- `path.exists()`. -/
def exists_ (tree : FileTree) (path : FilePath) : Bool := (tree.get? path).isSome

/-- One directory, if it is not there yet. -/
def makeDir (tree : FileTree) (path : FilePath) : Except FileError FileTree :=
  match tree.get? path with
  | none => .ok (tree.set path .directory)
  | some .directory => .ok tree
  | some (.file _) => .error (.notADirectory path)

/-- `path.mkdir(parents=True, exist_ok=True)`. -/
def mkdir (tree : FileTree) (path : FilePath) : Except FileError FileTree :=
  path.inits.tail.foldlM makeDir tree

/-- `path.write_text(text)`, in a directory that is there. -/
def writeText (tree : FileTree) (path : FilePath) (text : List Char) : Except FileError FileTree :=
  match tree.get? path with
  | some .directory => .error (.isADirectory path)
  | _ => .ok (tree.set path (.file text))

/-- A file is written unless something is there already. -/
def writeNew (tree : FileTree) (path : FilePath) (text : List Char) : Except FileError FileTree :=
  if tree.exists_ path then .ok tree
  else do
    let tree ← mkdir tree path.dropLast
    writeText tree path text

def writeAll (tree : FileTree) (files : List (FilePath × List Char)) : Except FileError FileTree :=
  files.foldlM (fun tree file => writeNew tree file.1 file.2) tree

/-! ## What is added -/

section Adding

variable {tree after : FileTree} {path p : FilePath} {node : Node} {text : List Char}

/-- Whatever was there is there as it was. -/
def Keeps (tree after : FileTree) : Prop := ∀ p node, tree.get? p = some node → after.get? p = some node

theorem Keeps.refl (tree : FileTree) : Keeps tree tree := fun _ _ h => h

theorem Keeps.trans {later : FileTree} (h : Keeps tree after) (h' : Keeps after later) : Keeps tree later :=
  fun p node hp => h' p node (h p node hp)

theorem keeps_set (h : tree.get? path = none) (node : Node) : Keeps tree (tree.set path node) := by
  intro p old hp
  have hne : path ≠ p := by
    rintro rfl
    rw [h] at hp
    cases hp
  rwa [Dict.get?_set_of_ne tree node hne]

theorem makeDir_spec (h : makeDir tree path = .ok after) :
    Keeps tree after ∧
      ∀ p, tree.get? p = none → after.get? p = none ∨ after.get? p = some .directory ∧ p = path := by
  unfold makeDir at h
  split at h
  · next hfree =>
    cases h
    refine ⟨keeps_set hfree _, fun p hp => ?_⟩
    rw [Dict.get?_set]
    split
    · next heq => exact .inr ⟨rfl, heq.symm⟩
    · exact .inl hp
  · cases h
    exact ⟨Keeps.refl _, fun p hp => .inl hp⟩
  · cases h

theorem foldlM_makeDir_spec {paths : List FilePath} (h : paths.foldlM makeDir tree = .ok after) :
    Keeps tree after ∧
      ∀ p, tree.get? p = none → after.get? p = none ∨ after.get? p = some .directory ∧ p ∈ paths := by
  induction paths generalizing tree with
  | nil =>
      cases h
      exact ⟨Keeps.refl _, fun p hp => .inl hp⟩
  | cons path paths ih =>
      rw [List.foldlM_cons] at h
      cases hfirst : makeDir tree path with
      | error exc => rw [hfirst] at h; cases h
      | ok next =>
          rw [hfirst] at h
          obtain ⟨hkeeps, hadds⟩ := makeDir_spec hfirst
          obtain ⟨hkeeps', hadds'⟩ := ih h
          refine ⟨hkeeps.trans hkeeps', fun p hp => ?_⟩
          rcases hadds p hp with hnone | ⟨hdir, rfl⟩
          · exact (hadds' p hnone).imp_right fun hadded => ⟨hadded.1, List.mem_cons_of_mem _ hadded.2⟩
          · exact .inr ⟨hkeeps' p _ hdir, List.mem_cons_self⟩

/-- What `mkdir` adds are directories on the way. -/
theorem mkdir_spec (h : mkdir tree path = .ok after) : Keeps tree after ∧
    ∀ p, tree.get? p = none → after.get? p = none ∨ after.get? p = some .directory ∧ p <+: path := by
  obtain ⟨hkeeps, hadds⟩ := foldlM_makeDir_spec h
  refine ⟨hkeeps, fun p hp => (hadds p hp).imp_right fun hadded => ⟨hadded.1, ?_⟩⟩
  exact (List.mem_inits p path).mp (List.mem_of_mem_tail hadded.2)

/-- What is there after some files were written where nothing was. -/
structure Wrote (tree after : FileTree) (files : List (FilePath × List Char)) : Prop where
  keeps : Keeps tree after
  written : ∀ file ∈ files, tree.get? file.1 = none → after.get? file.1 = some (.file file.2)
  only : ∀ p text, after.get? p = some (.file text) →
    tree.get? p = some (.file text) ∨ tree.get? p = none ∧ (p, text) ∈ files

/-- A file is written as it is given, and what else is new are the directories above it. -/
theorem writeNew_spec (hpath : path ≠ []) (h : writeNew tree path text = .ok after) : Keeps tree after ∧
    (tree.get? path = none → after.get? path = some (.file text)) ∧
    ∀ p, tree.get? p = none → p ≠ path →
      after.get? p = none ∨ after.get? p = some .directory ∧ p.length < path.length := by
  unfold writeNew exists_ at h
  split at h
  · next hsome =>
    cases h
    exact ⟨Keeps.refl _, fun hnone => by simp [hnone] at hsome, fun p hp _ => .inl hp⟩
  · next hfree =>
    have hnone : tree.get? path = none := by simpa using hfree
    cases hdir : mkdir tree path.dropLast with
    | error exc => rw [hdir] at h; cases h
    | ok made =>
        obtain ⟨hkeeps, hadds⟩ := mkdir_spec hdir
        have hlength : path.dropLast.length < path.length := by
          have hpos := List.length_pos_of_ne_nil hpath
          rw [List.length_dropLast]
          omega
        have hmade : made.get? path = none := by
          refine (hadds path hnone).resolve_right fun hadded => ?_
          have hle := hadded.2.length_le
          omega
        rw [hdir] at h
        change writeText made path text = .ok after at h
        rw [writeText, hmade] at h
        cases h
        refine ⟨hkeeps.trans (keeps_set hmade _), fun _ => Dict.get?_set_self made path _, fun p hp hne => ?_⟩
        rw [Dict.get?_set_of_ne made _ (Ne.symm hne)]
        refine (hadds p hp).imp_right fun hadded => ⟨hadded.1, ?_⟩
        have hle := hadded.2.length_le
        omega

/-- Files whose paths are different and of one length do not get in each other's way. -/
theorem writeAll_wrote {files : List (FilePath × List Char)} {n : Nat} (hn : 0 < n)
    (hlength : ∀ file ∈ files, file.1.length = n) (hdistinct : (files.map Prod.fst).Nodup)
    (h : writeAll tree files = .ok after) : Wrote tree after files := by
  induction files generalizing tree with
  | nil =>
      cases h
      exact ⟨Keeps.refl _, fun file hfile => (List.not_mem_nil hfile).elim, fun p text hp => .inl hp⟩
  | cons file files ih =>
      obtain ⟨path, text⟩ := file
      rw [writeAll, List.foldlM_cons] at h
      cases hfirst : writeNew tree path text with
      | error exc => rw [hfirst] at h; cases h
      | ok next =>
          rw [hfirst] at h
          have hpath : path.length = n := hlength (path, text) List.mem_cons_self
          have hne : path ≠ [] := List.ne_nil_of_length_pos (by omega)
          obtain ⟨hkeeps, hown, hother⟩ := writeNew_spec hne hfirst
          obtain ⟨hnew, hrest⟩ := List.nodup_cons.mp hdistinct
          have hwrote := ih (fun file hfile => hlength file (List.mem_cons_of_mem _ hfile)) hrest h
          refine ⟨hkeeps.trans hwrote.keeps, fun file hfile hfree => ?_, fun p t hp => ?_⟩
          · rcases List.mem_cons.mp hfile with rfl | hfile
            · exact hwrote.keeps _ _ (hown hfree)
            · have hdiff : file.1 ≠ path := by
                intro heq
                apply hnew
                show path ∈ files.map Prod.fst
                rw [← heq]
                exact List.mem_map_of_mem hfile
              refine hwrote.written file hfile ((hother file.1 hfree hdiff).resolve_right fun hadded => ?_)
              have hsame := hlength file (List.mem_cons_of_mem _ hfile)
              omega
          · rcases hwrote.only p t hp with hnext | ⟨hnone, hmem⟩
            · cases hold : tree.get? p with
              | some node =>
                  rw [hkeeps p node hold] at hnext
                  exact .inl hnext
              | none =>
                  by_cases hp' : p = path
                  · subst hp'
                    rw [hown hold] at hnext
                    cases hnext
                    exact .inr ⟨rfl, List.mem_cons_self⟩
                  · rcases hother p hold hp' with hnone | ⟨hdir, _⟩
                    · rw [hnone] at hnext
                      cases hnext
                    · rw [hdir] at hnext
                      cases hnext
            · cases hold : tree.get? p with
              | some node =>
                  rw [hkeeps p node hold] at hnone
                  cases hnone
              | none => exact .inr ⟨rfl, List.mem_cons_of_mem _ hmem⟩

end Adding

end FileTree
