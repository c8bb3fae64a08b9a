import AtlasFlow.Data.EnumText
import AtlasFlow.Data.PathText

/-!
# Paths inside the open project

`ProjectPaths.Resolve` makes a full path of a text and refuses it unless it is the root's or begins with the root's
and a separator. The full paths it compares are texts without dot segments; no link is followed.
-/

namespace AtlasFlow

namespace ProjectPaths

open LinkedFiles PathText

inductive Thrown where
  | argument
  | escape (message : List Char)
  deriving DecidableEq, Repr

/-- `Path.GetFullPath`, in the working directory. -/
def getFullPath (working : Location) (text : List Char) : Except Thrown (List Char) :=
  if text = [] ∨ '\x00' ∈ text then .error .argument else .ok (PathText.getFullPath working text)

def escapeMessage (value : List Char) : List Char :=
  '\'' :: value ++ "' resolves outside the open project".toList

/-- `Resolve`. -/
def resolve (working : Location) (projectRoot relative : List Char) : Except Thrown (List Char) :=
  if projectRoot.all EnumText.isWhiteSpace then .error .argument
  else do
    let root ← getFullPath working projectRoot
    let root := trimEnding root
    let candidate ← getFullPath working (combine root relative)
    if candidate = root ∨ root ++ ['/'] <+: candidate then .ok candidate else .error (.escape (escapeMessage relative))

/-! ## Texts and names -/

variable {working : Working} {projectRoot relative : List Char}

/-- Texts that the platform takes for paths, the first of which is not blank. -/
structure Legible (projectRoot relative : List Char) : Prop where
  notBlank : projectRoot.all EnumText.isWhiteSpace = false
  root : '\x00' ∉ projectRoot
  relative : '\x00' ∉ relative

/-- The names of the root's full path. -/
def rootNames (working : Working) (projectRoot : List Char) : Location := namesIn working.directory projectRoot

/-- The names of the full path of a text read in the root. -/
def pathNames (working : Working) (projectRoot relative : List Char) : Location :=
  namesIn (rootNames working projectRoot) relative

variable (working) in
theorem rootNames_isName (hroot : '\x00' ∉ projectRoot) : ∀ name ∈ rootNames working projectRoot, IsName name :=
  namesIn_isName working.isNames hroot

variable (working) in
theorem pathNames_isName (hroot : '\x00' ∉ projectRoot) (hrelative : '\x00' ∉ relative) :
    ∀ name ∈ pathNames working projectRoot relative, IsName name :=
  namesIn_isName (rootNames_isName working hroot) hrelative

/-- `Resolve` compares names, and takes nothing for being below the root of the file system but itself. -/
def Below (root names : Location) : Prop := root <+: names ∧ (root = [] → names = [])

instance (root names : Location) : Decidable (Below root names) := inferInstanceAs (Decidable (_ ∧ (_ → _)))

/-- `Resolve`, from the text of the root's full path on. -/
theorem resolve_of_root (hblank : projectRoot.all EnumText.isWhiteSpace = false) (hroot : '\x00' ∉ projectRoot) :
    resolve working.directory projectRoot relative =
      (getFullPath working.directory (combine (textOf (rootNames working projectRoot) false) relative)).bind
        fun candidate =>
          let root := textOf (rootNames working projectRoot) false
          if candidate = root ∨ root ++ ['/'] <+: candidate then .ok candidate
          else .error (.escape (escapeMessage relative)) := by
  have hne : projectRoot ≠ [] := by
    rintro rfl
    cases hblank
  have hfull : getFullPath working.directory projectRoot =
      .ok (textOf (rootNames working projectRoot) (projectRoot.getLast? = some '/')) :=
    if_neg (not_or.mpr ⟨hne, hroot⟩)
  unfold resolve
  rw [if_neg (by simp [hblank]), hfull]
  show (getFullPath working.directory (combine (trimEnding _) relative)).bind _ = _
  rw [trimEnding_textOf (rootNames_isName working hroot)]

variable (working) in
theorem resolve_of_legible (h : Legible projectRoot relative) : ∃ isEnded,
    resolve working.directory projectRoot relative =
      if Below (rootNames working projectRoot) (pathNames working projectRoot relative) then
        .ok (textOf (pathNames working projectRoot relative) isEnded)
      else .error (.escape (escapeMessage relative)) := by
  have hnames := rootNames_isName working h.root
  have hnul : '\x00' ∉ combine (textOf (rootNames working projectRoot) false) relative := by
    rw [mem_combine (by decide) fun name hname => (hnames name hname).2.2.2.2]
    exact h.relative
  have hcombine := namesIn_combine hnames working.directory relative
  refine ⟨(combine (textOf (rootNames working projectRoot) false) relative).getLast? = some '/', ?_⟩
  rw [resolve_of_root h.notBlank h.root, getFullPath, if_neg (not_or.mpr ⟨combine_ne_nil _ _, hnul⟩),
    PathText.getFullPath, hcombine]
  exact if_congr (below_iff hnames (pathNames_isName working h.root h.relative) _) rfl rfl

variable (working) in
theorem resolve_of_not_legible (h : ¬Legible projectRoot relative) :
    resolve working.directory projectRoot relative = .error .argument := by
  by_cases hblank : projectRoot.all EnumText.isWhiteSpace = false
  · by_cases hroot : '\x00' ∈ projectRoot
    · unfold resolve
      rw [if_neg (by simp [hblank]), getFullPath, if_pos (.inr hroot)]
      rfl
    · have hrelative : '\x00' ∈ relative := by
        by_contra hnot
        exact h ⟨hblank, hroot, hnot⟩
      have hnul : '\x00' ∈ combine (textOf (rootNames working projectRoot) false) relative := by
        rw [mem_combine (by decide) fun name hname => (rootNames_isName working hroot name hname).2.2.2.2]
        exact hrelative
      rw [resolve_of_root hblank hroot, getFullPath, if_pos (.inr hnul)]
      rfl
  · unfold resolve
    exact if_pos (by simpa using hblank)

end ProjectPaths

end AtlasFlow
