import AtlasFlow.Reference.Gates

/-!
# Discussions

`atlas_flow.discuss.models`: a discussion, what was said in it, the decisions it came to, and how complete
its draft of the project is.
-/

namespace AtlasFlow.Reference

open SqlValues (Spelled text)

/-! ## Enumerations -/

inductive DecisionState | proposed | accepted | rejected | superseded
  deriving DecidableEq, Repr, Inhabited

/-- `partly` is `PARTIAL`. -/
inductive Completeness | unknown | partly | sufficient | locked
  deriving DecidableEq, Repr, Inhabited

inductive ReferenceKind | file | image
  deriving DecidableEq, Repr, Inhabited

instance : Spelled DecisionState where
  typeName := "DecisionState"
  text
    | .proposed => "PROPOSED"
    | .accepted => "ACCEPTED"
    | .rejected => "REJECTED"
    | .superseded => "SUPERSEDED"
  switch :=
    [("PROPOSED", .proposed), ("ACCEPTED", .accepted), ("REJECTED", .rejected), ("SUPERSEDED", .superseded)]
  switch_text a := by cases a <;> decide
  switch_sound := by decide

instance : Spelled Completeness where
  typeName := "Completeness"
  text
    | .unknown => "unknown"
    | .partly => "partial"
    | .sufficient => "sufficient"
    | .locked => "locked"
  switch := [("unknown", .unknown), ("partial", .partly), ("sufficient", .sufficient), ("locked", .locked)]
  switch_text a := by cases a <;> decide
  switch_sound := by decide

instance : Spelled ReferenceKind where
  typeName := "ReferenceKind"
  text
    | .file => "file"
    | .image => "image"
  switch := [("file", .file), ("image", .image)]
  switch_text a := by cases a <;> decide
  switch_sound := by decide

/-! ## A discussion -/

structure MessageReference where
  path : String
  kind : ReferenceKind := .file
  label : String := ""
  mimeType : Option String := none
  deriving DecidableEq, Repr

structure Message where
  id : String
  timestamp : String
  content : String
  turnType : String := "message"
  references : List MessageReference := []
  deriving DecidableEq, Repr

structure DecisionCandidate where
  id : String
  title : String
  statement : String
  rationale : String
  status : DecisionState := .proposed
  sourceMessageIds : List String := []
  timestamp : String
  affectedDomains : List String := []
  supersedes : Option String := none
  requiresAdr : Bool := false
  canonicalTargets : List String := []
  deriving DecidableEq, Repr

structure ProjectDraft where
  sessionId : String
  product : Completeness := .unknown
  architecture : Completeness := .unknown
  ux : Completeness := .unknown
  data : Completeness := .unknown
  security : Completeness := .unknown
  quality : Completeness := .unknown
  operations : Completeness := .unknown
  aiOrchestration : Completeness := .unknown
  roadmap : Completeness := .unknown
  deriving DecidableEq, Repr

structure DiscussionSession where
  id : String
  projectId : String
  title : String := ""
  messages : List Message := []
  decisions : List DecisionCandidate := []
  draft : ProjectDraft
  startedAt : String
  deriving DecidableEq, Repr

end AtlasFlow.Reference
