/-!
# YAML nodes

The representation graph of a YAML document, as a tree: an alias stands as the node it refers to. A scalar
keeps its text, its tag, if one is written, and whether it is plain, which is what both YAML libraries hand on
before anybody decides what the scalar means.
-/

namespace Yaml

structure Scalar where
  tag : Option String := none
  plain : Bool := true
  text : String
  deriving DecidableEq, Repr

inductive Node where
  | scalar (s : Scalar)
  | sequence (tag : Option String) (items : List Node)
  | mapping (tag : Option String) (pairs : List (Node × Node))

/-- A plain scalar. -/
def word (text : String) : Node := .scalar { text }

/-- A mapping without a tag. -/
def block (pairs : List (Node × Node)) : Node := .mapping none pairs

end Yaml
