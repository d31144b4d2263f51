import Chronicle.Yaml.Tag

/-!
# Nodes

What a YAML text says: scalars, sequences and mappings, each with its tag.
-/

namespace Chronicle.Yaml

/-- A node.  `unfinished` stands for an alias of a node inside that node. -/
inductive Node
  | scalar (tag : Tag) (text : String)
  | sequence (tag : Tag) (items : List Node)
  | mapping (tag : Tag) (entries : List (Node × Node))
  | unfinished
  deriving Repr, Inhabited

namespace Node

def tag : Node → Tag
  | scalar t _ | sequence t _ | mapping t _ => t
  | unfinished => .other ""

/-- What stands where nothing is written. -/
def absent : Node := .scalar .null ""

end Node

end Chronicle.Yaml
