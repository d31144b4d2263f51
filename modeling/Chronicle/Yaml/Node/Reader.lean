import Chronicle.Yaml.Node
import Chronicle.Yaml.Token

/-!
# Nodes from tokens

A document is one node, with the marks around it.  Nodes can be named by an anchor and repeated by
an alias.

* `Reader`: the tokens that are left, and the nodes that have been named;
* `Reader.node`: the next node;
* `Node.ofTokens?`: the only document of a text, if there is one.

The readers take `fuel`, which bounds how deeply they call each other; every call on the way takes a
token or leads to one that does.
-/

namespace Chronicle.Yaml

/-- What is left to read, and what has been seen: named nodes and the meaning of tag handles. -/
structure Reader where
  tokens : Tokens
  anchors : List (String × Node)
  handles : List (String × String)
  deriving Repr, Inhabited

/-- A reading that takes tokens. -/
abbrev Read (α : Type) := StateT Reader (Except Failure) α

namespace Reader

def defaultHandles : List (String × String) := [("!", "!"), ("!!", Tag.corePrefix)]

def peek : Read Token := do
  match (← get).tokens with
  | .next t _ => return t
  | .broken cause => throw cause

def skip : Read Unit := do
  let s ← get
  match s.tokens with
  | .next _ rest => set { s with tokens := rest }
  | .broken cause => throw cause

def defineAnchor (name : Option String) (n : Node) : Read Unit :=
  match name with
  | some name => modify fun s => { s with anchors := (name, n) :: s.anchors }
  | none => pure ()

/-- The tag that a handle and what follows it denote. -/
def tagName (handle : Option String) (suffix : String) : Read String := do
  match handle with
  | none => return suffix
  | some h =>
    match (← get).handles.lookup h with
    | some meaning => return meaning ++ suffix
    | none => throw .notParsed

/-- The anchor and the tag before a node, in either order. -/
def properties : Read (Option String × Option String) := do
  let takeTag : Read (Option (Option String × String)) := do
    match ← peek with
    | .tag handle suffix => skip; return some (handle, suffix)
    | _ => return none
  let takeAnchor : Read (Option String) := do
    match ← peek with
    | .anchor name => skip; return some name
    | _ => return none
  let resolve (t : Option (Option String × String)) : Read (Option String) := do
    match t with
    | some (handle, suffix) => return some (← tagName handle suffix)
    | none => return none
  match ← takeAnchor with
  | some name => return (some name, ← resolve (← takeTag))
  | none =>
    match ← takeTag with
    | none => return (none, none)
    | some t =>
      let name ← takeAnchor
      return (name, ← resolve (some t))

/-- The tag of a scalar: the written one, or by its form if it is plain or marked as such. -/
def scalarTag (tag : Option String) (plain : Bool) (text : String) : Tag :=
  match tag with
  | some "!" => Tag.ofPlain text
  | some name => Tag.ofName name
  | none => if plain then Tag.ofPlain text else .text

def collectionTag (tag : Option String) (usual : Tag) : Tag :=
  match tag with
  | none | some "!" => usual
  | some name => Tag.ofName name

/-- An anchor names one node only. -/
def checkAnchor (name : Option String) : Read Unit := do
  match name with
  | some name => if ((← get).anchors.lookup name).isSome then throw .notComposed
  | none => pure ()

mutual

/-- The next node.  In blocks a collection may be told by indentation; as the value of a mapping a
sequence need not even be indented. -/
def node : Nat → Bool → Bool → Read Node
  | 0, _, _ => throw .notParsed
  | fuel + 1, inBlock, unindented => do
    match ← peek with
    | .reference name =>
      skip
      match (← get).anchors.lookup name with
      | some n => return n
      | none => throw .notComposed
    | _ =>
      let (anchor, tag) ← properties
      let collect (n : Read Node) : Read Node := do
        checkAnchor anchor
        defineAnchor anchor .unfinished
        let n ← n
        defineAnchor anchor n
        return n
      let sequence (items : Read (List Node)) : Read Node :=
        collect do return .sequence (collectionTag tag .sequence) (← items)
      let mapping (entries : Read (List (Node × Node))) : Read Node :=
        collect do return .mapping (collectionTag tag .mapping) (← entries)
      let leaf (n : Node) : Read Node := do
        checkAnchor anchor
        defineAnchor anchor n
        return n
      match ← peek, inBlock, unindented with
      | .blockEntry, _, true => sequence (unindentedItems fuel)
      | .scalar plain text, _, _ =>
        skip
        leaf (.scalar (scalarTag tag plain text) text)
      | .flowSequenceStart, _, _ => sequence (do skip; flowItems fuel true)
      | .flowMappingStart, _, _ => mapping (do skip; flowEntries fuel true)
      | .blockSequenceStart, true, _ => sequence (do skip; blockItems fuel)
      | .blockMappingStart, true, _ => mapping (do skip; blockEntries fuel)
      | _, _, _ =>
        if anchor.isSome || tag.isSome then leaf (.scalar (scalarTag tag true "") "")
        else throw .notParsed

/-- The items of an indented sequence. -/
def blockItems : Nat → Read (List Node)
  | 0 => throw .notParsed
  | fuel + 1 => do
    match ← peek with
    | .blockEntry =>
      skip
      let item ← match ← peek with
        | .blockEntry | .blockEnd => pure Node.absent
        | _ => node fuel true false
      return item :: (← blockItems fuel)
    | .blockEnd => skip; return []
    | _ => throw .notParsed

/-- The items of a sequence that no token ends. -/
def unindentedItems : Nat → Read (List Node)
  | 0 => throw .notParsed
  | fuel + 1 => do
    match ← peek with
    | .blockEntry =>
      skip
      let item ← match ← peek with
        | .blockEntry | .key | .value | .blockEnd => pure Node.absent
        | _ => node fuel true false
      return item :: (← unindentedItems fuel)
    | _ => return []

def blockEntries : Nat → Read (List (Node × Node))
  | 0 => throw .notParsed
  | fuel + 1 => do
    match ← peek with
    | .key =>
      skip
      let key ← blockPart fuel
      let value ← blockValue fuel
      return (key, value) :: (← blockEntries fuel)
    | .blockEnd => skip; return []
    | _ => throw .notParsed

/-- A key or a value of an indented mapping. -/
def blockPart : Nat → Read Node
  | 0 => throw .notParsed
  | fuel + 1 => do
    match ← peek with
    | .key | .value | .blockEnd => return Node.absent
    | _ => node fuel true true

def blockValue : Nat → Read Node
  | 0 => throw .notParsed
  | fuel + 1 => do
    match ← peek with
    | .value => skip; blockPart fuel
    | _ => return Node.absent

/-- The items between brackets; a single pair among them is a mapping of its own. -/
def flowItems : Nat → Bool → Read (List Node)
  | 0, _ => throw .notParsed
  | fuel + 1, first => do
    match ← peek with
    | .flowSequenceEnd => skip; return []
    | t =>
      if !first then
        if t == .flowEntry then skip else throw .notParsed
      match ← peek with
      | .flowSequenceEnd => skip; return []
      | .key =>
        skip
        let key ← match ← peek with
          | .value | .flowEntry | .flowSequenceEnd => pure Node.absent
          | _ => node fuel false false
        let value ← match ← peek with
          | .value => do
            skip
            match ← peek with
            | .flowEntry | .flowSequenceEnd => pure Node.absent
            | _ => node fuel false false
          | _ => pure Node.absent
        return .mapping .mapping [(key, value)] :: (← flowItems fuel false)
      | _ =>
        let item ← node fuel false false
        return item :: (← flowItems fuel false)

/-- The entries between braces; an item without a colon is a key. -/
def flowEntries : Nat → Bool → Read (List (Node × Node))
  | 0, _ => throw .notParsed
  | fuel + 1, first => do
    match ← peek with
    | .flowMappingEnd => skip; return []
    | t =>
      if !first then
        if t == .flowEntry then skip else throw .notParsed
      match ← peek with
      | .flowMappingEnd => skip; return []
      | .key =>
        skip
        let key ← match ← peek with
          | .value | .flowEntry | .flowMappingEnd => pure Node.absent
          | _ => node fuel false false
        let value ← match ← peek with
          | .value => do
            skip
            match ← peek with
            | .flowEntry | .flowMappingEnd => pure Node.absent
            | _ => node fuel false false
          | _ => pure Node.absent
        return (key, value) :: (← flowEntries fuel false)
      | _ =>
        let key ← node fuel false false
        return (key, Node.absent) :: (← flowEntries fuel false)

end

/-! ## Documents -/

/-- The declarations before a document.  Only versions of the first kind are read. -/
def directives : Nat → Bool → List (String × String) → Read (List (String × String))
  | 0, _, _ => throw .notParsed
  | fuel + 1, hasVersion, handles => do
    match ← peek with
    | .directive d =>
      skip
      match d with
      | .version major _ =>
        if hasVersion || major != 1 then throw .notParsed
        directives fuel true handles
      | .handle name meaning =>
        if (handles.lookup name).isSome then throw .notParsed
        directives fuel hasVersion ((name, meaning) :: handles)
      | .other => directives fuel hasVersion handles
    | _ => return handles

def skipDocumentEnds : Nat → Read Unit
  | 0 => throw .notParsed
  | fuel + 1 => do
    match ← peek with
    | .documentEnd => skip; skipDocumentEnds fuel
    | _ => pure ()

/-- The beginning of a document, or `false` at the end of the text. -/
def startDocument (fuel : Nat) : Read Bool := do
  skipDocumentEnds fuel
  match ← peek with
  | .streamEnd => return false
  | _ =>
    let handles ← directives fuel false []
    match ← peek with
    | .documentStart =>
      skip
      modify fun s => { s with handles := handles ++ defaultHandles }
      return true
    | _ => throw .notParsed

/-- The node of a document that has been started. -/
def documentNode (fuel : Nat) : Read Node := do
  match ← peek with
  | .directive _ | .documentStart | .documentEnd | .streamEnd => return Node.absent
  | _ => node fuel true false

/-- The only document of a text. -/
def document (fuel : Nat) : Read (Option Node) := do
  let n ← match ← peek with
    | .directive _ | .documentStart => do
      let _ ← startDocument fuel
      let n ← documentNode fuel
      pure (some n)
    | .streamEnd => pure none
    | _ => do
      let n ← node fuel true false
      pure (some n)
  if n.isSome then
    match ← peek with
    | .documentEnd => skip
    | _ => pure ()
  if ← startDocument fuel then throw .notComposed
  return n

end Reader

/-- The only document of a text, if it has one. -/
def Node.ofTokens? (ts : Tokens) : Except Failure (Option Node) :=
  ((Reader.document (4 * ts.toList.length + 8)).run ⟨ts, [], Reader.defaultHandles⟩).map (·.1)

end Chronicle.Yaml
