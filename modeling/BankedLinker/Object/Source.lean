import BankedLinker.Text.Numeral

/-!
# Source nodes and traces

An object file remembers where each of its parts came from: a tree of source nodes (files, macro
calls, repeat blocks), in which every node but a root names its parent and the line of the parent
that led to it. A `SourceRef` is a line of a node, and `SourceTree.trace` shows the chain of
nodes that leads to it, outermost first.
-/

namespace BankedLinker

/-- What created a source node, as its tag in an object file. -/
structure NodeKind where
  tag : UInt8
deriving DecidableEq, Repr, Inhabited

namespace NodeKind

/-- A repeat block. -/
def repeated : NodeKind := ⟨0⟩
/-- A source file. -/
def sourceFile : NodeKind := ⟨1⟩
/-- A macro call. -/
def macroCall : NodeKind := ⟨2⟩

end NodeKind

/-- What a node says about itself. -/
inductive NodeContent where
  /-- The name of a file or of a macro. -/
  | named (name : Bytes)
  /-- The iteration counters of nested repeat blocks, outermost first. -/
  | iterations (counters : List UInt32)
  /-- Nothing is known. -/
  | missing
deriving DecidableEq, Repr, Inhabited

/-- A node of the source tree. -/
structure SourceNode where
  /-- The index of the enclosing node, unless the node is a root. -/
  parent : Option UInt32
  /-- The line of the enclosing node. -/
  parentLine : UInt32
  kind : NodeKind
  content : NodeContent
deriving DecidableEq, Repr, Inhabited

/-- The source nodes of an object file. -/
structure SourceTree where
  /-- The name of the object file. -/
  file : Bytes
  nodes : Array SourceNode := #[]
deriving DecidableEq, Repr, Inhabited

/-- A line of a source node. -/
structure SourceRef where
  node : Option UInt32
  line : UInt32
deriving DecidableEq, Repr, Inhabited

/-- An index as a word of the file format. -/
def wordOfIndex (i : Option UInt32) : UInt32 :=
  i.getD noIndex

/-- The index that a word of the file format stands for. -/
def indexOfWord (w : UInt32) : Option UInt32 :=
  if w = noIndex then none else some w

@[simp] theorem wordOfIndex_indexOfWord (w : UInt32) : wordOfIndex (indexOfWord w) = w := by
  by_cases h : w = noIndex <;> simp [wordOfIndex, indexOfWord, h]

namespace SourceTree

/-- The node at an index. -/
def node? (t : SourceTree) (i : Option UInt32) : Option SourceNode :=
  i.bind fun i => t.nodes[i.toNat]?

/-- The suffix of a repeat block's name. -/
def iterationSuffix (counters : List UInt32) : Bytes :=
  counters.flatMap fun n => Bytes.concat ["::REPT~", Numeral.decimal n.toNat]

/-- The name of a node with `rest` after it: a repeat block is named after the node around it.
`bound` limits the number of enclosing nodes that are looked at. -/
def nameBefore (t : SourceTree) (rest : Bytes) : (bound : Nat) → SourceNode → Bytes
  | bound, node =>
    match node.content with
    | .named name => name ++ rest
    | .missing => "?" ++ rest
    | .iterations counters =>
      let named := iterationSuffix counters ++ rest
      match bound, t.node? node.parent with
      | bound + 1, some parent => t.nameBefore named bound parent
      | _, _ => named

/-- The name of a node. A chain of enclosing nodes is no longer than the tree. -/
def nodeName (t : SourceTree) (node : SourceNode) : Bytes :=
  t.nameBefore [] t.nodes.size node

/-- The greatest number of nodes that a trace shows. -/
def maxTraceDepth : Nat := 64

/-- A node and a line of it. -/
def location (t : SourceTree) (node : SourceNode) (line : UInt32) : Bytes :=
  Bytes.concat [t.nodeName node, "(", Numeral.decimal line.toNat, ")"]

/-- The locations from a node upwards, innermost first, at most `depth` of them. -/
def locationsUp (t : SourceTree) : (depth : Nat) → Option UInt32 → UInt32 → List Bytes
  | 0, _, _ => []
  | depth + 1, i, line =>
    match t.node? i with
    | none => []
    | some node => t.location node line :: t.locationsUp depth node.parent node.parentLine

/-- The locations that lead to a line of a node, outermost first. -/
def trace (t : SourceTree) (ref : SourceRef) : Bytes :=
  match t.locationsUp maxTraceDepth ref.node ref.line with
  | [] => Bytes.concat [t.file, "(?)"]
  | locations => Bytes.joinWith " -> " locations.reverse

/-- The trace of an optional reference. -/
def show? (t : SourceTree) : Option SourceRef → Bytes
  | none => "<unknown>"
  | some ref => t.trace ref

end SourceTree

end BankedLinker
