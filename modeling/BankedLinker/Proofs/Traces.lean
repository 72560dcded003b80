import BankedLinker.Proofs.RoundTrip
import Mathlib.Data.List.DropRight

/-!
# What a trace shows

In a tree that was read from an object file the parent of a node comes before the node. So the
nodes around a node form a finite chain that starts at a root, repeat blocks are named after
finitely many nodes, and the limits on both recursions are never reached except for the number of
nodes that a trace shows.

* `SourceTree.Ordered` is what reading guarantees of a tree;
* `SourceTree.Named` names nodes without a limit, and `SourceTree.Ordered.named_iff` says that
  `SourceTree.nodeName` does the same;
* `SourceTree.Chain`: the nodes from a root down to a node;
* `SourceTree.Chain.nodeName_eq`: the name of a node in terms of its chain;
* `SourceTree.Chain.locationsUp_eq`: the walk up a chain, as far as it goes;
* `SourceTree.trace_of_ordered` is the result.
-/

namespace BankedLinker

/-- The content is of the sort that a node of the kind has. -/
def NodeContent.Fits (kind : NodeKind) : NodeContent → Prop
  | .iterations _ => kind = .repeated
  | .named _ => kind = .sourceFile ∨ kind = .macroCall
  | .missing => False

theorem NodeContent.fits_of_inFormat {kind : NodeKind} {content : NodeContent}
    (h : content.InFormat kind) : content.Fits kind := by
  cases content with
  | iterations counters => exact h.1
  | named name => exact h.1
  | missing => exact h

/-- The iteration counters of a repeat block as a part of a name. -/
def SourceNode.suffix (node : SourceNode) : Bytes :=
  match node.content with
  | .iterations counters => SourceTree.iterationSuffix counters
  | _ => []

namespace SourceTree

/-- Every parent comes before its children, and every content goes with its kind. -/
structure Ordered (t : SourceTree) : Prop where
  parent_lt : ∀ (i : ℕ) (node : SourceNode), t.nodes[i]? = some node → IndexBelow i node.parent
  content_fits : ∀ (i : ℕ) (node : SourceNode), t.nodes[i]? = some node →
    node.content.Fits node.kind

/-- Reading an object file guarantees the order of its nodes. -/
theorem ordered_of_decode {name : Bytes} {index : Int} {input rest : Bytes} {f : ObjectFile}
    (h : Object.decode name index input = .ok (f, rest)) : f.tree.Ordered := by
  have hformat := Object.inFormat_of_decode h
  constructor
  · intro i node hnode
    exact (hformat.node_inFormat i node hnode).parent_lt
  · intro i node hnode
    exact NodeContent.fits_of_inFormat (hformat.node_inFormat i node hnode).content_inFormat

variable {t : SourceTree} {node parent : SourceNode} {name name' : Bytes} {i : UInt32}
  {nodes nodes' : List SourceNode}

/-! ## Names -/

/-- How nodes are named: a repeat block after the node around it, if there is one. -/
inductive Named (t : SourceTree) : SourceNode → Bytes → Prop
  | named {node : SourceNode} {name : Bytes} (hcontent : node.content = .named name) :
    Named t node name
  | missing {node : SourceNode} (hcontent : node.content = .missing) : Named t node "?"
  | outermost {node : SourceNode} {counters : List UInt32}
    (hcontent : node.content = .iterations counters) (hparent : t.node? node.parent = none) :
    Named t node (iterationSuffix counters)
  | nested {node parent : SourceNode} {counters : List UInt32} {name : Bytes}
    (hcontent : node.content = .iterations counters) (hparent : t.node? node.parent = some parent)
    (hname : Named t parent name) : Named t node (name ++ iterationSuffix counters)

/-- A node has one name at most. -/
theorem Named.unique (h : t.Named node name) (h' : t.Named node name') : name' = name := by
  induction h generalizing name' with
  | named hcontent =>
    cases h' with
    | named hcontent' => cases hcontent.symm.trans hcontent'; rfl
    | missing hcontent' => cases hcontent.symm.trans hcontent'
    | outermost hcontent' => cases hcontent.symm.trans hcontent'
    | nested hcontent' => cases hcontent.symm.trans hcontent'
  | missing hcontent =>
    cases h' with
    | named hcontent' => cases hcontent.symm.trans hcontent'
    | missing => rfl
    | outermost hcontent' => cases hcontent.symm.trans hcontent'
    | nested hcontent' => cases hcontent.symm.trans hcontent'
  | outermost hcontent hparent =>
    cases h' with
    | named hcontent' => cases hcontent.symm.trans hcontent'
    | missing hcontent' => cases hcontent.symm.trans hcontent'
    | outermost hcontent' => cases hcontent.symm.trans hcontent'; rfl
    | nested _ hparent' => cases hparent.symm.trans hparent'
  | nested hcontent hparent hname ih =>
    cases h' with
    | named hcontent' => cases hcontent.symm.trans hcontent'
    | missing hcontent' => cases hcontent.symm.trans hcontent'
    | outermost _ hparent' => cases hparent.symm.trans hparent'
    | nested hcontent' hparent' hname' =>
      cases hcontent.symm.trans hcontent'
      cases hparent.symm.trans hparent'
      rw [ih hname']

namespace Ordered

variable (h : t.Ordered)

include h

/-- A limit that is not below the index of a node is not reached. -/
theorem exists_named_nameBefore {i bound : ℕ} (hle : i ≤ bound) (hnode : t.nodes[i]? = some node) :
    ∃ name, t.Named node name ∧ ∀ rest, t.nameBefore rest bound node = name ++ rest := by
  -- the index and the limit go down together
  induction i using Nat.strong_induction_on generalizing node bound with
  | _ i ih =>
    cases hcontent : node.content with
    | named name =>
      refine ⟨name, .named hcontent, ?_⟩
      intro rest
      unfold nameBefore
      rw [hcontent]
    | missing =>
      refine ⟨_, .missing hcontent, ?_⟩
      intro rest
      unfold nameBefore
      rw [hcontent]
    | iterations counters =>
      cases hparent : t.node? node.parent with
      | none =>
        refine ⟨_, .outermost hcontent hparent, ?_⟩
        intro rest
        unfold nameBefore
        rw [hcontent, hparent]
        cases bound <;> rfl
      | some parent =>
        rcases Option.bind_eq_some_iff.mp hparent with ⟨j, hj, hparent'⟩
        have hlt : j.toNat < i := h.parent_lt i node hnode j hj
        cases bound with
        | zero => omega
        | succ bound =>
          rcases ih j.toNat hlt (Nat.le_of_lt_succ (hlt.trans_le hle)) hparent' with
            ⟨name, hname, hbefore⟩
          refine ⟨_, .nested hcontent hparent hname, ?_⟩
          intro rest
          unfold nameBefore
          rw [hcontent, hparent]
          show t.nameBefore (iterationSuffix counters ++ rest) bound parent = _
          rw [hbefore, List.append_assoc]

/-- A node of the tree is named, and its name is the one that the limited search finds. -/
theorem named_iff (hnode : t.node? (some i) = some node) :
    t.Named node name ↔ name = t.nodeName node := by
  have hget : t.nodes[i.toNat]? = some node := hnode
  rcases Array.getElem?_eq_some_iff.mp hget with ⟨hlt, -⟩
  rcases h.exists_named_nameBefore hlt.le hget with ⟨found, hfound, hbefore⟩
  have hname : t.nodeName node = found := by
    unfold nodeName
    rw [hbefore, List.append_nil]
  rw [hname]
  constructor
  · exact hfound.unique
  · rintro rfl
    exact hfound

end Ordered

/-! ## Chains -/

/-- The nodes that lead from a root to the node at an index. -/
inductive Chain (t : SourceTree) : UInt32 → List SourceNode → Prop
  | root {i : UInt32} {node : SourceNode} (hnode : t.node? (some i) = some node)
    (hroot : node.parent = none) : Chain t i [node]
  | child {i j : UInt32} {node : SourceNode} {nodes : List SourceNode}
    (hnode : t.node? (some i) = some node) (hparent : node.parent = some j)
    (hnodes : Chain t j nodes) : Chain t i (nodes ++ [node])

/-- Whether a node is a repeat block. -/
def isRepeat (node : SourceNode) : Bool :=
  node.kind = .repeated

/-- The name of the innermost node that is no repeat block, if there is one. -/
def enclosingName (t : SourceTree) (nodes : List SourceNode) : Bytes :=
  ((nodes.rdropWhile isRepeat).getLast?.map t.nodeName).getD []

/-- The iteration counters of the repeat blocks inside of it. -/
def repeatSuffix (nodes : List SourceNode) : Bytes :=
  (nodes.rtakeWhile isRepeat).flatMap SourceNode.suffix

/-- The locations of a chain: the innermost one has the line that was asked for, every other one
has the line at which its node led to the next one. -/
def locations (t : SourceTree) (nodes : List SourceNode) (line : UInt32) : List Bytes :=
  (nodes.zip (nodes.tail.map SourceNode.parentLine ++ [line])).map fun (node, line) =>
    t.location node line

/-- Every node has a chain. -/
theorem Ordered.exists_chain (h : t.Ordered) (hnode : t.node? (some i) = some node) :
    ∃ nodes, t.Chain i nodes := by
  induction hn : i.toNat using Nat.strong_induction_on generalizing i node with
  | _ n ih =>
    cases hparent : node.parent with
    | none => exact ⟨_, .root hnode hparent⟩
    | some j =>
      have hlt : j.toNat < i.toNat := h.parent_lt i.toNat node hnode j hparent
      rcases Array.getElem?_eq_some_iff.mp hnode with ⟨hi, -⟩
      have hj : t.node? (some j) = some t.nodes[j.toNat] :=
        Array.getElem?_eq_getElem (hlt.trans hi)
      rcases ih j.toNat (hn ▸ hlt) hj rfl with ⟨nodes, hnodes⟩
      exact ⟨_, .child hnode hparent hnodes⟩

namespace Chain

theorem ne_nil (h : t.Chain i nodes) : nodes ≠ [] := by
  cases h with
  | root => exact List.cons_ne_nil _ _
  | child => exact List.append_ne_nil_of_right_ne_nil _ (List.cons_ne_nil _ _)

theorem unique (h : t.Chain i nodes) (h' : t.Chain i nodes') : nodes' = nodes := by
  induction h generalizing nodes' with
  | root hnode hroot =>
    cases h' with
    | root hnode' => rw [Option.some.inj (hnode.symm.trans hnode')]
    | child hnode' hparent' =>
      rw [Option.some.inj (hnode'.symm.trans hnode), hroot] at hparent'
      cases hparent'
  | child hnode hparent hnodes ih =>
    cases h' with
    | root hnode' hroot' =>
      rw [Option.some.inj (hnode'.symm.trans hnode), hparent] at hroot'
      cases hroot'
    | child hnode' hparent' hnodes' =>
      cases Option.some.inj (hnode'.symm.trans hnode)
      cases hparent.symm.trans hparent'
      rw [ih hnodes']

theorem exists_node (h : t.Chain i nodes) : ∃ node, t.node? (some i) = some node := by
  cases h with
  | root hnode => exact ⟨_, hnode⟩
  | child hnode => exact ⟨_, hnode⟩

end Chain

/-! ## Names along a chain -/

namespace Ordered

variable (h : t.Ordered)

include h

theorem exists_iterations (hnode : t.node? (some i) = some node) (hrepeat : isRepeat node = true) :
    ∃ counters, node.content = .iterations counters := by
  have hkind : node.kind = .repeated := of_decide_eq_true hrepeat
  have hfits := h.content_fits i.toNat node hnode
  rw [hkind] at hfits
  cases hcontent : node.content with
  | iterations counters => exact ⟨counters, rfl⟩
  | named name =>
    rw [hcontent] at hfits
    have hnot : ¬(NodeKind.repeated = .sourceFile ∨ NodeKind.repeated = .macroCall) := by decide
    exact absurd hfits hnot
  | missing =>
    rw [hcontent] at hfits
    exact absurd hfits id

theorem nodeName_of_root (hnode : t.node? (some i) = some node) (hroot : node.parent = none)
    (hrepeat : isRepeat node = true) : t.nodeName node = node.suffix := by
  rcases h.exists_iterations hnode hrepeat with ⟨counters, hcontent⟩
  have hparent : t.node? node.parent = none := by rw [hroot]; rfl
  rw [← (h.named_iff hnode).mp (.outermost hcontent hparent)]
  unfold SourceNode.suffix
  rw [hcontent]

theorem nodeName_of_child {j : UInt32} (hnode : t.node? (some i) = some node)
    (hj : node.parent = some j) (hparent : t.node? (some j) = some parent)
    (hrepeat : isRepeat node = true) : t.nodeName node = t.nodeName parent ++ node.suffix := by
  rcases h.exists_iterations hnode hrepeat with ⟨counters, hcontent⟩
  have hname := (h.named_iff hparent).mpr rfl
  have hnested := Named.nested hcontent (hj ▸ hparent) hname
  rw [← (h.named_iff hnode).mp hnested]
  unfold SourceNode.suffix
  rw [hcontent]

/-- A repeat block is named after the nearest node that is none, with the counters of all repeat
blocks from there on. -/
theorem nodeName_eq (hchain : t.Chain i nodes) (hnode : t.node? (some i) = some node) :
    t.nodeName node = t.enclosingName nodes ++ repeatSuffix nodes := by
  unfold enclosingName repeatSuffix
  induction hchain generalizing node with
  | @root i own hnode' hroot =>
    cases Option.some.inj (hnode.symm.trans hnode')
    by_cases hrepeat : isRepeat own = true
    · rw [h.nodeName_of_root hnode hroot hrepeat]
      simp [List.rdropWhile_singleton, List.rtakeWhile, hrepeat]
    · simp [List.rdropWhile_singleton, List.rtakeWhile, hrepeat]
  | @child i j own nodes hnode' hj hnodes ih =>
    cases Option.some.inj (hnode.symm.trans hnode')
    by_cases hrepeat : isRepeat own = true
    · rcases hnodes.exists_node with ⟨parent, hparent⟩
      rw [h.nodeName_of_child hnode hj hparent hrepeat, ih hparent,
        List.rdropWhile_concat_pos _ _ _ hrepeat, List.rtakeWhile_concat_pos _ _ _ hrepeat]
      simp
    · rw [List.rdropWhile_concat_neg _ _ _ hrepeat, List.rtakeWhile_concat_neg _ _ _ hrepeat]
      simp

end Ordered

/-! ## The walk up a chain -/

theorem locations_concat (hnodes : nodes ≠ []) (node : SourceNode) (line : UInt32) :
    t.locations (nodes ++ [node]) line
      = t.locations nodes node.parentLine ++ [t.location node line] := by
  have hlength : nodes.length
      = (nodes.tail.map SourceNode.parentLine ++ [node.parentLine]).length := by
    have hpos := List.length_pos_of_ne_nil hnodes
    rw [List.length_append, List.length_map, List.length_tail, List.length_singleton]
    omega
  unfold locations
  rw [List.tail_append_of_ne_nil hnodes, List.map_append, List.map_singleton,
    List.zip_append hlength, List.map_append]
  rfl

theorem length_locations (hnodes : nodes ≠ []) (line : UInt32) :
    (t.locations nodes line).length = nodes.length := by
  have hpos := List.length_pos_of_ne_nil hnodes
  unfold locations
  rw [List.length_map, List.length_zip, List.length_append, List.length_map, List.length_tail,
    List.length_singleton]
  omega

theorem locationsUp_none (depth : ℕ) (line : UInt32) : t.locationsUp depth none line = [] := by
  cases depth <;> rfl

/-- Going up from a node one finds its chain, innermost node first, as far as one goes. -/
theorem Chain.locationsUp_eq (h : t.Chain i nodes) (depth : ℕ) (line : UInt32) :
    t.locationsUp depth (some i) line = (t.locations nodes line).reverse.take depth := by
  induction h generalizing depth line with
  | root hnode hroot =>
    cases depth with
    | zero => rfl
    | succ depth =>
      unfold locationsUp
      rw [hnode]
      dsimp only
      rw [hroot, locationsUp_none]
      simp [locations]
  | child hnode hparent hnodes ih =>
    cases depth with
    | zero => rfl
    | succ depth =>
      unfold locationsUp
      rw [hnode]
      dsimp only
      rw [hparent, ih, locations_concat hnodes.ne_nil, List.reverse_append]
      rfl

/-- The innermost nodes are shown, outermost first. -/
theorem Chain.trace_eq (h : t.Chain i nodes) (line : UInt32) : t.trace ⟨some i, line⟩
    = Bytes.joinWith " -> " ((t.locations nodes line).drop (nodes.length - maxTraceDepth)) := by
  have hup := h.locationsUp_eq maxTraceDepth line
  rw [List.take_reverse, length_locations h.ne_nil] at hup
  unfold trace
  dsimp only
  rw [hup]
  split
  · -- a chain has a node, so that there is something to show
    next hnone =>
    have hpos := List.length_pos_of_ne_nil h.ne_nil
    have hlength := congrArg List.length hnone
    rw [List.length_reverse, List.length_drop, length_locations h.ne_nil] at hlength
    unfold maxTraceDepth at hlength
    simp only [List.length_nil] at hlength
    omega
  · rw [List.reverse_reverse]

/-- **What a trace shows.** Let a tree have the order that reading an object file guarantees. The
trace of a line of a node that does not exist says so. A node that exists has one chain, which leads
from a root to it; the trace shows the innermost 64 nodes of the chain, outermost first, the node
itself with the line and every other one with the line that led to the next. Naming the node comes
to an end, though nothing limits how far it goes, and the name is that of the nearest node that is
no repeat block, if there is one, with the counters of the repeat blocks inside of it. -/
theorem trace_of_ordered (h : t.Ordered) (ref : SourceRef) :
    (t.node? ref.node = none → t.trace ref = Bytes.concat [t.file, "(?)"])
    ∧ ∀ i node, ref.node = some i → t.node? (some i) = some node →
      ∃ nodes, (∀ nodes', t.Chain i nodes' ↔ nodes' = nodes)
        ∧ t.trace ref = Bytes.joinWith " -> "
          ((t.locations nodes ref.line).drop (nodes.length - maxTraceDepth))
        ∧ (∀ name, t.Named node name ↔ name = t.nodeName node)
        ∧ t.nodeName node = t.enclosingName nodes ++ repeatSuffix nodes := by
  rcases ref with ⟨start, line⟩
  constructor
  · intro hnone
    have hup : t.locationsUp maxTraceDepth start line = [] := by
      unfold maxTraceDepth locationsUp
      rw [hnone]
    unfold trace
    rw [hup]
  · rintro i node rfl hnode
    rcases h.exists_chain hnode with ⟨nodes, hchain⟩
    refine ⟨nodes, ?_, hchain.trace_eq line, fun name => h.named_iff hnode,
      h.nodeName_eq hchain hnode⟩
    intro nodes'
    constructor
    · exact hchain.unique
    · rintro rfl
      exact hchain

/-- A repeat block of the sample file is named after the source file around it, with both of its
counters. There is no third node. -/
theorem trace_of_ordered_sampleFile :
    Object.sampleFile.tree.Ordered
      ∧ Object.sampleFile.tree.trace ⟨some 2, 6⟩ = "a.o(?)"
      ∧ Object.sampleFile.tree.trace ⟨some 1, 6⟩ = "a(5) -> a::REPT~7::REPT~1(6)"
      ∧ ∃ nodes, Object.sampleFile.tree.Chain 1 nodes
        ∧ Object.sampleFile.tree.trace ⟨some 1, 6⟩ = Bytes.joinWith " -> "
          ((Object.sampleFile.tree.locations nodes 6).drop (nodes.length - 64)) := by
  have hordered := ordered_of_decode (Object.decode_sampleBytes [])
  have hmissing := (trace_of_ordered hordered ⟨some 2, 6⟩).1 rfl
  rcases (trace_of_ordered hordered ⟨some 1, 6⟩).2 1 _ rfl rfl with ⟨nodes, hchain, htrace, -⟩
  exact ⟨hordered, hmissing, by decide, nodes, (hchain nodes).mpr rfl, htrace⟩

end SourceTree

end BankedLinker
