import CallersFirst.SyntaxTree

/-! Syntax trees as lists of nodes, every node before its children. -/

namespace CallersFirst

/-- The label with a given name. -/
def Field.ofName? : String → Option Field
  | "name" => some .name
  | "body" => some .body
  | "declaration" => some .declaration
  | "value" => some .value
  | "function" => some .function
  | "object" => some .object
  | "property" => some .property
  | _ => none

/-- A node of a list. -/
structure ListedNode where
  /-- The place of its parent in the list, unless it is the root. -/
  parent : Option Nat
  /-- The name of its kind. -/
  kind : String
  /-- Whether it is a construct of its own. -/
  named : Bool
  /-- The bytes that it covers. -/
  span : Span
  /-- The label under which its parent finds it. -/
  field : Option Field
deriving Repr

/-- A tree whose nodes are added last one first. -/
structure TreeDraft where
  /-- The children found so far for the node at each place. -/
  children : Array (List Node)
  /-- The root, once it is found. -/
  root : Option Node := none

/-- Adds the node at a place, all of whose children have been added. -/
def TreeDraft.add (draft : TreeDraft) (listed : ListedNode) (place : Nat) : TreeDraft :=
  let node : Node :=
    { kind := listed.kind
      named := listed.named
      span := listed.span
      field := listed.field
      children := draft.children.getD place [] }
  match listed.parent with
  | none => { draft with root := some node }
  | some parent => { draft with children := draft.children.modify parent (node :: ·) }

/-- The tree of a list of nodes. -/
def Node.ofListing? (listing : List ListedNode) : Option Node :=
  let draft : TreeDraft := { children := Array.replicate listing.length [] }
  (listing.zipIdx.foldr (fun (listed, place) draft => draft.add listed place) draft).root

/-- Reads a node from the parts of a line: the place of its parent or a hyphen, its kind, a one if it
is a construct of its own, the bytes where it starts and stops, and its label or a hyphen. -/
def ListedNode.ofParts? : List String → Option ListedNode
  | [parent, kind, named, start, stop, label] => do
    let parent ← if parent = "-" then some none else parent.toNat?.map some
    return {
      parent
      kind
      named := named = "1"
      span := ⟨← start.toNat?, ← stop.toNat?⟩
      field := Field.ofName? label }
  | _ => none

/-- Reads a tree from lines. The first tells whether the text has errors; each further one is a node
whose parts stand between tabs. -/
def SyntaxTree.ofText? (text : Text) : Option SyntaxTree :=
  let lines := (Text.splitAt '\n' text).filter (· ≠ [])
  match lines with
  | [] => none
  | verdict :: nodes => do
    let listing ← nodes.mapM fun line => ListedNode.ofParts? ((Text.splitAt '\t' line).map String.ofList)
    return ⟨← Node.ofListing? listing, verdict = "errors".toList⟩

end CallersFirst
