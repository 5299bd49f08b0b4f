import Sapling.Yaml.Event

/-!
# From events to nodes

A document is a tree of nodes.  An alias stays a leaf that names the anchored node it stands for,
so that a document is a finite tree even when an anchored node holds its own alias.
-/

set_option autoImplicit false

namespace Sapling.Yaml

inductive Node
  | scalar (mark : Mark) (tag : String) (style : ScalarStyle) (text : String)
  | sequence (mark : Mark) (tag : String) (items : List Node)
  | mapping (mark : Mark) (tag : String) (entries : List (Node × Node))
  /-- `target` is the place of the anchored node in the document's list of them. -/
  | reference (mark : Mark) (name : String) (target : Nat)
  deriving Inhabited

namespace Node

def mark : Node → Mark
  | scalar mark .. | sequence mark .. | mapping mark .. | reference mark .. => mark

def line (node : Node) : Nat := node.mark.line + 1

def column (node : Node) : Nat := node.mark.column + 1

end Node

structure Document where
  root : Node
  anchored : List Node

/-! ## Tags -/

def longTagStart : String := "tag:yaml.org,2002:"

def shortTag (tag : String) : String :=
  if tag.startsWith longTagStart then
    "!!" ++ String.ofList (tag.toList.drop longTagStart.length)
  else tag

def isNoTag (tag : String) : Bool := tag.isEmpty || tag == "!"

/-! ## Composition -/

structure OpenNode where
  mark : Mark
  tag : String
  isMapping : Bool
  anchor : Option Nat
  nodes : List Node

def pairUp : List Node → List (Node × Node) → List (Node × Node)
  | key :: value :: rest, done => pairUp rest ((key, value) :: done)
  | _, done => done.reverse

def OpenNode.close (opened : OpenNode) : Node :=
  let nodes := opened.nodes.reverse
  if opened.isMapping then .mapping opened.mark opened.tag (pairUp nodes [])
  else .sequence opened.mark opened.tag nodes

structure Composer where
  stack : List OpenNode
  root : Option Node
  places : List (String × Nat)
  complete : List (Nat × Node)
  count : Nat

namespace Composer

def place (c : Composer) (anchor : Option String) : Option Nat × Composer :=
  match anchor with
  | none => (none, c)
  | some name =>
    (some c.count, { c with places := (name, c.count) :: c.places, count := c.count + 1 })

def add (c : Composer) (anchor : Option Nat) (node : Node) : Composer :=
  let c := match anchor with
    | none => c
    | some place => { c with complete := (place, node) :: c.complete }
  match c.stack with
  | [] => { c with root := some node }
  | opened :: stack => { c with stack := { opened with nodes := node :: opened.nodes } :: stack }

def openNode (c : Composer) (mark : Mark) (properties : Properties) (isMapping : Bool)
    (usual : String) : Composer :=
  let (anchor, c) := c.place properties.anchor
  let tag := if isNoTag properties.tag then usual else shortTag properties.tag
  { c with stack := ⟨mark, tag, isMapping, anchor, []⟩ :: c.stack }

def closeNode (c : Composer) : Composer :=
  match c.stack with
  | [] => c
  | opened :: stack => { c with stack }.add opened.anchor opened.close

/-- Takes an event; `tagOf` finds the tag of a plain scalar that has none. -/
def step (tagOf : String → String) (c : Composer) : Event → Except Error Composer
  | .reference mark name =>
    match c.places.find? (·.1 == name) with
    | some (_, target) => .ok (c.add none (.reference mark name target))
    | none => .error (.unknownAnchor name)
  | .scalar mark properties style text =>
    let tag :=
      if !isNoTag properties.tag then shortTag properties.tag
      else if style = .plain then tagOf text
      else "!!str"
    let (anchor, c) := c.place properties.anchor
    .ok (c.add anchor (.scalar mark tag style text))
  | .sequenceStart mark properties => .ok (c.openNode mark properties false "!!seq")
  | .mappingStart mark properties => .ok (c.openNode mark properties true "!!map")
  | .sequenceEnd | .mappingEnd => .ok c.closeNode
  | .documentEnd => .ok c

def run (tagOf : String → String) (failure : Option Error) :
    List Event → Composer → Except Error Composer
  | [], c =>
    match failure with
    | some error => .error error
    | none => .ok c
  | event :: rest, c =>
    match c.step tagOf event with
    | .ok c => run tagOf failure rest c
    | .error error => .error error

end Composer

def Document.ofEvents (tagOf : String → String) (events : Events) :
    Except Error (Option Document) := do
  let c ← Composer.run tagOf events.failure events.list ⟨[], none, [], [], 0⟩
  return c.root.map fun root =>
    let anchored := (List.range c.count).map fun place =>
      ((c.complete.find? (·.1 == place)).map (·.2)).getD root
    ⟨root, anchored⟩

end Sapling.Yaml
