import Sapling.Diagnostic
import Sapling.Yaml.Scalar

/-!
# Reading programs from documents

A program is written as a list of expression nodes, or as one.  A node is a mapping in which one
key names its kind and the others hold its parts:

    lit: 10                           a literal
    get: n                            a read
    let: f, value: <node>             a definition
    op: "+", left: <node>, right: <node>
    if: <node>, then: <node>
    fn: [n], body: [<node>, ...]
    call: <node>, args: [<node>, ...]

Every part is read even when another one is at fault, so that one pass reports everything.
-/

set_option autoImplicit false

namespace Sapling

open Yaml (Node)

variable [Yaml.Library]

/-- The outcome of reading: a value unless something was wrong, and what was. -/
structure Reading (α : Type) where
  value : Option α
  diagnostics : List Diagnostic

namespace Reading

variable {α β : Type}

def pure (value : α) : Reading α := ⟨some value, []⟩

def fail (diagnostic : Diagnostic) : Reading α := ⟨none, [diagnostic]⟩

def map (f : α → β) (reading : Reading α) : Reading β := ⟨reading.value.map f, reading.diagnostics⟩

def both (left : Reading α) (right : Reading β) : Reading (α × β) :=
  ⟨left.value.bind fun a => right.value.map fun b => (a, b),
    left.diagnostics ++ right.diagnostics⟩

def all : List (Reading α) → Reading (List α)
  | [] => pure []
  | reading :: rest => (both reading (all rest)).map fun (a, as) => a :: as

end Reading

inductive NodeKind
  | literal
  | read
  | define
  | binary
  | guarded
  | function
  | call
  deriving DecidableEq, Repr

namespace NodeKind

def ofKey? (key : String) : Option NodeKind :=
  if key = "lit" then some .literal
  else if key = "get" then some .read
  else if key = "let" then some .define
  else if key = "op" then some .binary
  else if key = "if" then some .guarded
  else if key = "fn" then some .function
  else if key = "call" then some .call
  else none

def key : NodeKind → String
  | literal => "lit"
  | read => "get"
  | define => "let"
  | binary => "op"
  | guarded => "if"
  | function => "fn"
  | call => "call"

def label : NodeKind → String
  | literal => "Literal"
  | read => "GetVariable"
  | define => "NewVariable"
  | binary => "BinOp"
  | guarded => "If"
  | function => "Func"
  | call => "Call"

def required : NodeKind → List String
  | define => ["value"]
  | binary => ["left", "right"]
  | guarded => ["then"]
  | _ => []

def optional : NodeKind → List String
  | function => ["body"]
  | call => ["args"]
  | _ => []

def allowed (kind : NodeKind) : List String := kind.key :: (kind.required ++ kind.optional)

end NodeKind

def Span.ofNode (file : String) (node : Node) : Span := ⟨file, node.line, node.column⟩

def nodeError (file : String) (node : Node) (message : String) : Diagnostic :=
  Diagnostic.error .ast message (some (Span.ofNode file node))

def describe : Node → String
  | .mapping .. => "a mapping"
  | .sequence .. => "a list"
  | .reference .. => "an alias"
  | .scalar _ tag _ text => if tag = "!!null" then "null" else Text.quoted text

def isNull : Node → Bool
  | .scalar _ tag _ _ => tag == "!!null"
  | _ => false

/-- An alias is never followed, so no tree is shared or endless. -/
def aliasError (file : String) (node : Node) (name : String) : Diagnostic :=
  (nodeError file node ("aliases are not supported (*" ++ name ++ ")")).withHint
    "write the node out in full"

def expressionHint : String := "e.g. \x7blit: 1\x7d or \x7bget: x\x7d"

def notExpression (file : String) (node : Node) : Diagnostic :=
  match node with
  | .reference _ name _ => aliasError file node name
  | _ => (nodeError file node ("expected an expression node, got " ++ describe node)).withHint
      expressionHint

/-- An entry of an expression node: its value, that value read as an expression, and when it is a
list, its items read as expressions. -/
structure Field where
  key : Node
  value : Node
  expr : Reading Expr
  items : List (Reading Expr)

namespace Field

def find? (fields : List (String × Field)) (key : String) : Option Field :=
  (fields.find? (·.1 == key)).map (·.2)

def name (file : String) :
    List Field → (named : List (String × Field)) → List (String × Field) × List Diagnostic
  | [], named => (named.reverse, [])
  | field :: rest, named =>
    match field.key with
    | .scalar _ _ _ text =>
      if named.any (·.1 == text) then
        let (named, diagnostics) := name file rest named
        (named, nodeError file field.key ("duplicate key '" ++ text ++ "'") :: diagnostics)
      else name file rest ((text, field) :: named)
    | key =>
      let (named, diagnostics) := name file rest named
      (named, nodeError file key "node keys must be strings" :: diagnostics)

end Field

/-- A number: a scalar whose tag says so, as far as its text agrees. -/
def readNumber (file : String) (node : Node) : Reading Float :=
  match node with
  | .scalar _ tag _ text =>
    if tag = "!!int" ∨ tag = "!!float" then
      match Yaml.Library.resolve tag text with
      | .ok (.integer value) => .pure (Number.ofInt value)
      | .ok (.float value) => .pure value
      | .ok _ => .fail (nodeError file node ("invalid number " ++ Text.quoted text ++ ": "))
      | .error error => .fail (nodeError file node
          ("invalid number " ++ Text.quoted text ++ ": yaml: " ++ error.message))
    else notNumber
  | _ => notNumber
where
  notNumber : Reading Float :=
    .fail ((nodeError file node ("literal must be a number, got " ++ describe node)).withHint
      "booleans come from comparisons, e.g. \x7bop: \">\", ...\x7d")

def readName (file : String) (node : Node) : Reading String :=
  match node with
  | .scalar _ _ _ text => if text.isEmpty then noName else .pure text
  | _ => noName
where
  noName : Reading String :=
    .fail (nodeError file node ("expected a variable name, got " ++ describe node))

def readParams (file : String) (node : Node) : Reading (List String) :=
  if isNull node then .pure []
  else match node with
    | .reference _ name _ => .fail (aliasError file node name)
    | .sequence _ _ items => .all (items.map (readName file))
    | _ => .fail (nodeError file node
        ("fn parameters must be a list of names, got " ++ describe node))

def readOperator (file : String) (node : Node) : Reading String :=
  match node with
  | .scalar _ _ _ text => if (Operator.ofSymbol? text).isSome then .pure text else .fail unknown
  -- an alias is reported, and its name still passes for an operator
  | .reference _ name _ => ⟨if (Operator.ofSymbol? name).isSome then some name else none, [unknown]⟩
  | _ => .fail unknown
where
  unknown : Diagnostic :=
    (nodeError file node ("unknown operator " ++ describe node)).withHint
      "quote operators in YAML: op: \">\""

def readList (file key : String) : Option Field → Reading (List Expr)
  | none => .pure []
  | some field =>
    if isNull field.value then .pure []
    else match field.value with
      | .reference _ name _ => .fail (aliasError file field.value name)
      | .sequence .. => .all field.items
      | _ => .fail (nodeError file field.value
          ("'" ++ key ++ "' must be a list of expressions, got " ++ describe field.value))

def kindHint : String := "node kinds: call, fn, get, if, let, lit, op"

/-- What a node of a known kind lacks, and what it has too much. -/
def keyErrors (file : String) (node : Node) (kind : NodeKind) (fields : List (String × Field)) :
    List Diagnostic :=
  let missing := kind.required.filter fun key => (Field.find? fields key).isNone
  let unknown := fields.filter fun field => !kind.allowed.contains field.1
  missing.map (fun key =>
    nodeError file node (kind.label ++ " node is missing '" ++ key ++ "'"))
  ++ unknown.map (fun field =>
    nodeError file node ("unknown key '" ++ field.1 ++ "' in " ++ kind.label ++ " node"))

def readParts (file : String) (node : Node) (kind : NodeKind) (fields : List (String × Field)) :
    Reading Expr :=
  let span := Span.ofNode file node
  let part (key : String) : Reading Expr :=
    match Field.find? fields key with
    | some field => field.expr
    | none => .fail (notExpression file node)
  let own : Node := ((Field.find? fields kind.key).map (·.value)).getD node
  match kind with
  | .literal => (readNumber file own).map (Expr.literal span)
  | .read => (readName file own).map (Expr.read span)
  | .define =>
    ((readName file own).both (part "value")).map fun (name, value) => .define span name value
  | .binary =>
    ((readOperator file own).both ((part "left").both (part "right"))).map
      fun (symbol, left, right) => .binary span symbol left right
  | .guarded =>
    ((part "if").both (part "then")).map fun (condition, consequent) =>
      .guarded span condition consequent
  | .function =>
    ((readParams file own).both (readList file "body" (Field.find? fields "body"))).map
      fun (params, body) => .function span params body
  | .call =>
    ((part "call").both (readList file "args" (Field.find? fields "args"))).map
      fun (callee, args) => .call span callee args

def readMapping (file : String) (node : Node) (entries : List Field) : Reading Expr :=
  let (fields, diagnostics) := Field.name file entries []
  if !diagnostics.isEmpty then ⟨none, diagnostics⟩
  else match fields.filterMap fun field => NodeKind.ofKey? field.1 with
    | [] => .fail ((nodeError file node "expression node has no kind key").withHint kindHint)
    | [kind] =>
      match keyErrors file node kind fields with
      | [] => readParts file node kind fields
      | errors => ⟨none, errors⟩
    | kinds => .fail (nodeError file node
        ("expression node has several kind keys: " ++ Text.join ", " (kinds.map NodeKind.key)))

mutual

def readExpr (file : String) : Node → Reading Expr
  | .mapping mark tag entries =>
    readMapping file (.mapping mark tag entries) (readFields file entries)
  | .scalar mark tag style text => .fail (notExpression file (.scalar mark tag style text))
  | .sequence mark tag items => .fail (notExpression file (.sequence mark tag items))
  | .reference mark name target => .fail (notExpression file (.reference mark name target))

def readItems (file : String) : List Node → List (Reading Expr)
  | [] => []
  | item :: rest => readExpr file item :: readItems file rest

def readOwnItems (file : String) : Node → List (Reading Expr)
  | .sequence _ _ items => readItems file items
  | .mapping .. | .scalar .. | .reference .. => []

def readFields (file : String) : List (Node × Node) → List Field
  | [] => []
  | (key, value) :: rest =>
    ⟨key, value, readExpr file value, readOwnItems file value⟩ :: readFields file rest

end

def readRoot (file : String) (root : Node) : Reading (List Expr) :=
  match root with
  | .sequence _ _ items => .all (readItems file items)
  | .mapping .. => (readExpr file root).map fun expr => [expr]
  | _ => .fail (nodeError file root
      "document must be a sequence of expressions or a single expression")

def readDocument (file : String) (document : Option Yaml.Document) :
    Except (List Diagnostic) Program :=
  let span : Span := ⟨file, 1, 1⟩
  match document with
  | none => .ok ⟨span, []⟩
  | some document =>
    let reading := readRoot file document.root
    match reading.value, reading.diagnostics with
    | some statements, [] => .ok ⟨span, statements⟩
    | _, diagnostics => .error diagnostics

def readProgram (file : String) (bytes : List UInt8) : Except (List Diagnostic) Program :=
  match Yaml.Library.parse (.ok bytes) with
  | .ok document => readDocument file document
  | .error error =>
    .error [Diagnostic.error .ast ("cannot decode " ++ file ++ ": " ++ error.message) none]

end Sapling
