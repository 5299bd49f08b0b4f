import Sapling.Diagnostic
import Sapling.Expr.Walk

/-!
# Checking programs

Errors describe trees that cannot be evaluated; warnings describe trees that can, but hardly do
what they say: reads of names that nothing binds, functions without a body, and reads of a name
that only an earlier expression of the same function body bound.
-/

set_option autoImplicit false

namespace Sapling

namespace Check

/-- The diagnostics of a part of a program, and the names in sight after it. -/
structure Checked where
  diagnostics : List Diagnostic
  names : List String

def missing (parent : Expr) (role : String) : Diagnostic :=
  .error .ast (parent.kind ++ " node is missing its " ++ role) (some parent.span)

def emptyName (span : Span) : Diagnostic := .error .ast "variable name is empty" (some span)

def neverBound (span : Span) (name : String) : Diagnostic :=
  .warning .undefined ("variable '" ++ name ++ "' is never bound") (some span)

def unknownOperator (span : Span) (symbol : String) : Diagnostic :=
  .error .ast ("unknown operator '" ++ symbol ++ "'") (some span)

def noBody (span : Span) : Diagnostic :=
  (Diagnostic.warning .emptyBody "function has an empty body" (some span)).withHint
    "calling it fails with E_EMPTY_BODY"

/-- A read of a name that an earlier body expression bound; `captured` says whether the function
sees another binding of it. -/
def staleRead (span : Span) (name : String) (captured : Bool) : Diagnostic :=
  let message :=
    if captured then "'" ++ name ++ "' reads the captured value, not the earlier body binding"
    else "'" ++ name ++ "' is bound by an earlier body expression and is not visible here"
  (Diagnostic.warning .bodyScope message (some span)).withHint
    "function bodies do not carry bindings from one expression to the next"

def params (span : Span) : (earlier : List String) → List String → List Diagnostic
  | _, [] => []
  | earlier, param :: rest =>
    if param = "" then .error .ast "parameter name is empty" (some span) :: params span earlier rest
    else if param ∈ earlier then
      .error .duplicateParam ("duplicate parameter '" ++ param ++ "'") (some span)
        :: params span earlier rest
    else params span (param :: earlier) rest

mutual

/-- The reads of stale names inside an expression of a function body, unless a function between
takes the name as a parameter.  `captured` holds the names in sight where the function stands. -/
def staleReads (stale captured : List String) : Expr → List Diagnostic
  | .hole | .literal .. => []
  | .read span name =>
    if name ∈ stale then [staleRead span name (captured.contains name)] else []
  | .define _ _ value => staleReads stale captured value
  | .binary _ _ left right => staleReads stale captured left ++ staleReads stale captured right
  | .guarded _ condition consequent =>
    staleReads stale captured condition ++ staleReads stale captured consequent
  | .function _ params body => staleReadsAll (stale.filter (· ∉ params)) captured body
  | .call _ callee args => staleReads stale captured callee ++ staleReadsAll stale captured args

def staleReadsAll (stale captured : List String) : List Expr → List Diagnostic
  | [] => []
  | expr :: rest => staleReads stale captured expr ++ staleReadsAll stale captured rest

end

def bodyName? (params : List String) : Expr → Option String
  | .define _ name _ => if name ∈ params then none else some name
  | _ => none

mutual

/-- Checks an expression where `names` are in sight, `defined` being the names that any definition
of the program may bind.  A missing expression is reported as `absent`. -/
def expr (defined : List String) : Expr → (absent : Diagnostic) → (names : List String) → Checked
  | .hole, absent, names => ⟨[absent], names⟩
  | .literal .., _, names => ⟨[], names⟩
  | .read span name, _, names =>
    if name = "" then ⟨[emptyName span], names⟩
    else if name ∈ names ∨ name ∈ defined then ⟨[], names⟩
    else ⟨[neverBound span name], names⟩
  | .define span name value, _, names =>
    let own := if name = "" then [emptyName span] else []
    let inside := match value with
      | .function .. => name :: names
      | _ => names
    let checked := expr defined value (missing (.define span name value) "value") inside
    ⟨own ++ checked.diagnostics, name :: checked.names⟩
  | .binary span symbol left right, _, names =>
    let node := Expr.binary span symbol left right
    let own := if (Operator.ofSymbol? symbol).isNone then [unknownOperator span symbol] else []
    let first := expr defined left (missing node "left operand") names
    let second := expr defined right (missing node "right operand") first.names
    ⟨own ++ first.diagnostics ++ second.diagnostics, second.names⟩
  | .guarded span condition consequent, _, names =>
    let node := Expr.guarded span condition consequent
    let first := expr defined condition (missing node "condition") names
    let second := expr defined consequent (missing node "then branch") first.names
    ⟨first.diagnostics ++ second.diagnostics, second.names⟩
  | .function span params body, _, names =>
    let own := Check.params span [] params
    let named := params.filter (· ≠ "")
    let inside :=
      if body.isEmpty then [noBody span]
      else bodies defined (.function span params body) names named 1 [] body
    ⟨own ++ inside, names⟩
  | .call span callee args, _, names =>
    let node := Expr.call span callee args
    let first := expr defined callee (missing node "callee") names
    let second := arguments defined node 1 args first.names
    ⟨first.diagnostics ++ second.diagnostics, second.names⟩

def arguments (defined : List String) (parent : Expr) :
    (index : Nat) → List Expr → (names : List String) → Checked
  | _, [], names => ⟨[], names⟩
  | index, arg :: rest, names =>
    let first := expr defined arg (missing parent ("argument " ++ toString index)) names
    let after := arguments defined parent (index + 1) rest first.names
    ⟨first.diagnostics ++ after.diagnostics, after.names⟩

/-- Checks the body of a function that stands where `names` are in sight.  Each expression sees
these and the parameters only; `stale` holds what earlier ones bound. -/
def bodies (defined : List String) (parent : Expr) (names params : List String) :
    (index : Nat) → (stale : List String) → List Expr → List Diagnostic
  | _, _, [] => []
  | index, stale, body :: rest =>
    let own :=
      expr defined body (missing parent ("body expression " ++ toString index)) (params ++ names)
    staleReads stale names body ++ own.diagnostics
      ++ bodies defined parent names params (index + 1)
        ((bodyName? params body).toList ++ stale) rest

end

theorem expr_hole (defined : List String) (absent : Diagnostic) (names : List String) :
    expr defined .hole absent names = ⟨[absent], names⟩ := by
  rw [expr]

def statements (defined : List String) :
    (index : Nat) → List Expr → (names : List String) → List Diagnostic
  | _, [], _ => []
  | index, statement :: rest, names =>
    let absent := .error .ast ("statement " ++ toString index ++ " is missing") none
    let checked := expr defined statement absent names
    checked.diagnostics ++ statements defined (index + 1) rest checked.names

end Check

def checkProgram : Option Program → List Diagnostic
  | none => [.error .ast "missing program" none]
  | some program => Check.statements program.definedNames 1 program.statements []

end Sapling
