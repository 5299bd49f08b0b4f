/-!
# Expression trees

A program is a list of expression trees.  Every node carries the place it was read from, and a
child that was never supplied is the node `hole`, so that trees built by hand can be checked,
laid out and evaluated like any other.
-/

set_option autoImplicit false

namespace Sapling

/-- A place in a document: file, line and column, both counted from one. -/
structure Span where
  file : String
  line : Int
  column : Int
  deriving DecidableEq, Repr, Inhabited

def Span.zero : Span := ⟨"", 0, 0⟩

def Span.isZero (span : Span) : Bool := span == Span.zero

/-- The span as it is reported: a node that was not read from a document has none. -/
def Span.known? (span : Span) : Option Span := if span.isZero then none else some span

inductive Operator
  | add
  | subtract
  | greater
  deriving DecidableEq, Repr

def Operator.symbol : Operator → String
  | .add => "+"
  | .subtract => "-"
  | .greater => ">"

def Operator.ofSymbol? (symbol : String) : Option Operator :=
  if symbol = "+" then some .add
  else if symbol = "-" then some .subtract
  else if symbol = ">" then some .greater
  else none

theorem Operator.ofSymbol?_symbol (op : Operator) : ofSymbol? op.symbol = some op := by
  cases op <;> rfl

theorem Operator.ofSymbol?_eq_some_iff {symbol : String} {op : Operator} :
    ofSymbol? symbol = some op ↔ symbol = op.symbol := by
  constructor
  · intro found
    unfold ofSymbol? at found
    split at found
    · cases found; assumption
    · split at found
      · cases found; assumption
      · split at found
        · cases found; assumption
        · cases found
  · intro same
    rw [same, ofSymbol?_symbol]

theorem Operator.ofSymbol?_eq_none_iff {symbol : String} :
    Operator.ofSymbol? symbol = none ↔ symbol ∉ ["+", "-", ">"] := by
  unfold Operator.ofSymbol?
  by_cases add : symbol = "+"
  · simp [add]
  · by_cases subtract : symbol = "-"
    · simp [subtract]
    · by_cases greater : symbol = ">" <;> simp [add, subtract, greater]

/-- An expression tree.  An operator is kept as it was written; `Operator.ofSymbol?` says whether
it can be evaluated. -/
inductive Expr
  /-- A child that was never supplied. -/
  | hole
  | literal (span : Span) (value : Float)
  | read (span : Span) (name : String)
  | define (span : Span) (name : String) (value : Expr)
  | binary (span : Span) (symbol : String) (left right : Expr)
  | guarded (span : Span) (condition consequent : Expr)
  | function (span : Span) (params : List String) (body : List Expr)
  | call (span : Span) (callee : Expr) (args : List Expr)
  deriving Inhabited

namespace Expr

def kind : Expr → String
  | hole => "<missing>"
  | literal .. => "Literal"
  | read .. => "GetVariable"
  | define .. => "NewVariable"
  | binary .. => "BinOp"
  | guarded .. => "If"
  | function .. => "Func"
  | call .. => "Call"

def span : Expr → Span
  | hole => Span.zero
  | literal span _ | read span _ | define span _ _ | binary span _ _ _
  | guarded span _ _ | function span _ _ | call span _ _ => span

def isHole : Expr → Bool
  | hole => true
  | _ => false

def children : Expr → List Expr
  | hole | literal .. | read .. => []
  | define _ _ value => [value]
  | binary _ _ left right => [left, right]
  | guarded _ condition consequent => [condition, consequent]
  | function _ _ body => body
  | call _ callee args => callee :: args

end Expr

structure Program where
  span : Span
  statements : List Expr
  deriving Inhabited

end Sapling
