import Sapling.Expr
import Sapling.Number.Decimal
import Sapling.Text.Quoted

/-!
# Laying out programs

Programs as text for people.  A node stands on one line where it fits; a condition that does not
fit opens a block, arguments that do not fit stand on lines of their own, and a function always
opens a block.  Parentheses stand only where the tree needs them.
-/

set_option autoImplicit false

namespace Sapling.Layout

def width : Nat := 72

def margin (depth : Nat) : String := String.ofList (List.replicate (2 * depth) ' ')

def precedence (symbol : String) : Nat :=
  match Operator.ofSymbol? symbol with
  | some .greater => 1
  | some .add | some .subtract => 2
  | none => 0

/-- Whether an operand needs parentheses.  Operators associate to the left. -/
def needsParens (symbol : String) (isRight : Bool) : Expr → Bool
  | .binary _ inner _ _ =>
    precedence inner < precedence symbol || precedence inner == precedence symbol && isRight
  | .guarded .. | .function .. | .define .. => true
  | _ => false

def isPlainCallee : Expr → Bool
  | .read .. | .call .. => true
  | _ => false

def parenthesized (yes : Bool) (text : String) : String := if yes then "(" ++ text ++ ")" else text

def fits (text : String) : Bool := text.utf8ByteSize ≤ width && text.toList.all (· != '\n')

def block (depth : Nat) (lines : List String) : String :=
  "\x7b\n" ++ Text.join "\n" (lines.map (margin (depth + 1) ++ ·)) ++ "\n" ++ margin depth ++ "\x7d"

mutual

/-- The text of an expression that stands at an indentation of `depth`. -/
def expr : Expr → (depth : Nat) → String
  | .hole, _ => "<missing>"
  | .literal _ value, _ => Number.text value
  | .read _ name, _ => name
  | .define _ name value, depth => "let " ++ name ++ " = " ++ expr value depth
  | .binary _ symbol left right, depth =>
    parenthesized (needsParens symbol false left) (expr left depth) ++ " " ++ symbol ++ " "
      ++ parenthesized (needsParens symbol true right) (expr right depth)
  | .guarded _ condition consequent, depth =>
    let head := "if " ++ expr condition depth ++ " "
    let inline := head ++ "\x7b " ++ expr consequent depth ++ " \x7d"
    if fits inline then inline else head ++ block depth [expr consequent (depth + 1)]
  | .function _ params body, depth =>
    let head := "fn(" ++ Text.join ", " params ++ ") "
    if body.isEmpty then head ++ "\x7b\x7d" else head ++ block depth (exprs body (depth + 1))
  | .call _ callee args, depth =>
    let head := parenthesized (!isPlainCallee callee) (expr callee depth)
    let parts := exprs args (depth + 1)
    let inline := "(" ++ Text.join ", " parts ++ ")"
    if args.isEmpty || fits inline then head ++ inline
    else
      head ++ "(\n" ++ Text.join ",\n" (parts.map (margin (depth + 1) ++ ·)) ++ "\n"
        ++ margin depth ++ ")"

def exprs : List Expr → (depth : Nat) → List String
  | [], _ => []
  | first :: rest, depth => expr first depth :: exprs rest depth

end

end Sapling.Layout

namespace Sapling

def Program.layout (program : Program) : String :=
  String.join ((Layout.exprs program.statements 0).map (· ++ "\n"))

end Sapling
