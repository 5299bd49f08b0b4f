import Sapling.Limits
import Sapling.Trace.Event
import Sapling.Value

/-!
# Evaluation

`Expr.evalWith` evaluates an expression by recursion on the expression, given how functions are
called; `invokeAt` calls a function by recursion on the number of further calls that may be
nested.  Together they give every expression a value or an error.  Operands and arguments are
evaluated from left to right, and what they bind stays bound, also when a later one fails.
-/

set_option autoImplicit false

namespace Sapling

inductive Failure
  | missingExpression
  | unknownOperator (symbol : String)
  | undefinedOperand (symbol : String)
  | wrongOperand (symbol type : String)
  | notFunction (type : String)
  | undefinedCallee
  | unboundCallee (name : String)
  | emptyBody
  | tooDeep (limit : Nat)
  deriving DecidableEq, Repr

namespace Failure

def code : Failure → Code
  | missingExpression | unknownOperator _ => .ast
  | undefinedOperand _ | undefinedCallee | unboundCallee _ => .undefined
  | wrongOperand .. | notFunction _ => .type
  | emptyBody => .emptyBody
  | tooDeep _ => .stackOverflow

def message : Failure → String
  | missingExpression => "missing expression"
  | unknownOperator symbol => "unknown operator '" ++ symbol ++ "'"
  | undefinedOperand symbol => "undefined operand to '" ++ symbol ++ "'"
  | wrongOperand symbol type =>
    "non-numeric operand: '" ++ symbol ++ "' requires two numbers, got " ++ type
  | notFunction type => "cannot call a non-function value (" ++ type ++ ")"
  | undefinedCallee => "cannot call an undefined value"
  | unboundCallee name => "cannot call '" ++ name ++ "': it is not bound to a value"
  | emptyBody => "cannot call a function with an empty body"
  | tooDeep limit => "call stack exhausted (max depth " ++ toString limit ++ ")"

end Failure

structure EvalError where
  failure : Failure
  span : Option Span
  deriving DecidableEq, Repr

def EvalError.message (error : EvalError) : String := error.failure.message

/-- How a run is carried out: the call depth allowed, and whether and under which name it is
traced. -/
structure Settings where
  limit : Nat
  tracing : Bool
  runId : String
  deriving DecidableEq, Repr

/-- What evaluation changes besides the scope: statistics, the next function's identity, and the
events so far, last first. -/
structure EvalState where
  tracker : Tracker
  nextId : Nat
  events : List TraceEvent

namespace EvalState

def emit (state : EvalState) (settings : Settings) (span : Option Span) (step : TraceStep) :
    EvalState :=
  if settings.tracing then
    { state with events := ⟨settings.runId, span, step⟩ :: state.events }
  else state

def enter (state : EvalState) (settings : Settings) (span : Option Span) (name : String)
    (args : Nat) : EvalState :=
  let tracker := state.tracker.enter
  { state with tracker }.emit settings span (.callStart name args tracker.depth)

def leave (state : EvalState) (settings : Settings) (span : Option Span) (name : String)
    (error : Option String) : EvalState :=
  let state := state.emit settings span (.callEnd name error)
  { state with tracker := state.tracker.leave }

end EvalState

abbrev Outcome := Except EvalError Value

def errorMessage? {α : Type} : Except EvalError α → Option String
  | .ok _ => none
  | .error error => some error.message

structure Evaluated where
  outcome : Outcome
  scope : Scope
  state : EvalState

def operand (symbol : String) (span : Option Span) : Value → Except EvalError Float
  | .number value => .ok value
  | .undefined => .error ⟨.undefinedOperand symbol, span⟩
  | value => .error ⟨.wrongOperand symbol value.typeName, span⟩

/-- Applies an operator.  Both operands have to be numbers before the operator counts. -/
def operate (symbol : String) (span : Option Span) (left right : Value) : Outcome := do
  let a ← operand symbol span left
  let b ← operand symbol span right
  match Operator.ofSymbol? symbol with
  | some .add => .ok (.number (a + b))
  | some .subtract => .ok (.number (a - b))
  | some .greater => .ok (.boolean (a > b))
  | none => .error ⟨.unknownOperator symbol, span⟩

/-- Why a value that is no function cannot be called; one that has no value shows only after the
arguments. -/
def calleeError? : Value → Option Failure
  | .function _ | .undefined => none
  | value => some (.notFunction value.typeName)

def noCallee : Expr → Failure
  | .read _ name => .unboundCallee name
  | _ => .undefinedCallee

abbrev Invoke := Closure → List Value → Option Span → EvalState → Outcome × EvalState

def makeClosure (params : List String) (body : List Expr) (scope : Scope) (state : EvalState) :
    Value × EvalState :=
  (.function (.mk state.nextId "" params body scope), { state with nextId := state.nextId + 1 })

def Expr.isFunction : Expr → Bool
  | function .. => true
  | _ => false

def bindDefined (name : String) (isFunction : Bool) (value : Value) (scope : Scope) :
    Value × Scope :=
  let value := if isFunction then value.named name else value
  (value, scope.bind name value)

mutual

/-- Evaluates an expression in a scope, calling functions by `invoke`. -/
def Expr.evalWith (invoke : Invoke) : Expr → Scope → EvalState → Evaluated
  | .hole, scope, state => ⟨.error ⟨.missingExpression, none⟩, scope, state⟩
  | .literal _ value, scope, state => ⟨.ok (.number value), scope, state⟩
  | .read _ name, scope, state => ⟨.ok (scope.get name), scope, state⟩
  | .define _ name value, scope, state =>
    match value.evalWith invoke scope state with
    | ⟨.error error, scope, state⟩ => ⟨.error error, scope, state⟩
    | ⟨.ok result, scope, state⟩ =>
      let (result, scope) := bindDefined name value.isFunction result scope
      ⟨.ok result, scope, state⟩
  | .binary span symbol left right, scope, state =>
    match left.evalWith invoke scope state with
    | ⟨.error error, scope, state⟩ => ⟨.error error, scope, state⟩
    | ⟨.ok a, scope, state⟩ =>
      match right.evalWith invoke scope state with
      | ⟨.error error, scope, state⟩ => ⟨.error error, scope, state⟩
      | ⟨.ok b, scope, state⟩ => ⟨operate symbol span.known? a b, scope, state⟩
  | .guarded _ condition consequent, scope, state =>
    match condition.evalWith invoke scope state with
    | ⟨.error error, scope, state⟩ => ⟨.error error, scope, state⟩
    | ⟨.ok test, scope, state⟩ =>
      if test.isTrue then consequent.evalWith invoke scope state
      else ⟨.ok (.number 1), scope, state⟩
  | .function _ params body, scope, state =>
    let (value, state) := makeClosure params body scope state
    ⟨.ok value, scope, state⟩
  | .call span callee args, scope, state =>
    match callee.evalWith invoke scope state with
    | ⟨.error error, scope, state⟩ => ⟨.error error, scope, state⟩
    | ⟨.ok target, scope, state⟩ =>
      match calleeError? target with
      | some failure => ⟨.error ⟨failure, span.known?⟩, scope, state⟩
      | none =>
        match evalArgs invoke args scope state with
        | (.error error, scope, state) => ⟨.error error, scope, state⟩
        | (.ok values, scope, state) =>
          match target with
          | .function closure =>
            let (outcome, state) := invoke closure values span.known? state
            ⟨outcome, scope, state⟩
          | _ => ⟨.error ⟨noCallee callee, span.known?⟩, scope, state⟩

def evalArgs (invoke : Invoke) :
    List Expr → Scope → EvalState → Except EvalError (List Value) × Scope × EvalState
  | [], scope, state => (.ok [], scope, state)
  | arg :: rest, scope, state =>
    match arg.evalWith invoke scope state with
    | ⟨.error error, scope, state⟩ => (.error error, scope, state)
    | ⟨.ok value, scope, state⟩ =>
      match evalArgs invoke rest scope state with
      | (.error error, scope, state) => (.error error, scope, state)
      | (.ok values, scope, state) => (.ok (value :: values), scope, state)

end

/-- Evaluates body expressions, each in a scope of its own; the last one gives the value. -/
def runBody (invoke : Invoke) (closure : Closure) (args : List Value) :
    List Expr → Value → EvalState → Outcome × EvalState
  | [], last, state => (.ok last, state)
  | expr :: rest, _, state =>
    match expr.evalWith invoke (closure.callScope args) state with
    | ⟨.error error, _, state⟩ => (.error error, state)
    | ⟨.ok value, _, state⟩ => runBody invoke closure args rest value state

def invokeAt (settings : Settings) : (remaining : Nat) → Invoke
  | remaining, closure, args, span, state =>
    if closure.body.isEmpty then (.error ⟨.emptyBody, span⟩, state)
    else match remaining with
      | 0 => (.error ⟨.tooDeep settings.limit, span⟩, state)
      | remaining + 1 =>
        let state := state.enter settings span closure.name args.length
        let (outcome, state) :=
          runBody (invokeAt settings remaining) closure args closure.body .undefined state
        (outcome, state.leave settings span closure.name (errorMessage? outcome))

def EvalState.remaining (state : EvalState) (settings : Settings) : Nat :=
  settings.limit - state.tracker.depth

def Expr.eval (settings : Settings) (expr : Expr) (scope : Scope) (state : EvalState) : Evaluated :=
  expr.evalWith (invokeAt settings (state.remaining settings)) scope state

def Value.call (settings : Settings) (callee : Value) (args : List Value) (state : EvalState) :
    Outcome × EvalState :=
  match callee with
  | .function closure =>
    invokeAt settings (state.remaining settings) closure args none state
  | .undefined => (.error ⟨.undefinedCallee, none⟩, state)
  | value => (.error ⟨.notFunction value.typeName, none⟩, state)

end Sapling
