import Sapling.Expr
import Sapling.Number.Decimal
import Sapling.Text.Quoted

/-!
# Values and scopes

A scope is a finite map from names to values, kept in the order of the names.  A function holds
the scope as it was when the function was made; later bindings never reach it.  A function that a
definition named can see itself: its own binding is put back whenever its scope is built, so that
functions stay finite data.
-/

set_option autoImplicit false

namespace Sapling

mutual

inductive Value
  | undefined
  | number (value : Float)
  | boolean (value : Bool)
  | function (closure : Closure)

/-- A function: its identity, the name it was defined under (empty when it has none), its
parameters and body, and the bindings it was made in. -/
inductive Closure
  | mk (id : Nat) (name : String) (params : List String) (body : List Expr)
      (captured : List (String × Value))

end

instance : Inhabited Value := ⟨.undefined⟩

abbrev Scope := List (String × Value)

namespace Scope

def empty : Scope := []

def find? (scope : Scope) (name : String) : Option Value :=
  match scope with
  | [] => none
  | (bound, value) :: rest => if bound = name then some value else find? rest name

def get (scope : Scope) (name : String) : Value := (scope.find? name).getD .undefined

def has (scope : Scope) (name : String) : Bool := (scope.find? name).isSome

def bind (scope : Scope) (name : String) (value : Value) : Scope :=
  match scope with
  | [] => [(name, value)]
  | (bound, old) :: rest =>
    if name < bound then (name, value) :: (bound, old) :: rest
    else if name = bound then (name, value) :: rest
    else (bound, old) :: bind rest name value

def names (scope : Scope) : List String := scope.map (·.1)

/-- Binds parameters to arguments by position.  Parameters without an argument are bound to no
value, arguments without a parameter are dropped, and of equal parameters the last one counts. -/
def bindAll (scope : Scope) : List String → List Value → Scope
  | [], _ => scope
  | param :: params, [] => bindAll (scope.bind param .undefined) params []
  | param :: params, arg :: args => bindAll (scope.bind param arg) params args

end Scope

namespace Closure

def id : Closure → Nat
  | mk id .. => id

def name : Closure → String
  | mk _ name .. => name

def params : Closure → List String
  | mk _ _ params .. => params

def body : Closure → List Expr
  | mk _ _ _ body _ => body

def snapshot : Closure → Scope
  | mk _ _ _ _ captured => captured

def named : Closure → String → Closure
  | mk id _ params body captured, name => mk id name params body captured

/-- The bindings a function sees: those it was made in and, when it is named, itself. -/
def captured (closure : Closure) : Scope :=
  if closure.name.isEmpty then closure.snapshot
  else closure.snapshot.bind closure.name (.function closure)

/-- The scope in which one body expression runs. -/
def callScope (closure : Closure) (args : List Value) : Scope :=
  closure.captured.bindAll closure.params args

end Closure

namespace Value

def isTrue : Value → Bool
  | boolean true => true
  | _ => false

def isUndefined : Value → Bool
  | undefined => true
  | _ => false

def typeName : Value → String
  | undefined => "undefined"
  | number _ => "number"
  | boolean _ => "boolean"
  | function _ => "function"

def named : Value → String → Value
  | function closure, name => function (closure.named name)
  | value, _ => value

/-- Numbers compare as numbers; a function is equal only to itself. -/
def same : Value → Value → Bool
  | undefined, undefined => true
  | number a, number b => a == b
  | boolean a, boolean b => a == b
  | function a, function b => a.id == b.id
  | _, _ => false

def text : Value → String
  | undefined => "undefined"
  | number value => Number.text value
  | boolean value => toString value
  | function closure =>
    "fn" ++ (if closure.name.isEmpty then "" else " " ++ closure.name)
      ++ "(" ++ Text.join ", " closure.params ++ ")"

def numberJson (value : Float) : String :=
  match Number.toInt? value with
  | some whole =>
    -- compared as doubles, among which the bound above the words stands for the greatest word
    if -(Number.wordHalf : Int) ≤ whole ∧ whole ≤ Number.wordHalf then
      toString (Number.toWord whole)
    else Number.jsonText value
  | none =>
    match Number.magnitude? value with
    | some _ => Number.jsonText value
    | none => Text.json (Number.text value)

def json : Value → String
  | undefined => "null"
  | number value => numberJson value
  | boolean value => toString value
  | function closure =>
    let name := if closure.name.isEmpty then [] else [("name", Text.json closure.name)]
    let params := Text.jsonList (closure.params.map Text.json)
    Text.jsonObject [("function", Text.jsonObject (name ++ [("params", params)]))]

end Value

def Scope.listing (scope : Scope) : List (String × String) :=
  scope.map fun binding => (binding.1, binding.2.text)

end Sapling
