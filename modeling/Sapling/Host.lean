import Sapling.Run

/-!
# Hosts

A host embeds the evaluator: it keeps scopes, evaluators and values under names, and works on them
step by step.  Scopes and evaluators are there from the first time they are named; a scope starts
empty and an evaluator with the usual limit.
-/

set_option autoImplicit false

namespace Sapling

structure Evaluator where
  settings : Settings
  tracker : Tracker

def Evaluator.new (maxDepth : Int) (tracing : Bool) (runId : String) : Evaluator :=
  ⟨⟨effectiveDepth maxDepth, tracing, runId⟩, Tracker.zero⟩

/-- What a host keeps.  `events` are those that nobody has fetched yet, last first. -/
structure Host where
  scopes : List (String × Scope)
  evaluators : List (String × Evaluator)
  values : List (String × Value)
  events : List TraceEvent
  nextId : Nat

inductive HostValue
  | undefined
  | number (value : Float)
  | boolean (value : Bool)
  | stored (name : String)

/-- What a host can do.  A step that gives a value stores it under `store`. -/
inductive HostStep
  | bind (scope name : String) (value : HostValue)
  | get (scope name : String) (store : Option String)
  | lookup (scope name : String)
  | names (scope : String)
  | listing (scope : String)
  | clone (scope target : String)
  | captured (value : HostValue) (target : String)
  | evaluator (name : String) (evaluator : Evaluator)
  | eval (evaluator scope : String) (expr : Expr) (store : Option String)
  | call (evaluator : String) (callee : HostValue) (args : List HostValue) (store : Option String)
  | execute (scope : String) (program : Program) (maxDepth : Int)
  | run (scope file : String) (bytes : List UInt8) (maxDepth : Int)
  | stats (evaluator : String)
  | events
  | equal (left right : HostValue)
  | describe (value : HostValue)

inductive HostReply
  | done
  | size (count : Nat)
  | value (value : Value)
  | found (value : Option Value)
  | names (names : List String)
  | scope (scope : Scope)
  | captured (scope : Scope)
  | notFunction
  | outcome (outcome : Outcome)
  | executed (execution : Execution)
  | ran (execution : Except (List Diagnostic) Execution)
  | stats (tracker : Tracker)
  | events (events : List TraceEvent)
  | equal (same : Bool)
  | description (value : Value)

namespace Host

def empty : Host := ⟨[], [], [], [], 0⟩

def put {α : Type} (items : List (String × α)) (name : String) (item : α) : List (String × α) :=
  (name, item) :: items.filter (·.1 != name)

def scope (host : Host) (name : String) : Scope := (host.scopes.lookup name).getD Scope.empty

def evaluator (host : Host) (name : String) : Evaluator :=
  (host.evaluators.lookup name).getD (Evaluator.new 0 false "")

def value (host : Host) : HostValue → Value
  | .undefined => .undefined
  | .number value => .number value
  | .boolean value => .boolean value
  | .stored name => (host.values.lookup name).getD .undefined

def putScope (host : Host) (name : String) (scope : Scope) : Host :=
  { host with scopes := put host.scopes name scope }

def store (host : Host) (name : Option String) : Outcome → Host
  | .ok value =>
    match name with
    | some name => { host with values := put host.values name value }
    | none => host
  | .error _ => host

def enter (host : Host) (evaluator : Evaluator) : EvalState :=
  ⟨evaluator.tracker, host.nextId, host.events⟩

def leave (host : Host) (name : String) (evaluator : Evaluator) (state : EvalState) : Host :=
  { host with
    evaluators := put host.evaluators name { evaluator with tracker := state.tracker }
    events := state.events
    nextId := state.nextId }

def quiet (maxDepth : Int) : Settings := ⟨effectiveDepth maxDepth, false, ""⟩

def afterExecution (host : Host) (scope : String) (execution : Execution) : Host :=
  { host.putScope scope execution.scope with nextId := execution.state.nextId }

variable [Yaml.Library]

def step (host : Host) : HostStep → Host × HostReply
  | .bind name word value =>
    let scope := (host.scope name).bind word (host.value value)
    (host.putScope name scope, .size scope.length)
  | .get name word target =>
    let value := (host.scope name).get word
    (host.store target (.ok value), .value value)
  | .lookup name word => (host, .found ((host.scope name).find? word))
  | .names name => (host, .names (host.scope name).names)
  | .listing name => (host, .scope (host.scope name))
  | .clone name target =>
    let scope := host.scope name
    (host.putScope target scope, .size scope.length)
  | .captured value target =>
    match host.value value with
    | .function closure =>
      (host.putScope target closure.captured, .captured closure.captured)
    | _ => (host, .notFunction)
  | .evaluator name evaluator =>
    ({ host with evaluators := put host.evaluators name evaluator }, .done)
  | .eval name scope expr target =>
    let evaluator := host.evaluator name
    let ended := expr.evaluate evaluator.settings (host.scope scope) (host.enter evaluator)
    let left := (host.leave name evaluator ended.state).putScope scope ended.scope
    (left.store target ended.outcome, .outcome ended.outcome)
  | .call name callee args target =>
    let evaluator := host.evaluator name
    let (outcome, state) :=
      (host.value callee).apply evaluator.settings (args.map host.value) (host.enter evaluator)
    ((host.leave name evaluator state).store target outcome, .outcome outcome)
  | .execute name program maxDepth =>
    let execution := program.execute (quiet maxDepth) (host.scope name) host.nextId
    (host.afterExecution name execution, .executed execution)
  | .run name file bytes maxDepth =>
    let ran := runDocument (quiet maxDepth) file bytes (host.scope name) host.nextId
    match ran with
    | .ok execution => (host.afterExecution name execution, .ran ran)
    | .error _ => (host, .ran ran)
  | .stats name => (host, .stats (host.evaluator name).tracker)
  | .events => ({ host with events := [] }, .events host.events.reverse)
  | .equal left right => (host, .equal ((host.value left).same (host.value right)))
  | .describe value => (host, .description (host.value value))

def run (host : Host) : List HostStep → Host × List HostReply
  | [] => (host, [])
  | step :: rest =>
    let (host, reply) := host.step step
    let (host, replies) := host.run rest
    (host, reply :: replies)

end Host
end Sapling
