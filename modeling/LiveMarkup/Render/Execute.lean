import LiveMarkup.Render.Evaluate
import LiveMarkup.Template.Program
import LiveMarkup.Value.Markup
set_option autoImplicit false

/-! # Executing programs

Nodes run in order over one output text, one stack of scopes and one line: the line of the directive
that was started last, which is the one at fault when something fails. -/

namespace LiveMarkup

/-- What a render changes as it goes. -/
structure Machine (σ : Type) where
  env : Environment
  /-- The line of the directive being carried out, 0 before the first. -/
  line : Nat
  out : String
  world : σ

def Machine.start {σ : Type} (world : σ) : Machine σ := ⟨.empty, 0, "", world⟩

/-- A step of a render. Like `Run`, it keeps what was changed before a failure. -/
abbrev Exec (σ : Type) := ExceptT EvalError (StateT (Machine σ) Option)

namespace Exec

variable {σ : Type} {α : Type}

/-- Carries out a computation over the world alone. -/
def ofRun (x : Run σ α) : Exec σ α :=
  ExceptT.mk fun m => (x.start m.world).map fun (result, world) => (result, { m with world })

def failed (e : EvalError) : Exec σ α := ExceptT.mk fun m => some (.error e, m)

def update (f : Machine σ → Machine σ) : Exec σ Unit := ExceptT.mk fun m => some (.ok (), f m)

def atLine (line : Nat) : Exec σ Unit := update fun m => { m with line }

def write (text : String) : Exec σ Unit := update fun m => { m with out := m.out ++ text }

def define (name : String) (v : Value) : Exec σ Unit :=
  update fun m => { m with env := m.env.define name v }

/-- Runs a step in a new scope, which is dropped however the step ends. -/
def inScope (x : Exec σ α) : Exec σ α :=
  ExceptT.mk fun m =>
    (ExceptT.run x { m with env := m.env.push }).map fun (result, m') =>
      (result, { m' with env := m'.env.pop })

/-- The value of an expression in the current scopes. -/
def eval (c : RenderCall σ) (e : Expr) : Exec σ Value := do
  ofRun (e.eval c (← get).env)

end Exec

section

variable {σ : Type}

/-- The arguments of block and component calls must be an object. -/
def Exec.evalArgs (c : RenderCall σ) (directive : String) (args : Expr) : Exec σ Value := do
  match ← Exec.eval c args with
  | .object i fields => return .object i fields
  | other => Exec.failed (.invalidArguments directive other.typeName)

namespace Stmt

def exec (c : RenderCall σ) : Stmt → Exec σ Unit
  | declare name value => do Exec.define name (← Exec.eval c value)
  | assign name value => do
    let v ← Exec.eval c value
    match (← get).env.assign? name v with
    | some env => Exec.update fun m => { m with env }
    | none => Exec.failed (.assignToUndeclared name)

def execAll (c : RenderCall σ) : List Stmt → Exec σ Unit
  | [] => pure ()
  | s :: rest => do
    s.exec c
    execAll c rest

end Stmt

/-- Whether a component occurrence asks to be shown: it does unless `$show` says otherwise. -/
def asksToShow (props : Value) : Bool := ((props.field? "$show").map Value.isTruthy).getD true

/-- Runs a loop body once per pair, each time in a scope of its own that binds the pair. -/
def Exec.forPairs (binding : LoopBinding) (line : Nat) (body : Exec σ Unit) :
    List (Value × Value) → Exec σ Unit
  | [] => pure ()
  | (key, value) :: rest => do
    Exec.inScope do
      match binding.key with
      | some name => Exec.define name key
      | none => pure ()
      Exec.define binding.value value
      body
    Exec.atLine line
    Exec.forPairs binding line body rest

namespace Node

mutual

def exec (c : RenderCall σ) : Node → Exec σ Unit
  | text s => Exec.write s
  | interpolate e escape line => do
    Exec.atLine line
    let v ← Exec.eval c e
    Exec.write (if escape then v.safe else v.raw)
  | choose arms otherwise =>
    execArms c arms <|
      match otherwise with
      | some body => Exec.inScope (execAll c body)
      | none => pure ()
  | loop binding subject body line => do
    Exec.atLine line
    let v ← Exec.eval c subject
    match v.loopPairs? with
    | some pairs => Exec.forPairs binding line (execAll c body) pairs
    | none => Exec.failed (.loopRequiresIterable v.typeName)
  | block name args line => do
    Exec.atLine line
    let v ← Exec.evalArgs c "block" args
    Exec.write (← Exec.ofRun (c.block name v))
  | component reference args line => do
    Exec.atLine line
    let props ← Exec.evalArgs c "component" args
    let rendered ← Exec.ofRun (c.child reference props (c.visible && asksToShow props))
    Exec.write rendered.safe
  | code stmts line => do
    Exec.atLine line
    Stmt.execAll c stmts

def execAll (c : RenderCall σ) : List Node → Exec σ Unit
  | [] => pure ()
  | n :: rest => do
    exec c n
    execAll c rest

/-- Runs the body of the first arm whose condition holds, in a new scope. -/
def execArms (c : RenderCall σ) : List Arm → Exec σ Unit → Exec σ Unit
  | [], otherwise => otherwise
  | .arm condition body line :: rest, otherwise => do
    Exec.atLine line
    if (← Exec.eval c condition).isTruthy then Exec.inScope (execAll c body)
    else execArms c rest otherwise

end

end Node

/-- What a render comes to: its output, or the failure with its line. -/
abbrev Rendered := Except RenderFailure String

/-- Renders a program; `none` when a service it calls does not end within its budget. -/
def Program.execute (p : Program) (c : RenderCall σ) (world : σ) : Option (Rendered × σ) :=
  (ExceptT.run (Node.execAll c p.nodes) (Machine.start world)).map fun (result, m) =>
    match result with
    | .ok () => (.ok m.out, m.world)
    | .error e => (.error ⟨e, m.line⟩, m.world)

end

end LiveMarkup
