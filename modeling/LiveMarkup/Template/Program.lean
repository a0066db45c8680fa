import LiveMarkup.Expr
set_option autoImplicit false

/-! # Programs

A template compiles to a tree of nodes. Text is kept as it is; every directive node carries the line
of the directive it came from. -/

namespace LiveMarkup

/-- The names that a `for` directive binds: the element, and perhaps its key before it. -/
structure LoopBinding where
  key : Option String
  value : String
  deriving DecidableEq, Repr

/-- A statement of a code splice. -/
inductive Stmt where
  | declare (name : String) (value : Expr)
  | assign (name : String) (value : Expr)

mutual

inductive Node where
  | text (text : String)
  | interpolate (expr : Expr) (escape : Bool) (line : Nat)
  /-- The arms of an `if`, tried in order, and the final `else`. -/
  | choose (arms : List Arm) (otherwise : Option (List Node))
  | loop (binding : LoopBinding) (subject : Expr) (body : List Node) (line : Nat)
  | block (name : String) (args : Expr) (line : Nat)
  | component (reference : String) (args : Expr) (line : Nat)
  | code (stmts : List Stmt) (line : Nat)

/-- One `if` or `else if`. -/
inductive Arm where
  | arm (condition : Expr) (body : List Node) (line : Nat)

end

namespace Node

/-! ## Calls, in source order -/

mutual

/-- A node and the nodes inside it, outermost first and then in source order. -/
def walk : Node → List Node
  | choose arms otherwise =>
    choose arms otherwise :: (walkArms arms ++
      match otherwise with
      | some body => walkAll body
      | none => [])
  | loop binding subject body line => loop binding subject body line :: walkAll body
  | n => [n]

def walkAll : List Node → List Node
  | [] => []
  | n :: rest => walk n ++ walkAll rest

def walkArms : List Arm → List Node
  | [] => []
  | .arm _ body _ :: rest => walkAll body ++ walkArms rest

end

/-- The reference and line of a component call. -/
def reference? : Node → Option (String × Nat)
  | component reference _ line => some (reference, line)
  | _ => none

def blockName? : Node → Option String
  | block name _ _ => some name
  | _ => none

end Node

/-- A compiled template. -/
structure Program where
  nodes : List Node

namespace Program

/-- Every component reference of the program with its line, in source order. -/
def componentReferences (p : Program) : List (String × Nat) :=
  (Node.walkAll p.nodes).filterMap Node.reference?

/-- Every block name that the program calls, in source order. -/
def blockNames (p : Program) : List String := (Node.walkAll p.nodes).filterMap Node.blockName?

end Program

end LiveMarkup
