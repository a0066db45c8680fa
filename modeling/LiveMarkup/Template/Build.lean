import LiveMarkup.Template.Header
set_option autoImplicit false

/-! # From directives to programs

Segments are folded into a program with the list of open scopes: `if` and `for` open one, `else`
starts the next branch of the innermost `if`, a close directive makes a node of the innermost scope
and hands it to the scope around it. -/

namespace LiveMarkup

/-- An open directive. An `if` has the arms that are complete and the condition of the one being
filled, which is missing once its final `else` has been seen. -/
inductive Scope where
  | choose (done : List Arm) (pending : Option (Expr × Nat)) (span : Span) (line : Nat)
  | loop (binding : LoopBinding) (subject : Expr) (span : Span) (line : Nat)

/-- An open scope with the nodes read since it was opened or since its last `else`, last first. -/
structure Frame where
  scope : Scope
  nodes : List Node

/-- A template read up to some segment: the open scopes, innermost first, and the nodes outside all
of them, last first. -/
structure Unfinished where
  frames : List Frame
  outside : List Node

namespace Unfinished

def empty : Unfinished := ⟨[], []⟩

/-- Adds a node to the innermost open scope. -/
def push (u : Unfinished) (n : Node) : Unfinished :=
  match u.frames with
  | [] => ⟨[], n :: u.outside⟩
  | f :: fs => ⟨⟨f.scope, n :: f.nodes⟩ :: fs, u.outside⟩

def opened (u : Unfinished) (s : Scope) : Unfinished := ⟨⟨s, []⟩ :: u.frames, u.outside⟩

/-- Starts the next branch of the innermost `if`. An `else` elsewhere, or after the final one, is
passed over and what follows it stays where it is. -/
def switchBranch (u : Unfinished) (condition : Option Expr) (line : Nat) : Unfinished :=
  match u.frames with
  | ⟨.choose done (some (current, armLine)) span ifLine, nodes⟩ :: fs =>
    let arm := Arm.arm current nodes.reverse armLine
    ⟨⟨.choose (done ++ [arm]) (condition.map (·, line)) span ifLine, []⟩ :: fs, u.outside⟩
  | _ => u

/-- The node of a scope that has been closed. -/
def closedNode : Frame → Node
  | ⟨.choose done (some (condition, line)) _ _, nodes⟩ =>
    .choose (done ++ [.arm condition nodes.reverse line]) none
  | ⟨.choose done none _ _, nodes⟩ => .choose done (some nodes.reverse)
  | ⟨.loop binding subject _ line, nodes⟩ => .loop binding subject nodes.reverse line

def close (u : Unfinished) (span : Span) (line : Nat) : Except SyntaxError Unfinished :=
  match u.frames with
  | [] => .error ⟨.unexpectedClose, span, line⟩
  | f :: fs => .ok (push ⟨fs, u.outside⟩ (closedNode f))

/-- Takes in one segment. -/
def step (u : Unfinished) (s : Segment) : Except SyntaxError Unfinished :=
  let content := Content.ofSegment s
  match s.kind with
  | .text => .ok (u.push (.text (String.ofList s.content)))
  | .directive .comment => .ok u
  | .directive .escaped => return u.push (.interpolate (← content.expression) true s.line)
  | .directive .raw => return u.push (.interpolate (← content.expression) false s.line)
  | .directive .ifKind =>
    return u.opened (.choose [] (some (← content.condition, s.line)) s.span s.line)
  | .directive .elseKind => return u.switchBranch (← content.elseCondition) s.line
  | .directive .forKind => do
    let (binding, subject) ← content.loopHeader
    return u.opened (.loop binding subject s.span s.line)
  | .directive .close => u.close s.span s.line
  | .directive .block => do
    let (name, args) ← content.callHeader "block"
    return u.push (.block name args s.line)
  | .directive .component => do
    let (reference, args) ← content.callHeader "component"
    return u.push (.component reference args s.line)
  | .directive .code => return u.push (.code (← content.statements) s.line)

/-- A template is complete when no scope is open. -/
def finish (u : Unfinished) : Except SyntaxError Program :=
  match u.frames with
  | [] => .ok ⟨u.outside.reverse⟩
  | ⟨.choose _ _ span line, _⟩ :: _ => .error ⟨.unclosedScope "if", span, line⟩
  | ⟨.loop _ _ span line, _⟩ :: _ => .error ⟨.unclosedScope "for", span, line⟩

end Unfinished

namespace Program

/-- Folds segments into a program. -/
def ofSegments (segments : List Segment) : Except SyntaxError Program := do
  (← segments.foldlM Unfinished.step .empty).finish

/-- Compiles a template source. -/
def compile (source : String) (d : Delimiters) : Except SyntaxError Program := do
  let segments ← (scan source d).mapError fun e =>
    SyntaxError.ofLex (lineAt source.toList e.span.start) e
  ofSegments segments

end Program

end LiveMarkup
