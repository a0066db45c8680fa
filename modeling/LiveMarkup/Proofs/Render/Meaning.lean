import LiveMarkup.Proofs.Render.Agreement
import LiveMarkup.Proofs.TemplateDirectives
import LiveMarkup.Render.Execute
set_option autoImplicit false

/-! # What programs mean

The meaning of a program is put together from the meanings of its parts: a part takes the scopes to
its output and the scopes after it, or fails with a fault that names the directive at fault by its
number in the program. No line and no output text is passed along. `Program.execute_meaning` says
that rendering comes to the same, with the line of that directive. -/

namespace LiveMarkup

/-- A failure, and the number of the directive at fault in the sequence of the program's items. -/
structure Fault where
  error : EvalError
  site : Nat

/-- A computation over a world that may end with a fault. -/
abbrev Labelled (σ : Type) := ExceptT Fault (StateT σ Option)

/-- The meaning of a part of a program: from the scopes before it, what it shows and the scopes
after it. -/
def Fragment (σ : Type) := Environment → Labelled σ (String × Environment)

section

variable {σ α : Type}

/-- A computation whose failure is the fault of one directive. -/
def Run.labelled (site : Nat) (x : Run σ α) : Labelled σ α :=
  ExceptT.mk fun world => (x.start world).map fun (result, world') =>
    (result.mapError fun e => ⟨e, site⟩, world')

/-! ## Meanings -/

namespace Fragment

def text (s : String) : Fragment σ := fun env => pure (s, env)

/-- A part that shows nothing and leaves the given scopes. -/
def leaving (env : Environment) : Fragment σ := fun _ => pure ("", env)

/-- One part after the other: what they show is put together. -/
def andThen (a b : Fragment σ) : Fragment σ := fun env => do
  let (shown, env) ← a env
  let (shown', env) ← b env
  return (shown ++ shown', env)

/-- A part in a scope of its own. -/
def inScope (a : Fragment σ) : Fragment σ := fun env => do
  let (shown, env) ← a env.push
  return (shown, env.pop)

/-- A part in scopes where a name has been bound. -/
def binding (name : String) (v : Value) (a : Fragment σ) : Fragment σ :=
  fun env => a (env.define name v)

/-- A part that goes on with what is computed in the scopes, for a directive. -/
def after (site : Nat) (x : Environment → Run σ α) (next : α → Fragment σ) : Fragment σ :=
  fun env => do next (← (x env).labelled site) env

/-- The body of a loop for each pair, with the pair bound in a scope of its own. -/
def forPairs (names : LoopBinding) (body : Fragment σ) : List (Value × Value) → Fragment σ
  | [] => text ""
  | (key, value) :: rest =>
    let bound := binding names.value value body
    (inScope (names.key.elim bound fun name => binding name key bound)).andThen
      (forPairs names body rest)

end Fragment

/-- The arguments of a block or component call. -/
def Expr.arguments (c : RenderCall σ) (directive : String) (args : Expr) (env : Environment) :
    Run σ Value := do
  match ← args.eval c env with
  | .object i fields => return .object i fields
  | other => .failed (.invalidArguments directive other.typeName)

namespace Stmt

/-- The scopes after a statement. -/
def meaning (c : RenderCall σ) (env : Environment) : Stmt → Run σ Environment
  | declare name value => do return env.define name (← value.eval c env)
  | assign name value => do
    let v ← value.eval c env
    match env.assign? name v with
    | some env => return env
    | none => .failed (.assignToUndeclared name)

def meaningAll (c : RenderCall σ) (env : Environment) : List Stmt → Run σ Environment
  | [] => pure env
  | s :: rest => do meaningAll c (← s.meaning c env) rest

end Stmt

namespace Node

mutual

/-- The meaning of a node whose directives are numbered from `site` on. -/
def meaning (c : RenderCall σ) (site : Nat) : Node → Fragment σ
  | text s => .text s
  | interpolate e escape _ =>
    .after site (fun env => e.eval c env) fun v => .text (if escape then v.safe else v.raw)
  | choose arms otherwise =>
    meaningArms c site arms <|
      match otherwise with
      | some body => (meaningAll c (site + (flattenArms true arms).length + 1) body).inScope
      | none => .text ""
  | loop names subject body _ =>
    .after site (fun env => subject.eval c env) fun v =>
      match v.loopPairs? with
      | some pairs => .forPairs names (meaningAll c (site + 1) body) pairs
      | none => .after site (fun _ => .failed (.loopRequiresIterable v.typeName)) .text
  | block name args _ =>
    .after site (args.arguments c "block") fun v =>
      .after site (fun _ => c.block name v) .text
  | component reference args _ =>
    .after site (args.arguments c "component") fun props =>
      .after site (fun _ => c.child reference props (c.visible && asksToShow props)) fun rendered =>
        .text rendered.safe
  | code stmts _ =>
    .after site (fun env => Stmt.meaningAll c env stmts) .leaving

def meaningAll (c : RenderCall σ) (site : Nat) : List Node → Fragment σ
  | [] => .text ""
  | n :: rest => (meaning c site n).andThen (meaningAll c (site + (flatten n).length) rest)

/-- The body of the first arm whose condition holds. Each condition is a directive of its own. -/
def meaningArms (c : RenderCall σ) (site : Nat) : List Arm → Fragment σ → Fragment σ
  | [], otherwise => otherwise
  | .arm condition body _ :: rest, otherwise =>
    .after site (fun env => condition.eval c env) fun v =>
      if v.isTruthy then (meaningAll c (site + 1) body).inScope
      else meaningArms c (site + 1 + (flattenAll body).length) rest otherwise

end

end Node

/-! ## Lines of directives -/

/-- The line that a directive is reported with; text and the directives that evaluate nothing are
not reported. -/
def Item.line? : Item → Option Nat
  | .interpolate _ _ line => some line
  | .choice _ line => some line
  | .elseIf _ line => some line
  | .loop _ _ line => some line
  | .block _ _ line => some line
  | .component _ _ line => some line
  | .code _ line => some line
  | .text _ | .otherwise | .close => none

/-- Lines by number that are those of a sequence of items from a number on. -/
def LinesFrom (lines : Nat → Option Nat) : (site : Nat) → List Item → Prop
  | _, [] => True
  | site, i :: rest => lines site = i.line? ∧ LinesFrom lines (site + 1) rest

theorem linesFrom_append {lines : Nat → Option Nat} {a b : List Item} {site : Nat} :
    LinesFrom lines site (a ++ b) ↔
      LinesFrom lines site a ∧ LinesFrom lines (site + a.length) b := by
  induction a generalizing site with
  | nil => simp [LinesFrom]
  | cons i rest ih =>
      have hnext : site + (i :: rest).length = site + 1 + rest.length := by
        simp only [List.length_cons]
        omega
      rw [List.cons_append, LinesFrom, LinesFrom, ih, hnext, and_assoc]

theorem linesFrom_self (before items : List Item) :
    LinesFrom (fun site => (before ++ items)[site]?.bind Item.line?) before.length items := by
  induction items generalizing before with
  | nil => trivial
  | cons i rest ih =>
      have hrest := ih (before ++ [i])
      simp only [List.append_assoc, List.singleton_append, List.length_append,
        List.length_singleton] at hrest
      exact ⟨by simp, hrest⟩

/-! ## Steps with a meaning -/

/-- A meaning and a step of a render that started with some output come to the same: neither ends,
or both end in the same scopes and world with the same shown, or both fail with the same error and
world, and the machine is on the line of the directive at fault. -/
inductive Matches (lines : Nat → Option Nat) (out : String) :
    Option (Except Fault (String × Environment) × σ) →
    Option (Except EvalError Unit × Machine σ) → Prop
  | exhausted : Matches lines out none none
  | shown (s : String) (env : Environment) (line : Nat) (world : σ) :
    Matches lines out (some (.ok (s, env), world)) (some (.ok (), ⟨env, line, out ++ s, world⟩))
  | failed (e : EvalError) {site line : Nat} (env : Environment) (out' : String) (world : σ) :
    lines site = some line →
    Matches lines out (some (.error ⟨e, site⟩, world)) (some (.error e, ⟨env, line, out', world⟩))

/-- A step that comes to what a meaning says from every machine whose line is of a kind. -/
def Realizes (lines : Nat → Option Nat) (on : Nat → Prop) (x : Exec σ Unit) (a : Fragment σ) :
    Prop :=
  ∀ m : Machine σ, on m.line →
    Matches lines m.out (ExceptT.run (a m.env) m.world) (ExceptT.run x m)

variable {lines : Nat → Option Nat} {on : Nat → Prop} {site line : Nat}

theorem Realizes.mono {on' : Nat → Prop} {x : Exec σ Unit} {a : Fragment σ}
    (h : Realizes lines on x a) (hon : ∀ line, on' line → on line) : Realizes lines on' x a :=
  fun m hm => h m (hon m.line hm)

theorem realizes_write (s : String) : Realizes lines on (Exec.write s : Exec σ Unit) (.text s) :=
  fun m _ => .shown s m.env m.line m.world

theorem realizes_pure : Realizes lines on (pure () : Exec σ Unit) (.text "") := by
  intro m _
  have hkept : Matches lines m.out (some (.ok ("", m.env), m.world))
      (some (.ok (), ⟨m.env, m.line, m.out ++ "", m.world⟩)) := .shown "" m.env m.line m.world
  rwa [String.append_empty] at hkept

theorem Realizes.andThen {x y : Exec σ Unit} {a b : Fragment σ} (hx : Realizes lines on x a)
    (hy : Realizes lines (fun _ => True) y b) : Realizes lines on (do x; y) (a.andThen b) := by
  intro m hm
  have hfirst := hx m hm
  rw [Fragment.andThen, run_bind, run_bind]
  generalize ExceptT.run (a m.env) m.world = r at hfirst ⊢
  generalize ExceptT.run x m = r' at hfirst ⊢
  cases hfirst with
  | exhausted => exact .exhausted
  | failed e env out' world hline => exact .failed e env out' world hline
  | shown s env line world =>
      have hsecond := hy ⟨env, line, m.out ++ s, world⟩ trivial
      dsimp only at hsecond ⊢
      rw [run_bind]
      generalize ExceptT.run (b env) world = q at hsecond ⊢
      generalize ExceptT.run y _ = q' at hsecond ⊢
      cases hsecond with
      | exhausted => exact .exhausted
      | failed e env out' world hline => exact .failed e env out' world hline
      | shown t env line world =>
          rw [String.append_assoc]
          exact .shown (s ++ t) env line world

theorem Realizes.inScope {x : Exec σ Unit} {a : Fragment σ}
    (h : Realizes lines (fun _ => True) x a) : Realizes lines on (Exec.inScope x) a.inScope := by
  intro m _
  have hinner := h { m with env := m.env.push } trivial
  have hrun : ExceptT.run (Exec.inScope x) m =
      (ExceptT.run x { m with env := m.env.push }).map fun r =>
        (r.1, { r.2 with env := r.2.env.pop }) := rfl
  rw [Fragment.inScope, run_bind, hrun]
  dsimp only at hinner
  generalize ExceptT.run (a m.env.push) m.world = r at hinner ⊢
  generalize ExceptT.run x { m with env := m.env.push } = r' at hinner ⊢
  cases hinner with
  | exhausted => exact .exhausted
  | failed e env out' world hline => exact .failed e env.pop out' world hline
  | shown s env line world => exact .shown s env.pop line world

theorem Realizes.binding {x : Exec σ Unit} {a : Fragment σ} (h : Realizes lines on x a)
    (name : String) (v : Value) :
    Realizes lines on (do Exec.define name v; x) (a.binding name v) :=
  fun m hm => h { m with env := m.env.define name v } hm

theorem realizes_atLine {x : Exec σ Unit} {a : Fragment σ} (h : Realizes lines (· = line) x a) :
    Realizes lines on (do Exec.atLine line; x) a :=
  fun m _ => h { m with line } rfl

/-! ## Steps of directives -/

theorem run_after (site : Nat) (x : Environment → Run σ α) (next : α → Fragment σ)
    (env : Environment) (world : σ) :
    ExceptT.run (Fragment.after site x next env) world =
      match ExceptT.run (x env) world with
      | none => none
      | some (.ok a, world') => ExceptT.run (next a env) world'
      | some (.error e, world') => some (.error ⟨e, site⟩, world') := by
  have hlabelled : ExceptT.run ((x env).labelled site) world =
      (ExceptT.run (x env) world).map fun (result, world') =>
        (result.mapError fun e => ⟨e, site⟩, world') := rfl
  rw [Fragment.after, run_bind, hlabelled]
  rcases ExceptT.run (x env) world with _ | ⟨_ | _, _⟩ <;> rfl

/-- A step that only computes something in the present scopes. -/
def Exec.Computes (y : Exec σ α) (x : Environment → Run σ α) : Prop :=
  ∀ m, ExceptT.run y m =
    (ExceptT.run (x m.env) m.world).map fun (result, world) => (result, { m with world })

theorem computes_eval (c : RenderCall σ) (e : Expr) :
    Exec.Computes (Exec.eval c e) fun env => e.eval c env :=
  fun _ => rfl

theorem computes_ofRun (x : Run σ α) : Exec.Computes (Exec.ofRun x) fun _ => x :=
  fun _ => rfl

theorem computes_evalArgs (c : RenderCall σ) (directive : String) (args : Expr) :
    Exec.Computes (Exec.evalArgs c directive args) (args.arguments c directive) := by
  intro m
  rw [Exec.evalArgs, Expr.arguments, run_bind, run_bind, computes_eval c args m]
  rcases ExceptT.run (args.eval c m.env) m.world with _ | ⟨e | v, world⟩
  · rfl
  · rfl
  · cases v <;> rfl

/-- On the line of its directive, a step that goes on with what it computes. -/
theorem realizes_after {y : Exec σ α} {x : Environment → Run σ α} (hy : y.Computes x)
    (hline : lines site = some line) {k : α → Exec σ Unit} {next : α → Fragment σ}
    (h : ∀ v, Realizes lines (· = line) (k v) (next v)) :
    Realizes lines (· = line) (y >>= k) (.after site x next) := by
  rintro m rfl
  rw [run_after, run_bind, hy m]
  rcases ExceptT.run (x m.env) m.world with _ | ⟨e | v, world⟩
  · exact .exhausted
  · exact .failed e m.env m.out world hline
  · exact h v { m with world } rfl

theorem realizes_failed (hline : lines site = some line) (e : EvalError)
    (next : α → Fragment σ) :
    Realizes lines (· = line) (Exec.failed e) (.after site (fun _ => .failed e) next) := by
  rintro m rfl
  rw [run_after]
  exact .failed e m.env m.out m.world hline

theorem Stmt.run_exec (c : RenderCall σ) (s : Stmt) (m : Machine σ) :
    ExceptT.run (s.exec c) m =
      (ExceptT.run (s.meaning c m.env) m.world).map fun (result, world) =>
        match result with
        | .ok env => (.ok (), { m with env, world })
        | .error e => (.error e, { m with world }) := by
  cases s with
  | declare name value =>
      rw [Stmt.exec, Stmt.meaning, run_bind, run_bind, computes_eval c value m]
      rcases ExceptT.run (value.eval c m.env) m.world with _ | ⟨_ | v, world⟩ <;> rfl
  | assign name value =>
      rw [Stmt.exec, Stmt.meaning, run_bind, run_bind, computes_eval c value m]
      rcases ExceptT.run (value.eval c m.env) m.world with _ | ⟨_ | v, world⟩
      · rfl
      · rfl
      · dsimp only [Option.map_some]
        rw [run_get_bind]
        cases m.env.assign? name v <;> rfl

theorem realizes_stmts (hline : lines site = some line) (c : RenderCall σ) (stmts : List Stmt) :
    Realizes lines (· = line) (Stmt.execAll c stmts)
      (.after site (fun env => Stmt.meaningAll c env stmts) .leaving) := by
  induction stmts with
  | nil => exact realizes_pure
  | cons s rest ih =>
      rintro m rfl
      rw [Stmt.execAll, run_bind, Stmt.run_exec, run_after, Stmt.meaningAll, run_bind]
      rcases ExceptT.run (s.meaning c m.env) m.world with _ | ⟨e | env, world⟩
      · exact .exhausted
      · exact .failed e m.env m.out world hline
      · have hrest := ih { m with env, world } rfl
        rwa [run_after] at hrest

theorem Realizes.forPairs (names : LoopBinding) (line : Nat) {body : Exec σ Unit} {a : Fragment σ}
    (h : Realizes lines (fun _ => True) body a) (pairs : List (Value × Value)) :
    Realizes lines on (Exec.forPairs names line body pairs) (a.forPairs names pairs) := by
  induction pairs generalizing on with
  | nil => exact realizes_pure
  | cons pair rest ih =>
      obtain ⟨key, value⟩ := pair
      have hbound := h.binding names.value value
      refine Realizes.andThen (Realizes.inScope ?_) (realizes_atLine ih)
      cases names.key with
      | none => exact hbound
      | some name => exact hbound.binding name key

/-! ## Nodes -/

namespace Node

variable (c : RenderCall σ)

theorem execAll_append (nodes more : List Node) :
    execAll c (nodes ++ more) = (do execAll c nodes; execAll c more) := by
  induction nodes with
  | nil => rw [List.nil_append, execAll, pure_bind]
  | cons n rest ih => rw [List.cons_append, execAll, execAll, ih, bind_assoc]

mutual

theorem realizes_exec : ∀ (n : Node) (site : Nat), LinesFrom lines site n.flatten →
    Realizes lines (fun _ => True) (n.exec c) (n.meaning c site)
  | .text s, _, _ => realizes_write s
  | .interpolate e escape line, site, ⟨hline, _⟩ =>
      realizes_atLine (realizes_after (computes_eval c e) hline fun v => realizes_write _)
  | .choose arms none, site, hlines => by
      have harms := (linesFrom_append.mp (linesFrom_append.mp hlines).1).1
      exact realizes_execArms arms site true harms realizes_pure
  | .choose arms (some body), site, hlines => by
      obtain ⟨harms, -, hbody⟩ := linesFrom_append.mp (linesFrom_append.mp hlines).1
      exact realizes_execArms arms site true harms (realizes_execAll body _ hbody).inScope
  | .loop names subject body line, site, ⟨hline, hlines⟩ => by
      have hbody := realizes_execAll body (site + 1) (linesFrom_append.mp hlines).1
      refine realizes_atLine (realizes_after (computes_eval c subject) hline fun v => ?_)
      cases v.loopPairs? with
      | none => exact realizes_failed hline _ _
      | some pairs => exact hbody.forPairs names line pairs
  | .block name args line, site, ⟨hline, _⟩ => by
      refine realizes_atLine (realizes_after (computes_evalArgs c "block" args) hline fun v => ?_)
      exact realizes_after (computes_ofRun _) hline realizes_write
  | .component reference args line, site, ⟨hline, _⟩ => by
      refine realizes_atLine
        (realizes_after (computes_evalArgs c "component" args) hline fun v => ?_)
      exact realizes_after (computes_ofRun _) hline fun rendered => realizes_write _
  | .code stmts line, site, ⟨hline, _⟩ => realizes_atLine (realizes_stmts hline c stmts)

theorem realizes_execAll : ∀ (nodes : List Node) (site : Nat),
    LinesFrom lines site (flattenAll nodes) →
    Realizes lines (fun _ => True) (execAll c nodes) (meaningAll c site nodes)
  | [], _, _ => realizes_pure
  | n :: rest, site, hlines => by
      obtain ⟨hnode, hrest⟩ := linesFrom_append.mp hlines
      exact (realizes_exec n site hnode).andThen (realizes_execAll rest _ hrest)

theorem realizes_execArms {otherwise : Exec σ Unit} {otherwise' : Fragment σ} :
    ∀ (arms : List Arm) (site : Nat) (first : Bool),
      LinesFrom lines site (flattenArms first arms) →
      Realizes lines (fun _ => True) otherwise otherwise' →
      Realizes lines (fun _ => True) (execArms c arms otherwise)
        (meaningArms c site arms otherwise')
  | [], _, _, _, hotherwise => hotherwise
  | .arm condition body line :: rest, site, first, hlines, hotherwise => by
      obtain ⟨⟨hhead, hbody⟩, hrest⟩ := linesFrom_append.mp hlines
      have hline : lines site = some line := by
        cases first <;> exact hhead
      have hnext : LinesFrom lines (site + 1 + (flattenAll body).length)
          (flattenArms false rest) := by
        rwa [List.length_cons, Nat.add_comm _ 1, ← Nat.add_assoc] at hrest
      refine realizes_atLine (realizes_after (computes_eval c condition) hline fun v => ?_)
      split
      · exact (realizes_execAll body (site + 1) hbody).inScope
      · exact (realizes_execArms rest _ false hnext hotherwise).mono fun _ _ => trivial

end

end Node

/-- Rendering a program comes to its meaning. It shows the same, or it fails with the same error and
reports the line of the directive at fault, and in both cases it leaves the same world. -/
theorem Program.execute_meaning (p : Program) (c : RenderCall σ) (world : σ) :
    match ExceptT.run (Node.meaningAll c 0 p.nodes .empty) world with
    | none => p.execute c world = none
    | some (.ok (out, _), world') => p.execute c world = some (.ok out, world')
    | some (.error fault, world') =>
      ∃ item line, (Node.flattenAll p.nodes)[fault.site]? = some item ∧ item.line? = some line ∧
        p.execute c world = some (.error ⟨fault.error, line⟩, world') := by
  have hrealizes := Node.realizes_execAll c p.nodes 0 (linesFrom_self [] (Node.flattenAll p.nodes))
    (Machine.start world) trivial
  unfold Program.execute
  simp only [Machine.start] at hrealizes ⊢
  generalize ExceptT.run (Node.meaningAll c 0 p.nodes .empty) world = r at hrealizes ⊢
  generalize ExceptT.run (Node.execAll c p.nodes) _ = r' at hrealizes ⊢
  cases hrealizes with
  | exhausted => rfl
  | shown s env line world => rw [String.empty_append]; rfl
  | failed e env out' world hline =>
      obtain ⟨item, hitem, hline⟩ := Option.bind_eq_some_iff.mp hline
      exact ⟨item, _, hitem, hline, rfl⟩

end

end LiveMarkup
