import LiveMarkup.Proofs.Render.Agreement
import LiveMarkup.Engine.Blocks
set_option autoImplicit false

/-! # Computations in tandem

Two computations over different worlds run in tandem if from related worlds on they come to the same
end, be it a result or a failure, and leave related worlds. Unlike agreement this tells failures
apart, and it can ask that there is an end at all. Renders of one program run in tandem when the
services that they call do (`CallsTandem.execute`). -/

namespace LiveMarkup

/-! ## Computations -/

section

variable {σ τ ρ σ' τ' ρ' : Type}

/-- Both outcomes are one end in related worlds, or there is neither, where the runs may be
endless. -/
def TandemAt (endless : Prop) (R : σ → τ → Prop) (x : Option (ρ × σ)) (y : Option (ρ × τ)) : Prop :=
  (endless ∧ x = none ∧ y = none) ∨ ∃ r s t, x = some (r, s) ∧ y = some (r, t) ∧ R s t

variable {endless : Prop} {R : σ → τ → Prop} {S : σ' → τ' → Prop} {x : Option (ρ × σ)}
  {y : Option (ρ × τ)}

theorem TandemAt.some {r : ρ} {s : σ} {t : τ} (h : R s t) :
    TandemAt endless R (some (r, s)) (some (r, t)) :=
  .inr ⟨r, s, t, rfl, rfl, h⟩

/-- What is done with outcomes in tandem, if it makes of one end one end. -/
theorem TandemAt.map {f : ρ × σ → ρ' × σ'} {g : ρ × τ → ρ' × τ'} (h : TandemAt endless R x y)
    (hend : ∀ r s t, R s t → (f (r, s)).1 = (g (r, t)).1 ∧ S (f (r, s)).2 (g (r, t)).2) :
    TandemAt endless S (x.map f) (y.map g) := by
  obtain ⟨hendless, rfl, rfl⟩ | ⟨r, s, t, rfl, rfl, hst⟩ := h
  · exact .inl ⟨hendless, rfl, rfl⟩
  · obtain ⟨hsame, hworlds⟩ := hend r s t hst
    exact .inr ⟨(f (r, s)).1, (f (r, s)).2, (g (r, t)).2, rfl, by rw [hsame]; rfl, hworlds⟩

theorem TandemAt.bind {f : ρ × σ → Option (ρ' × σ')} {g : ρ × τ → Option (ρ' × τ')}
    (h : TandemAt endless R x y)
    (hend : ∀ r s t, R s t → TandemAt endless S (f (r, s)) (g (r, t))) :
    TandemAt endless S (x.bind f) (y.bind g) := by
  obtain ⟨hendless, rfl, rfl⟩ | ⟨r, s, t, rfl, rfl, hst⟩ := h
  · exact .inl ⟨hendless, rfl, rfl⟩
  · exact hend r s t hst

end

section

variable {σ τ ε α β : Type} {endless : Prop} {R : σ → τ → Prop}

/-- Two computations run in tandem from related worlds on. -/
def Tandem (endless : Prop) (R : σ → τ → Prop) (x : ExceptT ε (StateT σ Option) α)
    (y : ExceptT ε (StateT τ Option) α) : Prop :=
  ∀ s t, R s t → TandemAt endless R (ExceptT.run x s) (ExceptT.run y t)

theorem Tandem.bind {x : ExceptT ε (StateT σ Option) α} {y : ExceptT ε (StateT τ Option) α}
    {f : α → ExceptT ε (StateT σ Option) β} {g : α → ExceptT ε (StateT τ Option) β}
    (hx : Tandem endless R x y) (hf : ∀ a, Tandem endless R (f a) (g a)) :
    Tandem endless R (x >>= f) (y >>= g) := by
  intro s t hst
  rw [run_bind, run_bind]
  obtain ⟨hendless, hs, ht⟩ | ⟨e | a, s', t', hs, ht, hst'⟩ := hx s t hst
  · rw [hs, ht]
    exact .inl ⟨hendless, rfl, rfl⟩
  · rw [hs, ht]
    exact .some hst'
  · rw [hs, ht]
    exact hf a s' t' hst'

theorem Tandem.pure (a : α) :
    Tandem endless R (Pure.pure a : ExceptT ε (StateT σ Option) α)
      (Pure.pure a : ExceptT ε (StateT τ Option) α) :=
  fun _ _ hst => .some hst

end

section

variable {σ τ ρ α β : Type} {endless : Prop} {R : σ → τ → Prop}

theorem tandem_failed (e : EvalError) :
    Tandem endless R (Run.failed e : Run σ α) (Run.failed e : Run τ α) :=
  fun _ _ hst => .some hst

theorem tandem_ofExcept (x : Except EvalError α) :
    Tandem endless R (Run.ofExcept x : Run σ α) (Run.ofExcept x : Run τ α) := by
  cases x with
  | error e => exact tandem_failed e
  | ok a => exact Tandem.pure a

theorem Tandem.update {f : σ → α × σ} {g : τ → α × τ}
    (h : ∀ s t, R s t → (f s).1 = (g t).1 ∧ R (f s).2 (g t).2) :
    Tandem endless R (Run.update f) (Run.update g) := by
  intro s t hst
  obtain ⟨hsame, hworlds⟩ := h s t hst
  rw [run_update, run_update, hsame]
  exact .some hworlds

/-- Two computations over parts of two worlds. -/
theorem Tandem.within {σ' τ' : Type} {S : σ' → τ' → Prop} {x : Run σ' α} {y : Run τ' α}
    {part : σ → σ'} {part' : τ → τ'} {put : σ' → σ → σ} {put' : τ' → τ → τ}
    (h : Tandem endless S x y) (hpart : ∀ s t, R s t → S (part s) (part' t))
    (hput : ∀ s t p q, R s t → S p q → R (put p s) (put' q t)) :
    Tandem endless R (Run.within part put x) (Run.within part' put' y) := by
  intro s t hst
  rw [run_within, run_within]
  exact (h _ _ (hpart s t hst)).map fun r p q hpq => ⟨rfl, hput s t p q hst hpq⟩

/-- What is done next may depend on the world. -/
theorem Tandem.get_bind {f : σ → Run σ α} {g : τ → Run τ α}
    (h : ∀ s t, R s t → TandemAt endless R (ExceptT.run (f s) s) (ExceptT.run (g t) t)) :
    Tandem endless R (get >>= f) (get >>= g) :=
  h

theorem Tandem.attempt {x : Run σ α} {y : Run τ α} (h : Tandem endless R x y) :
    Tandem endless R x.attempt y.attempt :=
  fun s t hst => (h s t hst).map fun _ _ _ hworlds => ⟨rfl, hworlds⟩

theorem Tandem.failure? {x : Run σ α} {y : Run τ α} (h : Tandem endless R x y) :
    Tandem endless R x.failure? y.failure? := by
  refine h.attempt.bind fun result => ?_
  cases result with
  | ok _ => exact Tandem.pure _
  | error e => exact Tandem.pure _

/-- One computation beside itself, which may be endless. -/
theorem Tandem.refl (x : Run ρ α) : Tandem True Eq x x := by
  rintro s _ rfl
  cases ExceptT.run x s with
  | none => exact .inl ⟨trivial, rfl, rfl⟩
  | some outcome => exact .some rfl

end

/-! ## Expressions -/

section

variable {σ τ : Type} {endless : Prop} {R : σ → τ → Prop}

/-- The services of two worlds run in tandem. -/
structure ServicesTandem (endless : Prop) (R : σ → τ → Prop) (x : Host σ) (y : Host τ) : Prop where
  fresh : ∀ s t, R s t → (x.fresh s).1 = (y.fresh t).1 ∧ R (x.fresh s).2 (y.fresh t).2
  call : ∀ f args, Tandem endless R (x.call f args) (y.call f args)

/-- What a node calls. -/
def Node.Calls (block component : String → Prop) : Node → Prop
  | .block name _ _ => block name
  | .component reference _ _ => component reference
  | _ => True

/-- The arguments of two renders are alike: what both can name is the same, and what they call back
into runs in tandem, for certain blocks and components. -/
structure CallsTandem (endless : Prop) (R : σ → τ → Prop) (block component : String → Prop)
    (c : RenderCall σ) (c' : RenderCall τ) : Prop where
  services : ServicesTandem endless R c.host c'.host
  data : c.data = c'.data
  instanceKey : c.instanceKey = c'.instanceKey
  isServer : c.isServer = c'.isServer
  visible : c.visible = c'.visible
  hostProps : (c.hostProps = none ∧ c'.hostProps = none) ∨
    ∃ x y, c.hostProps = some x ∧ c'.hostProps = some y ∧ Tandem endless R x y
  blocks : ∀ name args, block name → Tandem endless R (c.block name args) (c'.block name args)
  child : ∀ reference props visible, component reference →
    Tandem endless R (c.child reference props visible) (c'.child reference props visible)

variable {block component : String → Prop} {c : RenderCall σ} {c' : RenderCall τ}

namespace CallsTandem

theorem newIdent (h : CallsTandem endless R block component c c') :
    Tandem endless R c.newIdent c'.newIdent :=
  Tandem.update h.services.fresh

theorem lookup (h : CallsTandem endless R block component c c') (env : Environment)
    (name : String) : Tandem endless R (c.lookup env name) (c'.lookup env name) := by
  unfold RenderCall.lookup
  rw [← h.data]
  cases env.lookup? name with
  | some v => exact Tandem.pure v
  | none =>
      cases c.data.field? name with
      | some v => exact Tandem.pure v
      | none => exact tandem_failed _

mutual

theorem eval (h : CallsTandem endless R block component c c') (env : Environment) :
    ∀ e : Expr, Tandem endless R (e.eval c env) (e.eval c' env)
  | .node kind _ => evalKind h env kind

theorem evalKind (h : CallsTandem endless R block component c c') (env : Environment) :
    ∀ k : ExprKind, Tandem endless R (Expr.evalKind c env k) (Expr.evalKind c' env k)
  | .null => Tandem.pure _
  | .bool _ => Tandem.pure _
  | .int _ => Tandem.pure _
  | .float _ => Tandem.pure _
  | .str _ => Tandem.pure _
  | .array items => by
      refine (evalAll h env items).bind fun values => ?_
      exact h.newIdent.bind fun i => Tandem.pure _
  | .object entries => by
      refine (evalEntries h env entries).bind fun fields => ?_
      exact h.newIdent.bind fun i => Tandem.pure _
  | .ident name => h.lookup env name
  | .data => by
      rw [Expr.evalKind, Expr.evalKind, h.data]
      exact Tandem.pure _
  | .instanceKey => by
      rw [Expr.evalKind, Expr.evalKind, h.instanceKey]
      exact Tandem.pure _
  | .hostProps => by
      rw [Expr.evalKind, Expr.evalKind]
      obtain ⟨hc, hc'⟩ | ⟨x, y, hc, hc', hprops⟩ := h.hostProps
      · rw [hc, hc']
        exact Tandem.pure _
      · rw [hc, hc']
        exact hprops
  | .isServer => by
      rw [Expr.evalKind, Expr.evalKind, h.isServer]
      exact Tandem.pure _
  | .member object field => by
      refine (eval h env object).bind fun v => ?_
      exact tandem_ofExcept _
  | .index object at_ => by
      refine (eval h env object).bind fun v => ?_
      refine (eval h env at_).bind fun key => ?_
      exact tandem_ofExcept _
  | .call callee args => by
      refine (eval h env callee).bind fun function => ?_
      refine (evalAll h env args).bind fun values => ?_
      cases function
      case function f => exact h.services.call f values
      all_goals exact tandem_failed _
  | .unary op operand => by
      refine (eval h env operand).bind fun v => ?_
      exact Tandem.pure _
  | .binary op left right => by
      refine (eval h env left).bind fun l => ?_
      -- the left operand may decide, and then the right one is not evaluated
      split
      · exact Tandem.pure _
      · refine (eval h env right).bind fun r => ?_
        exact Tandem.pure _
  | .conditional condition consequent otherwise => by
      refine (eval h env condition).bind fun v => ?_
      split
      · exact eval h env consequent
      · exact eval h env otherwise

theorem evalAll (h : CallsTandem endless R block component c c') (env : Environment) :
    ∀ es : List Expr, Tandem endless R (Expr.evalAll c env es) (Expr.evalAll c' env es)
  | [] => Tandem.pure _
  | e :: rest => by
      refine (eval h env e).bind fun v => ?_
      exact (evalAll h env rest).bind fun values => Tandem.pure _

theorem evalEntries (h : CallsTandem endless R block component c c') (env : Environment) :
    ∀ es : List (String × Expr),
      Tandem endless R (Expr.evalEntries c env es) (Expr.evalEntries c' env es)
  | [] => Tandem.pure _
  | (key, e) :: rest => by
      refine (eval h env e).bind fun v => ?_
      exact (evalEntries h env rest).bind fun fields => Tandem.pure _

end

end CallsTandem

/-! ## Programs -/

/-- The machines of two renders show the same and are over related worlds. -/
structure MachinesTandem (R : σ → τ → Prop) (m : Machine σ) (m' : Machine τ) : Prop where
  env : m.env = m'.env
  line : m.line = m'.line
  out : m.out = m'.out
  world : R m.world m'.world

section

variable {α : Type}

theorem Tandem.ofRun {x : Run σ α} {y : Run τ α} (hxy : Tandem endless R x y) :
    Tandem endless (MachinesTandem R) (Exec.ofRun x) (Exec.ofRun y) := by
  intro m m' hm
  show TandemAt endless _ ((ExceptT.run x m.world).map _) ((ExceptT.run y m'.world).map _)
  exact (hxy m.world m'.world hm.world).map fun _ _ _ hst => ⟨rfl, { hm with world := hst }⟩

theorem tandem_execFailed (e : EvalError) :
    Tandem endless (MachinesTandem R) (Exec.failed e : Exec σ α) (Exec.failed e : Exec τ α) :=
  fun _ _ hm => .some hm

theorem tandem_execUpdate {f : Machine σ → Machine σ} {g : Machine τ → Machine τ}
    (h : ∀ m m', MachinesTandem R m m' → MachinesTandem R (f m) (g m')) :
    Tandem endless (MachinesTandem R) (Exec.update f) (Exec.update g) :=
  fun m m' hm => .some (h m m' hm)

theorem tandem_atLine (line : Nat) :
    Tandem endless (MachinesTandem R) (Exec.atLine line) (Exec.atLine line) :=
  tandem_execUpdate fun _ _ hm => { hm with line := rfl }

theorem tandem_write (text : String) :
    Tandem endless (MachinesTandem R) (Exec.write text) (Exec.write text) :=
  tandem_execUpdate fun _ _ hm => { hm with out := congrArg (· ++ text) hm.out }

theorem tandem_define (name : String) (v : Value) :
    Tandem endless (MachinesTandem R) (Exec.define name v) (Exec.define name v) :=
  tandem_execUpdate fun _ _ hm =>
    { hm with env := congrArg (fun env => Environment.define env name v) hm.env }

theorem Tandem.inScope {x : Exec σ α} {y : Exec τ α}
    (hxy : Tandem endless (MachinesTandem R) x y) :
    Tandem endless (MachinesTandem R) (Exec.inScope x) (Exec.inScope y) := by
  intro m m' hm
  have hinner := hxy { m with env := m.env.push } { m' with env := m'.env.push }
    { hm with env := congrArg Environment.push hm.env }
  show TandemAt endless _ ((ExceptT.run x _).map _) ((ExceptT.run y _).map _)
  exact hinner.map fun _ _ _ hn => ⟨rfl, { hn with env := congrArg Environment.pop hn.env }⟩

theorem Tandem.forPairs (binding : LoopBinding) (line : Nat) {body : Exec σ Unit}
    {body' : Exec τ Unit} (hbody : Tandem endless (MachinesTandem R) body body')
    (pairs : List (Value × Value)) :
    Tandem endless (MachinesTandem R) (Exec.forPairs binding line body pairs)
      (Exec.forPairs binding line body' pairs) := by
  induction pairs with
  | nil => exact Tandem.pure _
  | cons pair rest ih =>
      obtain ⟨key, value⟩ := pair
      -- the value is bound last, over a key of the same name
      have hinner : Tandem endless (MachinesTandem R)
          (do Exec.define binding.value value; body) (do Exec.define binding.value value; body') :=
        (tandem_define binding.value value).bind fun _ => hbody
      refine Tandem.bind (Tandem.inScope ?_) fun _ => (tandem_atLine line).bind fun _ => ih
      cases binding.key with
      | none => exact hinner
      | some name => exact (tandem_define name key).bind fun _ => hinner

end

namespace CallsTandem

theorem exec_eval (h : CallsTandem endless R block component c c') (e : Expr) :
    Tandem endless (MachinesTandem R) (Exec.eval c e) (Exec.eval c' e) := by
  intro m m' hm
  show TandemAt endless _ (ExceptT.run (Exec.ofRun (e.eval c m.env)) m)
    (ExceptT.run (Exec.ofRun (e.eval c' m'.env)) m')
  rw [← hm.env]
  exact (h.eval m.env e).ofRun m m' hm

theorem evalArgs (h : CallsTandem endless R block component c c') (directive : String)
    (args : Expr) : Tandem endless (MachinesTandem R) (Exec.evalArgs c directive args)
      (Exec.evalArgs c' directive args) := by
  refine (h.exec_eval args).bind fun v => ?_
  -- all but objects fail
  cases v
  case object i fields => exact Tandem.pure _
  all_goals exact tandem_execFailed _

theorem exec_stmt (h : CallsTandem endless R block component c c') (s : Stmt) :
    Tandem endless (MachinesTandem R) (s.exec c) (s.exec c') := by
  cases s with
  | declare name value =>
      refine (h.exec_eval value).bind fun v => ?_
      exact tandem_define name v
  | assign name value =>
      refine (h.exec_eval value).bind fun v => ?_
      refine Tandem.get_bind fun m m' hm => ?_
      rw [← hm.env]
      cases m.env.assign? name v with
      | none => exact .some hm
      | some env => exact .some { hm with env := rfl }

theorem exec_stmts (h : CallsTandem endless R block component c c') (stmts : List Stmt) :
    Tandem endless (MachinesTandem R) (Stmt.execAll c stmts) (Stmt.execAll c' stmts) := by
  induction stmts with
  | nil => exact Tandem.pure _
  | cons s rest ih => exact (h.exec_stmt s).bind fun _ => ih

mutual

theorem execNode (h : CallsTandem endless R block component c c') :
    ∀ n : Node, (∀ inner ∈ n.walk, inner.Calls block component) →
      Tandem endless (MachinesTandem R) (n.exec c) (n.exec c')
  | .text s, _ => tandem_write s
  | .interpolate e escape line, _ => by
      refine (tandem_atLine line).bind fun _ => ?_
      exact (h.exec_eval e).bind fun v => tandem_write _
  | .choose arms none, hn => by
      refine execArms h arms (fun n hmem => hn n ?_) (Tandem.pure _)
      simp only [Node.walk, List.mem_cons, List.mem_append]
      exact .inr (.inl hmem)
  | .choose arms (some body), hn => by
      refine execArms h arms (fun n hmem => hn n ?_)
        (execNodes h body fun n hmem => hn n ?_).inScope
      · simp only [Node.walk, List.mem_cons, List.mem_append]
        exact .inr (.inl hmem)
      · simp only [Node.walk, List.mem_cons, List.mem_append]
        exact .inr (.inr hmem)
  | .loop binding subject body line, hn => by
      refine (tandem_atLine line).bind fun _ => ?_
      refine (h.exec_eval subject).bind fun v => ?_
      cases v.loopPairs? with
      | none => exact tandem_execFailed _
      | some pairs =>
          refine Tandem.forPairs binding line (execNodes h body fun n hmem => hn n ?_) pairs
          exact List.mem_cons_of_mem _ hmem
  | .block name args line, hn => by
      refine (tandem_atLine line).bind fun _ => ?_
      refine (h.evalArgs _ args).bind fun v => ?_
      refine (h.blocks name v (hn _ List.mem_cons_self)).ofRun.bind fun text => ?_
      exact tandem_write text
  | .component reference args line, hn => by
      refine (tandem_atLine line).bind fun _ => ?_
      refine (h.evalArgs _ args).bind fun v => ?_
      rw [← h.visible]
      refine (h.child reference v _ (hn _ List.mem_cons_self)).ofRun.bind fun rendered => ?_
      exact tandem_write _
  | .code stmts line, _ => by
      refine (tandem_atLine line).bind fun _ => ?_
      exact h.exec_stmts stmts

theorem execNodes (h : CallsTandem endless R block component c c') :
    ∀ nodes : List Node, (∀ inner ∈ Node.walkAll nodes, inner.Calls block component) →
      Tandem endless (MachinesTandem R) (Node.execAll c nodes) (Node.execAll c' nodes)
  | [], _ => Tandem.pure _
  | n :: rest, hnodes => by
      refine (execNode h n fun inner hmem => hnodes inner ?_).bind fun _ => ?_
      · exact List.mem_append_left _ hmem
      · exact execNodes h rest fun inner hmem => hnodes inner (List.mem_append_right _ hmem)

theorem execArms (h : CallsTandem endless R block component c c') {otherwise : Exec σ Unit}
    {otherwise' : Exec τ Unit} :
    ∀ arms : List Arm, (∀ inner ∈ Node.walkArms arms, inner.Calls block component) →
      Tandem endless (MachinesTandem R) otherwise otherwise' →
      Tandem endless (MachinesTandem R) (Node.execArms c arms otherwise)
        (Node.execArms c' arms otherwise')
  | [], _, hotherwise => hotherwise
  | .arm condition body line :: rest, hinner, hotherwise => by
      refine (tandem_atLine line).bind fun _ => ?_
      refine (h.exec_eval condition).bind fun v => ?_
      split
      · refine (execNodes h body fun n hmem => hinner n ?_).inScope
        exact List.mem_append_left _ hmem
      · exact execArms h rest (fun n hmem => hinner n (List.mem_append_right _ hmem)) hotherwise

end

/-- The components that a program refers to, and the blocks that it calls. -/
theorem calls_of_program {p : Program} (hblocks : ∀ name ∈ p.blockNames, block name)
    (hcomponents : ∀ r ∈ p.componentReferences, component r.1) :
    ∀ n ∈ Node.walkAll p.nodes, n.Calls block component := by
  intro n hn
  cases n with
  | block name args line => exact hblocks name (List.mem_filterMap.mpr ⟨_, hn, rfl⟩)
  | component reference args line =>
      exact hcomponents (reference, line) (List.mem_filterMap.mpr ⟨_, hn, rfl⟩)
  | _ => trivial

/-- Renders of one program run in tandem when their services do. -/
theorem execute (h : CallsTandem endless R block component c c') {p : Program}
    (hblocks : ∀ name ∈ p.blockNames, block name)
    (hcomponents : ∀ r ∈ p.componentReferences, component r.1) {s : σ} {t : τ} (hst : R s t) :
    TandemAt endless R (p.execute c s) (p.execute c' t) := by
  have hrun := h.execNodes p.nodes (calls_of_program hblocks hcomponents) (Machine.start s)
    (Machine.start t) ⟨rfl, rfl, rfl, hst⟩
  unfold Program.execute
  refine hrun.map fun r m m' hm => ?_
  cases r with
  | ok _ => exact ⟨congrArg Except.ok hm.out, hm.world⟩
  | error e =>
      have hline : (⟨e, m.line⟩ : RenderFailure) = ⟨e, m'.line⟩ := by rw [hm.line]
      exact ⟨congrArg Except.error hline, hm.world⟩

theorem render (h : CallsTandem endless R block component c c') {t : Template}
    (hblocks : ∀ name ∈ t.program.blockNames, block name)
    (hcomponents : ∀ r ∈ t.program.componentReferences, component r.1) :
    Tandem endless R (t.render c) (t.render c') :=
  fun _ _ hst => (h.execute hblocks hcomponents hst).map fun _ _ _ hworlds => ⟨rfl, hworlds⟩

end CallsTandem

end

end LiveMarkup
