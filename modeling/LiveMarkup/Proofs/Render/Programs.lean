import LiveMarkup.Proofs.Render.Agreement
import LiveMarkup.Proofs.Render.Hereditary
import LiveMarkup.Engine.Blocks
set_option autoImplicit false

/-! # Renders that agree

Two renders of one program agree when the services that they call do (`CallsAgree.execute`). The
values that pass through may be kept within a class of values that evaluation does not leave. -/

namespace LiveMarkup

/-! ## What a program reads -/

mutual

/-- Whether an expression reads `$isServer` or `$pageProps`. -/
def Expr.readsHost : Expr → Bool
  | .node kind _ => kind.readsHost

def ExprKind.readsHost : ExprKind → Bool
  | .hostProps | .isServer => true
  | .array items => Expr.readsHostAll items
  | .object entries => Expr.readsHostEntries entries
  | .member object _ => object.readsHost
  | .index object at_ => object.readsHost || at_.readsHost
  | .call callee args => callee.readsHost || Expr.readsHostAll args
  | .unary _ operand => operand.readsHost
  | .binary _ left right => left.readsHost || right.readsHost
  | .conditional condition consequent otherwise =>
    condition.readsHost || consequent.readsHost || otherwise.readsHost
  | _ => false

def Expr.readsHostAll : List Expr → Bool
  | [] => false
  | e :: rest => e.readsHost || Expr.readsHostAll rest

def Expr.readsHostEntries : List (String × Expr) → Bool
  | [] => false
  | (_, e) :: rest => e.readsHost || Expr.readsHostEntries rest

end

def Stmt.value : Stmt → Expr
  | .declare _ value => value
  | .assign _ value => value

def Arm.condition : Arm → Expr
  | .arm condition _ _ => condition

/-- Whether a node itself reads what the page provides only if `host` holds, and refers to a
component that is `known` only. -/
def Node.Portable (host : Prop) (known : String → Prop) : Node → Prop
  | .text _ => True
  | .interpolate e _ _ => e.readsHost = true → host
  | .choose arms _ => ∀ a ∈ arms, a.condition.readsHost = true → host
  | .loop _ subject _ _ => subject.readsHost = true → host
  | .block _ args _ => args.readsHost = true → host
  | .component reference args _ => known reference ∧ (args.readsHost = true → host)
  | .code stmts _ => ∀ s ∈ stmts, s.value.readsHost = true → host

theorem Node.Portable.mono {host host' : Prop} {known : String → Prop} {n : Node}
    (h : n.Portable host known) (hhost : host → host') : n.Portable host' known := by
  cases n with
  | text _ => trivial
  | component _ _ _ => exact ⟨h.1, fun ho => hhost (h.2 ho)⟩
  | choose _ _ => exact fun a ha ho => hhost (h a ha ho)
  | code _ _ => exact fun s hs ho => hhost (h s hs ho)
  | interpolate _ _ _ => exact fun ho => hhost (h ho)
  | loop _ _ _ _ => exact fun ho => hhost (h ho)
  | block _ _ _ => exact fun ho => hhost (h ho)

/-- Where everything may be read and every component is known, every node is portable. -/
theorem Node.portable_of {host : Prop} {known : String → Prop} (hhost : host)
    (hknown : ∀ reference, known reference) (n : Node) : n.Portable host known := by
  cases n with
  | text _ => trivial
  | component reference _ _ => exact ⟨hknown reference, fun _ => hhost⟩
  | choose _ _ => exact fun _ _ _ => hhost
  | code _ _ => exact fun _ _ _ => hhost
  | interpolate _ _ _ => exact fun _ => hhost
  | loop _ _ _ _ => exact fun _ => hhost
  | block _ _ _ => exact fun _ => hhost

/-! ## Expressions -/

section

variable {σ τ : Type} {P : Value → Prop} {R : Bridge σ τ}

/-- The services of two worlds agree. -/
structure ServicesAgree (P : Value → Prop) (R : Bridge σ τ) (x : Host σ) (y : Host τ) : Prop where
  fresh : ∀ s t, R.on s t → (x.fresh s).1 = (y.fresh t).1 ∧ R.on (x.fresh s).2 (y.fresh t).2
  call : ∀ f args, P (.function f) → (∀ v ∈ args, P v) → Agree P R (x.call f args) (y.call f args)

/-- The arguments of two renders agree: what both can name is the same, and what they call back into
agrees. `known` are the references whose components do. -/
structure CallsAgree (P : Value → Prop) (R : Bridge σ τ) (known : String → Prop)
    (c : RenderCall σ) (c' : RenderCall τ) : Prop where
  services : ServicesAgree P R c.host c'.host
  data : c.data = c'.data
  dataWithin : P c.data
  instanceKey : c.instanceKey = c'.instanceKey
  visible : c.visible = c'.visible
  block : ∀ name args, P args → Agree (fun _ => True) R (c.block name args) (c'.block name args)
  child : ∀ reference props visible, known reference → P props →
    Agree (fun _ => True) R (c.child reference props visible) (c'.child reference props visible)

/-- What the page provides agrees too. -/
def HostAgrees (P : Value → Prop) (R : Bridge σ τ) (c : RenderCall σ) (c' : RenderCall τ) : Prop :=
  c.isServer = c'.isServer ∧
    match c.hostProps, c'.hostProps with
    | none, none => True
    | some x, some y => Agree P R x y
    | _, _ => False

variable {known : String → Prop} {c : RenderCall σ} {c' : RenderCall τ}

namespace CallsAgree

theorem newIdent (h : CallsAgree P R known c c') :
    Agree (fun _ => True) R c.newIdent c'.newIdent := by
  refine Agree.update fun s t hst => ?_
  obtain ⟨hident, hworld⟩ := h.services.fresh s t hst
  exact ⟨hident, trivial, hworld⟩

theorem lookup (h : CallsAgree P R known c c') (hP : Hereditary P) {env : Environment}
    (henv : env.Within P) (name : String) :
    Agree P R (c.lookup env name) (c'.lookup env name) := by
  unfold RenderCall.lookup
  cases henvName : env.lookup? name with
  | some v => exact Agree.pure (henv.lookup henvName)
  | none =>
      have hdata := h.dataWithin
      rw [← h.data]
      cases hfield : c.data.field? name with
      | none => exact agree_failed _ _
      | some v =>
          refine Agree.pure ?_
          unfold Value.field? at hfield
          cases hd : c.data with
          | object i fields =>
              rw [hd] at hfield hdata
              exact hP.get? hdata hfield
          | _ => simp [hd, Value.fields, Table.get?] at hfield

mutual

theorem eval (h : CallsAgree P R known c c') (hP : Hereditary P) {env : Environment}
    (henv : env.Within P) :
    ∀ e : Expr, (e.readsHost = true → HostAgrees P R c c') →
      Agree P R (e.eval c env) (e.eval c' env)
  | .node kind _, hhost => evalKind h hP henv kind hhost

theorem evalKind (h : CallsAgree P R known c c') (hP : Hereditary P) {env : Environment}
    (henv : env.Within P) :
    ∀ k : ExprKind, (k.readsHost = true → HostAgrees P R c c') →
      Agree P R (Expr.evalKind c env k) (Expr.evalKind c' env k)
  | .null, _ => Agree.pure hP.null
  | .bool b, _ => Agree.pure (hP.bool b)
  | .int n, _ => Agree.pure (hP.int n)
  | .float x, _ => Agree.pure (hP.float x)
  | .str s, _ => Agree.pure (hP.str s)
  | .array items, hhost => by
      refine (evalAll h hP henv items hhost).bind fun values hvalues => ?_
      refine h.newIdent.bind fun i _ => ?_
      exact Agree.pure ((hP.array i values).mpr hvalues)
  | .object entries, hhost => by
      refine (evalEntries h hP henv entries hhost).bind fun fields hfields => ?_
      refine h.newIdent.bind fun i _ => ?_
      exact Agree.pure (hP.object i fields hfields)
  | .ident name, _ => h.lookup hP henv name
  | .data, _ => by
      rw [Expr.evalKind, Expr.evalKind, ← h.data]
      exact Agree.pure h.dataWithin
  | .instanceKey, _ => by
      rw [Expr.evalKind, Expr.evalKind, ← h.instanceKey]
      refine Agree.pure ?_
      cases c.instanceKey with
      | none => exact hP.null
      | some key => exact hP.str key
  | .hostProps, hhost => by
      have hprops := (hhost rfl).2
      rw [Expr.evalKind, Expr.evalKind]
      -- neither render has props to offer, or both have
      cases hc : c.hostProps <;> cases hc' : c'.hostProps <;> rw [hc, hc'] at hprops
      · exact Agree.pure hP.null
      · exact hprops.elim
      · exact hprops.elim
      · exact hprops
  | .isServer, hhost => by
      rw [Expr.evalKind, Expr.evalKind, (hhost rfl).1]
      exact Agree.pure (hP.bool _)
  | .member object field, hhost => by
      refine (eval h hP henv object hhost).bind fun v hv => ?_
      exact agree_ofExcept fun w hw => hP.member hv hw
  | .index object at_, hhost => by
      refine (eval h hP henv object fun ho => hhost ?_).bind fun v hv => ?_
      · simp [ExprKind.readsHost, ho]
      refine (eval h hP henv at_ fun ho => hhost ?_).bind fun key _ => ?_
      · simp [ExprKind.readsHost, ho]
      exact agree_ofExcept fun w hw => hP.index hv hw
  | .call callee args, hhost => by
      refine (eval h hP henv callee fun ho => hhost ?_).bind fun function hf => ?_
      · simp [ExprKind.readsHost, ho]
      refine (evalAll h hP henv args fun ho => hhost ?_).bind fun values hvalues => ?_
      · simp [ExprKind.readsHost, ho]
      cases function
      case function f => exact h.services.call f values hf hvalues
      all_goals exact agree_failed _ _
  | .unary op operand, hhost => by
      refine (eval h hP henv operand hhost).bind fun v _ => ?_
      exact Agree.pure (hP.unary op v)
  | .binary op left right, hhost => by
      refine (eval h hP henv left fun ho => hhost ?_).bind fun l hl => ?_
      · simp [ExprKind.readsHost, ho]
      -- the left operand may decide, and then the right one is not evaluated
      split
      · exact Agree.pure hl
      · refine (eval h hP henv right fun ho => hhost ?_).bind fun r hr => ?_
        · simp [ExprKind.readsHost, ho]
        exact Agree.pure (hP.binary op hl hr)
  | .conditional condition consequent otherwise, hhost => by
      refine (eval h hP henv condition fun ho => hhost ?_).bind fun v _ => ?_
      · simp [ExprKind.readsHost, ho]
      split
      · refine eval h hP henv consequent fun ho => hhost ?_
        simp [ExprKind.readsHost, ho]
      · refine eval h hP henv otherwise fun ho => hhost ?_
        simp [ExprKind.readsHost, ho]

theorem evalAll (h : CallsAgree P R known c c') (hP : Hereditary P) {env : Environment}
    (henv : env.Within P) :
    ∀ es : List Expr, (Expr.readsHostAll es = true → HostAgrees P R c c') →
      Agree (fun values => ∀ v ∈ values, P v) R (Expr.evalAll c env es) (Expr.evalAll c' env es)
  | [], _ => Agree.pure (by simp)
  | e :: rest, hhost => by
      refine (eval h hP henv e fun ho => hhost ?_).bind fun v hv => ?_
      · simp [Expr.readsHostAll, ho]
      refine (evalAll h hP henv rest fun ho => hhost ?_).bind fun values hvalues => ?_
      · simp [Expr.readsHostAll, ho]
      exact Agree.pure (List.forall_mem_cons.mpr ⟨hv, hvalues⟩)

theorem evalEntries (h : CallsAgree P R known c c') (hP : Hereditary P) {env : Environment}
    (henv : env.Within P) :
    ∀ es : List (String × Expr), (Expr.readsHostEntries es = true → HostAgrees P R c c') →
      Agree (fun fields => ∀ e ∈ fields, P e.2) R (Expr.evalEntries c env es)
        (Expr.evalEntries c' env es)
  | [], _ => Agree.pure (by simp)
  | (key, e) :: rest, hhost => by
      refine (eval h hP henv e fun ho => hhost ?_).bind fun v hv => ?_
      · simp [Expr.readsHostEntries, ho]
      refine (evalEntries h hP henv rest fun ho => hhost ?_).bind fun fields hfields => ?_
      · simp [Expr.readsHostEntries, ho]
      exact Agree.pure (List.forall_mem_cons.mpr ⟨hv, hfields⟩)

end

end CallsAgree

/-! ## Programs -/

/-- The machines of two renders show the same and are over related worlds. -/
structure MachinesAgree (P : Value → Prop) (R : Bridge σ τ) (m : Machine σ) (m' : Machine τ) :
    Prop where
  env : m.env = m'.env
  within : m.env.Within P
  line : m.line = m'.line
  out : m.out = m'.out
  world : R.on m.world m'.world

def Bridge.machines (P : Value → Prop) (R : Bridge σ τ) : Bridge (Machine σ) (Machine τ) where
  on := MachinesAgree P R
  failed := fun m m' => R.failed m.world m'.world
  weaken := fun _ _ hm => R.weaken _ _ hm.world

section

variable {α : Type} {Q : α → Prop}

theorem Agree.ofRun {x : Run σ α} {y : Run τ α} (hxy : Agree Q R x y) :
    Agree Q (R.machines P) (Exec.ofRun x) (Exec.ofRun y) := by
  intro m m' hm
  show AgreeAt Q (R.machines P) ((ExceptT.run x m.world).map _) ((ExceptT.run y m'.world).map _)
  refine (hxy m.world m'.world hm.world).map ?_ ?_
  · exact fun _ _ _ _ hfailed => hfailed
  · exact fun a s t ha hst => ⟨rfl, ha, hm.env, hm.within, hm.line, hm.out, hst⟩

theorem agree_execFailed (e e' : EvalError) :
    Agree Q (R.machines P) (Exec.failed e) (Exec.failed e') :=
  fun m m' hm => (R.machines P).weaken m m' hm

theorem agree_update {f : Machine σ → Machine σ} {g : Machine τ → Machine τ}
    (h : ∀ m m', MachinesAgree P R m m' → MachinesAgree P R (f m) (g m')) :
    Agree (fun _ => True) (R.machines P) (Exec.update f) (Exec.update g) :=
  fun m m' hm => ⟨rfl, trivial, h m m' hm⟩

theorem agree_atLine (line : Nat) :
    Agree (fun _ => True) (R.machines P) (Exec.atLine line) (Exec.atLine line) :=
  agree_update fun _ _ hm => { hm with line := rfl }

theorem agree_write (text : String) :
    Agree (fun _ => True) (R.machines P) (Exec.write text) (Exec.write text) :=
  agree_update fun _ _ hm => { hm with out := congrArg (· ++ text) hm.out }

theorem agree_define (name : String) {v : Value} (hv : P v) :
    Agree (fun _ => True) (R.machines P) (Exec.define name v) (Exec.define name v) :=
  agree_update fun _ _ hm =>
    { hm with
      env := congrArg (fun env => Environment.define env name v) hm.env
      within := hm.within.define hv }

theorem Agree.inScope {x : Exec σ α} {y : Exec τ α} (hxy : Agree Q (R.machines P) x y) :
    Agree Q (R.machines P) (Exec.inScope x) (Exec.inScope y) := by
  intro m m' hm
  have hinner := hxy { m with env := m.env.push } { m' with env := m'.env.push }
    { hm with env := congrArg Environment.push hm.env, within := hm.within.push }
  show AgreeAt Q (R.machines P) ((ExceptT.run x _).map _) ((ExceptT.run y _).map _)
  refine hinner.map ?_ ?_
  · exact fun _ _ _ _ hfailed => hfailed
  · intro a s t ha hn
    exact ⟨rfl, ha, { hn with env := congrArg Environment.pop hn.env, within := hn.within.pop }⟩

end

namespace CallsAgree

theorem exec_eval (h : CallsAgree P R known c c') (hP : Hereditary P) (e : Expr)
    (hhost : e.readsHost = true → HostAgrees P R c c') :
    Agree P (R.machines P) (Exec.eval c e) (Exec.eval c' e) := by
  intro m m' hm
  have hrun := (h.eval hP hm.within e hhost).ofRun (P := P) m m' hm
  show AgreeAt P (R.machines P) (ExceptT.run (Exec.ofRun (e.eval c m.env)) m)
    (ExceptT.run (Exec.ofRun (e.eval c' m'.env)) m')
  rw [← hm.env]
  exact hrun

theorem evalArgs (h : CallsAgree P R known c c') (hP : Hereditary P) (directive : String)
    (args : Expr) (hhost : args.readsHost = true → HostAgrees P R c c') :
    Agree P (R.machines P) (Exec.evalArgs c directive args)
      (Exec.evalArgs c' directive args) := by
  refine (h.exec_eval hP args hhost).bind fun v hv => ?_
  -- all but objects fail, on both sides with the same error
  cases v
  case object i fields => exact Agree.pure hv
  all_goals exact agree_execFailed _ _

theorem exec_stmt (h : CallsAgree P R known c c') (hP : Hereditary P) (s : Stmt)
    (hhost : s.value.readsHost = true → HostAgrees P R c c') :
    Agree (fun _ => True) (R.machines P) (s.exec c) (s.exec c') := by
  cases s with
  | declare name value =>
      refine (h.exec_eval hP value hhost).bind fun v hv => ?_
      exact agree_define name hv
  | assign name value =>
      refine (h.exec_eval hP value hhost).bind fun v hv => ?_
      refine Agree.get_bind fun m m' hm => ?_
      rw [← hm.env]
      cases hassign : m.env.assign? name v with
      | none => exact (R.machines P).weaken m m' hm
      | some env =>
          exact ⟨rfl, trivial, { hm with env := rfl, within := hm.within.assign hv hassign }⟩

theorem exec_stmts (h : CallsAgree P R known c c') (hP : Hereditary P) (stmts : List Stmt)
    (hhost : ∀ s ∈ stmts, s.value.readsHost = true → HostAgrees P R c c') :
    Agree (fun _ => True) (R.machines P) (Stmt.execAll c stmts) (Stmt.execAll c' stmts) := by
  induction stmts with
  | nil => exact Agree.pure trivial
  | cons s rest ih =>
      refine (h.exec_stmt hP s (hhost s List.mem_cons_self)).bind fun _ _ => ?_
      exact ih fun s hs => hhost s (List.mem_cons_of_mem _ hs)

theorem forPairs (binding : LoopBinding) (line : Nat) {body : Exec σ Unit} {body' : Exec τ Unit}
    (hbody : Agree (fun _ => True) (R.machines P) body body') (pairs : List (Value × Value))
    (hpairs : ∀ e ∈ pairs, P e.1 ∧ P e.2) :
    Agree (fun _ => True) (R.machines P) (Exec.forPairs binding line body pairs)
      (Exec.forPairs binding line body' pairs) := by
  induction pairs with
  | nil => exact Agree.pure trivial
  | cons pair rest ih =>
      obtain ⟨key, value⟩ := pair
      obtain ⟨hkey, hvalue⟩ := hpairs (key, value) List.mem_cons_self
      have hrest := ih fun e he => hpairs e (List.mem_cons_of_mem _ he)
      -- the value is bound last, over a key of the same name
      have hinner : Agree (fun _ => True) (R.machines P)
          (do Exec.define binding.value value; body) (do Exec.define binding.value value; body') :=
        (agree_define binding.value hvalue).bind fun _ _ => hbody
      refine Agree.bind (P := fun _ => True) (Agree.inScope ?_) fun _ _ =>
        (agree_atLine line).bind fun _ _ => hrest
      cases binding.key with
      | none => exact hinner
      | some name => exact (agree_define name hkey).bind fun _ _ => hinner

mutual

theorem execNode (h : CallsAgree P R known c c') (hP : Hereditary P) :
    ∀ n : Node, (∀ inner ∈ n.walk, inner.Portable (HostAgrees P R c c') known) →
      Agree (fun _ => True) (R.machines P) (n.exec c) (n.exec c')
  | .text s, _ => agree_write s
  | .interpolate e escape line, hn => by
      have he := hn _ List.mem_cons_self
      refine (agree_atLine line).bind fun _ _ => ?_
      refine (h.exec_eval hP e he).bind fun v _ => ?_
      exact agree_write _
  | .choose arms none, hn => by
      refine execArms h hP arms (hn _ List.mem_cons_self) (fun n hmem => hn n ?_)
        (Agree.pure trivial)
      simp only [Node.walk, List.mem_cons, List.mem_append]
      exact .inr (.inl hmem)
  | .choose arms (some body), hn => by
      refine execArms h hP arms (hn _ List.mem_cons_self) (fun n hmem => hn n ?_)
        (execNodes h hP body fun n hmem => hn n ?_).inScope
      · simp only [Node.walk, List.mem_cons, List.mem_append]
        exact .inr (.inl hmem)
      · simp only [Node.walk, List.mem_cons, List.mem_append]
        exact .inr (.inr hmem)
  | .loop binding subject body line, hn => by
      refine (agree_atLine line).bind fun _ _ => ?_
      refine (h.exec_eval hP subject (hn _ List.mem_cons_self)).bind fun v hv => ?_
      cases hpairs : v.loopPairs? with
      | none => exact agree_execFailed _ _
      | some pairs =>
          refine forPairs binding line (execNodes h hP body fun n hmem => hn n ?_) pairs
            (hP.loopPairs hv hpairs)
          exact List.mem_cons_of_mem _ hmem
  | .block name args line, hn => by
      refine (agree_atLine line).bind fun _ _ => ?_
      refine (h.evalArgs hP _ args (hn _ List.mem_cons_self)).bind fun v hv => ?_
      refine (h.block name v hv).ofRun.bind fun text _ => ?_
      exact agree_write text
  | .component reference args line, hn => by
      obtain ⟨hknown, hargs⟩ := hn _ List.mem_cons_self
      refine (agree_atLine line).bind fun _ _ => ?_
      refine (h.evalArgs hP _ args hargs).bind fun v hv => ?_
      rw [← h.visible]
      refine (h.child reference v _ hknown hv).ofRun.bind fun rendered _ => ?_
      exact agree_write _
  | .code stmts line, hn => by
      refine (agree_atLine line).bind fun _ _ => ?_
      exact h.exec_stmts hP stmts (hn _ List.mem_cons_self)

theorem execNodes (h : CallsAgree P R known c c') (hP : Hereditary P) :
    ∀ nodes : List Node,
      (∀ inner ∈ Node.walkAll nodes, inner.Portable (HostAgrees P R c c') known) →
      Agree (fun _ => True) (R.machines P) (Node.execAll c nodes) (Node.execAll c' nodes)
  | [], _ => Agree.pure trivial
  | n :: rest, hnodes => by
      refine (execNode h hP n fun inner hmem => hnodes inner ?_).bind fun _ _ => ?_
      · exact List.mem_append_left _ hmem
      · exact execNodes h hP rest fun inner hmem => hnodes inner (List.mem_append_right _ hmem)

theorem execArms (h : CallsAgree P R known c c') (hP : Hereditary P) {otherwise : Exec σ Unit}
    {otherwise' : Exec τ Unit} :
    ∀ arms : List Arm, (∀ a ∈ arms, a.condition.readsHost = true → HostAgrees P R c c') →
      (∀ inner ∈ Node.walkArms arms, inner.Portable (HostAgrees P R c c') known) →
      Agree (fun _ => True) (R.machines P) otherwise otherwise' →
      Agree (fun _ => True) (R.machines P) (Node.execArms c arms otherwise)
        (Node.execArms c' arms otherwise')
  | [], _, _, hotherwise => hotherwise
  | .arm condition body line :: rest, hconditions, hinner, hotherwise => by
      have hcondition := hconditions _ List.mem_cons_self
      refine (agree_atLine line).bind fun _ _ => ?_
      refine (h.exec_eval hP condition hcondition).bind fun v _ => ?_
      split
      · refine (execNodes h hP body fun n hmem => hinner n ?_).inScope
        exact List.mem_append_left _ hmem
      · refine execArms h hP rest (fun a ha => hconditions a (List.mem_cons_of_mem _ ha))
          (fun n hmem => hinner n (List.mem_append_right _ hmem)) hotherwise

end

/-- Renders of one program agree when their services do. -/
theorem execute (h : CallsAgree P R known c c') (hP : Hereditary P) (p : Program)
    (hp : ∀ n ∈ Node.walkAll p.nodes, n.Portable (HostAgrees P R c c') known) {s : σ} {t : τ}
    (hst : R.on s t) : AgreeAt (fun _ => True) R (p.execute c s) (p.execute c' t) := by
  have hstart : MachinesAgree P R (Machine.start s) (Machine.start t) :=
    ⟨rfl, Environment.within_empty, rfl, rfl, hst⟩
  unfold Program.execute
  refine (h.execNodes hP p.nodes hp _ _ hstart).map ?_ ?_
  · exact fun _ _ _ _ hfailed => hfailed
  · exact fun _ m m' _ hm => ⟨hm.out, trivial, hm.world⟩

theorem run_render_bind {α : Type} (t : Template) (c : RenderCall σ) (f : Rendered → Run σ α)
    (s : σ) : ExceptT.run (t.render c >>= f) s =
      (t.program.execute c s).bind fun (rendered, s') => ExceptT.run (f rendered) s' := by
  have hrun : ExceptT.run (t.render c) s =
      (t.program.execute c s).map fun (result, s') => (.ok result, s') := rfl
  rw [run_bind, hrun]
  cases t.program.execute c s <;> rfl

/-- What is done with renders that agree: the same with one markup, a failure with a failure. -/
theorem render_bind (h : CallsAgree P R known c c') (hP : Hereditary P) (t : Template)
    (ht : ∀ n ∈ Node.walkAll t.program.nodes, n.Portable (HostAgrees P R c c') known) {α : Type}
    {Q : α → Prop} {f : Rendered → Run σ α} {g : Rendered → Run τ α}
    (hok : ∀ html, Agree Q R (f (.ok html)) (g (.ok html)))
    (herror : ∀ e e', ∃ x y, f (.error e) = Run.failed x ∧ g (.error e') = Run.failed y) :
    Agree Q R (t.render c >>= f) (t.render c' >>= g) := by
  intro s s' hst
  rw [run_render_bind, run_render_bind]
  obtain ⟨hs, ht⟩ | ⟨e, s₁, e', s₁', hs, ht, hfailed⟩ | ⟨html, s₁, s₁', hs, ht, -, hst⟩ :=
    (h.execute hP t.program ht hst).cases
  · rw [hs, ht]
    trivial
  · obtain ⟨x, y, hx, hy⟩ := herror e e'
    rw [hs, ht]
    show AgreeAt Q R (ExceptT.run (f (.error e)) s₁) (ExceptT.run (g (.error e')) s₁')
    rw [hx, hy]
    exact hfailed
  · rw [hs, ht]
    exact hok html s₁ s₁' hst

end CallsAgree

/-! ## Blocks -/

theorem ServicesAgree.blocks {x : Host σ} {y : Host τ} (h : ServicesAgree P R x y)
    (hP : Hereditary P) (blocks : Blocks) (budget : Nat) (name : String) {args : Value}
    (hargs : P args) :
    Agree (fun _ => True) R (Blocks.render blocks x budget name args)
      (Blocks.render blocks y budget name args) := by
  induction budget generalizing name args with
  | zero => exact fun _ _ _ => trivial
  | succ budget ih =>
      show Agree _ R (Blocks.renderWith blocks x _ name args) (Blocks.renderWith blocks y _ name args)
      unfold Blocks.renderWith
      cases Table.get? name blocks with
      | none => exact Agree.pure trivial
      | some t =>
          have hcalls : CallsAgree P R (fun _ => True)
              { RenderCall.plain x args with block := Blocks.render blocks x budget }
              { RenderCall.plain y args with block := Blocks.render blocks y budget } :=
            { services := h
              data := rfl
              dataWithin := hargs
              instanceKey := rfl
              visible := rfl
              block := fun name args hargs => ih name hargs
              child := fun _ _ _ _ _ => agree_failed _ _ }
          refine hcalls.render_bind hP t (fun n _ => n.portable_of ⟨rfl, trivial⟩ fun _ => trivial)
            (fun html => Agree.pure trivial) fun e e' => ⟨_, _, rfl, rfl⟩

end

end LiveMarkup
