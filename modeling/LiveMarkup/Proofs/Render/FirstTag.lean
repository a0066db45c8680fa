import LiveMarkup.Proofs.Document.FirstElement
import LiveMarkup.Proofs.Engine.RootMark
import LiveMarkup.Proofs.Render.Escaping
import LiveMarkup.Proofs.Render.Meaning
set_option autoImplicit false

/-! # The first tag of a render

Which tag comes first in an output depends on the branches that are taken and on how often loops
run, which no look at the source can tell. It can be told where there is no choice: the text that
opens the first tag may stand in one branch of an `if`, or in a loop, if all that is shown without
it has no tag (`Node.Leads`).

Then an output begins with text that leaves no markup open, and goes on with that tag or ends
(`Program.marked_or_settled`). What is shown of values does not matter, since it is escaped. If the
tag is marked with the instance key, then so is the first element of the output. -/

namespace LiveMarkup

open Text
open Piece (Settled unifyLineEnds markedTag)

/-! ## Literal text -/

/-- Literal text without a start tag, which closes all markup that it opens. -/
structure Text.Bare (s : String) : Prop where
  tagless : ComponentSource.cutAtFirstTag? s.toList = none
  settled : Settled (unifyLineEnds s.toList)

/-- Literal text whose first start tag stands behind text that is settled. -/
def Text.Opens (s : String) : Prop :=
  ∃ before c name after,
    ComponentSource.cutAtFirstTag? s.toList = some (before ++ '<' :: c :: name, after) ∧
    isAsciiLetter c = true ∧ (∀ d ∈ name, ComponentSource.isTagNameChar d = true) ∧
    Settled (unifyLineEnds before)

/-! ## Where a program has its first tag -/

namespace Node

/-- Nodes whose texts are all bare. -/
def Bare (nodes : List Node) : Prop := ∀ s, text s ∈ walkAll nodes → Text.Bare s

/-- Arms whose texts are all bare. -/
def BareArms (arms : List Arm) : Prop := ∀ s, text s ∈ walkArms arms → Text.Bare s

/-- A node that runs a body at most, or over and over, and shows nothing but bare text beside it: a
loop, or an `if` with the body as one branch and only bare text in the others. -/
inductive Encloses : Node → List Node → Prop
  | loop (binding : LoopBinding) (subject : Expr) (body : List Node) (line : Nat) :
    Encloses (.loop binding subject body line) body
  | arm {before after : List Arm} (condition : Expr) (body : List Node) (line : Nat)
    {otherwise : Option (List Node)} : BareArms before → BareArms after →
    (∀ nodes, otherwise = some nodes → Bare nodes) →
    Encloses (.choose (before ++ .arm condition body line :: after) otherwise) body
  | otherwise {arms : List Arm} (body : List Node) : BareArms arms →
    Encloses (.choose arms (some body)) body

/-- Nodes in which whatever is shown begins, apart from bare text, at one place: with nodes of a
kind. At the top nothing is asked of what comes behind them; inside of a branch or a body that may
be passed over, the nodes outside are bare. -/
inductive Leads (first : List Node → Prop) : List Node → Prop
  | here {before rest : List Node} : Bare before → first rest → Leads first (before ++ rest)
  | inside {before after body : List Node} {n : Node} : Bare before → Bare after →
    Encloses n body → Leads first body → Leads first (before ++ n :: after)

/-- Nodes that start with a text that opens a tag. -/
def StartsTag (nodes : List Node) : Prop := ∃ s rest, nodes = .text s :: rest ∧ Text.Opens s

/-- Nodes that start with a tag that is marked with the instance key. -/
def StartsMarked (nodes : List Node) : Prop :=
  ∃ before c name e line behind rest,
    nodes = .text (String.ofList (before ++ '<' :: c :: name ++ ComponentSource.markHead)) ::
      .interpolate e true line :: .text (String.ofList ('"' :: behind)) :: rest ∧
    e.kind = .instanceKey ∧ isAsciiLetter c = true ∧
    (∀ d ∈ name, ComponentSource.isTagNameChar d = true) ∧ Settled (unifyLineEnds before)

end Node

/-! ## Output -/

/-- Output whose first tag, behind settled text, is marked. -/
def Text.Marked (k out : String) : Prop :=
  ∃ before c name behind, out.toList = before ++ '<' :: markedTag (c :: name) k.toList behind ∧
    isAsciiLetter c = true ∧ (∀ d ∈ name, ComponentSource.isTagNameChar d = true) ∧
    Settled (unifyLineEnds before)

theorem Text.Marked.append {k out : String} (h : Marked k out) (s : String) :
    Marked k (out ++ s) := by
  obtain ⟨before, c, name, behind, hout, hc, hname, hbefore⟩ := h
  refine ⟨before, c, name, behind ++ s.toList, ?_, hc, hname, hbefore⟩
  rw [String.toList_append, hout, List.append_assoc, List.cons_append,
    Piece.markedTag_append _ _ behind, Piece.markedTag_append _ _ (behind ++ _), List.append_assoc]

theorem Piece.not_mem_unifyLineEnds {c : Char} {s : List Char} (hc : c ≠ '\n') (h : c ∉ s) :
    c ∉ unifyLineEnds s := by
  fun_induction unifyLineEnds s with
  | case1 s ih => simp_all
  | case2 s _ ih => simp_all
  | case3 d s _ _ ih => simp_all
  | case4 => exact h

theorem Text.Inert.settled {s : String} (h : Inert s) : Settled (unifyLineEnds s.toList) := by
  refine Piece.settled_of_not_mem (Piece.not_mem_unifyLineEnds (by decide) fun hmem => ?_)
  exact h.plain _ hmem (by decide)

/-- What is put together from bare text and inert text is settled. -/
theorem Assembled.settled {out : String} (h : Assembled Text.Bare out) :
    Settled (unifyLineEnds out.toList) := by
  obtain ⟨chunks, rfl, hchunks⟩ := h
  induction chunks with
  | nil => exact .nil
  | cons s rest ih =>
      obtain ⟨hs, hrest⟩ := List.forall_mem_cons.mp hchunks
      rw [String.join_cons, String.toList_append]
      exact Piece.settled_unifyLineEnds_append (hs.elim Text.Bare.settled Text.Inert.settled)
        (ih hrest)

/-! ## Runs -/

section

variable {σ α β : Type} {c : RenderCall σ} {k : String}

/-- A step that, when it succeeds, has only added to the output. -/
def Exec.Grows (x : Exec σ Unit) : Prop :=
  ∀ m m', ExceptT.run x m = some (.ok (), m') → ∃ s, m'.out = m.out ++ s

theorem Realizes.grows {lines : Nat → Option Nat} {x : Exec σ Unit} {a : Fragment σ}
    (h : Realizes lines (fun _ => True) x a) : Exec.Grows x := by
  intro m m' hx
  have hm := h m trivial
  rw [hx] at hm
  generalize ExceptT.run (a m.env) m.world = r at hm
  cases hm with
  | shown s env line world => exact ⟨s, rfl⟩

theorem Node.grows_execAll (c : RenderCall σ) (nodes : List Node) : Exec.Grows (execAll c nodes) :=
  (realizes_execAll c nodes 0 (linesFrom_self [] (flattenAll nodes))).grows

/-- A step that keeps machines harmless, when it succeeds. -/
theorem Exec.Harmless.of_run {own : String → Prop} {P : α → Prop} {x : Exec σ α}
    (h : Exec.Harmless own P x) {m m' : Machine σ} {a : α} (hm : m.Harmless own)
    (hx : ExceptT.run x m = some (.ok a, m')) : P a ∧ m'.Harmless own := by
  have hkept := h m m ⟨rfl, hm⟩
  rw [hx] at hkept
  obtain ⟨-, ha, -, hm'⟩ := hkept
  exact ⟨ha, hm'⟩

/-- A step that, when it succeeds, shows bare text only, or a marked tag first. -/
def Exec.Heads (k : String) (x : Exec σ Unit) : Prop :=
  ∀ m m', m.Harmless Text.Bare → ExceptT.run x m = some (.ok (), m') →
    m'.Harmless Text.Bare ∨ Text.Marked k m'.out

theorem Exec.Harmless.heads {x : Exec σ Unit} (h : Exec.Harmless Text.Bare (fun _ => True) x) :
    Exec.Heads k x :=
  fun _ _ hm hx => .inl (h.of_run hm hx).2

theorem Exec.Heads.andThen {x y : Exec σ Unit} (hx : Exec.Heads k x) (hy : Exec.Heads k y)
    (hgrows : Exec.Grows y) : Exec.Heads k (do x; y) := by
  intro m m'' hm hrun
  obtain ⟨_, m', hfirst, hsecond⟩ := run_bind_eq_ok_iff.mp hrun
  rcases hx m m' hm hfirst with hm' | hmarked
  · exact hy m' m'' hm' hsecond
  · obtain ⟨s, hs⟩ := hgrows m' m'' hsecond
    rw [hs]
    exact .inr (hmarked.append s)

theorem Exec.Heads.inScope {x : Exec σ Unit} (hx : Exec.Heads k x) :
    Exec.Heads k (Exec.inScope x) := by
  intro m m' hm hrun
  replace hrun : (ExceptT.run x { m with env := m.env.push }).map _ = _ := hrun
  obtain ⟨⟨result, m₁⟩, hinner, hresult⟩ := Option.map_eq_some_iff.mp hrun
  obtain ⟨rfl, rfl⟩ := Prod.mk.inj hresult
  rcases hx { m with env := m.env.push } m₁ ⟨hm.within.push, hm.out⟩ hinner with hm₁ | hmarked
  · exact .inl ⟨hm₁.within.pop, hm₁.out⟩
  · exact .inr hmarked

theorem Exec.Heads.atLine {x : Exec σ Unit} (hx : Exec.Heads k x) (line : Nat) :
    Exec.Heads k (do Exec.atLine line; x) :=
  fun m m' hm hrun => hx { m with line } m' ⟨hm.within, hm.out⟩ hrun

theorem Exec.Heads.binding {x : Exec σ Unit} (hx : Exec.Heads k x) (name : String) {v : Value}
    (hv : v.Unmarked) : Exec.Heads k (do Exec.define name v; x) :=
  fun m m' hm hrun =>
    hx { m with env := m.env.define name v } m' ⟨hm.within.define hv, hm.out⟩ hrun

theorem RenderCall.Unmarked.heads_eval (hc : c.Unmarked) (e : Expr) {f : Value → Exec σ Unit}
    (h : ∀ v, v.Unmarked → Exec.Heads k (f v)) : Exec.Heads k (Exec.eval c e >>= f) := by
  intro m m'' hm hrun
  obtain ⟨v, m', heval, hrest⟩ := run_bind_eq_ok_iff.mp hrun
  obtain ⟨hv, hm'⟩ := (hc.harmless_eval e).of_run hm heval
  exact h v hv m' m'' hm' hrest

theorem Exec.Heads.forPairs {body : Exec σ Unit} {lines : Nat → Option Nat} {a : Fragment σ}
    (hbody : Exec.Heads k body) (hgrows : Realizes lines (fun _ => True) body a)
    (names : LoopBinding) (line : Nat) (pairs : List (Value × Value))
    (hpairs : ∀ e ∈ pairs, e.1.Unmarked ∧ e.2.Unmarked) :
    Exec.Heads k (Exec.forPairs names line body pairs) := by
  induction pairs with
  | nil => exact fun m m' hm hrun => by cases hrun; exact .inl hm
  | cons pair rest ih =>
      obtain ⟨key, value⟩ := pair
      obtain ⟨hkey, hvalue⟩ := hpairs (key, value) List.mem_cons_self
      have hrest := ih fun e he => hpairs e (List.mem_cons_of_mem _ he)
      have hbound := hbody.binding names.value hvalue
      refine Exec.Heads.andThen (Exec.Heads.inScope ?_) (hrest.atLine line)
        (realizes_atLine (hgrows.forPairs names line rest)).grows
      cases names.key with
      | none => exact hbound
      | some name => exact hbound.binding name hkey

/-! ## Programs -/

namespace Node

theorem walkAll_append (a b : List Node) : walkAll (a ++ b) = walkAll a ++ walkAll b := by
  induction a with
  | nil => rfl
  | cons n rest ih => rw [List.cons_append, walkAll, walkAll, ih, List.append_assoc]

theorem walkArms_append (a b : List Arm) : walkArms (a ++ b) = walkArms a ++ walkArms b := by
  induction a with
  | nil => rfl
  | cons arm rest ih =>
      cases arm
      rw [List.cons_append, walkArms, walkArms, ih, List.append_assoc]

theorem mem_walk_of_arms {arms : List Arm} {inner : Node} (h : inner ∈ walkArms arms)
    (otherwise : Option (List Node)) : inner ∈ (choose arms otherwise).walk := by
  cases otherwise <;> exact List.mem_cons_of_mem _ (List.mem_append_left _ h)

theorem mem_walk_of_otherwise {body : List Node} {inner : Node} (h : inner ∈ walkAll body)
    (arms : List Arm) : inner ∈ (choose arms (some body)).walk :=
  List.mem_cons_of_mem _ (List.mem_append_right _ h)

theorem Encloses.walk_subset {n : Node} {body : List Node} (h : Encloses n body) :
    walkAll body ⊆ n.walk := by
  intro inner hinner
  cases h with
  | loop binding subject _ line => exact List.mem_cons_of_mem _ hinner
  | arm condition _ line _ _ _ =>
      refine mem_walk_of_arms ?_ _
      rw [walkArms_append]
      exact List.mem_append_right _ (List.mem_append_left _ hinner)
  | otherwise _ _ => exact mem_walk_of_otherwise hinner _

end Node

namespace RenderCall.Unmarked

variable {nodes body : List Node} {n : Node}

theorem heads_bare (hc : c.Unmarked) (hnodes : ∀ n ∈ Node.walkAll nodes, n.Escaping)
    (hbare : Node.Bare nodes) : Exec.Heads k (Node.execAll c nodes) :=
  (hc.harmless_nodes nodes hnodes hbare).heads

/-- Arms with bare bodies may be run instead of what comes after them. -/
theorem heads_arms (hc : c.Unmarked) {before after : List Arm} {otherwise : Exec σ Unit}
    (hescaping : ∀ n ∈ Node.walkArms before, n.Escaping) (hbefore : Node.BareArms before)
    (hafter : Exec.Heads k (Node.execArms c after otherwise)) :
    Exec.Heads k (Node.execArms c (before ++ after) otherwise) := by
  induction before with
  | nil => exact hafter
  | cons arm rest ih =>
      obtain ⟨condition, body, line⟩ := arm
      have hrest := ih (fun n hn => hescaping n (List.mem_append_right _ hn))
        fun s hs => hbefore s (List.mem_append_right _ hs)
      refine Exec.Heads.atLine (hc.heads_eval condition fun v _ => ?_) line
      split
      · refine (hc.heads_bare (fun n hn => hescaping n ?_) fun s hs => hbefore s ?_).inScope
        · exact List.mem_append_left _ hn
        · exact List.mem_append_left _ hs
      · exact hrest

/-- The arm that is run in the place of bare ones. -/
theorem heads_arm (hc : c.Unmarked) {before after : List Arm} {condition : Expr} {line : Nat}
    {otherwise : Exec σ Unit}
    (hescaping : ∀ n ∈ Node.walkArms (before ++ .arm condition body line :: after), n.Escaping)
    (hbefore : Node.BareArms before) (hafter : Node.BareArms after)
    (hbody : Exec.Heads k (Node.execAll c body))
    (hotherwise : Exec.Harmless Text.Bare (fun _ => True) otherwise) :
    Exec.Heads k (Node.execArms c (before ++ .arm condition body line :: after) otherwise) := by
  rw [Node.walkArms_append] at hescaping
  have hrest : ∀ n ∈ Node.walkArms after, n.Escaping := fun n hn =>
    hescaping n (List.mem_append_right _ (List.mem_append_right _ hn))
  refine hc.heads_arms (fun n hn => hescaping n (List.mem_append_left _ hn)) hbefore ?_
  refine Exec.Heads.atLine (hc.heads_eval condition fun v _ => ?_) line
  split
  · exact hbody.inScope
  · exact (hc.harmless_arms after hrest hafter hotherwise).heads

theorem heads_encloses (hc : c.Unmarked) (h : Node.Encloses n body)
    (hn : ∀ inner ∈ n.walk, inner.Escaping) (hbody : Exec.Heads k (Node.execAll c body)) :
    Exec.Heads k (n.exec c) := by
  cases h with
  | loop binding subject _ line =>
      rw [Node.exec]
      refine Exec.Heads.atLine (hc.heads_eval subject fun v hv => ?_) line
      cases hpairs : v.loopPairs? with
      | none => exact (harmless_failed _).heads
      | some pairs =>
          exact hbody.forPairs
            (Node.realizes_execAll c body 0 (linesFrom_self [] (Node.flattenAll body)))
            binding line pairs (Value.hereditary_unmarked.loopPairs hv hpairs)
  | @arm before after condition _ line otherwise hbefore hafter hotherwise =>
      have harms : ∀ inner ∈ Node.walkArms (before ++ .arm condition body line :: after),
          inner.Escaping := fun inner hinner => hn inner (Node.mem_walk_of_arms hinner otherwise)
      cases otherwise with
      | none =>
          rw [Node.exec]
          exact hc.heads_arm harms hbefore hafter hbody (Agree.pure trivial)
      | some nodes =>
          have hnodes : ∀ inner ∈ Node.walkAll nodes, inner.Escaping :=
            fun inner hinner => hn inner (Node.mem_walk_of_otherwise hinner _)
          rw [Node.exec]
          exact hc.heads_arm harms hbefore hafter hbody
            (harmless_inScope (hc.harmless_nodes nodes hnodes (hotherwise nodes rfl)))
  | @otherwise arms _ harms =>
      have hescaping : ∀ inner ∈ Node.walkArms arms, inner.Escaping :=
        fun inner hinner => hn inner (Node.mem_walk_of_arms hinner _)
      have hrest : Exec.Heads k (Node.execArms c [] (Exec.inScope (Node.execAll c body))) :=
        hbody.inScope
      have hall := hc.heads_arms hescaping harms hrest
      rw [List.append_nil] at hall
      rw [Node.exec]
      exact hall

/-- Reading the instance key. -/
theorem run_eval_instanceKey (hk : c.instanceKey = some k) {e : Expr} (he : e.kind = .instanceKey)
    (m : Machine σ) : ExceptT.run (Exec.eval c e) m = some (.ok (.str k), m) := by
  obtain ⟨kind, span⟩ := e
  obtain rfl : kind = .instanceKey := he
  have heval : Expr.eval c m.env (.node .instanceKey span) = pure (.str k) := by
    rw [Expr.eval, Expr.evalKind, hk]
    rfl
  rw [computes_eval c _ m]
  dsimp only
  rw [heval]
  rfl

/-- An escaped interpolation of the instance key between two texts. -/
theorem run_marked (hk : c.instanceKey = some k) {e : Expr} (he : e.kind = .instanceKey)
    (s t : String) (line : Nat) (rest : List Node) (m : Machine σ) :
    ExceptT.run (Node.execAll c (.text s :: .interpolate e true line :: .text t :: rest)) m =
      ExceptT.run (Node.execAll c rest)
        { m with line, out := m.out ++ s ++ escapeMarkup k ++ t } := by
  have hkey : ExceptT.run (Node.exec c (.interpolate e true line)) { m with out := m.out ++ s } =
      some (.ok (), { m with line, out := m.out ++ s ++ escapeMarkup k }) := by
    rw [Node.exec]
    show ExceptT.run (Exec.eval c e >>= _) { m with line, out := m.out ++ s } = _
    rw [run_bind, run_eval_instanceKey hk he]
    rfl
  rw [Node.execAll, Node.execAll, Node.execAll, Node.exec, Node.exec]
  show ExceptT.run (Node.exec c (.interpolate e true line) >>= _) { m with out := m.out ++ s } = _
  rw [run_bind, hkey]
  rfl

theorem heads_marked (hk : c.instanceKey = some k) (h : Node.StartsMarked nodes) :
    Exec.Heads k (Node.execAll c nodes) := by
  obtain ⟨before, c', name, e, line, behind, rest, rfl, he, hletter, hname, hbefore⟩ := h
  intro m m' hm hrun
  rw [run_marked hk he] at hrun
  obtain ⟨shown, hshown⟩ := Node.grows_execAll c rest _ _ hrun
  have hmarked : Text.Marked k (m.out ++ String.ofList (before ++ '<' :: c' :: name ++
      ComponentSource.markHead) ++ escapeMarkup k ++ String.ofList ('"' :: behind)) := by
    refine ⟨m.out.toList ++ before, c', name, behind, ?_, hletter, hname,
      Piece.settled_unifyLineEnds_append hm.out.settled hbefore⟩
    simp [markedTag, escapeMarkup, ComponentSource.markHead]
  rw [hshown]
  exact .inr (hmarked.append shown)

/-- What is shown begins with bare text and the marked tag, or is bare. -/
theorem heads_leads (hc : c.Unmarked) (hk : c.instanceKey = some k)
    (h : Node.Leads Node.StartsMarked nodes) (hnodes : ∀ n ∈ Node.walkAll nodes, n.Escaping) :
    Exec.Heads k (Node.execAll c nodes) := by
  induction h with
  | @here before rest hbefore hrest =>
      rw [Node.walkAll_append] at hnodes
      have hfirst : Exec.Heads k (Node.execAll c before) :=
        hc.heads_bare (fun n hn => hnodes n (List.mem_append_left _ hn)) hbefore
      rw [Node.execAll_append]
      exact hfirst.andThen (heads_marked hk hrest) (Node.grows_execAll c rest)
  | @inside before after body n hbefore hafter hencloses hbody ih =>
      rw [Node.walkAll_append, Node.walkAll] at hnodes
      have hfirst : Exec.Heads k (Node.execAll c before) :=
        hc.heads_bare (fun n hn => hnodes n (List.mem_append_left _ hn)) hbefore
      have hn : ∀ inner ∈ n.walk, inner.Escaping := fun inner hinner =>
        hnodes inner (List.mem_append_right _ (List.mem_append_left _ hinner))
      have hlast : Exec.Heads k (Node.execAll c after) := hc.heads_bare (fun n hn =>
        hnodes n (List.mem_append_right _ (List.mem_append_right _ hn))) hafter
      have hinside := hc.heads_encloses hencloses hn (ih fun inner hinner =>
        hn inner (hencloses.walk_subset hinner))
      rw [Node.execAll_append]
      exact hfirst.andThen (hinside.andThen hlast (Node.grows_execAll c after))
        (Node.grows_execAll c (n :: after))

end RenderCall.Unmarked

/-- A render shows bare text only, or the marked tag first. -/
theorem Program.marked_or_settled {p : Program} (hp : ∀ n ∈ Node.walkAll p.nodes, n.Escaping)
    (hlead : Node.Leads Node.StartsMarked p.nodes) (hc : c.Unmarked) (hk : c.instanceKey = some k)
    {world world' : σ} {out : String} (hrun : p.execute c world = some (.ok out, world')) :
    Settled (unifyLineEnds out.toList) ∨ Text.Marked k out := by
  have hstart : (Machine.start world).Harmless Text.Bare :=
    ⟨Environment.within_empty, assembled_empty _⟩
  obtain ⟨⟨result, m⟩, hexec, hshown⟩ := Option.map_eq_some_iff.mp hrun
  cases result with
  | error e => simp at hshown
  | ok _ =>
      obtain ⟨rfl, -⟩ : m.out = out ∧ m.world = world' := by simpa using hshown
      rcases hc.heads_leads hk hlead hp _ m hstart hexec with hm | hmarked
      · exact .inl hm.out.settled
      · exact .inr hmarked

/-- So the first element of what is shown has the mark. -/
theorem Program.attribute?_firstElementChild? {p : Program}
    (hp : ∀ n ∈ Node.walkAll p.nodes, n.Escaping)
    (hlead : Node.Leads Node.StartsMarked p.nodes) (hc : c.Unmarked) (hk : c.instanceKey = some k)
    (hnull : '\x00' ∉ k.toList) (hreturn : '\r' ∉ k.toList)
    {world world' : σ} {out : String} (hrun : p.execute c world = some (.ok out, world'))
    {x : NodeId} (hx : (Document.parse out).firstElementChild? Document.root = some x) :
    (Document.parse out).attribute? x rootAttribute = some k := by
  rcases Program.marked_or_settled hp hlead hc hk hrun with hsettled | hmarked
  · rw [Document.firstElementChild?_parse_settled hsettled] at hx
    cases hx
  · obtain ⟨before, c', name, behind, hout, hletter, hname, hbefore⟩ := hmarked
    have hattribute := Document.attribute?_firstElementChild?_parse hbefore hletter hname hnull
      hreturn hout hx
    rwa [String.ofList_toList] at hattribute

end

end LiveMarkup
