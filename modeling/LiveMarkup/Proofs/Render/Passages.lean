import LiveMarkup.Engine.Template
import LiveMarkup.Proofs.Render.Meaning
import LiveMarkup.Proofs.Template.Written
set_option autoImplicit false

/-! # Templates of text, values, conditions and loops

A template is written down from a tree of passages (`Passage.source`), and what it has to show is
told by the same tree without any source (`Passage.shownAll`). Building the one and rendering it
gives the other, for every record with the three fields that the directives ask for
(`Passage.render_source`).

The proof follows the stretches of the source. What is read of some of them is a list of nodes and a
run of text that is not yet ended; the two together show what the stretches are to show
(`Compiles`). -/

namespace LiveMarkup

open Text

/-! ## Passages -/

/-- A text, a value, or passages under a condition or in a loop. -/
inductive Passage where
  | text (s : String)
  | value
  | choose (body : List Passage)
  | loop (body : List Passage)

/-- The directives that passages are written with. -/
inductive Clause where
  | value
  | choice
  | loop
  | close

def Clause.text : Clause → String
  | value => "value"
  | choice => "if (flag)"
  | loop => "for (i, item in items)"
  | close => "/"

/-- The blanks that stand around the directives of each kind. -/
structure Spacing where
  before : Clause → List Char
  behind : Clause → List Char
  blank : ∀ clause, ∀ c ∈ before clause ++ behind clause, isBlank c = true

/-- What stands between the delimiters of a directive. -/
def Spacing.body (s : Spacing) (clause : Clause) : List Char :=
  s.before clause ++ clause.text.toList ++ s.behind clause

/-- The fields that the directives ask a record for. -/
structure Fields where
  flag : Value
  value : Value
  items : List Value

/-- A record has these fields, and perhaps others. -/
structure Fields.Of (f : Fields) (record : Value) : Prop where
  flag : record.field? "flag" = some f.flag
  value : record.field? "value" = some f.value
  items : ∃ i, record.field? "items" = some (.array i f.items)

namespace Passage

mutual

/-- The stretches that a passage is written with. -/
def stretches (s : Spacing) : Passage → List Stretch
  | text t => [.text t.toList]
  | value => [.directive (s.body .value)]
  | choose body =>
    .directive (s.body .choice) :: (stretchesAll s body ++ [.directive (s.body .close)])
  | loop body => .directive (s.body .loop) :: (stretchesAll s body ++ [.directive (s.body .close)])

def stretchesAll (s : Spacing) : List Passage → List Stretch
  | [] => []
  | p :: rest => stretches s p ++ stretchesAll s rest

end

/-- The template source of passages. -/
def source (d : Delimiters) (s : Spacing) (ps : List Passage) : String :=
  String.ofList (Stretch.written d (stretchesAll s ps))

mutual

/-- What a passage is to show. -/
def shown (f : Fields) : Passage → String
  | text t => t
  | value => f.value.safe
  | choose body => if f.flag.isTruthy then shownAll f body else ""
  | loop body => String.join (List.replicate f.items.length (shownAll f body))

def shownAll (f : Fields) : List Passage → String
  | [] => ""
  | p :: rest => shown f p ++ shownAll f rest

end

end Passage

/-! ## Directives as they are read -/

namespace Clause

/-- The kind of directive that a clause is read as. -/
def kind : Clause → DirectiveKind
  | value => .escaped
  | choice => .ifKind
  | loop => .forKind
  | close => .close

/-- The part of a clause that is read on. -/
def content : Clause → String
  | value => "value"
  | choice => "flag)"
  | loop => "i, item in items)"
  | close => ""

theorem trimStart_text (clause : Clause) (behind : List Char) :
    trimStart (clause.text.toList ++ behind) = clause.text.toList ++ behind := by
  cases clause <;> rfl

theorem classify_text (clause : Clause) (behind : List Char) :
    Directive.classify (clause.text.toList ++ behind) =
      (clause.kind, clause.content.toList ++ behind) := by
  cases clause <;> rfl

theorem trim_content (clause : Clause) {behind : List Char}
    (h : ∀ c ∈ behind, isBlank c = true) :
    trimEnd (trimStart (clause.content.toList ++ behind)) = clause.content.toList := by
  have hcontent : trimEnd (clause.content.toList ++ behind) = clause.content.toList := by
    rw [Directive.trimEnd_blank h]
    cases clause <;> rfl
  cases clause with
  | value | choice | loop => exact hcontent
  | close =>
      have hblank : trimStart (behind ++ []) = trimStart [] := Directive.trimStart_blank h []
      rw [List.append_nil] at hblank
      show trimEnd (trimStart behind) = []
      rw [hblank]
      rfl

end Clause

theorem Spacing.content_body (s : Spacing) (clause : Clause) :
    (Directive.content (s.body clause)).1 = clause.kind ∧
      (Directive.content (s.body clause)).2.2 = clause.content.toList := by
  have hbefore : ∀ c ∈ s.before clause, isBlank c = true :=
    fun c hc => s.blank clause c (List.mem_append_left _ hc)
  have hbehind : ∀ c ∈ s.behind clause, isBlank c = true :=
    fun c hc => s.blank clause c (List.mem_append_right _ hc)
  have htrim : trimStart (s.body clause) = clause.text.toList ++ s.behind clause := by
    rw [Spacing.body, List.append_assoc, Directive.trimStart_blank hbefore,
      clause.trimStart_text]
  unfold Directive.content
  rw [htrim, clause.classify_text]
  exact ⟨rfl, clause.trim_content hbehind⟩

namespace Segment

/-- The directive of a clause as a segment. -/
theorem exists_ofClause (s : Spacing) (clause : Clause) (offset line : Nat) :
    ∃ span, ofDirective offset line (s.body clause) =
      ⟨.directive clause.kind, clause.content.toList, span, line⟩ := by
  obtain ⟨hkind, hcontent⟩ := s.content_body clause
  rw [ofDirective_eq, hkind, hcontent]
  exact ⟨_, rfl⟩

end Segment

/-- Reading on behind a run of text at a clause. -/
theorem exists_foldlM_clause (d : Delimiters) (s : Spacing) (before run : List Char)
    (clause : Clause) :
    ∃ before' span line, ∀ u rest, (Stretch.segments d before
        (Stretch.joined run (.directive (s.body clause) :: rest))).foldlM Unfinished.step u =
      ((u.pushAll (Node.ofRun run)).step
        ⟨.directive clause.kind, clause.content.toList, span, line⟩ >>= fun u =>
          (Stretch.segments d before' (Stretch.joined [] rest)).foldlM Unfinished.step u) := by
  obtain ⟨span, hsegment⟩ := Segment.exists_ofClause s clause
    (byteLength (before ++ run) + byteLength d.opening.toList) (lineFeeds (before ++ run) + 1)
  refine ⟨before ++ run ++ d.around (s.body clause), span, lineFeeds (before ++ run) + 1,
    fun u rest => ?_⟩
  rw [Stretch.joined, Stretch.segments_append, Stretch.segments_ofRun, Stretch.written_ofRun,
    Stretch.segments, hsegment, List.foldlM_append, foldlM_ofRun]
  rfl

/-! ## What the clauses are read as -/

theorem exists_step_value (span : Span) (line : Nat) :
    ∃ e : Expr, e.kind = .ident "value" ∧ ∀ u : Unfinished,
      u.step ⟨.directive .escaped, "value".toList, span, line⟩ =
        .ok (u.push (.interpolate e true line)) := by
  have hspells : Spells "value".toList [.ident "value"] := .cons rfl rfl .nil
  obtain ⟨e, he, hread⟩ := Content.exists_expression (c := ⟨"value".toList, span, line⟩) hspells
    (Grammar.Derives.ident (by decide))
  exact ⟨e, Expr.kind_of_bare he, fun u => ok_bind hread⟩

theorem exists_step_choice (span : Span) (line : Nat) :
    ∃ e : Expr, e.kind = .ident "flag" ∧ ∀ u : Unfinished,
      u.step ⟨.directive .ifKind, "flag)".toList, span, line⟩ =
        .ok (u.opened (.choose [] (some (e, line)) span line)) := by
  have hspells : Spells "flag)".toList [.ident "flag", .punct .rparen] :=
    .cons rfl rfl (.cons rfl rfl .nil)
  obtain ⟨e, he, hread⟩ := Content.exists_condition (c := ⟨"flag)".toList, span, line⟩)
    (w := [.ident "flag"]) hspells (Grammar.Derives.ident (by decide))
  exact ⟨e, Expr.kind_of_bare he, fun u => ok_bind hread⟩

theorem exists_step_loop (span : Span) (line : Nat) :
    ∃ e : Expr, e.kind = .ident "items" ∧ ∀ u : Unfinished,
      u.step ⟨.directive .forKind, "i, item in items)".toList, span, line⟩ =
        .ok (u.opened (.loop ⟨some "i", "item"⟩ e span line)) := by
  have hspells : Spells "i, item in items)".toList [.ident "i", .punct .comma, .ident "item",
      .keyword .inWord, .ident "items", .punct .rparen] :=
    .cons rfl rfl (.cons rfl rfl (.gap rfl (.cons rfl rfl (.gap rfl
      (.cons rfl rfl (.gap rfl (.cons rfl rfl (.cons rfl rfl .nil))))))))
  obtain ⟨e, he, hread⟩ := Content.exists_loopHeader
    (c := ⟨"i, item in items)".toList, span, line⟩) (w := [.ident "items"]) hspells
    (Grammar.Derives.ident (by decide))
  exact ⟨e, Expr.kind_of_bare he, fun u => ok_bind hread⟩

/-! ## What nodes show -/

/-- The names that the directives ask the record for. -/
def askedNames : List String := ["flag", "value", "items"]

/-- Scopes that bind none of the names. -/
def Environment.Free (env : Environment) : Prop := ∀ name ∈ askedNames, env.lookup? name = none

theorem Environment.free_empty : Environment.empty.Free := fun _ _ => rfl

theorem Environment.Free.push {env : Environment} (h : env.Free) : env.push.Free := h

theorem Environment.Free.define {env : Environment} (h : env.Free) {name : String}
    (hname : name ∉ askedNames) (v : Value) : (env.define name v).Free := by
  intro asked hasked
  have hne : asked ≠ name := fun heq => hname (heq ▸ hasked)
  have hlookup := h asked hasked
  unfold Environment.lookup? Environment.lookupIn at hlookup ⊢
  rw [Environment.define, Table.get?_insert_of_ne hne]
  exact hlookup

section

variable {σ : Type} {c : RenderCall σ}

/-- A step that shows a text and changes nothing else but the line, in scopes that are free. -/
def Prints (x : Exec σ Unit) (out : String) : Prop :=
  ∀ m : Machine σ, m.env.Free →
    ∃ line, ExceptT.run x m = some (.ok (), { m with line, out := m.out ++ out })

variable {x y : Exec σ Unit} {out out' : String}

theorem prints_pure : Prints (pure () : Exec σ Unit) "" := by
  intro m _
  refine ⟨m.line, ?_⟩
  rw [String.append_empty]
  rfl

theorem prints_write (text : String) : Prints (Exec.write text : Exec σ Unit) text :=
  fun m _ => ⟨m.line, rfl⟩

theorem Prints.andThen (hx : Prints x out) (hy : Prints y out') :
    Prints (do x; y) (out ++ out') := by
  intro m hm
  obtain ⟨line, hx⟩ := hx m hm
  obtain ⟨line', hy⟩ := hy { m with line, out := m.out ++ out } hm
  refine ⟨line', ?_⟩
  rw [run_bind, hx]
  dsimp only
  rw [hy, String.append_assoc]

theorem Prints.atLine (h : Prints x out) (line : Nat) : Prints (do Exec.atLine line; x) out :=
  fun m hm => h { m with line } hm

theorem Prints.inScope (h : Prints x out) : Prints (Exec.inScope x) out := by
  intro m hm
  obtain ⟨line, hx⟩ := h { m with env := m.env.push } hm.push
  refine ⟨line, ?_⟩
  show (ExceptT.run x { m with env := m.env.push }).map _ = _
  rw [hx]
  rfl

/-- A pass of a loop that binds a key and a value. -/
theorem Prints.bound (h : Prints x out) (key value : Value) :
    Prints (Exec.inScope do Exec.define "i" key; Exec.define "item" value; x) out := by
  intro m hm
  have hfree : ((m.env.push.define "i" key).define "item" value).Free :=
    -- neither of the two names is asked for
    (hm.push.define (by decide) key).define (by decide) value
  obtain ⟨line, hx⟩ := h { m with env := (m.env.push.define "i" key).define "item" value } hfree
  refine ⟨line, ?_⟩
  show (ExceptT.run x _).map _ = _
  rw [hx]
  rfl

theorem Prints.forPairs (h : Prints x out) (line : Nat) (pairs : List (Value × Value)) :
    Prints (Exec.forPairs ⟨some "i", "item"⟩ line x pairs)
      (String.join (List.replicate pairs.length out)) := by
  induction pairs with
  | nil => exact prints_pure
  | cons pair rest ih =>
      rw [List.length_cons, List.replicate_succ, String.join_cons]
      exact (h.bound pair.1 pair.2).andThen (ih.atLine line)

/-- A name that the directives ask for has the value that the record gives it. -/
theorem Prints.evaluated {e : Expr} {name : String} {v : Value} (he : e.kind = .ident name)
    (hname : name ∈ askedNames) (hv : c.data.field? name = some v) {k : Value → Exec σ Unit}
    (h : Prints (k v) out) : Prints (Exec.eval c e >>= k) out := by
  intro m hm
  obtain ⟨kind, span⟩ := e
  obtain rfl : kind = .ident name := he
  have heval : ExceptT.run (Exec.eval c (.node (.ident name) span)) m = some (.ok v, m) := by
    rw [computes_eval c _ m]
    show (ExceptT.run (c.lookup m.env name) m.world).map _ = _
    rw [RenderCall.lookup, hm name hname, hv]
    rfl
  rw [run_bind, heval]
  exact h m hm

end

/-- Nodes show a text that depends on the fields, in every render of a record with these fields. -/
def Shows (nodes : List Node) (out : Fields → String) : Prop :=
  ∀ (σ : Type) (c : RenderCall σ) (f : Fields), f.Of c.data →
    Prints (Node.execAll c nodes) (out f)

section

variable {nodes more : List Node} {out out' : Fields → String}

theorem Shows.congr (h : Shows nodes out) (hout : ∀ f, out f = out' f) : Shows nodes out' :=
  funext hout ▸ h

theorem shows_nil : Shows [] fun _ => "" := fun _ _ _ _ => prints_pure

theorem Shows.append (h : Shows nodes out) (h' : Shows more out') :
    Shows (nodes ++ more) fun f => out f ++ out' f := by
  intro σ c f hf
  rw [Node.execAll_append]
  exact (h σ c f hf).andThen (h' σ c f hf)

/-- A single node, by what running it shows. -/
theorem shows_singleton {n : Node} (h : ∀ (σ : Type) (c : RenderCall σ) (f : Fields),
    f.Of c.data → Prints (n.exec c) (out f)) : Shows [n] out := by
  intro σ c f hf
  have hwhole := (h σ c f hf).andThen prints_pure
  rwa [String.append_empty] at hwhole

theorem shows_ofRun (run : List Char) : Shows (Node.ofRun run) fun _ => String.ofList run := by
  cases run with
  | nil => exact shows_nil
  | cons c run =>
      refine shows_singleton fun _ _ _ _ => ?_
      exact prints_write _

theorem shows_value {e : Expr} (he : e.kind = .ident "value") (line : Nat) :
    Shows [.interpolate e true line] fun f => f.value.safe := by
  refine shows_singleton fun _ c f hf => ?_
  refine (Prints.evaluated he (by decide) hf.value ?_).atLine line
  exact prints_write _

theorem Shows.choose (h : Shows nodes out) {e : Expr} (he : e.kind = .ident "flag") (line : Nat) :
    Shows [.choose [.arm e nodes line] none] fun f => if f.flag.isTruthy then out f else "" := by
  refine shows_singleton fun σ c f hf => ?_
  refine (Prints.evaluated he (by decide) hf.flag ?_).atLine line
  split
  · exact (h σ c f hf).inScope
  · exact prints_pure

theorem Shows.loop (h : Shows nodes out) {e : Expr} (he : e.kind = .ident "items") (line : Nat) :
    Shows [.loop ⟨some "i", "item"⟩ e nodes line] fun f =>
      String.join (List.replicate f.items.length (out f)) := by
  refine shows_singleton fun σ c f hf => ?_
  obtain ⟨i, hitems⟩ := hf.items
  obtain ⟨pairs, hpairs, hlength⟩ : ∃ pairs,
      (Value.array i f.items).loopPairs? = some pairs ∧ pairs.length = f.items.length :=
    ⟨_, rfl, by rw [List.length_map, List.length_zipIdx]⟩
  refine (Prints.evaluated he (by decide) hitems ?_).atLine line
  rw [hpairs, ← hlength]
  exact (h σ c f hf).forPairs line pairs

end

/-! ## What stretches are read as -/

/-- Read behind any run of text, stretches become nodes and a run of text that is not yet ended.
With the run before them, these show the text of the stretches. -/
def Compiles (d : Delimiters) (stretches : List Stretch) (out : Fields → String) : Prop :=
  ∀ before run, ∃ before' run' nodes shown,
    (∀ (u : Unfinished) rest, (Stretch.segments d before
          (Stretch.joined run (stretches ++ rest))).foldlM Unfinished.step u =
        (Stretch.segments d before' (Stretch.joined run' rest)).foldlM Unfinished.step
          (u.pushAll nodes)) ∧
    Shows nodes shown ∧
    ∀ f, shown f ++ String.ofList run' = String.ofList run ++ out f

section

variable {d : Delimiters} {stretches more : List Stretch} {out out' : Fields → String}

theorem compiles_nil : Compiles d [] fun _ => "" := fun before run =>
  ⟨before, run, [], fun _ => "", fun _ _ => rfl, shows_nil, fun _ => by
    rw [String.empty_append, String.append_empty]⟩

theorem Compiles.append (h : Compiles d stretches out) (h' : Compiles d more out') :
    Compiles d (stretches ++ more) fun f => out f ++ out' f := by
  intro before run
  obtain ⟨before₁, run₁, nodes, shown, hread, hnodes, hshown⟩ := h before run
  obtain ⟨before₂, run₂, nodes', shown', hread', hnodes', hshown'⟩ := h' before₁ run₁
  refine ⟨before₂, run₂, nodes ++ nodes', _, fun u rest => ?_, hnodes.append hnodes', fun f => ?_⟩
  · rw [List.append_assoc, hread, hread', Unfinished.pushAll_append]
  · rw [String.append_assoc, hshown', ← String.append_assoc, hshown, String.append_assoc]

/-- Stretches with no run before them, and the run behind them ended. -/
theorem Compiles.ended (h : Compiles d stretches out) (before : List Char) :
    ∃ before' run nodes, Shows (nodes ++ Node.ofRun run) out ∧
      ∀ (u : Unfinished) rest, (Stretch.segments d before
          (Stretch.joined [] (stretches ++ rest))).foldlM Unfinished.step u =
        (Stretch.segments d before' (Stretch.joined run rest)).foldlM Unfinished.step
          (u.pushAll nodes) := by
  obtain ⟨before', run, nodes, shown, hread, hnodes, hshown⟩ := h before []
  refine ⟨before', run, nodes, (hnodes.append (shows_ofRun run)).congr fun f => ?_, hread⟩
  rw [hshown, String.ofList_nil, String.empty_append]

theorem compiles_text (t : String) : Compiles d [.text t.toList] fun _ => t := fun before run =>
  ⟨before, run ++ t.toList, [], fun _ => "", fun _ _ => rfl, shows_nil, fun _ => by
    rw [String.empty_append, String.ofList_append, String.ofList_toList]⟩

/-- Stretches that are read as one node, behind the text before them. -/
theorem compiles_node (h : ∀ before run, ∃ before' n, Shows [n] out ∧
      ∀ (u : Unfinished) rest, (Stretch.segments d before
          (Stretch.joined run (stretches ++ rest))).foldlM Unfinished.step u =
        (Stretch.segments d before' (Stretch.joined [] rest)).foldlM Unfinished.step
          ((u.pushAll (Node.ofRun run)).push n)) :
    Compiles d stretches out := by
  intro before run
  obtain ⟨before', n, hn, hread⟩ := h before run
  refine ⟨before', [], Node.ofRun run ++ [n], _, fun u rest => ?_, (shows_ofRun run).append hn,
    fun f => String.append_empty⟩
  rw [hread, Unfinished.pushAll_append]
  rfl

theorem compiles_value (s : Spacing) :
    Compiles d [.directive (s.body .value)] fun f => f.value.safe := by
  refine compiles_node fun before run => ?_
  obtain ⟨before', span, line, hread⟩ := exists_foldlM_clause d s before run .value
  obtain ⟨e, he, hstep⟩ := exists_step_value span line
  refine ⟨before', _, shows_value he line, fun u rest => (hread u rest).trans ?_⟩
  exact ok_bind (hstep _)

/-- Stretches in a scope that a clause opens. The scope that is closed shows `outer`. -/
theorem Compiles.scope {outer : Fields → String} (h : Compiles d stretches out) (s : Spacing)
    (clause : Clause)
    (hopened : ∀ span line, ∃ scope,
      (∀ u : Unfinished, u.step ⟨.directive clause.kind, clause.content.toList, span, line⟩ =
        .ok (u.opened scope)) ∧
      ∀ nodes, Shows nodes out → Shows [Unfinished.closedNode ⟨scope, nodes.reverse⟩] outer) :
    Compiles d (.directive (s.body clause) :: (stretches ++ [.directive (s.body .close)]))
      outer := by
  refine compiles_node fun before run => ?_
  obtain ⟨before₁, span, line, hhead⟩ := exists_foldlM_clause d s before run clause
  obtain ⟨scope, hstep, hclosed⟩ := hopened span line
  obtain ⟨before₂, run', nodes, hinner, hbody⟩ := h.ended before₁
  obtain ⟨before₃, span', line', hend⟩ := exists_foldlM_clause d s before₂ run' .close
  refine ⟨before₃, _, hclosed _ hinner, fun u rest => ?_⟩
  -- the text that the stretches leave goes into the scope before it is closed
  have hclose : (((u.pushAll (Node.ofRun run)).opened scope).pushAll
      (nodes ++ Node.ofRun run')).step ⟨.directive .close, [], span', line'⟩ =
      .ok ((u.pushAll (Node.ofRun run)).push
        (Unfinished.closedNode ⟨scope, (nodes ++ Node.ofRun run').reverse⟩)) :=
    Unfinished.close_opened scope _ span' line'
  rw [List.cons_append, hhead, ok_bind (hstep _), List.append_assoc, hbody, List.singleton_append,
    hend, ← Unfinished.pushAll_append]
  exact ok_bind hclose

theorem Compiles.choose (h : Compiles d stretches out) (s : Spacing) :
    Compiles d (.directive (s.body .choice) :: (stretches ++ [.directive (s.body .close)]))
      fun f => if f.flag.isTruthy then out f else "" := by
  refine h.scope s .choice fun span line => ?_
  obtain ⟨e, he, hstep⟩ := exists_step_choice span line
  refine ⟨_, hstep, fun nodes hnodes => ?_⟩
  rw [Unfinished.closedNode, List.reverse_reverse]
  exact hnodes.choose he line

theorem Compiles.loop (h : Compiles d stretches out) (s : Spacing) :
    Compiles d (.directive (s.body .loop) :: (stretches ++ [.directive (s.body .close)]))
      fun f => String.join (List.replicate f.items.length (out f)) := by
  refine h.scope s .loop fun span line => ?_
  obtain ⟨e, he, hstep⟩ := exists_step_loop span line
  refine ⟨_, hstep, fun nodes hnodes => ?_⟩
  rw [Unfinished.closedNode, List.reverse_reverse]
  exact hnodes.loop he line

end

namespace Passage

variable (d : Delimiters) (s : Spacing)

-- on the tree; a body is read in the scope that its clause opens

mutual

theorem compiles : ∀ p : Passage, Compiles d (stretches s p) fun f => shown f p
  | text t => compiles_text t
  | value => compiles_value s
  | choose body => (compilesAll body).choose s
  | loop body => (compilesAll body).loop s

theorem compilesAll : ∀ ps : List Passage, Compiles d (stretchesAll s ps) fun f => shownAll f ps
  | [] => compiles_nil
  | p :: rest => (compiles p).append (compilesAll rest)

end

end Passage

/-! ## Whole templates -/

/-- A source that is cut into stretches compiles to nodes that show the text of the stretches. -/
theorem Compiles.exists_compile {d : Delimiters} {stretches : List Stretch} {out : Fields → String}
    (h : Compiles d stretches out) {source : String}
    (hcut : Cut d source.toList (Stretch.joined [] stretches)) :
    ∃ nodes, Program.compile source d = .ok ⟨nodes⟩ ∧ Shows nodes out := by
  obtain ⟨before, run, nodes, hnodes, hread⟩ := h.ended []
  refine ⟨nodes ++ Node.ofRun run, ?_, hnodes⟩
  have hscan : scan source d = .ok (Stretch.segments d [] (Stretch.joined [] stretches)) :=
    scanFrom_of_cut hcut []
  have hfold := hread .empty []
  rw [List.append_nil, Stretch.joined, Stretch.segments_ofRun, foldlM_ofRun,
    ← Unfinished.pushAll_append, Unfinished.empty, Unfinished.pushAll_outside,
    List.append_nil] at hfold
  rw [Program.compile, hscan]
  refine (ok_bind hfold).trans ?_
  rw [Unfinished.finish, List.reverse_reverse]

/-- A template written from passages builds, with any delimiters whose characters stand neither in
its texts nor in its directives; the two may even be the same. In every render over a record with the
three fields it shows what the passages are to show, and the world is left as it was. -/
theorem Passage.render_source (ps : List Passage) (s : Spacing) (d : Delimiters)
    (hopen : d.opening ≠ "") (hclose : d.closing ≠ "")
    (hspare : ∀ stretch ∈ stretchesAll s ps, d.Spare stretch.inside) (name : String) :
    ∃ t, Template.build name (source d s ps) d = .ok t ∧
      ∀ {σ : Type} (c : RenderCall σ) (f : Fields) (world : σ), f.Of c.data →
        (t.render c).start world = some (.ok (.ok (shownAll f ps)), world) := by
  have hcut : Cut d (source d s ps).toList (Stretch.joined [] (stretchesAll s ps)) := by
    rw [source, String.toList_ofList]
    exact cut_joined (mt String.toList_eq_nil_iff.mp hopen) (mt String.toList_eq_nil_iff.mp hclose)
      d.spare_nil hspare
  obtain ⟨nodes, hcompile, hnodes⟩ := (compilesAll d s ps).exists_compile hcut
  refine ⟨⟨name, source d s ps, ⟨nodes⟩⟩, ?_, fun c f world hf => ?_⟩
  · rw [Template.build, hcompile]
    rfl
  · obtain ⟨line, hrun⟩ := hnodes _ c f hf (.start world) Environment.free_empty
    have hexecute : Program.execute ⟨nodes⟩ c world = some (.ok (shownAll f ps), world) := by
      rw [Program.execute, hrun]
      simp only [Machine.start, Option.map_some, String.empty_append]
    show (Program.execute ⟨nodes⟩ c world).map _ = _
    rw [hexecute]
    rfl

def Delimiters.brackets : Delimiters := ⟨"[%", "%]"⟩

/-- One blank on either side of a directive. -/
def Spacing.single : Spacing := ⟨fun _ => [' '], fun _ => [' '], fun _ => by simp [isBlank]⟩

/-- A list with a mark on its entries. -/
def markedList : List Passage :=
  [.text "<ul>", .loop [.text "<li>", .value, .choose [.text " (new)"], .text "</li>"],
    .text "</ul>"]

theorem markedList_renders :
    Delimiters.brackets.opening ≠ "" ∧ Delimiters.brackets.closing ≠ "" ∧
    (∀ stretch ∈ Passage.stretchesAll .single markedList,
      Delimiters.brackets.Spare stretch.inside) ∧
    Passage.source .brackets .single markedList =
      "<ul>[% for (i, item in items) %]<li>[% value %][% if (flag) %] (new)[% / %]</li>[% / %]" ++
        "</ul>" ∧
    ∃ t, Template.build "list" (Passage.source .brackets .single markedList) .brackets = .ok t ∧
      (t.render (.plain ⟨fun n => (.made n, n + 1), fun _ _ => pure .null⟩
        (.object (.given 0) [("flag", .int 1), ("value", .str "a<b"),
          ("items", .array (.given 1) [.null, .null])]))).start 0 =
        some (.ok (.ok "<ul><li>a&lt;b (new)</li><li>a&lt;b (new)</li></ul>"), 0) := by
  have hspare : ∀ stretch ∈ Passage.stretchesAll .single markedList,
      Delimiters.brackets.Spare stretch.inside := by
    simp [markedList, Passage.stretchesAll, Passage.stretches, Stretch.inside, Spacing.body,
      Spacing.single, Clause.text, Delimiters.Spare, Delimiters.brackets]
  obtain ⟨t, hbuild, hrender⟩ := Passage.render_source markedList .single .brackets
    (by decide) (by decide) hspare "list"
  refine ⟨by decide, by decide, hspare, rfl, t, hbuild, ?_⟩
  exact hrender _ ⟨.int 1, .str "a<b", [.null, .null]⟩ 0 ⟨rfl, rfl, .given 1, rfl⟩

end LiveMarkup
