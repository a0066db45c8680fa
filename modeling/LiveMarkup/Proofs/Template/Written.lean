import LiveMarkup.Proofs.Expr.Completeness
import LiveMarkup.Proofs.Scanning
import LiveMarkup.Proofs.TemplateDirectives
import LiveMarkup.Proofs.Token.Spelling
set_option autoImplicit false

/-! # Templates as they are written

A template is written as stretches of text and directives. If no character of a delimiter stands
in any of them, the scanner finds them again, with neighbouring texts joined to one (`cut_joined`),
whatever the delimiters are: they may share characters, and one may hold the other.

A text is told by the tokens it is read as wherever it stands (`Spells`), and the headers of
directives by their tokens alone. So it need not be known where in the source a directive is. -/

namespace LiveMarkup

open Text

/-! ## Stretches -/

/-- What a stretch is written with apart from delimiters. -/
def Stretch.inside : Stretch → List Char
  | .text run => run
  | .directive raw => raw

/-- A text without the characters that the delimiters are made of. -/
def Delimiters.Spare (d : Delimiters) (s : List Char) : Prop :=
  ∀ c ∈ s, c ∉ d.opening.toList ∧ c ∉ d.closing.toList

theorem Delimiters.spare_nil (d : Delimiters) : d.Spare [] := fun _ hc => absurd hc List.not_mem_nil

/-- Stretches behind a run of text, with neighbouring texts joined and no empty ones. -/
def Stretch.joined : (run : List Char) → List Stretch → List Stretch
  | run, [] => ofRun run
  | run, .text more :: rest => joined (run ++ more) rest
  | run, .directive raw :: rest => ofRun run ++ .directive raw :: joined [] rest

/-- A source is cut as it was written. -/
theorem cut_joined {d : Delimiters} {run : List Char} {stretches : List Stretch}
    (hopen : d.opening.toList ≠ []) (hclose : d.closing.toList ≠ []) (hrun : d.Spare run)
    (h : ∀ stretch ∈ stretches, d.Spare stretch.inside) :
    Cut d (run ++ Stretch.written d stretches) (Stretch.joined run stretches) := by
  -- on the stretches: a text goes into the run, a directive ends it
  induction stretches generalizing run with
  | nil =>
      rw [Stretch.written_nil, List.append_nil]
      exact .run (not_infix_of_disjoint hopen fun c hc => (hrun c hc).1)
  | cons first rest ih =>
      obtain ⟨hfirst, hrest⟩ := List.forall_mem_cons.mp h
      rw [Stretch.written_cons]
      cases first with
      | text more =>
          have hjoined : d.Spare (run ++ more) := fun c hc =>
            (List.mem_append.mp hc).elim (hrun c) (hfirst c)
          rw [← List.append_assoc]
          exact ih hjoined hrest
      | directive raw =>
          have hraw : d.Spare raw := hfirst
          have hsource : run ++ ((Stretch.directive raw).source d ++ Stretch.written d rest) =
              run ++ d.opening.toList ++ (raw ++ d.closing.toList ++ Stretch.written d rest) := by
            simp only [Stretch.source, Delimiters.around, List.append_assoc]
          rw [hsource]
          exact .directive (leftmost_of_disjoint hopen (fun c hc => (hrun c hc).1) _)
            (leftmost_of_disjoint hclose (fun c hc => (hraw c hc).2) _)
            (not_infix_of_disjoint hopen fun c hc => (hraw c hc).1) (ih d.spare_nil hrest)

/-! ## Contents -/

namespace Directive

variable {lead trail : List Char}

theorem trimStart_blank (h : ∀ c ∈ lead, isBlank c = true) (s : List Char) :
    trimStart (lead ++ s) = trimStart s :=
  List.dropWhile_append_of_pos h

theorem trimEnd_blank (h : ∀ c ∈ trail, isBlank c = true) (s : List Char) :
    trimEnd (s ++ trail) = trimEnd s := by
  have hreverse : ∀ c ∈ trail.reverse, isBlank c = true :=
    fun c hc => h c (List.mem_reverse.mp hc)
  rw [trimEnd, trimEnd, List.reverse_append, List.dropWhile_append_of_pos hreverse]

end Directive

/-! ## Headers -/

namespace Grammar

/-- What is an expression by itself needs no parentheses. -/
theorem Derives.expr {w : List Token} {e : Expr} (h : Derives .primary w e) :
    Derives .expr w e :=
  have hunary : Derives (.binary .multiplicative) w e :=
    .ofOperand (.ofUnary (.ofSuffixed (.ofPrimary h)))
  have hadditive : Derives (.binary .additive) w e := .ofOperand (.ofTighter rfl hunary)
  have hcomparison : Derives (.binary .comparison) w e := .ofOperand (.ofTighter rfl hadditive)
  have hequality : Derives (.binary .equality) w e := .ofOperand (.ofTighter rfl hcomparison)
  have hand : Derives (.binary .and) w e := .ofOperand (.ofTighter rfl hequality)
  have hor : Derives (.binary .or) w e := .ofOperand (.ofTighter rfl hand)
  .ofBinary (.ofOperand (.ofTighter rfl hor))

/-- A name that is not reserved. -/
theorem Derives.ident {name : String} (h : name ∉ reserved) :
    Derives .expr [.ident name] (Expr.plain (.ident name)) :=
  Derives.expr (.atom (.ident h))

end Grammar

namespace Expr

theorem kind_of_bare {e : Expr} {name : String} (h : e.bare = plain (.ident name)) :
    e.kind = .ident name := by
  obtain ⟨kind, span⟩ := e
  have hkind : bareKind kind = .ident name := congrArg Expr.kind h
  cases kind <;> cases hkind
  rfl

end Expr

namespace Content

variable {c : Content} {ts : List Lexeme} {w : List Token} {tree : Expr}

theorem exists_tokens (h : Spells c.text w) : ∃ ts, c.tokens = .ok ts ∧ Takes w ts [] := by
  obtain ⟨ts, hts, hw⟩ := (spells_iff c.span.start).mp h
  exact ⟨ts, by rw [tokens, hts]; rfl, hw ▸ Takes.all ts⟩

/-- A content whose tokens are an expression is read as that expression. -/
theorem exists_expression (hw : Spells c.text w) (h : Grammar.Derives .expr w tree) :
    ∃ e, e.bare = tree ∧ c.expression = .ok e := by
  obtain ⟨ts, hts, htakes⟩ := exists_tokens hw
  obtain ⟨e, he, _, hread⟩ := h.exists_reads c.site htakes
  refine ⟨e, he, (ok_bind hts).trans ((ok_bind hread).trans ?_)⟩
  rfl

theorem exists_closedExpression (h : Grammar.Derives .expr w tree)
    (htakes : Takes (w ++ [.punct .rparen]) ts []) :
    ∃ e, e.bare = tree ∧ c.closedExpression ts = .ok e := by
  obtain ⟨ts₁, hw, _ | ⟨ht, _ | _⟩⟩ := htakes.split
  obtain ⟨e, he, _, hread⟩ := h.complete c.site hw (ends_of_mark ht (by decide))
  obtain ⟨_, hexpect⟩ := reads_expect.mpr ⟨_, rfl, ht, rfl⟩
  refine ⟨e, he, (ok_bind hread).trans ((ok_bind hexpect).trans ?_)⟩
  rfl

theorem exists_condition (hw : Spells c.text (w ++ [.punct .rparen]))
    (h : Grammar.Derives .expr w tree) : ∃ e, e.bare = tree ∧ c.condition = .ok e := by
  obtain ⟨ts, hts, htakes⟩ := exists_tokens hw
  obtain ⟨e, he, hclosed⟩ := exists_closedExpression h htakes
  exact ⟨e, he, (ok_bind hts).trans hclosed⟩

/-- The header of a loop that binds a key and a value. -/
theorem exists_loopHeader {key value : String}
    (hw : Spells c.text (.ident key :: .punct .comma :: .ident value :: .keyword .inWord ::
      (w ++ [.punct .rparen])))
    (h : Grammar.Derives .expr w tree) :
    ∃ e, e.bare = tree ∧ c.loopHeader = .ok (⟨some key, value⟩, e) := by
  obtain ⟨ts, hts, htakes⟩ := exists_tokens hw
  obtain _ | @⟨⟨_, _⟩, _, _, _, _, rfl, htakes⟩ := htakes
  obtain _ | @⟨⟨_, _⟩, _, _, _, _, rfl, htakes⟩ := htakes
  obtain _ | @⟨⟨_, _⟩, _, _, _, _, rfl, htakes⟩ := htakes
  obtain _ | @⟨⟨_, _⟩, _, _, _, _, rfl, htakes⟩ := htakes
  obtain ⟨e, he, hclosed⟩ := exists_closedExpression (c := c) h htakes
  refine ⟨e, he, (ok_bind hts).trans ?_⟩
  exact (ok_bind hclosed).trans rfl

end Content

/-! ## Nodes read one after the other -/

namespace Unfinished

variable {u : Unfinished}

/-- Nodes that are read one after the other. -/
def pushAll (u : Unfinished) (nodes : List Node) : Unfinished := nodes.foldl push u

theorem pushAll_append (nodes more : List Node) :
    u.pushAll (nodes ++ more) = (u.pushAll nodes).pushAll more :=
  List.foldl_append

/-- Nodes read since a scope was opened stand in its frame, last first. -/
theorem pushAll_cons (f : Frame) (fs : List Frame) (outside nodes : List Node) :
    (⟨f :: fs, outside⟩ : Unfinished).pushAll nodes =
      ⟨⟨f.scope, nodes.reverse ++ f.nodes⟩ :: fs, outside⟩ := by
  induction nodes generalizing f with
  | nil => rfl
  | cons n rest ih =>
      rw [List.reverse_cons, List.append_assoc]
      exact ih ⟨f.scope, n :: f.nodes⟩

theorem pushAll_outside (outside nodes : List Node) :
    (⟨[], outside⟩ : Unfinished).pushAll nodes = ⟨[], nodes.reverse ++ outside⟩ := by
  induction nodes generalizing outside with
  | nil => rfl
  | cons n rest ih =>
      rw [List.reverse_cons, List.append_assoc]
      exact ih (n :: outside)

/-- A scope that is closed becomes a node of what it was opened in. -/
theorem close_opened (s : Scope) (nodes : List Node) (span : Span) (line : Nat) :
    ((u.opened s).pushAll nodes).close span line =
      .ok (u.push (closedNode ⟨s, nodes.reverse⟩)) := by
  rw [opened, pushAll_cons, List.append_nil]
  rfl

end Unfinished

/-- The node of a run of text, if there is one. -/
def Node.ofRun (run : List Char) : List Node :=
  if run.isEmpty then [] else [.text (String.ofList run)]

theorem foldlM_ofRun (offset line : Nat) (run : List Char) (u : Unfinished) :
    (Segment.ofRun offset line run).foldlM Unfinished.step u =
      .ok (u.pushAll (Node.ofRun run)) := by
  cases run <;> rfl

end LiveMarkup
