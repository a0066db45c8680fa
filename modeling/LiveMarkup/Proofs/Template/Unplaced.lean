import LiveMarkup.Proofs.Expr.Unplaced
import LiveMarkup.Proofs.TemplateDirectives
set_option autoImplicit false

/-! # Directives wherever they stand

What a directive says is read from its content; its span and its line are copied. Two directives
with one content say the same up to spans and lines, or are refused with the same fault. There is a
lemma for each kind of header. -/

namespace LiveMarkup

variable {L : Nat → Nat → Prop}

/-! ## Tokens -/

theorem EndsAlike.map_mapError {α α' β β' : Type} {R : α → α' → Prop} {S : β → β' → Prop}
    {f : α → β} {f' : α' → β'} {g g' : LexError → SyntaxError} {x : Except LexError α}
    {x' : Except LexError α'} (h : EndsAlike L R (x.mapError g) (x'.mapError g'))
    (hf : ∀ a a', R a a' → S (f a) (f' a')) :
    EndsAlike L S ((x.map f).mapError g) ((x'.map f').mapError g') := by
  cases x <;> cases x' <;> cases h
  case error.error.error hfault hline => exact .error hfault hline
  case ok.ok.ok hr => exact .ok (hf _ _ hr)

namespace Token

/-- A text is read as the same tokens wherever it stands. -/
theorem endsAlike_scanFrom {line line' : Nat} (hL : L line line') (s : List Char)
    (offset offset' base base' : Nat) :
    EndsAlike L Lexeme.Alike ((scanFrom offset base s).mapError (SyntaxError.ofLex line))
      ((scanFrom offset' base' s).mapError (SyntaxError.ofLex line')) := by
  fun_induction scanFrom offset base s generalizing offset' with
  | case1 offset =>
      rw [scanFrom]
      exact .ok .nil
  | case2 offset c s hgap ih =>
      rw [scanFrom, if_pos hgap]
      exact ih _
  | case3 offset c s hgap read stop span hnone =>
      rw [scanFrom, if_neg hgap]
      dsimp only
      rw [show (step c s).token? = none from hnone]
      exact .error rfl hL
  | case4 offset c s hgap read stop span token hsome ih =>
      rw [scanFrom, if_neg hgap]
      dsimp only
      rw [show (step c s).token? = some token from hsome]
      exact (ih _).map_mapError fun ts ts' hts => .cons rfl hts

end Token

/-! ## Headers -/

namespace Content

/-- Contents with one text, on lines in a relation. -/
structure Alike (L : Nat → Nat → Prop) (c c' : Content) : Prop where
  text : c.text = c'.text
  line : L c.line c'.line

variable {c c' : Content} {ts ts' : List Lexeme}

theorem Alike.endsAlike_tokens (h : Alike L c c') :
    EndsAlike L Lexeme.Alike c.tokens c'.tokens := by
  rw [tokens, tokens, Token.scan, Token.scan, h.text]
  exact Token.endsAlike_scanFrom h.line _ _ _ _ _

theorem Alike.endsAlike_malformed {α β : Type} {R : α → β → Prop} (h : Alike L c c')
    (directive reason : String) :
    EndsAlike L R (.error (c.malformed directive reason))
      (.error (c'.malformed directive reason)) :=
  .error rfl h.line

theorem Alike.endsAlike_expression (h : Alike L c c') :
    EndsAlike L (fun e e' => e.bare = e'.bare) c.expression c'.expression := by
  refine h.endsAlike_tokens.bind fun ts ts' hts => ?_
  refine (Expr.endsAlike_parse h.line hts).bind fun e e' he => ?_
  refine (Site.endsAlike_expectEnd h.line he.2).bind fun _ _ _ => ?_
  exact .ok he.1

theorem Alike.endsAlike_closedExpression (h : Alike L c c') (hts : Lexeme.Alike ts ts') :
    EndsAlike L (fun e e' => e.bare = e'.bare) (c.closedExpression ts)
      (c'.closedExpression ts') := by
  refine (Expr.endsAlike_parse h.line hts).bind fun e e' he => ?_
  refine (Site.endsAlike_expect h.line he.2 .rparen).bind fun stop stop' hstop => ?_
  refine (Site.endsAlike_expectEnd h.line hstop.2).bind fun _ _ _ => ?_
  exact .ok he.1

theorem Alike.endsAlike_condition (h : Alike L c c') :
    EndsAlike L (fun e e' => e.bare = e'.bare) c.condition c'.condition :=
  h.endsAlike_tokens.bind fun _ _ hts => h.endsAlike_closedExpression hts

theorem Alike.endsAlike_elseCondition (h : Alike L c c') :
    EndsAlike L (fun e e' => e.map Expr.bare = e'.map Expr.bare) c.elseCondition
      c'.elseCondition := by
  rw [elseCondition, elseCondition, h.text]
  split
  · exact .ok rfl
  refine h.endsAlike_tokens.bind fun ts ts' hts => ?_
  have hmalformed := h.endsAlike_malformed
    (R := fun (e e' : Option Expr) => e.map Expr.bare = e'.map Expr.bare) "else"
    "expected nothing or `if (condition)` after `else`"
  rcases hts.starts (.ident "if") with ⟨s, s', rest, rest', rfl, rfl, hrest⟩ | ⟨hno, hno'⟩
  · rcases hrest.starts (.punct .lparen) with ⟨t, t', more, more', rfl, rfl, hmore⟩ | ⟨hno, hno'⟩
    · refine (h.endsAlike_closedExpression hmore).map fun e e' he => ?_
      exact congrArg some he
    · split
      next heq => exact absurd (List.cons.inj heq).2 (hno _ _)
      next =>
        split
        next heq => exact absurd (List.cons.inj heq).2 (hno' _ _)
        next => exact hmalformed
  · split
    next => exact absurd rfl (hno _ _)
    next =>
      split
      next => exact absurd rfl (hno' _ _)
      next => exact hmalformed

theorem Alike.endsAlike_loopHeader (h : Alike L c c') :
    EndsAlike L (fun v v' => v.1 = v'.1 ∧ v.2.bare = v'.2.bare) c.loopHeader c'.loopHeader := by
  refine h.endsAlike_tokens.bind fun ts ts' hts => ?_
  refine (Site.endsAlike_expectName h.line hts).bind fun first first' hfirst => ?_
  let looks (v v' : LoopBinding × List Lexeme) : Prop := v.1 = v'.1 ∧ Lexeme.Alike v.2 v'.2
  refine EndsAlike.bind (R := looks) ?_ ?_
  · obtain ⟨name, rest, _⟩ := first
    obtain ⟨name', rest', _⟩ := first'
    obtain ⟨rfl, hrest⟩ : name = name' ∧ Lexeme.Alike rest rest' := hfirst
    dsimp only
    rcases hrest.starts (.punct .comma) with ⟨s, s', more, more', rfl, rfl, hmore⟩ | ⟨hno, hno'⟩
    · dsimp only
      refine (Site.endsAlike_expectName h.line hmore).bind fun second second' hsecond => ?_
      exact .ok ⟨congrArg (LoopBinding.mk _) hsecond.1, hsecond.2⟩
    · split
      next => exact absurd rfl (hno _ _)
      next => exact .ok ⟨rfl, hrest⟩
  · rintro ⟨binding, rest⟩ ⟨binding', rest'⟩ ⟨hbinding, hrest⟩
    obtain rfl : binding = binding' := hbinding
    replace hrest : Lexeme.Alike rest rest' := hrest
    dsimp only
    rcases hrest.starts (.keyword .inWord) with ⟨s, s', more, more', rfl, rfl, hmore⟩ | ⟨hno, hno'⟩
    · dsimp only
      exact (h.endsAlike_closedExpression hmore).bind fun e e' he => .ok ⟨rfl, he⟩
    · split
      next => exact absurd rfl (hno _ _)
      next => exact Site.endsAlike_unexpected h.line hrest _

theorem Alike.endsAlike_callHeader (h : Alike L c c') (directive : String) :
    EndsAlike L (fun v v' => v.1 = v'.1 ∧ v.2.bare = v'.2.bare) (c.callHeader directive)
      (c'.callHeader directive) := by
  rw [callHeader, callHeader, h.text]
  dsimp only
  split
  · exact h.endsAlike_malformed _ _
  · split
    next => exact .ok ⟨rfl, rfl⟩
    next before inner _ =>
      have hinner : Alike L
          ⟨inner, ⟨c.span.start + Text.byteLength before + 1, c.span.stop⟩, c.line⟩
          ⟨inner, ⟨c'.span.start + Text.byteLength before + 1, c'.span.stop⟩, c'.line⟩ :=
        ⟨rfl, h.line⟩
      refine hinner.endsAlike_tokens.bind fun ts ts' hts => ?_
      rcases hts.starts (.punct .rparen) with ⟨s, s', rest, rest', rfl, rfl, hrest⟩ | ⟨hno, hno'⟩
      · refine (Site.endsAlike_expectEnd h.line hrest).bind fun _ _ _ => ?_
        exact .ok ⟨rfl, rfl⟩
      · split
        next => exact absurd rfl (hno _ _)
        next => exact (h.endsAlike_closedExpression hts).bind fun e e' he => .ok ⟨rfl, he⟩

end Content

/-- A statement without spans. -/
def Stmt.bare : Stmt → Stmt
  | declare name value => declare name value.bare
  | assign name value => assign name value.bare

namespace Content

theorem endsAlike_statement {site site' : Site} (hL : L site.line site'.line) {ts ts' : List Lexeme}
    (h : Lexeme.Alike ts ts') :
    EndsAlike L (Parsed.Alike Stmt.bare) (statement site ts) (statement site' ts') := by
  cases h with
  | nil => exact Site.endsAlike_unexpected hL .nil _
  | @cons t t' rest rest' ht hrest =>
      rw [statement, statement, ht]
      dsimp only
      refine EndsAlike.bind (R := Parsed.Alike id) ?_ ?_
      · split
        · exact (Site.endsAlike_expectName hL hrest).bind fun _ _ hp => .ok hp
        · exact Site.endsAlike_expectName hL (.cons ht hrest)
      · rintro ⟨name, rest₁, _⟩ ⟨name', rest₁', _⟩ ⟨hname, hrest₁⟩
        refine (Site.endsAlike_expect hL hrest₁ .assign).bind ?_
        rintro ⟨_, rest₂, _⟩ ⟨_, rest₂', _⟩ ⟨-, hrest₂⟩
        refine (Expr.endsAlike_parse hL hrest₂).bind ?_
        rintro ⟨value, rest₃, _⟩ ⟨value', rest₃', _⟩ ⟨hvalue, hrest₃⟩
        refine .ok ⟨?_, hrest₃⟩
        obtain rfl : name = name' := hname
        dsimp only
        split <;> simp only [Stmt.bare, hvalue]

theorem endsAlike_statementList {site site' : Site} (hL : L site.line site'.line)
    {ts ts' : List Lexeme} (h : Lexeme.Alike ts ts') :
    EndsAlike L (fun v v' => v.map Stmt.bare = v'.map Stmt.bare) (statementList site ts)
      (statementList site' ts') := by
  rw [statementList.eq_def site, statementList.eq_def site']
  cases h with
  | nil => exact .ok rfl
  | @cons t t' rest rest' ht hrest =>
      dsimp only
      rw [ht]
      split
      · exact endsAlike_statementList hL hrest
      · refine (endsAlike_statement hL (.cons ht hrest)).bind ?_
        rintro ⟨stmt, rest₁, hlt₁⟩ ⟨stmt', rest₁', hlt₁'⟩ ⟨hstmt, hrest₁⟩
        replace hrest₁ : Lexeme.Alike rest₁ rest₁' := hrest₁
        have hempty : rest₁.isEmpty = rest₁'.isEmpty := by cases hrest₁ <;> rfl
        dsimp only
        rw [hempty]
        split
        · exact .ok (congrArg (fun s => [s]) hstmt)
        · refine (Site.endsAlike_expect hL hrest₁ .semicolon).bind ?_
          rintro ⟨_, rest₂, hlt₂⟩ ⟨_, rest₂', hlt₂'⟩ ⟨-, hrest₂⟩
          have hlt : rest₂.length < rest.length + 1 := Nat.lt_trans hlt₂ hlt₁
          refine (endsAlike_statementList hL hrest₂).bind fun more more' hmore => ?_
          exact .ok (congrArg₂ List.cons hstmt hmore)
termination_by ts.length
decreasing_by all_goals (simp only [List.length_cons]; omega)

theorem Alike.endsAlike_statements {c c' : Content} (h : Alike L c c') :
    EndsAlike L (fun v v' => v.map Stmt.bare = v'.map Stmt.bare) c.statements c'.statements :=
  h.endsAlike_tokens.bind fun _ _ hts => endsAlike_statementList h.line hts

end Content

/-! ## Programs without places -/

namespace Node

mutual

/-- A node without the spans of its expressions, `k` lines further down. -/
def bare (k : Nat) : Node → Node
  | text s => text s
  | interpolate e escape line => interpolate e.bare escape (line + k)
  | choose arms otherwise =>
    choose (bareArms k arms) (match otherwise with
      | some body => some (bareAll k body)
      | none => none)
  | loop binding subject body line => loop binding subject.bare (bareAll k body) (line + k)
  | block name args line => block name args.bare (line + k)
  | component reference args line => component reference args.bare (line + k)
  | code stmts line => code (stmts.map Stmt.bare) (line + k)

def bareAll (k : Nat) : List Node → List Node
  | [] => []
  | n :: rest => bare k n :: bareAll k rest

def bareArms (k : Nat) : List Arm → List Arm
  | [] => []
  | .arm condition body line :: rest =>
    .arm condition.bare (bareAll k body) (line + k) :: bareArms k rest

end

variable (k : Nat)

theorem bareAll_eq_map (nodes : List Node) : bareAll k nodes = nodes.map (bare k) := by
  induction nodes with
  | nil => rfl
  | cons n rest ih => exact congrArg (bare k n :: ·) ih

theorem bareAll_append (a b : List Node) : bareAll k (a ++ b) = bareAll k a ++ bareAll k b := by
  simp only [bareAll_eq_map, List.map_append]

theorem bareAll_reverse (nodes : List Node) :
    bareAll k nodes.reverse = (bareAll k nodes).reverse := by
  simp only [bareAll_eq_map, List.map_reverse]

theorem bare_choose (arms : List Arm) (otherwise : Option (List Node)) :
    (choose arms otherwise).bare k = choose (bareArms k arms) (otherwise.map (bareAll k)) := by
  cases otherwise <;> rfl

theorem bareArms_append (a b : List Arm) : bareArms k (a ++ b) = bareArms k a ++ bareArms k b := by
  induction a with
  | nil => rfl
  | cons arm rest ih =>
      cases arm
      exact congrArg (_ :: ·) ih

end Node

end LiveMarkup
