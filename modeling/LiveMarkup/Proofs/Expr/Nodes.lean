import LiveMarkup.Proofs.Expr.Placed
import LiveMarkup.Proofs.Token.Slices
set_option autoImplicit false

/-! # The nodes of a phrase

Every node of the tree of a phrase is itself an expression, made of lexemes that stand together among
those of the phrase (`Placed.within`): an operand of its operator's level, an item between its commas,
a name that stands for itself at its key. Its span reaches from the first of these lexemes to the last
(`Placed.reaches`). Moving the lexemes moves the spans and nothing else (`Placed.mapSpans`). -/

namespace LiveMarkup

/-! ## Nodes -/

/-- The expressions that a form is made of, in source order. -/
def ExprKind.parts : ExprKind → List Expr
  | .array items => items
  | .object entries => entries.map Prod.snd
  | .member e _ => [e]
  | .index e at_ => [e, at_]
  | .call callee args => callee :: args
  | .unary _ operand => [operand]
  | .binary _ left right => [left, right]
  | .conditional condition consequent otherwise => [condition, consequent, otherwise]
  | _ => []

def Expr.parts (e : Expr) : List Expr := e.kind.parts

/-- A node of a tree: its root, or a part of a node. -/
inductive Expr.Within (root : Expr) : Expr → Prop where
  | root : Within root root
  | part {e child : Expr} : Within root e → child ∈ e.parts → Within root child

/-! ## Other spans -/

namespace Expr

mutual

/-- The same tree with other spans. -/
def mapSpans (f : Span → Span) : Expr → Expr
  | node kind span => node (mapSpansKind f kind) (f span)

def mapSpansKind (f : Span → Span) : ExprKind → ExprKind
  | .null => .null
  | .bool b => .bool b
  | .int n => .int n
  | .float x => .float x
  | .str s => .str s
  | .array items => .array (mapSpansItems f items)
  | .object entries => .object (mapSpansEntries f entries)
  | .ident name => .ident name
  | .data => .data
  | .instanceKey => .instanceKey
  | .hostProps => .hostProps
  | .isServer => .isServer
  | .member object field => .member (mapSpans f object) field
  | .index object at_ => .index (mapSpans f object) (mapSpans f at_)
  | .call callee args => .call (mapSpans f callee) (mapSpansItems f args)
  | .unary op operand => .unary op (mapSpans f operand)
  | .binary op left right => .binary op (mapSpans f left) (mapSpans f right)
  | .conditional condition consequent otherwise =>
    .conditional (mapSpans f condition) (mapSpans f consequent) (mapSpans f otherwise)

def mapSpansItems (f : Span → Span) : List Expr → List Expr
  | [] => []
  | e :: rest => mapSpans f e :: mapSpansItems f rest

def mapSpansEntries (f : Span → Span) : List (String × Expr) → List (String × Expr)
  | [] => []
  | (key, e) :: rest => (key, mapSpans f e) :: mapSpansEntries f rest

end

variable {f : Span → Span}

theorem mapSpans_node (kind : ExprKind) (span : Span) :
    (node kind span).mapSpans f = node (mapSpansKind f kind) (f span) := rfl

theorem span_mapSpans (e : Expr) : (e.mapSpans f).span = f e.span := by
  cases e
  rfl

theorem kind_mapSpans (e : Expr) : (e.mapSpans f).kind = mapSpansKind f e.kind := by
  cases e
  rfl

theorem mapSpans_merge (hf : ∀ s t, f (s.merge t) = (f s).merge (f t)) (kind : ExprKind)
    {s t s' t' : Span} (hs : s' = f s) (ht : t' = f t) :
    node (mapSpansKind f kind) (s'.merge t') = (node kind (s.merge t)).mapSpans f := by
  rw [mapSpans_node, hf, hs, ht]

end Expr

namespace Grammar

open LiveMarkup.Expr

theorem Atom.mapSpansKind {t : Token} {kind : ExprKind} (h : Atom t kind) (f : Span → Span) :
    Expr.mapSpansKind f kind = kind := by
  cases h <;> rfl

/-- What a phrase stands for, with other spans. -/
def Phrase.mapSpans (f : Span → Span) : (p : Phrase) → p.Tree → p.Tree
  | .expr, e => Expr.mapSpans f e
  | .binary _, e => Expr.mapSpans f e
  | .operand _, e => Expr.mapSpans f e
  | .unary, e => Expr.mapSpans f e
  | .suffixed, e => Expr.mapSpans f e
  | .primary, e => Expr.mapSpans f e
  | .items, es => mapSpansItems f es
  | .entry, e => (e.1, e.2.mapSpans f)
  | .entries, es => mapSpansEntries f es

theorem Placed.of_eq {p : Phrase} {w : List Lexeme} {tree tree' : p.Tree} (h : Placed p w tree)
    (heq : tree = tree') : Placed p w tree' :=
  heq ▸ h

/-- Where the lexemes of a phrase are moved, the spans of its tree are. -/
theorem Placed.mapSpans {f : Span → Span} (hf : ∀ s t, f (s.merge t) = (f s).merge (f t))
    {p : Phrase} {w : List Lexeme} {tree : p.Tree} (h : Placed p w tree) :
    Placed p (w.map (Lexeme.mapSpan f)) (p.mapSpans f tree) := by
  induction h with
  | ofBinary _ ih => exact .ofBinary ih
  | @conditional _ _ _ _ _ c a b _ ht _ hk _ ih₁ ih₂ ih₃ =>
      simp only [List.map_append, List.map_cons]
      refine of_eq (.conditional ih₁ ht ih₂ hk ih₃) ?_
      exact mapSpans_merge hf (.conditional c a b) (span_mapSpans c) (span_mapSpans b)
  | ofOperand _ ih => exact .ofOperand ih
  | @joined _ op _ _ _ a b hlevel _ ht _ ih₁ ih₂ =>
      simp only [List.map_append, List.map_cons]
      refine of_eq (.joined hlevel ih₁ ht ih₂) ?_
      exact mapSpans_merge hf (.binary op a b) (span_mapSpans a) (span_mapSpans b)
  | ofTighter hnext _ ih => exact .ofTighter hnext ih
  | ofUnary _ ih => exact .ofUnary ih
  | ofSuffixed _ ih => exact .ofSuffixed ih
  | @prefixed op _ _ e ht _ ih =>
      rw [List.map_cons]
      refine of_eq (.prefixed ht ih) ?_
      exact mapSpans_merge hf (.unary op e) rfl (span_mapSpans e)
  | ofPrimary _ ih => exact .ofPrimary ih
  | @member _ _ _ e field _ ht hname ih =>
      simp only [List.map_append, List.map_cons, List.map_nil]
      refine of_eq (.member ih ht hname) ?_
      exact mapSpans_merge hf (.member e field) (span_mapSpans e) rfl
  | @index _ _ _ _ e at_ _ ht _ hk ih₁ ih₂ =>
      simp only [List.map_append, List.map_cons, List.map_nil]
      refine of_eq (.index ih₁ ht ih₂ hk) ?_
      exact mapSpans_merge hf (.index e at_) (span_mapSpans e) rfl
  | @call _ _ _ _ e args _ ht _ hk ih₁ ih₂ =>
      simp only [List.map_append, List.map_cons, List.map_nil]
      refine of_eq (.call ih₁ ht ih₂ hk) ?_
      exact mapSpans_merge hf (.call e args) (span_mapSpans e) rfl
  | @atom t kind hatom =>
      have hkind := hatom.mapSpansKind f
      refine of_eq (.atom hatom) ?_
      exact congrArg (node · (f t.span)) hkind.symm
  | @group _ _ _ e ht _ hk ih =>
      simp only [List.map_append, List.map_cons, List.map_nil]
      refine of_eq (.group ht ih hk) (Eq.trans ?_ (mapSpans_merge hf e.kind rfl rfl))
      exact congrArg (node · _) (kind_mapSpans e)
  | @array _ _ _ items ht _ hk ih =>
      simp only [List.map_append, List.map_cons, List.map_nil]
      refine of_eq (.array ht ih hk) ?_
      exact mapSpans_merge hf (.array items) rfl rfl
  | @object _ _ _ entries ht _ hk ih =>
      simp only [List.map_append, List.map_cons, List.map_nil]
      refine of_eq (.object ht ih hk) ?_
      exact mapSpans_merge hf (.object entries) rfl rfl
  | noItems => exact .noItems
  | lastItem _ ih => exact .lastItem ih
  | moreItems _ ht _ ih₁ ih₂ =>
      simp only [List.map_append, List.map_cons]
      exact .moreItems ih₁ ht ih₂
  | pair hkey hk _ ih => exact .pair hkey hk ih
  | @shorthand t name kind ht hatom =>
      have hkind := hatom.mapSpansKind f
      refine of_eq (.shorthand ht hatom) ?_
      exact congrArg (name, node · (f t.span)) hkind.symm
  | noEntries => exact .noEntries
  | lastEntry _ ih => exact .lastEntry ih
  | moreEntries _ ht _ ih₁ ih₂ =>
      simp only [List.map_append, List.map_cons]
      exact .moreEntries ih₁ ht ih₂

/-! ## Nodes are expressions -/

/-- The node that a phrase stands for, if it stands for one. -/
def Phrase.node? : (p : Phrase) → p.Tree → Option Expr
  | .expr, e => some e
  | .binary _, e => some e
  | .operand _, e => some e
  | .unary, e => some e
  | .suffixed, e => some e
  | .primary, e => some e
  | .items, _ => none
  | .entry, _ => none
  | .entries, _ => none

/-- The nodes below: the parts of a node, the items of a list, the values of entries. -/
def Phrase.parts : (p : Phrase) → p.Tree → List Expr
  | .expr, e => e.parts
  | .binary _, e => e.parts
  | .operand _, e => e.parts
  | .unary, e => e.parts
  | .suffixed, e => e.parts
  | .primary, e => e.parts
  | .items, es => es
  | .entry, e => [e.2]
  | .entries, es => es.map Prod.snd

variable {p : Phrase} {w : List Lexeme} {tree : p.Tree} {e : Expr}

theorem Placed.of_next {level next : Level} (hnext : level.next? = some next)
    (h : Placed (.binary next) w e) : Placed (.binary level) w e :=
  .ofOperand (.ofTighter hnext h)

theorem Placed.expr_of_binary {level : Level} (h : Placed (.binary level) w e) :
    Placed .expr w e := by
  have hor (h : Placed (.binary .or) w e) := ofBinary (h.of_next rfl)
  have hand (h : Placed (.binary .and) w e) := hor (h.of_next rfl)
  have hequality (h : Placed (.binary .equality) w e) := hand (h.of_next rfl)
  have hcomparison (h : Placed (.binary .comparison) w e) := hequality (h.of_next rfl)
  have hadditive (h : Placed (.binary .additive) w e) := hcomparison (h.of_next rfl)
  cases level with
  | coalesce => exact .ofBinary h
  | or => exact hor h
  | and => exact hand h
  | equality => exact hequality h
  | comparison => exact hcomparison h
  | additive => exact hadditive h
  | multiplicative => exact hadditive (h.of_next rfl)

/-- What stands for a node is an expression, however close it binds. -/
theorem Placed.expr (h : Placed p w tree) (he : p.node? tree = some e) : Placed .expr w e := by
  cases p <;> cases he
  case expr => exact h
  case binary => exact h.expr_of_binary
  case operand => exact (ofOperand h).expr_of_binary
  case unary => exact (ofOperand (.ofUnary h)).expr_of_binary
  case suffixed => exact (ofOperand (.ofUnary (.ofSuffixed h))).expr_of_binary
  case primary => exact (ofOperand (.ofUnary (.ofSuffixed (.ofPrimary h)))).expr_of_binary

/-- An expression is made of lexemes that stand together among some. -/
def Stands (w : List Lexeme) (e : Expr) : Prop := ∃ w', w' <:+: w ∧ Placed .expr w' e

theorem Stands.widen {w' : List Lexeme} (h : Stands w e) (hw : w <:+: w') : Stands w' e := by
  obtain ⟨own, hown, he⟩ := h
  exact ⟨own, hown.trans hw, he⟩

theorem Atom.parts {t : Token} {kind : ExprKind} (h : Atom t kind) : kind.parts = [] := by
  cases h <;> rfl

section

variable {w₁ w₂ : List Lexeme}

theorem infix_left (rest : List Lexeme) : w₁ <:+: w₁ ++ rest := ⟨[], rest, rfl⟩

theorem infix_right (front : List Lexeme) (t : Lexeme) : w₂ <:+: front ++ t :: w₂ :=
  ⟨front ++ [t], [], by simp⟩

theorem infix_between (front back : List Lexeme) (t : Lexeme) :
    w₁ <:+: front ++ t :: (w₁ ++ back) :=
  ⟨front ++ [t], back, by simp⟩

end

/-- The nodes below a phrase are expressions among its lexemes. -/
theorem Placed.parts (h : Placed p w tree) : ∀ child ∈ p.parts tree, Stands w child := by
  induction h with
  | ofBinary _ ih | ofOperand _ ih | ofTighter _ _ ih | ofUnary _ ih | ofSuffixed _ ih
  | ofPrimary _ ih => exact ih
  | @conditional w₁ w₂ w₃ t k _ _ _ hc _ ha _ hb =>
      simp only [Phrase.parts, Expr.parts, Expr.kind, ExprKind.parts, List.forall_mem_cons]
      refine ⟨⟨w₁, infix_left _, hc.expr rfl⟩, ⟨w₂, infix_between _ _ t, ha⟩, ⟨w₃, ?_, hb⟩, by simp⟩
      exact ⟨w₁ ++ t :: (w₂ ++ [k]), [], by simp⟩
  | @joined _ _ w₁ w₂ t _ _ _ ha _ hb =>
      simp only [Phrase.parts, Expr.parts, Expr.kind, ExprKind.parts, List.forall_mem_cons]
      exact ⟨⟨w₁, infix_left _, ha.expr rfl⟩, ⟨w₂, infix_right _ t, hb.expr rfl⟩, by simp⟩
  | @prefixed _ t w _ _ he =>
      simp only [Phrase.parts, Expr.parts, Expr.kind, ExprKind.parts, List.forall_mem_cons]
      exact ⟨⟨w, infix_right [] t, he.expr rfl⟩, by simp⟩
  | @member w _ _ _ _ he =>
      simp only [Phrase.parts, Expr.parts, Expr.kind, ExprKind.parts, List.forall_mem_cons]
      exact ⟨⟨w, infix_left _, he.expr rfl⟩, by simp⟩
  | @index w₁ w₂ t k _ _ he _ hat =>
      simp only [Phrase.parts, Expr.parts, Expr.kind, ExprKind.parts, List.forall_mem_cons]
      exact ⟨⟨w₁, infix_left _, he.expr rfl⟩, ⟨w₂, infix_between _ _ t, hat⟩, by simp⟩
  | @call w₁ w₂ t k _ _ he _ _ _ _ ih =>
      simp only [Phrase.parts, Expr.parts, Expr.kind, ExprKind.parts, List.forall_mem_cons]
      exact ⟨⟨w₁, infix_left _, he.expr rfl⟩, fun arg harg =>
        (ih arg harg).widen (infix_between _ _ t)⟩
  | @atom t kind hatom =>
      simp only [Phrase.parts, Expr.parts, Expr.kind, hatom.parts]
      simp
  | @group _ t _ _ _ _ _ ih | @array _ t _ _ _ _ _ ih | @object _ t _ _ _ _ _ ih =>
      exact fun child hchild => (ih child hchild).widen (infix_between [] _ t)
  | noItems | noEntries => simp [Phrase.parts]
  | @lastItem w _ he =>
      simp only [Phrase.parts, List.forall_mem_cons]
      exact ⟨⟨w, List.infix_refl w, he⟩, by simp⟩
  | @moreItems w₁ _ t _ _ he _ _ _ ih =>
      simp only [Phrase.parts, List.forall_mem_cons]
      exact ⟨⟨w₁, infix_left _, he⟩, fun item hitem => (ih item hitem).widen (infix_right _ t)⟩
  | @pair t k w _ _ _ _ he =>
      simp only [Phrase.parts, List.forall_mem_cons]
      exact ⟨⟨w, infix_right [t] k, he⟩, by simp⟩
  | @shorthand t _ _ ht hatom =>
      simp only [Phrase.parts, List.forall_mem_cons]
      exact ⟨⟨[t], List.infix_refl _, (atom (ht ▸ hatom)).expr rfl⟩, by simp⟩
  | lastEntry _ ih => exact ih
  | @moreEntries w₁ _ t _ _ _ _ _ ih₁ ih₂ =>
      simp only [Phrase.parts, List.map_cons, List.forall_mem_cons]
      exact ⟨(ih₁ _ (List.mem_singleton_self _)).widen (infix_left _),
        fun value hvalue => (ih₂ value hvalue).widen (infix_right _ t)⟩

/-- Every node of an expression stands among its lexemes. -/
theorem Placed.within {root : Expr} (h : Placed .expr w root) (he : root.Within e) : Stands w e := by
  induction he with
  | root => exact ⟨w, List.infix_refl w, h⟩
  | part _ hchild ih =>
      obtain ⟨own, hown, he⟩ := ih
      exact (he.parts _ hchild).widen hown

end Grammar

/-! ## Spans of nodes -/

namespace Grammar

variable {p : Phrase} {w : List Lexeme} {tree : p.Tree} {e : Expr}

/-- The span of a node reaches over the lexemes that it stands for. -/
theorem Placed.reaches (h : Placed p w tree) (horder : Lexeme.InOrder w) :
    ∀ e ∈ p.node? tree, e.span.Reaches w := by
  induction h with
  | ofBinary _ ih | ofOperand _ ih | ofTighter _ _ ih | ofUnary _ ih | ofSuffixed _ ih
  | ofPrimary _ ih => exact ih horder
  | @conditional w₁ w₂ w₃ t k _ _ _ _ _ _ _ _ ih₁ _ ih₃ =>
      rintro _ ⟨⟩
      have hsplit : w₁ ++ t :: (w₂ ++ k :: w₃) = w₁ ++ ((t :: (w₂ ++ [k])) ++ w₃) := by simp
      have horder₁ := horder.stretch (infix_left _)
      have hlast : w₃ <:+: w₁ ++ t :: (w₂ ++ k :: w₃) := ⟨w₁ ++ t :: (w₂ ++ [k]), [], by simp⟩
      have horder₃ := horder.stretch hlast
      rw [hsplit] at horder ⊢
      exact (ih₁ horder₁ _ rfl).merge _ (ih₃ horder₃ _ rfl) horder
  | @joined _ _ _ _ t _ _ _ _ _ _ ih₁ ih₂ =>
      rintro _ ⟨⟩
      have hleft := ih₁ (horder.stretch (infix_left _)) _ rfl
      have hright := ih₂ (horder.stretch (infix_right _ t)) _ rfl
      exact hleft.merge [t] hright horder
  | @prefixed _ t _ _ _ _ ih =>
      rintro _ ⟨⟩
      exact (Span.Reaches.single t).merge [] (ih (horder.stretch (infix_right [] t)) _ rfl) horder
  | @member _ t k _ _ _ _ _ ih =>
      rintro _ ⟨⟩
      exact (ih (horder.stretch (infix_left _)) _ rfl).merge [t] (.single k) horder
  | @index _ w₂ t k _ _ _ _ _ _ ih =>
      rintro _ ⟨⟩
      exact (ih (horder.stretch (infix_left _)) _ rfl).merge (t :: w₂) (.single k) horder
  | @call _ w₂ t k _ _ _ _ _ _ ih =>
      rintro _ ⟨⟩
      exact (ih (horder.stretch (infix_left _)) _ rfl).merge (t :: w₂) (.single k) horder
  | @atom t =>
      rintro _ ⟨⟩
      exact .single t
  | @group w t k | @array w t k | @object w t k =>
      rintro _ ⟨⟩
      exact (Span.Reaches.single t).merge w (.single k) horder
  | _ => nofun

end Grammar

end LiveMarkup
