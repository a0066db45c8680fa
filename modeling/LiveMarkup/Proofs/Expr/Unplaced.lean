import LiveMarkup.Proofs.Expr.Reading
import Mathlib.Data.List.Forall2
set_option autoImplicit false

/-! # Reading does not look at places

A token has its place in the source with it, and a directive its line. The readers copy both into
trees and errors and decide nothing by them: tokens that differ in their spans only are read as
trees that differ in their spans only, or are refused with the same fault
(`Expr.endsAlike_parse`). -/

namespace LiveMarkup

/-! ## Ends without places -/

theorem eq_error_of_bind {ε α β : Type} {y : Except ε α} {f : α → Except ε β} {e : ε}
    (hf : ∀ a, ∃ b, f a = .ok b) (h : y >>= f = .error e) : y = .error e := by
  cases y with
  | error e' => exact congrArg Except.error (Except.error.inj h)
  | ok a =>
      obtain ⟨b, hb⟩ := hf a
      cases hb.symm.trans h

/-- An error without its span. -/
def LexError.bare : LexError → LexError
  | unterminated close _ => unterminated close ⟨0, 0⟩
  | nested opening _ => nested opening ⟨0, 0⟩
  | invalidToken text _ => invalidToken text ⟨0, 0⟩

def SyntaxFault.bare : SyntaxFault → SyntaxFault
  | lex error => lex error.bare
  | fault => fault

/-- Two runs end alike: with results in a relation, or with errors that differ in their spans and
lines at most, with their lines in a relation. -/
inductive EndsAlike {α β : Type} (L : Nat → Nat → Prop) (R : α → β → Prop) :
    Except SyntaxError α → Except SyntaxError β → Prop where
  | ok {a : α} {b : β} : R a b → EndsAlike L R (.ok a) (.ok b)
  | error {e e' : SyntaxError} : e.fault.bare = e'.fault.bare → L e.line e'.line →
    EndsAlike L R (.error e) (.error e')

namespace EndsAlike

variable {α α' β β' : Type} {L : Nat → Nat → Prop} {R : α → α' → Prop} {S : β → β' → Prop}
  {x : Except SyntaxError α} {x' : Except SyntaxError α'}

theorem bind {f : α → Except SyntaxError β} {f' : α' → Except SyntaxError β'}
    (h : EndsAlike L R x x') (hf : ∀ a a', R a a' → EndsAlike L S (f a) (f' a')) :
    EndsAlike L S (x >>= f) (x' >>= f') := by
  cases h with
  | ok hr => exact hf _ _ hr
  | error hfault hline => exact .error hfault hline

theorem map {f : α → β} {f' : α' → β'} (h : EndsAlike L R x x')
    (hf : ∀ a a', R a a' → S (f a) (f' a')) : EndsAlike L S (f <$> x) (f' <$> x') := by
  cases h with
  | ok hr => exact .ok (hf _ _ hr)
  | error hfault hline => exact .error hfault hline

theorem mono {M : Nat → Nat → Prop} (h : EndsAlike L R x x') (hM : ∀ m m', L m m' → M m m') :
    EndsAlike M R x x' := by
  cases h with
  | ok hr => exact .ok hr
  | error hfault hline => exact .error hfault (hM _ _ hline)

theorem exists_of_ok (h : EndsAlike L R x x') {a : α} (hx : x = .ok a) :
    ∃ a', x' = .ok a' ∧ R a a' := by
  subst hx
  cases h with
  | ok hr => exact ⟨_, rfl, hr⟩

/-- A run that ends like itself with errors on one line has its errors there. -/
theorem line_of_error {line : Nat} {S : α → α → Prop}
    (h : EndsAlike (fun m _ => m = line) S x x) {e : SyntaxError} (hx : x = .error e) :
    e.line = line := by
  subst hx
  cases h with
  | error _ hline => exact hline

/-- Steps that keep a relation lead to ends that are in it. -/
theorem foldlM {γ γ' : Type} {A : γ → γ' → Prop} {f : α → γ → Except SyntaxError α}
    {f' : α' → γ' → Except SyntaxError α'} {xs : List γ} {xs' : List γ'}
    (hxs : List.Forall₂ A xs xs')
    (hf : ∀ a a' c c', R a a' → A c c' → EndsAlike L R (f a c) (f' a' c')) {a : α} {a' : α'}
    (h : R a a') : EndsAlike L R (xs.foldlM f a) (xs'.foldlM f' a') := by
  induction hxs generalizing a a' with
  | nil => exact .ok h
  | cons hc _ ih =>
      rw [List.foldlM_cons, List.foldlM_cons]
      exact (hf _ _ _ _ h hc).bind fun _ _ hr => ih hr

end EndsAlike

/-! ## Tokens and phrases -/

/-- Tokens that are the same, wherever they stand. -/
def Lexeme.Alike : List Lexeme → List Lexeme → Prop := List.Forall₂ fun t t' => t.token = t'.token

section

variable {ts ts' : List Lexeme} {α γ : Type}

/-- Alike tokens start with a given one, or neither do. -/
theorem Lexeme.Alike.starts (h : Lexeme.Alike ts ts') (w : Token) :
    (∃ s s' rest rest', ts = ⟨w, s⟩ :: rest ∧ ts' = ⟨w, s'⟩ :: rest' ∧ Lexeme.Alike rest rest') ∨
      (∀ s rest, ts ≠ ⟨w, s⟩ :: rest) ∧ ∀ s rest, ts' ≠ ⟨w, s⟩ :: rest := by
  cases h with
  | nil => exact .inr ⟨fun _ _ heq => (nomatch heq), fun _ _ heq => (nomatch heq)⟩
  | @cons t t' rest rest' ht hrest =>
      obtain ⟨token, span⟩ := t
      obtain ⟨_, span'⟩ := t'
      obtain rfl : token = _ := ht
      by_cases hw : token = w
      · exact .inl ⟨span, span', rest, rest', by rw [hw], by rw [hw], hrest⟩
      · refine .inr ⟨fun s more heq => hw ?_, fun s more heq => hw ?_⟩
        · exact congrArg Lexeme.token (List.cons.inj heq).1
        · exact congrArg Lexeme.token (List.cons.inj heq).1

/-- Phrases that look alike, with tokens behind them that are alike. -/
def Parsed.Alike (look : α → γ) (p : Parsed ts α) (p' : Parsed ts' α) : Prop :=
  look p.value = look p'.value ∧ Lexeme.Alike p.rest p'.rest

/-- Continuations that look alike, with tokens behind them that are alike. -/
def Continued.Alike (look : α → γ) (p : Continued ts α) (p' : Continued ts' α) : Prop :=
  look p.value = look p'.value ∧ Lexeme.Alike p.rest p'.rest

end

/-! ## Marks and names -/

namespace Site

variable {L : Nat → Nat → Prop} {site site' : Site} {ts ts' : List Lexeme}

theorem endsAlike_unexpected {α β : Type} {R : α → β → Prop} (hL : L site.line site'.line)
    (h : Lexeme.Alike ts ts') (expected : String) :
    EndsAlike L R (.error (site.unexpected expected ts))
      (.error (site'.unexpected expected ts')) := by
  cases h with
  | nil => exact .error rfl hL
  | cons ht _ => exact .error (by simp only [unexpected, ht, SyntaxFault.bare]) hL

theorem endsAlike_expect (hL : L site.line site'.line) (h : Lexeme.Alike ts ts') (p : Punct) :
    EndsAlike L (Parsed.Alike fun _ => ()) (site.expect p ts) (site'.expect p ts') := by
  cases h with
  | nil => exact endsAlike_unexpected hL .nil _
  | cons ht hrest =>
      rw [expect, expect, ht]
      split
      · exact .ok ⟨rfl, hrest⟩
      · exact endsAlike_unexpected hL (.cons ht hrest) _

theorem endsAlike_expectName (hL : L site.line site'.line) (h : Lexeme.Alike ts ts') :
    EndsAlike L (Parsed.Alike id) (site.expectName ts) (site'.expectName ts') := by
  cases h with
  | nil => exact endsAlike_unexpected hL .nil _
  | @cons t t' rest rest' ht hrest =>
      obtain ⟨token, span⟩ := t
      obtain ⟨_, span'⟩ := t'
      obtain rfl : token = _ := ht
      have h : Lexeme.Alike (⟨token, span⟩ :: rest) (⟨token, span'⟩ :: rest') := .cons rfl hrest
      cases token with
      | ident name => exact .ok ⟨rfl, hrest⟩
      | _ => exact endsAlike_unexpected hL h _

theorem endsAlike_expectEnd (hL : L site.line site'.line) (h : Lexeme.Alike ts ts') :
    EndsAlike L (fun _ _ => True) (site.expectEnd ts) (site'.expectEnd ts') := by
  cases h with
  | nil => exact .ok trivial
  | cons ht hrest => exact endsAlike_unexpected hL (.cons ht hrest) _

end Site

/-! ## Expressions -/

namespace Expr

variable {L : Nat → Nat → Prop} {site site' : Site}

theorem bareKind_kind_of_bare {e e' : Expr} (h : e.bare = e'.bare) :
    bareKind e.kind = bareKind e'.kind := by
  cases e
  cases e'
  exact congrArg Expr.kind h

theorem bare_node_congr {kind kind' : ExprKind} {span span' : Span}
    (h : bareKind kind = bareKind kind') : (node kind span).bare = (node kind' span').bare :=
  congrArg plain h

/-- What items look like that are read up to a closing mark. -/
def itemsLook (v : List Expr × Span) : List Expr := bareItems v.1

/-- What entries look like that are read up to a closing brace. -/
def entriesLook (v : List (String × Expr) × Span) : List (String × Expr) := bareEntries v.1

mutual

theorem endsAlike_parse (hL : L site.line site'.line) {ts ts' : List Lexeme}
    (h : Lexeme.Alike ts ts') :
    EndsAlike L (Parsed.Alike bare) (parse site ts) (parse site' ts') := by
  rw [parse.eq_def site ts, parse.eq_def site' ts']
  refine (endsAlike_parseBinary hL .coalesce h).bind ?_
  rintro ⟨c, rest, hlt⟩ ⟨c', rest', hlt'⟩ ⟨hc, hrest⟩
  cases hrest with
  | nil => exact .ok ⟨hc, .nil⟩
  | @cons t t' rest rest' ht hrest =>
      have hlt : rest.length + 1 < ts.length := hlt
      dsimp only
      rw [ht]
      split
      · refine (endsAlike_parse hL hrest).bind ?_
        rintro ⟨a, rest₁, hlt₁⟩ ⟨a', rest₁', hlt₁'⟩ ⟨ha, hrest₁⟩
        refine (Site.endsAlike_expect hL hrest₁ .colon).bind ?_
        rintro ⟨_, rest₂, hlt₂⟩ ⟨_, rest₂', hlt₂'⟩ ⟨-, hrest₂⟩
        have hlt₂ : rest₂.length < rest₁.length := hlt₂
        refine (endsAlike_parse hL hrest₂).bind ?_
        rintro ⟨b, rest₃, hlt₃⟩ ⟨b', rest₃', hlt₃'⟩ ⟨hb, hrest₃⟩
        refine .ok ⟨bare_node_congr ?_, hrest₃⟩
        simp only [bareKind, hc, ha, hb]
      · exact .ok ⟨hc, .cons ht hrest⟩
termination_by (ts.length, 20)
decreasing_by all_goals simp [Prod.lex_def, Level.rank] <;> omega

theorem endsAlike_parseBinary (hL : L site.line site'.line) (level : Level) {ts ts' : List Lexeme}
    (h : Lexeme.Alike ts ts') :
    EndsAlike L (Parsed.Alike bare) (parseBinary site level ts) (parseBinary site' level ts') := by
  rw [parseBinary.eq_def site level ts, parseBinary.eq_def site' level ts']
  refine (endsAlike_parseOperand hL level h).bind ?_
  rintro ⟨left, rest, hlt⟩ ⟨left', rest', hlt'⟩ ⟨hleft, hrest⟩
  refine (endsAlike_continueBinary hL level hleft hrest).bind ?_
  rintro ⟨whole, rest₁, hle⟩ ⟨whole', rest₁', hle'⟩ hwhole
  exact .ok hwhole
termination_by (ts.length, 2 * level.rank + 3)
decreasing_by all_goals simp [Prod.lex_def, Level.rank] <;> omega

theorem endsAlike_parseOperand (hL : L site.line site'.line) (level : Level)
    {ts ts' : List Lexeme} (h : Lexeme.Alike ts ts') :
    EndsAlike L (Parsed.Alike bare) (parseOperand site level ts)
      (parseOperand site' level ts') := by
  rw [parseOperand.eq_def site level ts, parseOperand.eq_def site' level ts']
  cases level with
  | multiplicative => exact endsAlike_parseUnary hL h
  | coalesce => exact endsAlike_parseBinary hL .or h
  | or => exact endsAlike_parseBinary hL .and h
  | and => exact endsAlike_parseBinary hL .equality h
  | equality => exact endsAlike_parseBinary hL .comparison h
  | comparison => exact endsAlike_parseBinary hL .additive h
  | additive => exact endsAlike_parseBinary hL .multiplicative h
termination_by (ts.length, 2 * level.rank + 2)
decreasing_by all_goals simp [Prod.lex_def, Level.rank]

theorem endsAlike_continueBinary (hL : L site.line site'.line) (level : Level) {left left' : Expr}
    (hleft : left.bare = left'.bare) {ts ts' : List Lexeme} (h : Lexeme.Alike ts ts') :
    EndsAlike L (Continued.Alike bare) (continueBinary site level left ts)
      (continueBinary site' level left' ts') := by
  rw [continueBinary.eq_def site level left ts, continueBinary.eq_def site' level left' ts']
  cases h with
  | nil => exact .ok ⟨hleft, .nil⟩
  | @cons t t' rest rest' ht hrest =>
      dsimp only
      rw [ht]
      split
      next => exact .ok ⟨hleft, .cons ht hrest⟩
      next op _ =>
        refine (endsAlike_parseOperand hL level hrest).bind ?_
        rintro ⟨right, rest₁, hlt⟩ ⟨right', rest₁', hlt'⟩ ⟨hright, hrest₁⟩
        have hjoined : (node (.binary op left right) (left.span.merge right.span)).bare =
            (node (.binary op left' right') (left'.span.merge right'.span)).bare :=
          bare_node_congr (by simp only [bareKind, hleft, hright])
        refine (endsAlike_continueBinary hL level hjoined hrest₁).bind ?_
        rintro ⟨whole, rest₂, hle⟩ ⟨whole', rest₂', hle'⟩ hwhole
        exact .ok hwhole
termination_by (ts.length, 0)
decreasing_by all_goals simp [Prod.lex_def] <;> omega

theorem endsAlike_parseUnary (hL : L site.line site'.line) {ts ts' : List Lexeme}
    (h : Lexeme.Alike ts ts') :
    EndsAlike L (Parsed.Alike bare) (parseUnary site ts) (parseUnary site' ts') := by
  rw [parseUnary.eq_def site ts, parseUnary.eq_def site' ts']
  cases h with
  | nil => exact endsAlike_parsePostfix hL .nil
  | @cons t t' rest rest' ht hrest =>
      dsimp only
      rw [ht]
      split
      next => exact endsAlike_parsePostfix hL (.cons ht hrest)
      next op _ =>
        refine (endsAlike_parseUnary hL hrest).bind ?_
        rintro ⟨operand, rest₁, hlt⟩ ⟨operand', rest₁', hlt'⟩ ⟨hoperand, hrest₁⟩
        refine .ok ⟨bare_node_congr ?_, hrest₁⟩
        simp only [bareKind, hoperand]
termination_by (ts.length, 3)
decreasing_by all_goals simp [Prod.lex_def]

theorem endsAlike_parsePostfix (hL : L site.line site'.line) {ts ts' : List Lexeme}
    (h : Lexeme.Alike ts ts') :
    EndsAlike L (Parsed.Alike bare) (parsePostfix site ts) (parsePostfix site' ts') := by
  rw [parsePostfix.eq_def site ts, parsePostfix.eq_def site' ts']
  refine (endsAlike_parsePrimary hL h).bind ?_
  rintro ⟨object, rest, hlt⟩ ⟨object', rest', hlt'⟩ ⟨hobject, hrest⟩
  refine (endsAlike_continuePostfix hL hobject hrest).bind ?_
  rintro ⟨whole, rest₁, hle⟩ ⟨whole', rest₁', hle'⟩ hwhole
  exact .ok hwhole
termination_by (ts.length, 2)
decreasing_by all_goals simp [Prod.lex_def] <;> omega

theorem endsAlike_continuePostfix (hL : L site.line site'.line) {object object' : Expr}
    (hobject : object.bare = object'.bare) {ts ts' : List Lexeme} (h : Lexeme.Alike ts ts') :
    EndsAlike L (Continued.Alike bare) (continuePostfix site object ts)
      (continuePostfix site' object' ts') := by
  rw [continuePostfix.eq_def site object ts, continuePostfix.eq_def site' object' ts']
  cases h with
  | nil => exact .ok ⟨hobject, .nil⟩
  | @cons t t' rest rest' ht hrest =>
      dsimp only
      rw [ht]
      split
      · cases hrest with
        | nil => exact Site.endsAlike_unexpected hL .nil _
        | @cons n n' rest rest' hn hrest =>
            dsimp only
            rw [hn]
            split
            next => exact Site.endsAlike_unexpected hL (.cons hn hrest) _
            next field _ =>
              have haccess : (node (.member object field) (object.span.merge n.span)).bare =
                  (node (.member object' field) (object'.span.merge n'.span)).bare :=
                bare_node_congr (by simp only [bareKind, hobject])
              refine (endsAlike_continuePostfix hL haccess hrest).bind ?_
              rintro ⟨whole, rest₂, hle⟩ ⟨whole', rest₂', hle'⟩ hwhole
              exact .ok hwhole
      · split
        · refine (endsAlike_parse hL hrest).bind ?_
          rintro ⟨index, rest₁, hlt₁⟩ ⟨index', rest₁', hlt₁'⟩ ⟨hindex, hrest₁⟩
          refine (Site.endsAlike_expect hL hrest₁ .rbracket).bind ?_
          rintro ⟨stop, rest₂, hlt₂⟩ ⟨stop', rest₂', hlt₂'⟩ ⟨-, hrest₂⟩
          have hlt₂ : rest₂.length < rest₁.length := hlt₂
          have haccess : (node (.index object index) (object.span.merge stop)).bare =
              (node (.index object' index') (object'.span.merge stop')).bare :=
            bare_node_congr (by simp only [bareKind, hobject, hindex])
          refine (endsAlike_continuePostfix hL haccess hrest₂).bind ?_
          rintro ⟨whole, rest₃, hle⟩ ⟨whole', rest₃', hle'⟩ hwhole
          exact .ok hwhole
        · split
          · refine (endsAlike_parseItems hL .rparen hrest).bind ?_
            rintro ⟨⟨args, stop⟩, rest₁, hlt₁⟩ ⟨⟨args', stop'⟩, rest₁', hlt₁'⟩ ⟨hargs, hrest₁⟩
            replace hargs : bareItems args = bareItems args' := hargs
            have hcall : (node (.call object args) (object.span.merge stop)).bare =
                (node (.call object' args') (object'.span.merge stop')).bare :=
              bare_node_congr (by simp only [bareKind, hobject, hargs])
            refine (endsAlike_continuePostfix hL hcall hrest₁).bind ?_
            rintro ⟨whole, rest₂, hle⟩ ⟨whole', rest₂', hle'⟩ hwhole
            exact .ok hwhole
          · exact .ok ⟨hobject, .cons ht hrest⟩
termination_by (ts.length, 0)
decreasing_by all_goals simp [Prod.lex_def] <;> omega

theorem endsAlike_parsePrimary (hL : L site.line site'.line) {ts ts' : List Lexeme}
    (h : Lexeme.Alike ts ts') :
    EndsAlike L (Parsed.Alike bare) (parsePrimary site ts) (parsePrimary site' ts') := by
  rw [parsePrimary.eq_def site ts, parsePrimary.eq_def site' ts']
  cases h with
  | nil => exact Site.endsAlike_unexpected hL .nil _
  | @cons t t' rest rest' ht hrest =>
      dsimp only
      rw [ht]
      split
      next => exact .ok ⟨rfl, hrest⟩
      next =>
        split
        · refine (endsAlike_parse hL hrest).bind ?_
          rintro ⟨inner, rest₁, hlt₁⟩ ⟨inner', rest₁', hlt₁'⟩ ⟨hinner, hrest₁⟩
          refine (Site.endsAlike_expect hL hrest₁ .rparen).bind ?_
          rintro ⟨stop, rest₂, hlt₂⟩ ⟨stop', rest₂', hlt₂'⟩ ⟨-, hrest₂⟩
          exact .ok ⟨bare_node_congr (bareKind_kind_of_bare hinner), hrest₂⟩
        · split
          · refine (endsAlike_parseItems hL .rbracket hrest).bind ?_
            rintro ⟨⟨items, stop⟩, rest₁, hlt₁⟩ ⟨⟨items', stop'⟩, rest₁', hlt₁'⟩ ⟨hitems, hrest₁⟩
            replace hitems : bareItems items = bareItems items' := hitems
            refine .ok ⟨bare_node_congr ?_, hrest₁⟩
            simp only [bareKind, hitems]
          · split
            · refine (endsAlike_parseEntries hL hrest).bind ?_
              rintro ⟨⟨entries, stop⟩, rest₁, hlt₁⟩ ⟨⟨entries', stop'⟩, rest₁', hlt₁'⟩
                ⟨hentries, hrest₁⟩
              replace hentries : bareEntries entries = bareEntries entries' := hentries
              refine .ok ⟨bare_node_congr ?_, hrest₁⟩
              simp only [bareKind, hentries]
            · exact Site.endsAlike_unexpected hL (.cons ht hrest) _
termination_by (ts.length, 1)
decreasing_by all_goals simp [Prod.lex_def]

theorem endsAlike_parseItems (hL : L site.line site'.line) (close : Punct) {ts ts' : List Lexeme}
    (h : Lexeme.Alike ts ts') :
    EndsAlike L (Parsed.Alike itemsLook) (parseItems site close ts)
      (parseItems site' close ts') := by
  rw [parseItems.eq_def site close ts, parseItems.eq_def site' close ts']
  cases h with
  | nil => exact Site.endsAlike_unexpected hL .nil _
  | @cons t t' rest rest' ht hrest =>
      dsimp only
      rw [ht]
      split
      · exact .ok ⟨rfl, hrest⟩
      · refine (endsAlike_parse hL (.cons ht hrest)).bind ?_
        rintro ⟨item, rest₁, hlt₁⟩ ⟨item', rest₁', hlt₁'⟩ ⟨hitem, hrest₁⟩
        cases hrest₁ with
        | nil => exact Site.endsAlike_unexpected hL .nil _
        | @cons c c' rest₂ rest₂' hc hrest₂ =>
            have hlt₂ : rest₂.length + 1 < rest.length + 1 := hlt₁
            dsimp only
            rw [hc]
            split
            · refine (endsAlike_parseItems hL close hrest₂).bind ?_
              rintro ⟨⟨more, stop⟩, rest₃, hlt₃⟩ ⟨⟨more', stop'⟩, rest₃', hlt₃'⟩ ⟨hmore, hrest₃⟩
              exact .ok ⟨congrArg₂ List.cons hitem hmore, hrest₃⟩
            · refine (Site.endsAlike_expect hL (.cons hc hrest₂) close).bind ?_
              rintro ⟨stop, rest₃, hlt₃⟩ ⟨stop', rest₃', hlt₃'⟩ ⟨-, hrest₃⟩
              exact .ok ⟨congrArg (fun e => [e]) hitem, hrest₃⟩
termination_by (ts.length, 30)
decreasing_by all_goals simp [Prod.lex_def] <;> omega

theorem endsAlike_continueEntry (hL : L site.line site'.line) (key : String) (short : Bool)
    (span span' : Span) {ts ts' : List Lexeme} (h : Lexeme.Alike ts ts') :
    EndsAlike L (Continued.Alike bare) (continueEntry site key short span ts)
      (continueEntry site' key short span' ts') := by
  rw [continueEntry.eq_def site key short span ts, continueEntry.eq_def site' key short span' ts']
  cases h with
  | nil =>
      dsimp only
      split
      · exact .ok ⟨rfl, .nil⟩
      · exact Site.endsAlike_unexpected hL .nil _
  | @cons c c' rest rest' hc hrest =>
      dsimp only
      rw [hc]
      split
      · refine (endsAlike_parse hL hrest).bind ?_
        rintro ⟨value, rest₁, hlt₁⟩ ⟨value', rest₁', hlt₁'⟩ hvalue
        exact .ok hvalue
      · split
        · exact .ok ⟨rfl, .cons hc hrest⟩
        · exact Site.endsAlike_unexpected hL (.cons hc hrest) _
termination_by (ts.length, 30)
decreasing_by all_goals simp [Prod.lex_def]

theorem endsAlike_parseEntries (hL : L site.line site'.line) {ts ts' : List Lexeme}
    (h : Lexeme.Alike ts ts') :
    EndsAlike L (Parsed.Alike entriesLook) (parseEntries site ts) (parseEntries site' ts') := by
  rw [parseEntries.eq_def site ts, parseEntries.eq_def site' ts']
  cases h with
  | nil => exact Site.endsAlike_unexpected hL .nil _
  | @cons t t' rest rest' ht hrest =>
      dsimp only
      rw [ht]
      split
      · exact .ok ⟨rfl, hrest⟩
      · split
        next => exact Site.endsAlike_unexpected hL (.cons ht hrest) _
        next key short _ =>
          refine (endsAlike_continueEntry hL key short t.span t'.span hrest).bind ?_
          rintro ⟨value, rest₁, hle₁⟩ ⟨value', rest₁', hle₁'⟩ ⟨hvalue, hrest₁⟩
          cases hrest₁ with
          | nil => exact Site.endsAlike_unexpected hL .nil _
          | @cons c c' rest₂ rest₂' hc hrest₂ =>
              have hle₂ : rest₂.length + 1 ≤ rest.length := hle₁
              have hentry : (key, value.bare) = (key, value'.bare) := congrArg (Prod.mk key) hvalue
              dsimp only
              rw [hc]
              split
              · refine (endsAlike_parseEntries hL hrest₂).bind ?_
                rintro ⟨⟨more, stop⟩, rest₃, hlt₃⟩ ⟨⟨more', stop'⟩, rest₃', hlt₃'⟩
                  ⟨hmore, hrest₃⟩
                exact .ok ⟨congrArg₂ List.cons hentry hmore, hrest₃⟩
              · refine (Site.endsAlike_expect hL (.cons hc hrest₂) .rbrace).bind ?_
                rintro ⟨stop, rest₃, hlt₃⟩ ⟨stop', rest₃', hlt₃'⟩ ⟨-, hrest₃⟩
                exact .ok ⟨congrArg (fun e => [e]) hentry, hrest₃⟩
termination_by (ts.length, 30)
decreasing_by all_goals simp [Prod.lex_def] <;> omega

end

end Expr

end LiveMarkup
