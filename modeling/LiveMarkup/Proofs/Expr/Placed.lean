import LiveMarkup.Proofs.Expr.Reading
set_option autoImplicit false

/-! # Phrases with their places

The grammar makes bare trees of words. Here its rules are over lexemes, and the trees have the spans
that the readers give them (`Placed`). Every phrase has a tree with spans wherever it stands
(`Derives.exists_placed`), and its reader comes to that tree, whatever follows without tying to the
phrase (`Placed.exact`). The binary levels and the suffixes are built from the left, and their readers
loop: there a phrase is what the loop can go on from (`Phrase.Exact`). There is one lemma for every
rule of the grammar, and then the induction. -/

namespace LiveMarkup

namespace Grammar

/-! ## First tokens -/

/-- The marks that a list of items ends with. -/
def itemClosers : List Punct := [.rparen, .rbracket]

theorem ne_comma_of_mem_itemClosers : ∀ p ∈ itemClosers, p ≠ .comma := by decide

theorem looseness_of_mem_itemClosers : ∀ p ∈ itemClosers, 8 < p.looseness := by decide

/-- The marks that no phrase of a kind starts with, if its readers look out for any. -/
def Phrase.neverFirst? : Phrase → Option (List Punct)
  | .primary | .suffixed => some ([.bang, .minus, .plus] ++ itemClosers)
  | .expr | .binary _ | .operand _ | .unary => some itemClosers
  | .items | .entry | .entries => none

theorem Derives.first {p : Phrase} {w : List Token} {tree : p.Tree} (h : Derives p w tree)
    {marks : List Punct} (hp : p.neverFirst? = some marks) :
    ∃ t w', w = t :: w' ∧ ∀ m ∈ marks, t ≠ .punct m := by
  induction h generalizing marks with
  | ofBinary _ ih | ofOperand _ ih | ofTighter _ _ ih | ofUnary _ ih | ofPrimary _ ih =>
      cases hp
      exact ih rfl
  | ofSuffixed _ ih =>
      cases hp
      obtain ⟨t, w', rfl, ht⟩ := ih rfl
      exact ⟨t, w', rfl, fun m hm => ht m (List.mem_append_right _ hm)⟩
  | conditional _ _ _ ih | joined _ _ _ ih | member _ _ ih | index _ _ ih | call _ _ ih =>
      cases hp
      obtain ⟨t, w', rfl, ht⟩ := ih rfl
      exact ⟨t, _, rfl, ht⟩
  | @prefixed op =>
      cases hp
      exact ⟨_, _, rfl, by cases op <;> simp [UnaryOp.mark, itemClosers]⟩
  | atom hatom =>
      cases hp
      refine ⟨_, _, rfl, fun m _ ht => ?_⟩
      subst ht
      cases hatom
  | group | array | object =>
      cases hp
      exact ⟨_, _, rfl, by simp [itemClosers]⟩
  | _ => cases hp

end Grammar

open Grammar

theorem noMark_of_mark {p q : Punct} {t : Lexeme} {ts : List Lexeme} (ht : t.token = .punct p)
    (hne : p ≠ q) : NoMark q (t :: ts) := by
  intro t' ht'
  cases ht'
  rw [ht]
  simpa using hne

namespace Expr

variable {site : Site} {ts rest : List Lexeme} {e : Expr}

theorem continueBinary_of_ends {level : Level} (h : Ends level.rank ts) :
    Continues (continueBinary site level e ts) e ts :=
  continues_continueBinary.mpr (.inl ⟨h.op?, rfl, rfl⟩)

theorem continuePostfix_of_ends (h : Ends 0 ts) : Continues (continuePostfix site e ts) e ts := by
  have hnone := fun (p : Punct) (hp : p.looseness = 0) => h.noMark (Nat.le_of_eq hp)
  exact continues_continuePostfix.mpr
    (.inl ⟨⟨hnone .dot rfl, hnone .lbracket rfl, hnone .lparen rfl⟩, rfl, rfl⟩)

end Expr

open LiveMarkup.Expr

namespace Grammar

/-! ## Phrases over lexemes -/

/-- Lexemes are a phrase of a kind, and stand for a tree with its spans. -/
inductive Placed : (p : Phrase) → List Lexeme → p.Tree → Prop where
  | ofBinary {w : List Lexeme} {e : Expr} : Placed (.binary .coalesce) w e → Placed .expr w e
  | conditional {w₁ w₂ w₃ : List Lexeme} {t k : Lexeme} {c a b : Expr} :
      Placed (.binary .coalesce) w₁ c → t.token = .punct .question → Placed .expr w₂ a →
      k.token = .punct .colon → Placed .expr w₃ b →
      Placed .expr (w₁ ++ t :: (w₂ ++ k :: w₃)) (node (.conditional c a b) (c.span.merge b.span))
  | ofOperand {level : Level} {w : List Lexeme} {e : Expr} :
      Placed (.operand level) w e → Placed (.binary level) w e
  | joined {level : Level} {op : BinaryOp} {w₁ w₂ : List Lexeme} {t : Lexeme} {a b : Expr} :
      op.level = level → Placed (.binary level) w₁ a → t.token = .punct op.mark →
      Placed (.operand level) w₂ b →
      Placed (.binary level) (w₁ ++ t :: w₂) (node (.binary op a b) (a.span.merge b.span))
  | ofTighter {level next : Level} {w : List Lexeme} {e : Expr} :
      level.next? = some next → Placed (.binary next) w e → Placed (.operand level) w e
  | ofUnary {w : List Lexeme} {e : Expr} :
      Placed .unary w e → Placed (.operand .multiplicative) w e
  | ofSuffixed {w : List Lexeme} {e : Expr} : Placed .suffixed w e → Placed .unary w e
  | prefixed {op : UnaryOp} {t : Lexeme} {w : List Lexeme} {e : Expr} :
      t.token = .punct op.mark → Placed .unary w e →
      Placed .unary (t :: w) (node (.unary op e) (t.span.merge e.span))
  | ofPrimary {w : List Lexeme} {e : Expr} : Placed .primary w e → Placed .suffixed w e
  | member {w : List Lexeme} {t k : Lexeme} {e : Expr} {field : String} :
      Placed .suffixed w e → t.token = .punct .dot → Name k.token field →
      Placed .suffixed (w ++ [t, k]) (node (.member e field) (e.span.merge k.span))
  | index {w₁ w₂ : List Lexeme} {t k : Lexeme} {e at_ : Expr} :
      Placed .suffixed w₁ e → t.token = .punct .lbracket → Placed .expr w₂ at_ →
      k.token = .punct .rbracket →
      Placed .suffixed (w₁ ++ t :: (w₂ ++ [k])) (node (.index e at_) (e.span.merge k.span))
  | call {w₁ w₂ : List Lexeme} {t k : Lexeme} {e : Expr} {args : List Expr} :
      Placed .suffixed w₁ e → t.token = .punct .lparen → Placed .items w₂ args →
      k.token = .punct .rparen →
      Placed .suffixed (w₁ ++ t :: (w₂ ++ [k])) (node (.call e args) (e.span.merge k.span))
  | atom {t : Lexeme} {kind : ExprKind} : Atom t.token kind → Placed .primary [t] (node kind t.span)
  /-- A group has no node of its own. -/
  | group {w : List Lexeme} {t k : Lexeme} {e : Expr} :
      t.token = .punct .lparen → Placed .expr w e → k.token = .punct .rparen →
      Placed .primary (t :: (w ++ [k])) (node e.kind (t.span.merge k.span))
  | array {w : List Lexeme} {t k : Lexeme} {items : List Expr} :
      t.token = .punct .lbracket → Placed .items w items → k.token = .punct .rbracket →
      Placed .primary (t :: (w ++ [k])) (node (.array items) (t.span.merge k.span))
  | object {w : List Lexeme} {t k : Lexeme} {entries : List (String × Expr)} :
      t.token = .punct .lbrace → Placed .entries w entries → k.token = .punct .rbrace →
      Placed .primary (t :: (w ++ [k])) (node (.object entries) (t.span.merge k.span))
  | noItems : Placed .items [] []
  | lastItem {w : List Lexeme} {e : Expr} : Placed .expr w e → Placed .items w [e]
  | moreItems {w₁ w₂ : List Lexeme} {t : Lexeme} {e : Expr} {more : List Expr} :
      Placed .expr w₁ e → t.token = .punct .comma → Placed .items w₂ more →
      Placed .items (w₁ ++ t :: w₂) (e :: more)
  | pair {t k : Lexeme} {w : List Lexeme} {key : String} {e : Expr} :
      Key t.token key → k.token = .punct .colon → Placed .expr w e →
      Placed .entry (t :: k :: w) (key, e)
  /-- The value of a name that stands for itself is where the name is. -/
  | shorthand {t : Lexeme} {name : String} {kind : ExprKind} :
      t.token = .ident name → Atom (.ident name) kind →
      Placed .entry [t] (name, node kind t.span)
  | noEntries : Placed .entries [] []
  | lastEntry {w : List Lexeme} {entry : String × Expr} :
      Placed .entry w entry → Placed .entries w [entry]
  | moreEntries {w₁ w₂ : List Lexeme} {t : Lexeme} {entry : String × Expr}
      {more : List (String × Expr)} :
      Placed .entry w₁ entry → t.token = .punct .comma → Placed .entries w₂ more →
      Placed .entries (w₁ ++ t :: w₂) (entry :: more)

/-- What a phrase stands for, without spans. -/
def Phrase.bare : (p : Phrase) → p.Tree → p.Tree
  | .expr, e => Expr.bare e
  | .binary _, e => Expr.bare e
  | .operand _, e => Expr.bare e
  | .unary, e => Expr.bare e
  | .suffixed, e => Expr.bare e
  | .primary, e => Expr.bare e
  | .items, es => bareItems es
  | .entry, e => (e.1, e.2.bare)
  | .entries, es => bareEntries es

/-- Without the places it is the grammar. -/
theorem Placed.derives {p : Phrase} {w : List Lexeme} {tree : p.Tree} (h : Placed p w tree) :
    Derives p (w.map Lexeme.token) (p.bare tree) := by
  induction h with
  | ofBinary _ ih => exact .ofBinary ih
  | conditional _ ht _ hk _ ih₁ ih₂ ih₃ =>
      simp only [List.map_append, List.map_cons, ht, hk]
      exact .conditional ih₁ ih₂ ih₃
  | ofOperand _ ih => exact .ofOperand ih
  | joined hlevel _ ht _ ih₁ ih₂ =>
      simp only [List.map_append, List.map_cons, ht]
      exact .joined hlevel ih₁ ih₂
  | ofTighter hnext _ ih => exact .ofTighter hnext ih
  | ofUnary _ ih => exact .ofUnary ih
  | ofSuffixed _ ih => exact .ofSuffixed ih
  | prefixed ht _ ih =>
      simp only [List.map_cons, ht]
      exact .prefixed ih
  | ofPrimary _ ih => exact .ofPrimary ih
  | member _ ht hname ih =>
      simp only [List.map_append, List.map_cons, List.map_nil, ht]
      exact .member ih hname
  | index _ ht _ hk ih₁ ih₂ =>
      simp only [List.map_append, List.map_cons, List.map_nil, ht, hk]
      exact .index ih₁ ih₂
  | call _ ht _ hk ih₁ ih₂ =>
      simp only [List.map_append, List.map_cons, List.map_nil, ht, hk]
      exact .call ih₁ ih₂
  | @atom t kind hatom =>
      show Derives .primary [t.token] (plain (bareKind kind))
      rw [hatom.bareKind]
      exact .atom hatom
  | @group _ _ _ e ht _ hk ih =>
      simp only [List.map_append, List.map_cons, List.map_nil, ht, hk]
      show Derives .primary _ (plain (bareKind e.kind))
      rw [plain_bareKind_kind]
      exact .group ih
  | array ht _ hk ih =>
      simp only [List.map_append, List.map_cons, List.map_nil, ht, hk]
      exact .array ih
  | object ht _ hk ih =>
      simp only [List.map_append, List.map_cons, List.map_nil, ht, hk]
      exact .object ih
  | noItems => exact .noItems
  | lastItem _ ih => exact .lastItem ih
  | moreItems _ ht _ ih₁ ih₂ =>
      simp only [List.map_append, List.map_cons, ht]
      exact .moreItems ih₁ ih₂
  | pair hkey hk _ ih =>
      simp only [List.map_cons, hk]
      exact .pair hkey ih
  | @shorthand t name kind ht hatom =>
      show Derives .entry [t.token] (name, plain (bareKind kind))
      rw [hatom.bareKind, ht]
      exact .shorthand hatom
  | noEntries => exact .noEntries
  | lastEntry _ ih => exact .lastEntry ih
  | moreEntries _ ht _ ih₁ ih₂ =>
      simp only [List.map_append, List.map_cons, ht]
      exact .moreEntries ih₁ ih₂

/-- A phrase gives its tree spans wherever it stands. -/
theorem Derives.exists_placed {p : Phrase} {ts : List Token} {tree : p.Tree} (h : Derives p ts tree)
    {w : List Lexeme} (hw : w.map Lexeme.token = ts) :
    ∃ placed, p.bare placed = tree ∧ Placed p w placed := by
  induction h generalizing w with
  | ofBinary _ ih =>
      obtain ⟨e, rfl, he⟩ := ih hw
      exact ⟨e, rfl, .ofBinary he⟩
  | conditional _ _ _ ih₁ ih₂ ih₃ =>
      obtain ⟨w₁, _, rfl, hw₁, hw⟩ := List.map_eq_append_iff.mp hw
      obtain ⟨t, _, rfl, ht, hw⟩ := List.map_eq_cons_iff.mp hw
      obtain ⟨w₂, _, rfl, hw₂, hw⟩ := List.map_eq_append_iff.mp hw
      obtain ⟨k, w₃, rfl, hk, hw₃⟩ := List.map_eq_cons_iff.mp hw
      obtain ⟨c, rfl, hc⟩ := ih₁ hw₁
      obtain ⟨a, rfl, ha⟩ := ih₂ hw₂
      obtain ⟨b, rfl, hb⟩ := ih₃ hw₃
      exact ⟨_, rfl, .conditional hc ht ha hk hb⟩
  | ofOperand _ ih =>
      obtain ⟨e, rfl, he⟩ := ih hw
      exact ⟨e, rfl, .ofOperand he⟩
  | joined hlevel _ _ ih₁ ih₂ =>
      obtain ⟨w₁, _, rfl, hw₁, hw⟩ := List.map_eq_append_iff.mp hw
      obtain ⟨t, w₂, rfl, ht, hw₂⟩ := List.map_eq_cons_iff.mp hw
      obtain ⟨a, rfl, ha⟩ := ih₁ hw₁
      obtain ⟨b, rfl, hb⟩ := ih₂ hw₂
      exact ⟨_, rfl, .joined hlevel ha ht hb⟩
  | ofTighter hnext _ ih =>
      obtain ⟨e, rfl, he⟩ := ih hw
      exact ⟨e, rfl, .ofTighter hnext he⟩
  | ofUnary _ ih =>
      obtain ⟨e, rfl, he⟩ := ih hw
      exact ⟨e, rfl, .ofUnary he⟩
  | ofSuffixed _ ih =>
      obtain ⟨e, rfl, he⟩ := ih hw
      exact ⟨e, rfl, .ofSuffixed he⟩
  | prefixed _ ih =>
      obtain ⟨t, w₁, rfl, ht, hw⟩ := List.map_eq_cons_iff.mp hw
      obtain ⟨e, rfl, he⟩ := ih hw
      exact ⟨_, rfl, .prefixed ht he⟩
  | ofPrimary _ ih =>
      obtain ⟨e, rfl, he⟩ := ih hw
      exact ⟨e, rfl, .ofPrimary he⟩
  | member _ hname ih =>
      obtain ⟨w₁, _, rfl, hw₁, hw⟩ := List.map_eq_append_iff.mp hw
      obtain ⟨t, _, rfl, ht, hw⟩ := List.map_eq_cons_iff.mp hw
      obtain ⟨k, rfl, rfl⟩ := List.map_eq_singleton_iff.mp hw
      obtain ⟨e, rfl, he⟩ := ih hw₁
      exact ⟨_, rfl, .member he ht hname⟩
  | index _ _ ih₁ ih₂ =>
      obtain ⟨w₁, _, rfl, hw₁, hw⟩ := List.map_eq_append_iff.mp hw
      obtain ⟨t, _, rfl, ht, hw⟩ := List.map_eq_cons_iff.mp hw
      obtain ⟨w₂, _, rfl, hw₂, hw⟩ := List.map_eq_append_iff.mp hw
      obtain ⟨k, rfl, hk⟩ := List.map_eq_singleton_iff.mp hw
      obtain ⟨e, rfl, he⟩ := ih₁ hw₁
      obtain ⟨at_, rfl, hat⟩ := ih₂ hw₂
      exact ⟨_, rfl, .index he ht hat hk⟩
  | call _ _ ih₁ ih₂ =>
      obtain ⟨w₁, _, rfl, hw₁, hw⟩ := List.map_eq_append_iff.mp hw
      obtain ⟨t, _, rfl, ht, hw⟩ := List.map_eq_cons_iff.mp hw
      obtain ⟨w₂, _, rfl, hw₂, hw⟩ := List.map_eq_append_iff.mp hw
      obtain ⟨k, rfl, hk⟩ := List.map_eq_singleton_iff.mp hw
      obtain ⟨e, rfl, he⟩ := ih₁ hw₁
      obtain ⟨args, rfl, hargs⟩ := ih₂ hw₂
      exact ⟨_, rfl, .call he ht hargs hk⟩
  | @atom _ kind hatom =>
      obtain ⟨t, rfl, rfl⟩ := List.map_eq_singleton_iff.mp hw
      refine ⟨node kind t.span, ?_, .atom hatom⟩
      show plain (bareKind kind) = plain kind
      rw [hatom.bareKind]
  | group _ ih =>
      obtain ⟨t, _, rfl, ht, hw⟩ := List.map_eq_cons_iff.mp hw
      obtain ⟨w₁, _, rfl, hw₁, hw⟩ := List.map_eq_append_iff.mp hw
      obtain ⟨k, rfl, hk⟩ := List.map_eq_singleton_iff.mp hw
      obtain ⟨e, rfl, he⟩ := ih hw₁
      exact ⟨node e.kind _, plain_bareKind_kind e, .group ht he hk⟩
  | array _ ih =>
      obtain ⟨t, _, rfl, ht, hw⟩ := List.map_eq_cons_iff.mp hw
      obtain ⟨w₁, _, rfl, hw₁, hw⟩ := List.map_eq_append_iff.mp hw
      obtain ⟨k, rfl, hk⟩ := List.map_eq_singleton_iff.mp hw
      obtain ⟨items, rfl, hitems⟩ := ih hw₁
      exact ⟨node (.array items) _, rfl, .array ht hitems hk⟩
  | object _ ih =>
      obtain ⟨t, _, rfl, ht, hw⟩ := List.map_eq_cons_iff.mp hw
      obtain ⟨w₁, _, rfl, hw₁, hw⟩ := List.map_eq_append_iff.mp hw
      obtain ⟨k, rfl, hk⟩ := List.map_eq_singleton_iff.mp hw
      obtain ⟨entries, rfl, hentries⟩ := ih hw₁
      exact ⟨node (.object entries) _, rfl, .object ht hentries hk⟩
  | noItems =>
      obtain rfl := List.map_eq_nil_iff.mp hw
      exact ⟨[], rfl, .noItems⟩
  | lastItem _ ih =>
      obtain ⟨e, rfl, he⟩ := ih hw
      exact ⟨[e], rfl, .lastItem he⟩
  | moreItems _ _ ih₁ ih₂ =>
      obtain ⟨w₁, _, rfl, hw₁, hw⟩ := List.map_eq_append_iff.mp hw
      obtain ⟨t, w₂, rfl, ht, hw₂⟩ := List.map_eq_cons_iff.mp hw
      obtain ⟨e, rfl, he⟩ := ih₁ hw₁
      obtain ⟨more, rfl, hmore⟩ := ih₂ hw₂
      exact ⟨e :: more, rfl, .moreItems he ht hmore⟩
  | pair hkey _ ih =>
      obtain ⟨t, _, rfl, rfl, hw'⟩ := List.map_eq_cons_iff.mp hw
      obtain ⟨k, w₁, rfl, hk, hw₁⟩ := List.map_eq_cons_iff.mp hw'
      obtain ⟨e, rfl, he⟩ := ih hw₁
      exact ⟨(_, e), rfl, .pair hkey hk he⟩
  | @shorthand name kind hatom =>
      obtain ⟨t, rfl, ht⟩ := List.map_eq_singleton_iff.mp hw
      refine ⟨(name, node kind t.span), ?_, .shorthand ht hatom⟩
      show (name, plain (bareKind kind)) = (name, plain kind)
      rw [hatom.bareKind]
  | noEntries =>
      obtain rfl := List.map_eq_nil_iff.mp hw
      exact ⟨[], rfl, .noEntries⟩
  | lastEntry _ ih =>
      obtain ⟨entry, rfl, hentry⟩ := ih hw
      exact ⟨[entry], rfl, .lastEntry hentry⟩
  | moreEntries _ _ ih₁ ih₂ =>
      obtain ⟨w₁, _, rfl, hw₁, hw⟩ := List.map_eq_append_iff.mp hw
      obtain ⟨t, w₂, rfl, ht, hw₂⟩ := List.map_eq_cons_iff.mp hw
      obtain ⟨entry, rfl, hentry⟩ := ih₁ hw₁
      obtain ⟨more, rfl, hmore⟩ := ih₂ hw₂
      exact ⟨entry :: more, rfl, .moreEntries hentry ht hmore⟩

/-! ## Reading -/

/-- What its reader makes of a phrase with a rest behind it: the tree, spans included. -/
def Phrase.Exact (site : Site) : (p : Phrase) → (ts rest : List Lexeme) → p.Tree → Prop
  | .expr, ts, rest, e => Ends 8 rest → Reads (parse site ts) e rest
  | .binary level, ts, rest, left => Ends (level.rank - 1) rest →
      ∀ e rest', Continues (continueBinary site level left rest) e rest' →
        Reads (parseBinary site level ts) e rest'
  | .operand level, ts, rest, e => Ends (level.rank - 1) rest →
      Reads (parseOperand site level ts) e rest
  | .unary, ts, rest, e => Ends 0 rest → Reads (parseUnary site ts) e rest
  | .suffixed, ts, rest, object =>
      ∀ e rest', Continues (continuePostfix site object rest) e rest' →
        Reads (parsePostfix site ts) e rest'
  | .primary, ts, rest, e => Reads (parsePrimary site ts) e rest
  | .items, ts, rest, es => ∀ close k rest', close ∈ itemClosers →
      rest = k :: rest' → k.token = .punct close →
        Reads (parseItems site close ts) (es, k.span) rest'
  | .entry, ts, rest, e => NoMark .colon rest → Ends 8 rest → ReadsEntry site ts e.1 e.2 rest
  | .entries, ts, rest, es => ∀ k rest', rest = k :: rest' → k.token = .punct .rbrace →
      Reads (parseEntries site ts) (es, k.span) rest'

namespace Phrase.Exact

variable {site : Site} {ts ts₁ ts₂ rest : List Lexeme} {t k : Lexeme} {a b c : Expr}

/-! ### Conditionals -/

theorem ofBinary (h : Exact site (.binary .coalesce) ts rest a) : Exact site .expr ts rest a := by
  intro hrest
  have hwhole := h (hrest.mono (by decide)) _ _
    (continueBinary_of_ends (hrest.mono (by decide)))
  exact reads_parse.mpr ⟨a, rest, hwhole, .inl ⟨hrest.noMark (by decide), rfl, rfl⟩⟩

theorem conditional (hc : Exact site (.binary .coalesce) ts (t :: ts₁) c)
    (ht : t.token = .punct .question) (ha : Exact site .expr ts₁ (k :: ts₂) a)
    (hk : k.token = .punct .colon) (hb : Exact site .expr ts₂ rest b) :
    Exact site .expr ts rest (node (.conditional c a b) (c.span.merge b.span)) := by
  intro hrest
  have hcondition := hc (ends_of_mark ht (by decide)) _ _
    (continueBinary_of_ends (ends_of_mark ht (by decide)))
  have hconsequent := ha (ends_of_mark hk (by decide))
  exact reads_parse.mpr ⟨c, _, hcondition,
    .inr ⟨t, ts₁, a, k, ts₂, b, rfl, ht, hconsequent, hk, hb hrest, rfl⟩⟩

/-! ### Operators -/

section

variable {level : Level}

theorem ofOperand (h : Exact site (.operand level) ts rest a) :
    Exact site (.binary level) ts rest a :=
  fun hrest _ _ hwhole => reads_parseBinary.mpr ⟨a, rest, h hrest, hwhole⟩

theorem joined {op : BinaryOp} (hlevel : op.level = level)
    (ha : Exact site (.binary level) ts (t :: ts₁) a) (ht : t.token = .punct op.mark)
    (hb : Exact site (.operand level) ts₁ rest b) :
    Exact site (.binary level) ts rest (node (.binary op a b) (a.span.merge b.span)) := by
  intro hrest e rest' hwhole
  have hends : Ends (level.rank - 1) (t :: ts₁) := by
    refine ends_of_mark ht ?_
    rw [op.looseness_mark, hlevel]
    exact Nat.sub_one_lt (Nat.ne_of_gt level.rank_pos)
  have hop := Level.op?_eq_some_iff.mpr ⟨hlevel, ht⟩
  exact ha hends _ _ (continues_continueBinary.mpr
    (.inr ⟨t, ts₁, op, b, rest, rfl, hop, hb hrest, hwhole⟩))

theorem ofTighter {next : Level} (hnext : level.next? = some next)
    (h : Exact site (.binary next) ts rest a) : Exact site (.operand level) ts rest a := by
  intro hrest
  have hrank := Level.rank_next hnext
  rw [parseOperand_of_next hnext]
  exact h (hrest.mono (by omega)) _ _ (continueBinary_of_ends (hrest.mono (by omega)))

end

theorem ofUnary (h : Exact site .unary ts rest a) :
    Exact site (.operand .multiplicative) ts rest a := by
  intro hrest
  rw [parseOperand_multiplicative]
  exact h hrest

theorem ofSuffixed (h : Exact site .suffixed ts rest a)
    (hfirst : ∀ op : UnaryOp, NoMark op.mark ts) : Exact site .unary ts rest a := by
  intro hrest
  have hnone : ∀ t ∈ ts.head?, UnaryOp.ofToken? t.token = none := by
    intro t ht
    cases hop : UnaryOp.ofToken? t.token with
    | none => rfl
    | some op => exact absurd (UnaryOp.ofToken?_eq_some_iff.mp hop) (hfirst op t ht)
  exact reads_parseUnary.mpr (.inl ⟨hnone, h _ _ (continuePostfix_of_ends hrest)⟩)

theorem prefixed {op : UnaryOp} (ht : t.token = .punct op.mark)
    (h : Exact site .unary ts rest a) :
    Exact site .unary (t :: ts) rest (node (.unary op a) (t.span.merge a.span)) := by
  intro hrest
  have hop := UnaryOp.ofToken?_eq_some_iff.mpr ht
  exact reads_parseUnary.mpr (.inr ⟨t, ts, op, a, rfl, hop, h hrest, rfl⟩)

/-! ### Suffixes -/

theorem ofPrimary (h : Exact site .primary ts rest a) : Exact site .suffixed ts rest a :=
  fun _ _ hwhole => reads_parsePostfix.mpr ⟨a, rest, h, hwhole⟩

theorem member {field : String} (h : Exact site .suffixed ts (t :: k :: rest) a)
    (ht : t.token = .punct .dot) (hk : Name k.token field) :
    Exact site .suffixed ts rest (node (.member a field) (a.span.merge k.span)) := by
  intro e rest' hwhole
  have hname := memberName?_eq_some_iff.mpr hk
  exact h _ _ (continues_continuePostfix.mpr
    (.inr (.inl ⟨t, k, rest, field, rfl, ht, hname, hwhole⟩)))

theorem index (ha : Exact site .suffixed ts (t :: ts₁) a) (ht : t.token = .punct .lbracket)
    (hb : Exact site .expr ts₁ (k :: rest) b) (hk : k.token = .punct .rbracket) :
    Exact site .suffixed ts rest (node (.index a b) (a.span.merge k.span)) := by
  intro e rest' hwhole
  have hat := hb (ends_of_mark hk (by decide))
  exact ha _ _ (continues_continuePostfix.mpr
    (.inr (.inr (.inl ⟨t, ts₁, b, k, rest, rfl, ht, hat, hk, hwhole⟩))))

theorem call {args : List Expr} (ha : Exact site .suffixed ts (t :: ts₁) a)
    (ht : t.token = .punct .lparen) (hargs : Exact site .items ts₁ (k :: rest) args)
    (hk : k.token = .punct .rparen) :
    Exact site .suffixed ts rest (node (.call a args) (a.span.merge k.span)) := by
  intro e rest' hwhole
  have hread := hargs _ _ _ (by decide) rfl hk
  exact ha _ _ (continues_continuePostfix.mpr
    (.inr (.inr (.inr ⟨t, ts₁, args, k.span, rest, rfl, ht, hread, hwhole⟩))))

/-! ### Primaries -/

theorem atom {kind : ExprKind} (ht : Atom t.token kind) :
    Exact site .primary (t :: rest) rest (node kind t.span) :=
  reads_parsePrimary.mpr ⟨t, rest, rfl, .inl ⟨kind, atom?_eq_some_iff.mpr ht, rfl, rfl⟩⟩

theorem group (ht : t.token = .punct .lparen) (h : Exact site .expr ts (k :: rest) a)
    (hk : k.token = .punct .rparen) :
    Exact site .primary (t :: ts) rest (node a.kind (t.span.merge k.span)) := by
  have hread := h (ends_of_mark hk (by decide))
  exact reads_parsePrimary.mpr ⟨t, ts, rfl, .inr (.inl ⟨ht, a, k, hread, hk, rfl⟩)⟩

theorem array {items : List Expr} (ht : t.token = .punct .lbracket)
    (h : Exact site .items ts (k :: rest) items) (hk : k.token = .punct .rbracket) :
    Exact site .primary (t :: ts) rest (node (.array items) (t.span.merge k.span)) := by
  have hread := h _ _ _ (by decide) rfl hk
  exact reads_parsePrimary.mpr ⟨t, ts, rfl, .inr (.inr (.inl ⟨ht, items, k.span, hread, rfl⟩))⟩

theorem object {entries : List (String × Expr)} (ht : t.token = .punct .lbrace)
    (h : Exact site .entries ts (k :: rest) entries) (hk : k.token = .punct .rbrace) :
    Exact site .primary (t :: ts) rest (node (.object entries) (t.span.merge k.span)) := by
  have hread := h _ _ rfl hk
  exact reads_parsePrimary.mpr ⟨t, ts, rfl, .inr (.inr (.inr ⟨ht, entries, k.span, hread, rfl⟩))⟩

/-! ### Lists -/

theorem noItems : Exact site .items ts ts [] := by
  rintro close k rest hclose rfl hk
  have hcomma := ne_comma_of_mem_itemClosers close hclose
  exact (reads_parseItems hcomma).mpr (.inl ⟨k, rfl, hk, rfl, rfl⟩)

theorem lastItem (h : Exact site .expr ts rest a)
    (hfirst : ∀ close ∈ itemClosers, NoMark close ts) : Exact site .items ts rest [a] := by
  rintro close k rest hclose rfl hk
  have hcomma := ne_comma_of_mem_itemClosers close hclose
  have hread := h (ends_of_mark hk (looseness_of_mem_itemClosers close hclose))
  exact (reads_parseItems hcomma).mpr
    (.inr ⟨hfirst close hclose, a, k, rest, hread, .inl ⟨hk, rfl, rfl, rfl⟩⟩)

theorem moreItems {more : List Expr} (h : Exact site .expr ts (t :: ts₁) a)
    (hfirst : ∀ close ∈ itemClosers, NoMark close ts) (ht : t.token = .punct .comma)
    (hmore : Exact site .items ts₁ rest more) : Exact site .items ts rest (a :: more) := by
  rintro close k rest hclose rfl hk
  have hcomma := ne_comma_of_mem_itemClosers close hclose
  have hread := h (ends_of_mark ht (by decide))
  have hmoreread := hmore _ _ _ hclose rfl hk
  exact (reads_parseItems hcomma).mpr
    (.inr ⟨hfirst close hclose, a, t, ts₁, hread, .inr ⟨ht, more, hmoreread, rfl⟩⟩)

theorem pair {key : String} (ht : Key t.token key) (hk : k.token = .punct .colon)
    (h : Exact site .expr ts rest a) : Exact site .entry (t :: k :: ts) rest (key, a) := by
  intro _ hrest
  obtain ⟨short, hkey⟩ := ht.exists_objectKey?
  exact ⟨t, k :: ts, short, rfl, hkey,
    continues_continueEntry.mpr (.inl ⟨k, ts, rfl, hk, h hrest⟩)⟩

theorem shorthand {name : String} {kind : ExprKind} (ht : t.token = .ident name)
    (hatom : Atom (.ident name) kind) :
    Exact site .entry (t :: rest) rest (name, node kind t.span) := by
  intro hcolon _
  have hkey : objectKey? t.token = some (name, true) :=
    objectKey?_eq_some_iff.mpr ⟨ht ▸ .name (.ident name), by simp [ht]⟩
  obtain rfl := atom_ident_iff.mp hatom
  exact ⟨t, rest, true, rfl, hkey, continues_continueEntry.mpr (.inr ⟨rfl, hcolon, rfl, rfl⟩)⟩

theorem noEntries : Exact site .entries ts ts [] := by
  rintro k rest rfl hk
  exact reads_parseEntries.mpr (.inl ⟨k, rfl, hk, rfl, rfl⟩)

theorem lastEntry {entry : String × Expr} (h : Exact site .entry ts rest entry) :
    Exact site .entries ts rest [entry] := by
  rintro k rest rfl hk
  have hread := h (noMark_of_mark hk (by decide)) (ends_of_mark hk (by decide))
  exact reads_parseEntries.mpr
    (.inr ⟨entry.1, entry.2, k, rest, hread, .inl ⟨hk, rfl, rfl, rfl⟩⟩)

theorem moreEntries {entry : String × Expr} {more : List (String × Expr)}
    (h : Exact site .entry ts (t :: ts₁) entry) (ht : t.token = .punct .comma)
    (hmore : Exact site .entries ts₁ rest more) :
    Exact site .entries ts rest (entry :: more) := by
  rintro k rest rfl hk
  have hread := h (noMark_of_mark ht (by decide)) (ends_of_mark ht (by decide))
  have hmoreread := hmore _ _ rfl hk
  exact reads_parseEntries.mpr
    (.inr ⟨entry.1, entry.2, t, ts₁, hread, .inr ⟨ht, more, hmoreread, rfl⟩⟩)

end Phrase.Exact

/-- Lexemes do not start with a mark that their phrase never starts with. -/
theorem Placed.noMark {p : Phrase} {w : List Lexeme} {tree : p.Tree} (h : Placed p w tree)
    {marks : List Punct} (hp : p.neverFirst? = some marks) (rest : List Lexeme) {m : Punct}
    (hm : m ∈ marks) : NoMark m (w ++ rest) := by
  obtain ⟨token, _, heq, hne⟩ := h.derives.first hp
  obtain ⟨t, w', rfl, rfl, -⟩ := List.map_eq_cons_iff.mp heq
  intro t' ht'
  cases ht'
  exact hne m hm

/-- A phrase is read for what it stands for. -/
theorem Placed.exact {p : Phrase} {w : List Lexeme} {tree : p.Tree} (h : Placed p w tree)
    (site : Site) (rest : List Lexeme) : p.Exact site (w ++ rest) rest tree := by
  induction h generalizing rest with
  | ofBinary _ ih => exact .ofBinary (ih rest)
  | conditional _ ht _ hk _ ih₁ ih₂ ih₃ =>
      simp only [List.append_assoc, List.cons_append]
      exact .conditional (ih₁ _) ht (ih₂ _) hk (ih₃ rest)
  | ofOperand _ ih => exact .ofOperand (ih rest)
  | joined hlevel _ ht _ ih₁ ih₂ =>
      simp only [List.append_assoc, List.cons_append]
      exact .joined hlevel (ih₁ _) ht (ih₂ rest)
  | ofTighter hnext _ ih => exact .ofTighter hnext (ih rest)
  | ofUnary _ ih => exact .ofUnary (ih rest)
  | ofSuffixed hplaced ih =>
      exact .ofSuffixed (ih rest) fun op => hplaced.noMark rfl rest (by cases op <;> decide)
  | prefixed ht _ ih => exact .prefixed ht (ih rest)
  | ofPrimary _ ih => exact .ofPrimary (ih rest)
  | member _ ht hname ih =>
      simp only [List.append_assoc, List.cons_append, List.nil_append]
      exact .member (ih _) ht hname
  | index _ ht _ hk ih₁ ih₂ =>
      simp only [List.append_assoc, List.cons_append, List.nil_append]
      exact .index (ih₁ _) ht (ih₂ _) hk
  | call _ ht _ hk ih₁ ih₂ =>
      simp only [List.append_assoc, List.cons_append, List.nil_append]
      exact .call (ih₁ _) ht (ih₂ _) hk
  | atom hatom => exact .atom hatom
  | group ht _ hk ih =>
      simp only [List.append_assoc, List.cons_append, List.nil_append]
      exact .group ht (ih _) hk
  | array ht _ hk ih =>
      simp only [List.append_assoc, List.cons_append, List.nil_append]
      exact .array ht (ih _) hk
  | object ht _ hk ih =>
      simp only [List.append_assoc, List.cons_append, List.nil_append]
      exact .object ht (ih _) hk
  | noItems => exact .noItems
  | lastItem hplaced ih =>
      exact .lastItem (ih rest) fun _ hclose => hplaced.noMark rfl rest hclose
  | moreItems hplaced ht _ ih₁ ih₂ =>
      simp only [List.append_assoc, List.cons_append]
      exact .moreItems (ih₁ _) (fun _ hclose => hplaced.noMark rfl _ hclose) ht (ih₂ rest)
  | pair hkey hk _ ih => exact .pair hkey hk (ih rest)
  | shorthand ht hatom => exact .shorthand ht hatom
  | noEntries => exact .noEntries
  | lastEntry _ ih => exact .lastEntry (ih rest)
  | moreEntries _ ht _ ih₁ ih₂ =>
      simp only [List.append_assoc, List.cons_append]
      exact .moreEntries (ih₁ _) ht (ih₂ rest)

end Grammar

end LiveMarkup
