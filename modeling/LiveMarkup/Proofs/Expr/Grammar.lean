import LiveMarkup.Expr.Parse
set_option autoImplicit false

/-! # The grammar of expressions

Which words of tokens are expressions, and which tree each of them stands for. There is a kind of
phrase for every level of binding (`Phrase`) and a rule for every way to make one (`Derives`). A
rule puts words together and looks at nothing else; trees carry no spans (`Expr.bare`).

The operators, names and literals are listed here on their own, and the tables that the readers go
by are shown to agree with the lists. A reader knows the end of a phrase by how loosely the next mark
ties to it (`Ends`). -/

namespace LiveMarkup

/-! ## Trees without spans -/

namespace Expr

/-- A node whose span does not matter. -/
def plain (kind : ExprKind) : Expr := node kind ⟨0, 0⟩

mutual

/-- An expression without its spans. -/
def bare : Expr → Expr
  | node kind _ => plain (bareKind kind)

def bareKind : ExprKind → ExprKind
  | .null => .null
  | .bool b => .bool b
  | .int n => .int n
  | .float x => .float x
  | .str s => .str s
  | .array items => .array (bareItems items)
  | .object entries => .object (bareEntries entries)
  | .ident name => .ident name
  | .data => .data
  | .instanceKey => .instanceKey
  | .hostProps => .hostProps
  | .isServer => .isServer
  | .member object field => .member (bare object) field
  | .index object at_ => .index (bare object) (bare at_)
  | .call callee args => .call (bare callee) (bareItems args)
  | .unary op operand => .unary op (bare operand)
  | .binary op left right => .binary op (bare left) (bare right)
  | .conditional condition consequent otherwise =>
    .conditional (bare condition) (bare consequent) (bare otherwise)

def bareItems : List Expr → List Expr
  | [] => []
  | e :: rest => bare e :: bareItems rest

def bareEntries : List (String × Expr) → List (String × Expr)
  | [] => []
  | (key, e) :: rest => (key, bare e) :: bareEntries rest

end

theorem bare_node (kind : ExprKind) (span : Span) : (node kind span).bare = plain (bareKind kind) :=
  rfl

/-- Only the kind of an expression shows without spans. -/
theorem plain_bareKind_kind (e : Expr) : plain (bareKind e.kind) = e.bare := by
  cases e
  rfl

end Expr

/-! ## Operators -/

/-- The level that an operator belongs to. -/
def BinaryOp.level : BinaryOp → Level
  | .coalesce => .coalesce
  | .or => .or
  | .and => .and
  | .looseEq | .looseNotEq | .strictEq | .strictNotEq => .equality
  | .lt | .ltEq | .gt | .gtEq => .comparison
  | .add | .sub => .additive
  | .mul | .div | .mod => .multiplicative

/-- The mark that an operator is written as. -/
def BinaryOp.mark : BinaryOp → Punct
  | .coalesce => .coalesce
  | .or => .orOr
  | .and => .andAnd
  | .looseEq => .looseEq
  | .looseNotEq => .looseNotEq
  | .strictEq => .strictEq
  | .strictNotEq => .strictNotEq
  | .lt => .lt
  | .ltEq => .ltEq
  | .gt => .gt
  | .gtEq => .gtEq
  | .add => .plus
  | .sub => .minus
  | .mul => .star
  | .div => .slash
  | .mod => .percent

def UnaryOp.mark : UnaryOp → Punct
  | .not => .bang
  | .neg => .minus
  | .plus => .plus

/-- The level that binds next tighter. -/
def Level.next? : Level → Option Level
  | .coalesce => some .or
  | .or => some .and
  | .and => some .equality
  | .equality => some .comparison
  | .comparison => some .additive
  | .additive => some .multiplicative
  | .multiplicative => none

theorem Level.rank_next {level next : Level} (h : level.next? = some next) :
    level.rank = next.rank + 1 := by
  cases level <;> cases h <;> rfl

theorem Level.rank_pos (level : Level) : 0 < level.rank := by cases level <;> decide

/-! ## Names and literals -/

namespace Grammar

/-- What may stand after a point. -/
inductive Name : Token → String → Prop where
  | ident (name : String) : Name (.ident name) name
  | keyword (k : Keyword) : Name (.keyword k) k.text

/-- What may stand before the colon of an entry. -/
inductive Key : Token → String → Prop where
  | name {t : Token} {key : String} : Name t key → Key t key
  | str (s : String) : Key (.str s) s
  | int (n : Int64) : Key (.int n) (toString n.toInt)

/-- The names that do not stand for a field of the data. -/
def reserved : List String := ["$", "$ctxKey", "$pageProps", "$isServer"]

/-- The tokens that are expressions by themselves. -/
inductive Atom : Token → ExprKind → Prop where
  | nullWord : Atom (.keyword .nullWord) .null
  | undefinedWord : Atom (.keyword .undefinedWord) .null
  | trueWord : Atom (.keyword .trueWord) (.bool true)
  | falseWord : Atom (.keyword .falseWord) (.bool false)
  | int (n : Int64) : Atom (.int n) (.int n)
  | float (x : Float) : Atom (.float x) (.float x)
  | str (s : String) : Atom (.str s) (.str s)
  | data : Atom (.ident "$") .data
  | instanceKey : Atom (.ident "$ctxKey") .instanceKey
  | hostProps : Atom (.ident "$pageProps") .hostProps
  | isServer : Atom (.ident "$isServer") .isServer
  | ident {name : String} : name ∉ reserved → Atom (.ident name) (.ident name)

/-! ## Phrases -/

/-- The kinds of phrases, loosest first, and the lists inside brackets. -/
inductive Phrase where
  | expr
  /-- Operands joined by the operators of one level. -/
  | binary (level : Level)
  | operand (level : Level)
  | unary
  /-- A primary and what is accessed or called on it. -/
  | suffixed
  | primary
  | items
  | entry
  | entries

/-- What a phrase stands for. -/
def Phrase.Tree : Phrase → Type
  | .items => List Expr
  | .entry => String × Expr
  | .entries => List (String × Expr)
  | _ => Expr

open LiveMarkup.Expr (plain)

/-- A word of tokens is a phrase of a kind, and stands for a tree. -/
inductive Derives : (p : Phrase) → List Token → p.Tree → Prop where
  | ofBinary {ts : List Token} {e : Expr} : Derives (.binary .coalesce) ts e → Derives .expr ts e
  | conditional {ts₁ ts₂ ts₃ : List Token} {c a b : Expr} :
      Derives (.binary .coalesce) ts₁ c → Derives .expr ts₂ a → Derives .expr ts₃ b →
      Derives .expr (ts₁ ++ .punct .question :: (ts₂ ++ .punct .colon :: ts₃))
        (plain (.conditional c a b))
  | ofOperand {level : Level} {ts : List Token} {e : Expr} :
      Derives (.operand level) ts e → Derives (.binary level) ts e
  /-- Operators associate to the left. -/
  | joined {level : Level} {op : BinaryOp} {ts₁ ts₂ : List Token} {a b : Expr} :
      op.level = level → Derives (.binary level) ts₁ a → Derives (.operand level) ts₂ b →
      Derives (.binary level) (ts₁ ++ .punct op.mark :: ts₂) (plain (.binary op a b))
  | ofTighter {level next : Level} {ts : List Token} {e : Expr} :
      level.next? = some next → Derives (.binary next) ts e → Derives (.operand level) ts e
  | ofUnary {ts : List Token} {e : Expr} :
      Derives .unary ts e → Derives (.operand .multiplicative) ts e
  | ofSuffixed {ts : List Token} {e : Expr} : Derives .suffixed ts e → Derives .unary ts e
  | prefixed {op : UnaryOp} {ts : List Token} {e : Expr} :
      Derives .unary ts e → Derives .unary (.punct op.mark :: ts) (plain (.unary op e))
  | ofPrimary {ts : List Token} {e : Expr} : Derives .primary ts e → Derives .suffixed ts e
  | member {ts : List Token} {e : Expr} {t : Token} {field : String} :
      Derives .suffixed ts e → Name t field →
      Derives .suffixed (ts ++ [.punct .dot, t]) (plain (.member e field))
  | index {ts₁ ts₂ : List Token} {e at_ : Expr} :
      Derives .suffixed ts₁ e → Derives .expr ts₂ at_ →
      Derives .suffixed (ts₁ ++ .punct .lbracket :: (ts₂ ++ [.punct .rbracket]))
        (plain (.index e at_))
  | call {ts₁ ts₂ : List Token} {e : Expr} {args : List Expr} :
      Derives .suffixed ts₁ e → Derives .items ts₂ args →
      Derives .suffixed (ts₁ ++ .punct .lparen :: (ts₂ ++ [.punct .rparen])) (plain (.call e args))
  | atom {t : Token} {kind : ExprKind} : Atom t kind → Derives .primary [t] (plain kind)
  | group {ts : List Token} {e : Expr} :
      Derives .expr ts e → Derives .primary (.punct .lparen :: (ts ++ [.punct .rparen])) e
  | array {ts : List Token} {items : List Expr} :
      Derives .items ts items →
      Derives .primary (.punct .lbracket :: (ts ++ [.punct .rbracket])) (plain (.array items))
  | object {ts : List Token} {entries : List (String × Expr)} :
      Derives .entries ts entries →
      Derives .primary (.punct .lbrace :: (ts ++ [.punct .rbrace])) (plain (.object entries))
  | noItems : Derives .items [] []
  | lastItem {ts : List Token} {e : Expr} : Derives .expr ts e → Derives .items ts [e]
  /-- What follows a comma may be no item at all. -/
  | moreItems {ts₁ ts₂ : List Token} {e : Expr} {more : List Expr} :
      Derives .expr ts₁ e → Derives .items ts₂ more →
      Derives .items (ts₁ ++ .punct .comma :: ts₂) (e :: more)
  | pair {t : Token} {ts : List Token} {key : String} {e : Expr} :
      Key t key → Derives .expr ts e → Derives .entry (t :: .punct .colon :: ts) (key, e)
  /-- A name alone stands for itself. -/
  | shorthand {name : String} {kind : ExprKind} :
      Atom (.ident name) kind → Derives .entry [.ident name] (name, plain kind)
  | noEntries : Derives .entries [] []
  | lastEntry {ts : List Token} {entry : String × Expr} :
      Derives .entry ts entry → Derives .entries ts [entry]
  | moreEntries {ts₁ ts₂ : List Token} {entry : String × Expr} {more : List (String × Expr)} :
      Derives .entry ts₁ entry → Derives .entries ts₂ more →
      Derives .entries (ts₁ ++ .punct .comma :: ts₂) (entry :: more)

end Grammar

/-! ## The readers' tables -/

open Grammar (Name Key Atom)

theorem Level.op?_eq_some_iff {level : Level} {t : Token} {op : BinaryOp} :
    level.op? t = some op ↔ op.level = level ∧ t = .punct op.mark := by
  constructor
  · intro h
    cases t with
    | punct p => cases level <;> cases p <;> cases h <;> exact ⟨rfl, rfl⟩
    | _ => cases h
  · rintro ⟨rfl, rfl⟩
    cases op <;> rfl

theorem UnaryOp.ofToken?_eq_some_iff {t : Token} {op : UnaryOp} :
    ofToken? t = some op ↔ t = .punct op.mark := by
  constructor
  · intro h
    cases t with
    | punct p => cases p <;> cases h <;> rfl
    | _ => cases h
  · rintro rfl
    cases op <;> rfl

theorem memberName?_eq_some_iff {t : Token} {name : String} :
    memberName? t = some name ↔ Name t name := by
  constructor
  · intro h
    cases t with
    | ident _ => cases h; exact .ident name
    | keyword k => cases h; exact .keyword k
    | _ => cases h
  · rintro (_ | _) <;> rfl

theorem objectKey?_eq_some_iff {t : Token} {key : String} {short : Bool} :
    objectKey? t = some (key, short) ↔ Key t key ∧ (short = true ↔ t = .ident key) := by
  constructor
  · intro h
    cases t with
    | ident _ => cases h; exact ⟨.name (.ident key), by simp⟩
    | str _ => cases h; exact ⟨.str key, by simp⟩
    | int n => cases h; exact ⟨.int n, by simp⟩
    | keyword k => cases h; exact ⟨.name (.keyword k), by simp⟩
    | _ => cases h
  · rintro ⟨(⟨_ | _⟩ | _ | _), h⟩ <;> cases short <;> simp_all [objectKey?]

theorem Grammar.Key.exists_objectKey? {t : Token} {key : String} (h : Key t key) :
    ∃ short, objectKey? t = some (key, short) := by
  obtain ⟨_ | _⟩ | _ | _ := h <;> exact ⟨_, rfl⟩

theorem Grammar.atom_ident_iff {name : String} {kind : ExprKind} :
    Atom (.ident name) kind ↔ kind = Expr.ofName name := by
  constructor
  · rintro (_ | _ | _ | _ | _ | _ | _ | _ | _ | _ | _ | hname)
    · rfl
    · rfl
    · rfl
    · rfl
    · simp only [reserved, List.mem_cons, List.not_mem_nil, or_false, not_or] at hname
      simp [Expr.ofName, hname]
  · rintro rfl
    unfold Expr.ofName
    split
    next h => exact h ▸ .data
    next h₁ =>
      split
      next h => exact h ▸ .instanceKey
      next h₂ =>
        split
        next h => exact h ▸ .hostProps
        next h₃ =>
          split
          next h => exact h ▸ .isServer
          next h₄ => exact .ident (by simp [reserved, h₁, h₂, h₃, h₄])

theorem atom?_eq_some_iff {t : Token} {kind : ExprKind} : atom? t = some kind ↔ Atom t kind := by
  constructor
  · intro h
    cases t with
    | ident name => cases h; exact Grammar.atom_ident_iff.mpr rfl
    | keyword k => cases k <;> cases h <;> constructor
    | int n => cases h; exact .int n
    | float x => cases h; exact .float x
    | str s => cases h; exact .str s
    | punct _ => cases h
  · intro h
    cases t with
    | ident name => rw [Grammar.atom_ident_iff.mp h]; rfl
    | _ => cases h <;> rfl

theorem Grammar.Atom.bareKind {t : Token} {kind : ExprKind} (h : Atom t kind) :
    Expr.bareKind kind = kind := by
  cases h <;> rfl

/-! ## Words in front of tokens -/

/-- The word that is taken from the front of the tokens when a rest is left. -/
inductive Takes : List Token → List Lexeme → List Lexeme → Prop where
  | nil (ts : List Lexeme) : Takes [] ts ts
  | cons {t : Lexeme} {token : Token} {w : List Token} {ts rest : List Lexeme} :
      t.token = token → Takes w ts rest → Takes (token :: w) (t :: ts) rest

namespace Takes

variable {w w₁ w₂ : List Token} {ts rest : List Lexeme}

theorem last {t : Lexeme} {token : Token} (h : t.token = token) : Takes [token] (t :: ts) ts :=
  .cons h (.nil ts)

theorem append {ts₁ : List Lexeme} (h₁ : Takes w₁ ts ts₁) (h₂ : Takes w₂ ts₁ rest) :
    Takes (w₁ ++ w₂) ts rest := by
  induction h₁ with
  | nil => exact h₂
  | cons ht _ ih => exact .cons ht (ih h₂)

theorem split (h : Takes (w₁ ++ w₂) ts rest) : ∃ ts₁, Takes w₁ ts ts₁ ∧ Takes w₂ ts₁ rest := by
  induction w₁ generalizing ts with
  | nil => exact ⟨ts, .nil ts, h⟩
  | cons token w₁ ih =>
      obtain _ | ⟨ht, h⟩ := h
      obtain ⟨ts₁, h₁, h₂⟩ := ih h
      exact ⟨ts₁, .cons ht h₁, h₂⟩

theorem all (ts : List Lexeme) : Takes (ts.map Lexeme.token) ts [] := by
  induction ts with
  | nil => exact .nil []
  | cons t ts ih => exact .cons rfl ih

theorem eq_of_all (h : Takes w ts []) : w = ts.map Lexeme.token := by
  induction w generalizing ts with
  | nil => cases h; rfl
  | cons token w ih =>
      obtain _ | ⟨rfl, h⟩ := h
      rw [List.map_cons, ih h]

end Takes

/-! ## Where a phrase ends -/

/-- How loosely a mark ties what follows it to the expression before it: the suffixes of a primary
tie closest, then operators by their level, then the question mark. Other marks do not. -/
def Punct.looseness : Punct → Nat
  | .dot | .lbracket | .lparen => 0
  | .star | .slash | .percent => 1
  | .plus | .minus => 2
  | .lt | .ltEq | .gt | .gtEq => 3
  | .looseEq | .looseNotEq | .strictEq | .strictNotEq => 4
  | .andAnd => 5
  | .orOr => 6
  | .coalesce => 7
  | .question => 8
  | _ => 9

theorem BinaryOp.looseness_mark (op : BinaryOp) : op.mark.looseness = op.level.rank := by
  cases op <;> rfl

/-- What follows a phrase ties to it more loosely than is read into phrases of a rank. -/
def Ends (rank : Nat) (ts : List Lexeme) : Prop :=
  ∀ t ∈ ts.head?, ∀ p, t.token = .punct p → rank < p.looseness

theorem ends_nil (rank : Nat) : Ends rank [] := by simp [Ends]

theorem ends_of_mark {rank : Nat} {p : Punct} {t : Lexeme} {ts : List Lexeme}
    (ht : t.token = .punct p) (hp : rank < p.looseness) : Ends rank (t :: ts) := by
  intro t' ht' p' hp'
  cases ht'
  rw [ht] at hp'
  cases hp'
  exact hp

section

variable {rank : Nat} {ts : List Lexeme}

theorem Ends.mono (h : Ends rank ts) {rank' : Nat} (hle : rank' ≤ rank) : Ends rank' ts :=
  fun t ht p hp => Nat.lt_of_le_of_lt hle (h t ht p hp)

/-- The first token, if there is one, is not a given mark. -/
def NoMark (p : Punct) (ts : List Lexeme) : Prop := ∀ t ∈ ts.head?, t.token ≠ .punct p

theorem Ends.noMark (h : Ends rank ts) {p : Punct} (hp : p.looseness ≤ rank) : NoMark p ts :=
  fun t ht htoken => Nat.not_lt.mpr hp (h t ht p htoken)

theorem Ends.op? {level : Level} (h : Ends level.rank ts) :
    ∀ t ∈ ts.head?, level.op? t.token = none := by
  intro t ht
  cases hop : level.op? t.token with
  | none => rfl
  | some op =>
      obtain ⟨rfl, htoken⟩ := Level.op?_eq_some_iff.mp hop
      exact absurd op.looseness_mark (Nat.ne_of_gt (h t ht op.mark htoken))

end

end LiveMarkup
