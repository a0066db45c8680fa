import LiveMarkup.Proofs.Expr.Reading
set_option autoImplicit false

/-! # What is read is a phrase

Whatever a reader takes from the tokens is a phrase of its kind, and what it builds is the tree of
that phrase. The readers call one another, and all but the steps from one level to the next take
something first: what holds of all readers on fewer tokens (`Sound`) gives each of them one more. -/

namespace LiveMarkup

open Grammar

/-- A phrase is taken from the front of the tokens. -/
def Spans (p : Phrase) (ts rest : List Lexeme) (tree : p.Tree) : Prop :=
  ∃ w, Takes w ts rest ∧ Derives p w tree

/-- A phrase that stands before the tokens extends to the rest. -/
def Extends (p : Phrase) (start : p.Tree) (ts rest : List Lexeme) (tree : p.Tree) : Prop :=
  ∀ w₀, Derives p w₀ start → ∃ w, Takes w ts rest ∧ Derives p (w₀ ++ w) tree

/-- A list is taken from the front of the tokens, and its closing mark. -/
def SpansClosed (p : Phrase) (close : Punct) (ts rest : List Lexeme) (tree : p.Tree) : Prop :=
  ∃ w, Takes (w ++ [.punct close]) ts rest ∧ Derives p w tree

section

variable {p q : Phrase} {ts ts₁ rest : List Lexeme} {start middle tree : p.Tree}

theorem Spans.rule {tree' : q.Tree} (h : Spans p ts rest tree)
    (hrule : ∀ {w}, Derives p w tree → Derives q w tree') : Spans q ts rest tree' := by
  obtain ⟨w, hw, htree⟩ := h
  exact ⟨w, hw, hrule htree⟩

theorem Spans.extend (h : Spans p ts ts₁ start) (h₁ : Extends p start ts₁ rest tree) :
    Spans p ts rest tree := by
  obtain ⟨w₀, hw₀, hstart⟩ := h
  obtain ⟨w, hw, htree⟩ := h₁ w₀ hstart
  exact ⟨w₀ ++ w, hw₀.append hw, htree⟩

theorem Extends.refl (p : Phrase) (tree : p.Tree) (ts : List Lexeme) : Extends p tree ts ts tree :=
  fun w₀ h => ⟨[], .nil ts, by rwa [List.append_nil]⟩

/-- A phrase extends by a word after it, and then further. -/
theorem Extends.step {w : List Token} (hw : Takes w ts ts₁)
    (hrule : ∀ {w₀}, Derives p w₀ start → Derives p (w₀ ++ w) middle)
    (h : Extends p middle ts₁ rest tree) : Extends p start ts rest tree := by
  intro w₀ hstart
  obtain ⟨w', hw', htree⟩ := h (w₀ ++ w) (hrule hstart)
  rw [List.append_assoc] at htree
  exact ⟨w ++ w', hw.append hw', htree⟩

end

namespace Expr

/-- On fewer than `n` tokens, every reader takes phrases of its kind. -/
structure Sound (site : Site) (n : Nat) : Prop where
  expr : ∀ {ts rest : List Lexeme} {e : Expr}, ts.length < n → Reads (parse site ts) e rest →
    Spans .expr ts rest e.bare
  operand : ∀ {level : Level} {ts rest : List Lexeme} {e : Expr}, ts.length < n →
    Reads (parseOperand site level ts) e rest → Spans (.operand level) ts rest e.bare
  operators : ∀ {level : Level} {left : Expr} {ts rest : List Lexeme} {e : Expr}, ts.length < n →
    Continues (continueBinary site level left ts) e rest →
    Extends (.binary level) left.bare ts rest e.bare
  unary : ∀ {ts rest : List Lexeme} {e : Expr}, ts.length < n → Reads (parseUnary site ts) e rest →
    Spans .unary ts rest e.bare
  suffixes : ∀ {object : Expr} {ts rest : List Lexeme} {e : Expr}, ts.length < n →
    Continues (continuePostfix site object ts) e rest →
    Extends .suffixed object.bare ts rest e.bare
  items : ∀ {close : Punct}, close ≠ .comma → ∀ {ts rest : List Lexeme} {items : List Expr}
    {stop : Span}, ts.length < n → Reads (parseItems site close ts) (items, stop) rest →
    SpansClosed .items close ts rest (bareItems items)
  entries : ∀ {ts rest : List Lexeme} {entries : List (String × Expr)} {stop : Span},
    ts.length < n → Reads (parseEntries site ts) (entries, stop) rest →
    SpansClosed .entries .rbrace ts rest (bareEntries entries)

namespace Sound

variable {site : Site} {n : Nat} {ts rest : List Lexeme} {e : Expr}

theorem continueBinary (hs : Sound site n) (hlen : ts.length ≤ n) {level : Level} {left : Expr}
    (h : Continues (Expr.continueBinary site level left ts) e rest) :
    Extends (.binary level) left.bare ts rest e.bare := by
  rcases continues_continueBinary.mp h with
    ⟨-, rfl, rfl⟩ | ⟨t, ts₁, op, right, ts₂, rfl, hop, hright, hwhole⟩
  · exact Extends.refl _ _ _
  · have hshort := hright.shorter
    obtain ⟨hlevel, ht⟩ := Level.op?_eq_some_iff.mp hop
    obtain ⟨w, hw, hoperand⟩ := hs.operand hlen hright
    exact .step (.cons ht hw) (fun hleft => .joined hlevel hleft hoperand)
      (hs.operators (by simp only [List.length_cons] at hlen; omega) hwhole)

theorem continuePostfix (hs : Sound site n) (hlen : ts.length ≤ n) {object : Expr}
    (h : Continues (Expr.continuePostfix site object ts) e rest) :
    Extends .suffixed object.bare ts rest e.bare := by
  rcases continues_continuePostfix.mp h with ⟨-, rfl, rfl⟩ |
    ⟨d, n, ts₁, field, rfl, hd, hname, hwhole⟩ |
    ⟨l, ts₁, index, k, ts₂, rfl, hl, hindex, hk, hwhole⟩ |
    ⟨l, ts₁, args, stop, ts₂, rfl, hl, hargs, hwhole⟩
  · exact Extends.refl _ _ _
  · have hfield := memberName?_eq_some_iff.mp hname
    simp only [List.length_cons] at hlen
    exact .step (.cons hd (.last rfl)) (fun hobject => .member hobject hfield)
      (hs.suffixes (by omega) hwhole)
  · have hshort := hindex.shorter
    obtain ⟨w, hw, hderives⟩ := hs.expr hlen hindex
    simp only [List.length_cons] at hlen hshort
    exact .step (.cons hl (hw.append (.last hk))) (fun hobject => .index hobject hderives)
      (hs.suffixes (by omega) hwhole)
  · have hshort := hargs.shorter
    obtain ⟨w, hw, hderives⟩ := hs.items (by decide) hlen hargs
    simp only [List.length_cons] at hlen
    exact .step (.cons hl hw) (fun hobject => .call hobject hderives)
      (hs.suffixes (by omega) hwhole)

theorem parsePrimary (hs : Sound site n) (hlen : ts.length ≤ n)
    (h : Reads (Expr.parsePrimary site ts) e rest) : Spans .primary ts rest e.bare := by
  obtain ⟨t, ts₁, rfl, ⟨kind, hatom, rfl, rfl⟩ | ⟨ht, inner, k, hinner, hk, rfl⟩ |
    ⟨ht, items, stop, hitems, rfl⟩ | ⟨ht, entries, stop, hentries, rfl⟩⟩ := reads_parsePrimary.mp h
  · have hkind := atom?_eq_some_iff.mp hatom
    rw [bare_node, hkind.bareKind]
    exact ⟨_, .last rfl, .atom hkind⟩
  · obtain ⟨w, hw, hderives⟩ := hs.expr hlen hinner
    rw [bare_node, plain_bareKind_kind]
    exact ⟨_, .cons ht (hw.append (.last hk)), .group hderives⟩
  · obtain ⟨w, hw, hderives⟩ := hs.items (by decide) hlen hitems
    exact ⟨_, .cons ht hw, .array hderives⟩
  · obtain ⟨w, hw, hderives⟩ := hs.entries hlen hentries
    exact ⟨_, .cons ht hw, .object hderives⟩

theorem parsePostfix (hs : Sound site n) (hlen : ts.length ≤ n)
    (h : Reads (Expr.parsePostfix site ts) e rest) : Spans .suffixed ts rest e.bare := by
  obtain ⟨object, ts₁, hobject, hwhole⟩ := reads_parsePostfix.mp h
  have hprimary := hs.parsePrimary hlen hobject
  have hsuffixes := hs.continuePostfix (Nat.le_trans (Nat.le_of_lt hobject.shorter) hlen) hwhole
  exact (hprimary.rule .ofPrimary).extend hsuffixes

theorem parseUnary (hs : Sound site n) (hlen : ts.length ≤ n)
    (h : Reads (Expr.parseUnary site ts) e rest) : Spans .unary ts rest e.bare := by
  rcases reads_parseUnary.mp h with ⟨-, h⟩ | ⟨t, ts₁, op, operand, rfl, hop, hoperand, rfl⟩
  · exact (hs.parsePostfix hlen h).rule .ofSuffixed
  · obtain ⟨w, hw, hderives⟩ := hs.unary hlen hoperand
    exact ⟨_, .cons (UnaryOp.ofToken?_eq_some_iff.mp hop) hw, .prefixed hderives⟩

theorem binary_of_operand (hs : Sound site n) (hlen : ts.length ≤ n) {level : Level}
    (hoperand : ∀ {left : Expr} {ts₁ : List Lexeme},
      Reads (Expr.parseOperand site level ts) left ts₁ → Spans (.operand level) ts ts₁ left.bare)
    (h : Reads (Expr.parseBinary site level ts) e rest) : Spans (.binary level) ts rest e.bare := by
  obtain ⟨left, ts₁, hleft, hwhole⟩ := reads_parseBinary.mp h
  have hoperators := hs.continueBinary (Nat.le_trans (Nat.le_of_lt hleft.shorter) hlen) hwhole
  exact ((hoperand hleft).rule .ofOperand).extend hoperators

/-- Going down the levels takes nothing, but there are not many of them. -/
theorem parseOperand (hs : Sound site n) {level : Level} {ts rest : List Lexeme} {e : Expr}
    (hlen : ts.length ≤ n) (h : Reads (Expr.parseOperand site level ts) e rest) :
    Spans (.operand level) ts rest e.bare := by
  cases hnext : level.next? with
  | none =>
      cases level <;> cases hnext
      rw [parseOperand_multiplicative] at h
      exact (hs.parseUnary hlen h).rule .ofUnary
  | some next =>
      have hrank := Level.rank_next hnext
      rw [parseOperand_of_next hnext] at h
      have hbinary := hs.binary_of_operand hlen (fun hleft => hs.parseOperand hlen hleft) h
      exact hbinary.rule (.ofTighter hnext)
termination_by level.rank

theorem parseBinary (hs : Sound site n) (hlen : ts.length ≤ n) {level : Level}
    (h : Reads (Expr.parseBinary site level ts) e rest) : Spans (.binary level) ts rest e.bare :=
  hs.binary_of_operand hlen (hs.parseOperand hlen) h

theorem parse (hs : Sound site n) (hlen : ts.length ≤ n)
    (h : Reads (Expr.parse site ts) e rest) : Spans .expr ts rest e.bare := by
  obtain ⟨c, ts₁, hc, h⟩ := reads_parse.mp h
  obtain ⟨w₁, hw₁, hcondition⟩ := hs.parseBinary hlen hc
  rcases h with ⟨-, rfl, rfl⟩ | ⟨q, ts₂, a, k, ts₃, b, rfl, hq, ha, hk, hb, rfl⟩
  · exact ⟨w₁, hw₁, .ofBinary hcondition⟩
  · have hshort := hc.shorter
    have hshort' := ha.shorter
    simp only [List.length_cons] at hshort hshort'
    obtain ⟨w₂, hw₂, hconsequent⟩ := hs.expr (by omega) ha
    obtain ⟨w₃, hw₃, hotherwise⟩ := hs.expr (by omega) hb
    exact ⟨_, hw₁.append (.cons hq (hw₂.append (.cons hk hw₃))),
      .conditional hcondition hconsequent hotherwise⟩

theorem parseItems (hs : Sound site n) (hlen : ts.length ≤ n) {close : Punct}
    (hclose : close ≠ .comma) {items : List Expr} {stop : Span}
    (h : Reads (Expr.parseItems site close ts) (items, stop) rest) :
    SpansClosed .items close ts rest (bareItems items) := by
  rcases (reads_parseItems hclose).mp h with ⟨k, rfl, hk, rfl, rfl⟩ | ⟨-, item, k, ts₁, hitem, h⟩
  · exact ⟨[], .last hk, .noItems⟩
  · obtain ⟨w, hw, hderives⟩ := hs.parse hlen hitem
    rcases h with ⟨hk, rfl, -, rfl⟩ | ⟨hk, more, hmore, rfl⟩
    · exact ⟨w, hw.append (.last hk), .lastItem hderives⟩
    · have hshort := hitem.shorter
      simp only [List.length_cons] at hshort
      obtain ⟨w', hw', hderives'⟩ := hs.items hclose (by omega) hmore
      refine ⟨_, ?_, .moreItems hderives hderives'⟩
      rw [List.append_assoc]
      exact hw.append (.cons hk hw')

theorem parseEntry (hs : Sound site n) (hlen : ts.length ≤ n) {key : String} {value : Expr}
    (h : ReadsEntry site ts key value rest) : Spans .entry ts rest (key, value.bare) := by
  obtain ⟨t, ts₁, short, rfl, hkey, h⟩ := h
  obtain ⟨hkey, hshort⟩ := objectKey?_eq_some_iff.mp hkey
  rcases continues_continueEntry.mp h with ⟨k, ts₂, rfl, hk, hvalue⟩ | ⟨rfl, -, rfl, rfl⟩
  · simp only [List.length_cons] at hlen
    obtain ⟨w, hw, hderives⟩ := hs.expr (by omega) hvalue
    exact ⟨_, .cons rfl (.cons hk hw), .pair hkey hderives⟩
  · have hatom := atom_ident_iff.mpr (Eq.refl (ofName key))
    rw [bare_node, hatom.bareKind]
    exact ⟨_, .last (hshort.mp rfl), .shorthand hatom⟩

theorem parseEntries (hs : Sound site n) (hlen : ts.length ≤ n) {entries : List (String × Expr)}
    {stop : Span} (h : Reads (Expr.parseEntries site ts) (entries, stop) rest) :
    SpansClosed .entries .rbrace ts rest (bareEntries entries) := by
  rcases reads_parseEntries.mp h with ⟨k, rfl, hk, rfl, rfl⟩ | ⟨key, value, k, ts₁, hentry, h⟩
  · exact ⟨[], .last hk, .noEntries⟩
  · obtain ⟨w, hw, hderives⟩ := hs.parseEntry hlen hentry
    rcases h with ⟨hk, rfl, -, rfl⟩ | ⟨hk, more, hmore, rfl⟩
    · exact ⟨w, hw.append (.last hk), .lastEntry hderives⟩
    · have hshort := hentry.shorter
      simp only [List.length_cons] at hshort
      obtain ⟨w', hw', hderives'⟩ := hs.entries (by omega) hmore
      refine ⟨_, ?_, .moreEntries hderives hderives'⟩
      rw [List.append_assoc]
      exact hw.append (.cons hk hw')

end Sound

theorem sound (site : Site) (n : Nat) : Sound site n := by
  induction n with
  | zero => constructor <;> intros <;> contradiction
  | succ n hs =>
      constructor
      · exact fun hlen => hs.parse (Nat.le_of_lt_succ hlen)
      · exact fun hlen => hs.parseOperand (Nat.le_of_lt_succ hlen)
      · exact fun hlen => hs.continueBinary (Nat.le_of_lt_succ hlen)
      · exact fun hlen => hs.parseUnary (Nat.le_of_lt_succ hlen)
      · exact fun hlen => hs.continuePostfix (Nat.le_of_lt_succ hlen)
      · exact fun hclose _ _ _ _ hlen => hs.parseItems (Nat.le_of_lt_succ hlen) hclose
      · exact fun hlen => hs.parseEntries (Nat.le_of_lt_succ hlen)

/-- What is read as an expression is one. -/
theorem spans_of_reads {site : Site} {ts rest : List Lexeme} {e : Expr}
    (h : Reads (parse site ts) e rest) : Spans .expr ts rest e.bare :=
  (sound site ts.length).parse (Nat.le_refl _) h

end Expr

end LiveMarkup
