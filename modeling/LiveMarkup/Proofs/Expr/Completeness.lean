import LiveMarkup.Proofs.Expr.Placed
import LiveMarkup.Proofs.Expr.Soundness
set_option autoImplicit false

/-! # What is a phrase is read

Every reader finds the phrases of its kind and builds their trees, if what follows does not tie to
them (`Phrase.Complete`): a phrase gives its tree spans wherever it stands, and the readers come to
that tree.

With the other direction, the readers accept the grammar and nothing else. As they come to one tree,
the grammar is unambiguous. -/

namespace LiveMarkup

open LiveMarkup.Expr

theorem Takes.exists_append {w : List Token} {ts rest : List Lexeme} (h : Takes w ts rest) :
    ∃ used, ts = used ++ rest ∧ used.map Lexeme.token = w := by
  induction h with
  | nil ts => exact ⟨[], rfl, rfl⟩
  | @cons t _ _ _ _ ht _ ih =>
      obtain ⟨used, rfl, rfl⟩ := ih
      exact ⟨t :: used, rfl, by rw [List.map_cons, ht]⟩

namespace Grammar

/-- What its reader makes of a phrase with a rest behind it. -/
def Phrase.Complete (site : Site) : (p : Phrase) → (ts rest : List Lexeme) → p.Tree → Prop
  | .expr, ts, rest, tree => Ends 8 rest → ∃ e, e.bare = tree ∧ Reads (parse site ts) e rest
  | .binary level, ts, rest, tree => Ends (level.rank - 1) rest → ∃ left, left.bare = tree ∧
      ∀ {e rest'}, Continues (continueBinary site level left rest) e rest' →
        Reads (parseBinary site level ts) e rest'
  | .operand level, ts, rest, tree => Ends (level.rank - 1) rest →
      ∃ e, e.bare = tree ∧ Reads (parseOperand site level ts) e rest
  | .unary, ts, rest, tree => Ends 0 rest → ∃ e, e.bare = tree ∧ Reads (parseUnary site ts) e rest
  | .suffixed, ts, rest, tree => ∃ object, object.bare = tree ∧
      ∀ {e rest'}, Continues (continuePostfix site object rest) e rest' →
        Reads (parsePostfix site ts) e rest'
  | .primary, ts, rest, tree => ∃ e, e.bare = tree ∧ Reads (parsePrimary site ts) e rest
  | .items, ts, rest, tree => ∀ close k rest', close ∈ itemClosers →
      rest = k :: rest' → k.token = .punct close →
        ∃ items, bareItems items = tree ∧ Reads (parseItems site close ts) (items, k.span) rest'
  | .entry, ts, rest, tree => NoMark .colon rest → Ends 8 rest →
      ∃ value, value.bare = tree.2 ∧ ReadsEntry site ts tree.1 value rest
  | .entries, ts, rest, tree => ∀ k rest', rest = k :: rest' → k.token = .punct .rbrace →
      ∃ entries, bareEntries entries = tree ∧ Reads (parseEntries site ts) (entries, k.span) rest'

/-- What is read with its spans is read. -/
theorem Phrase.Exact.complete {site : Site} {p : Phrase} {ts rest : List Lexeme} {tree : p.Tree}
    (h : p.Exact site ts rest tree) : p.Complete site ts rest (p.bare tree) := by
  cases p with
  | expr => exact fun hrest => ⟨tree, rfl, h hrest⟩
  | binary level => exact fun hrest => ⟨tree, rfl, h hrest _ _⟩
  | operand level => exact fun hrest => ⟨tree, rfl, h hrest⟩
  | unary => exact fun hrest => ⟨tree, rfl, h hrest⟩
  | suffixed => exact ⟨tree, rfl, h _ _⟩
  | primary => exact ⟨tree, rfl, h⟩
  | items => exact fun close k rest' hclose hrest hk => ⟨tree, rfl, h close k rest' hclose hrest hk⟩
  | entry => exact fun hcolon hrest => ⟨tree.2, rfl, h hcolon hrest⟩
  | entries => exact fun k rest' hrest hk => ⟨tree, rfl, h k rest' hrest hk⟩

/-! ## Every derivation -/

theorem Derives.complete {p : Phrase} {w : List Token} {tree : p.Tree} (h : Derives p w tree)
    (site : Site) {ts rest : List Lexeme} (hw : Takes w ts rest) :
    p.Complete site ts rest tree := by
  obtain ⟨used, rfl, hused⟩ := hw.exists_append
  obtain ⟨placed, rfl, hplaced⟩ := h.exists_placed hused
  exact (hplaced.exact site rest).complete

theorem Derives.exists_reads {w : List Token} {tree : Expr} (h : Derives .expr w tree) (site : Site)
    {ts : List Lexeme} (hw : Takes w ts []) :
    ∃ e, e.bare = tree ∧ Reads (Expr.parse site ts) e [] :=
  h.complete site hw (ends_nil 8)

/-- No word is an expression in two ways. -/
theorem Derives.unique {w : List Token} {tree tree' : Expr} (h : Derives .expr w tree)
    (h' : Derives .expr w tree') : tree = tree' := by
  have hw : Takes w (w.map fun token => ⟨token, ⟨0, 0⟩⟩) [] := by
    simpa [Function.comp_def] using Takes.all (w.map fun token => (⟨token, ⟨0, 0⟩⟩ : Lexeme))
  obtain ⟨e, rfl, hread⟩ := h.exists_reads ⟨1, ⟨0, 0⟩⟩ hw
  obtain ⟨e', rfl, hread'⟩ := h'.exists_reads ⟨1, ⟨0, 0⟩⟩ hw
  rw [(hread.unique hread').1]

end Grammar

open Grammar

/-- Tokens are read to their end exactly if the grammar makes an expression of them, and the tree
that is built is the one tree that the grammar gives them. -/
theorem parse_iff_derives (site : Site) (ts : List Lexeme) (e : Expr) :
    ((∃ p, Expr.parse site ts = .ok p ∧ site.expectEnd p.rest = .ok () ∧ p.value.bare = e.bare) ↔
      Derives .expr (ts.map Lexeme.token) e.bare) ∧
    ∀ tree, Derives .expr (ts.map Lexeme.token) e.bare →
      Derives .expr (ts.map Lexeme.token) tree → tree = e.bare := by
  refine ⟨⟨?_, fun h => ?_⟩, fun tree h h' => h'.unique h⟩
  · rintro ⟨⟨value, rest, hlt⟩, hparse, hend, hvalue⟩
    obtain rfl := Site.expectEnd_eq_ok_iff.mp hend
    obtain ⟨w, hw, hderives⟩ := spans_of_reads ⟨hlt, hparse⟩
    rw [← hw.eq_of_all, ← hvalue]
    exact hderives
  · obtain ⟨value, hvalue, hlt, hparse⟩ := h.exists_reads site (Takes.all ts)
    exact ⟨_, hparse, rfl, hvalue⟩

end LiveMarkup
