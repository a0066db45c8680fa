import LiveMarkup.Proofs.Expr.Completeness
import LiveMarkup.Proofs.Expr.Nodes
import LiveMarkup.Template.Header
set_option autoImplicit false

/-! # Spans of expressions

The span of every node of an expression is exact (`Expr.ofSource_slice`): it lies within that of the
node around it, starts where a token starts and stops where one stops, and the slice of the source under
it is read as that node again, with its spans counted from the start of the slice. What is read are
phrases with their places (`Expr.reads_iff_placed`), so it is enough that a node is such a phrase and
that the tokens of a slice are those that stand in it. -/

namespace LiveMarkup

open Text Grammar

theorem mapError_eq_ok_iff {ε ε' α : Type} {x : Except ε α} {f : ε → ε'} {a : α} :
    x.mapError f = .ok a ↔ x = .ok a := by
  cases x with
  | error e => exact ⟨nofun, nofun⟩
  | ok b => constructor <;> rintro ⟨⟩ <;> rfl

namespace Expr

variable {site : Site} {ts : List Lexeme} {e : Expr}

/-- Tokens are read to their end as the tree that they are the phrase of, with its places. -/
theorem reads_iff_placed : Reads (parse site ts) e [] ↔ Placed .expr ts e := by
  constructor
  · intro h
    obtain ⟨w, hw, hderives⟩ := spans_of_reads h
    rw [hw.eq_of_all] at hderives
    obtain ⟨placed, -, hplaced⟩ := hderives.exists_placed rfl
    have hread : Reads (parse site (ts ++ [])) placed [] := hplaced.exact site [] (ends_nil 8)
    rw [List.append_nil] at hread
    obtain ⟨rfl, -⟩ := h.unique hread
    exact hplaced
  · intro h
    have hread : Reads (parse site (ts ++ [])) e [] := h.exact site [] (ends_nil 8)
    rwa [List.append_nil] at hread

/-- A source is read as an expression where its tokens are one. -/
theorem ofSource_eq_ok_iff {source : String} : ofSource source = .ok e ↔
    ∃ lexemes, Token.scan source.toList 0 = .ok lexemes ∧ Placed .expr lexemes e := by
  have hstart : (Content.ofSource source).span.start = 0 := Nat.zero_min _
  have htokens (lexemes : List Lexeme) : (Content.ofSource source).tokens = .ok lexemes ↔
      Token.scan source.toList 0 = .ok lexemes := by
    rw [Content.tokens, hstart, mapError_eq_ok_iff]
    rfl
  constructor
  · intro h
    obtain ⟨lexemes, hscan, h⟩ := bind_eq_ok h
    obtain ⟨⟨value, rest, hlt⟩, hparse, h⟩ := bind_eq_ok h
    obtain ⟨_, hend, h⟩ := bind_eq_ok h
    obtain rfl := Site.expectEnd_eq_ok_iff.mp hend
    cases h
    exact ⟨lexemes, (htokens lexemes).mp hscan, reads_iff_placed.mp ⟨hlt, hparse⟩⟩
  · rintro ⟨lexemes, hscan, hplaced⟩
    have hread : Reads (parse (Content.ofSource source).site lexemes) e [] :=
      reads_iff_placed.mpr hplaced
    obtain ⟨hlt, hparse⟩ := hread
    exact (ok_bind ((htokens lexemes).mpr hscan)).trans ((ok_bind hparse).trans rfl)

/-- What becomes of a source that is read as an expression, node by node: the span of a node contains
those of its parts, starts where a token starts and stops where one stops, and the slice of the source
under it is read as the same tree, all spans moved back by its start. -/
theorem ofSource_slice {source : String} {root : Expr} (h : ofSource source = .ok root)
    (hsize : byteLength source.toList < UInt32.size) :
    ∃ lexemes, Token.scan source.toList 0 = .ok lexemes ∧ ∀ e, root.Within e →
      (∀ child ∈ e.parts, child.span.Inside e.span) ∧
      (∃ first ∈ lexemes, e.span.start = first.span.start) ∧
      (∃ last ∈ lexemes, e.span.stop = last.span.stop) ∧
      ∃ before text after, source.toList = before ++ text ++ after ∧
        e.span = ⟨byteLength before, byteLength (before ++ text)⟩ ∧
        ofSource (String.ofList text) = .ok (e.mapSpans (Span.back e.span.start)) := by
  obtain ⟨lexemes, hscan, hroot⟩ := ofSource_eq_ok_iff.mp h
  have horder := Token.inOrder_of_scan hscan hsize
  refine ⟨lexemes, hscan, fun e he => ?_⟩
  obtain ⟨w, hw, hplaced⟩ := hroot.within he
  have horder' := horder.stretch hw
  have hreaches := hplaced.reaches horder' e rfl
  refine ⟨fun child hchild => ?_, ?_⟩
  · obtain ⟨w', hw', hchild'⟩ := hplaced.parts child hchild
    exact (hchild'.reaches (horder'.stretch hw') child rfl).inside hreaches hw' horder'
  · obtain ⟨before, text, after, hsource, hspan, hslice⟩ :=
      Token.scan_slice hscan hsize hw hreaches
    obtain ⟨first, last, hfirst, hlast, heq⟩ := hreaches
    refine ⟨⟨first, hw.subset (List.mem_of_head? hfirst), by rw [heq]⟩,
      ⟨last, hw.subset (List.mem_of_getLast? hlast), by rw [heq]⟩,
      before, text, after, hsource, hspan, ofSource_eq_ok_iff.mpr ?_⟩
    rw [String.toList_ofList]
    exact ⟨_, hslice, hplaced.mapSpans (Span.back_merge _)⟩

/-- The slice under a group is read with its parentheses. -/
theorem ofSource_slice_group : ∃ before text after,
    byteLength "2 * (a + b)".toList < UInt32.size ∧
      "2 * (a + b)".toList = before ++ text ++ after ∧
      (⟨4, 11⟩ : Span) = ⟨byteLength before, byteLength (before ++ text)⟩ ∧
      ofSource (String.ofList text) =
        .ok (node (.binary .add (node (.ident "a") ⟨1, 2⟩) (node (.ident "b") ⟨5, 6⟩)) ⟨0, 7⟩) := by
  have hsource : ofSource "2 * (a + b)" = .ok (node (.binary .mul (node (.int 2) ⟨0, 1⟩)
      (node (.binary .add (node (.ident "a") ⟨5, 6⟩) (node (.ident "b") ⟨9, 10⟩)) ⟨4, 11⟩))
      ⟨0, 11⟩) := by cbv
  obtain ⟨_, -, hnodes⟩ := ofSource_slice hsource (by decide)
  obtain ⟨-, -, -, before, text, after, hslice, hspan, hread⟩ :=
    hnodes _ (.part .root (List.mem_cons_of_mem _ (List.mem_singleton_self _)))
  exact ⟨before, text, after, by decide, hslice, hspan, hread⟩

end Expr

end LiveMarkup
