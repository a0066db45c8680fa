import LiveMarkup.Proofs.Expr.Reparse
import LiveMarkup.Proofs.Template.Written
set_option autoImplicit false

/-! # Lists of expressions

A text lists expressions when commas stand between them and each is read from its own text
(`Expr.Lists`). Put between brackets such a text is read as an array of these expressions
(`Lists.ofSource_bracketed`). But a text that makes an expression there need not be a list: `[1, 2]][0`
makes one. What is read then is no array, as the text closes the bracket in front of it: a list or
nothing stands before that place (`lists_or_closes_of_ofSource`). -/

namespace LiveMarkup

open Text

namespace Grammar

/-! ## Words that start with a bracket -/

theorem Derives.ne_nil {p : Phrase} {ts : List Token} {tree : p.Tree} {e : Expr}
    (h : Derives p ts tree) (he : p.node? tree = some e) : ts ≠ [] := by
  rintro rfl
  cases p with
  | items | entry | entries => cases he
  | _ =>
      obtain ⟨t, w, hw, -⟩ := h.first rfl
      cases hw

/-- What stands behind an opening bracket: a list up to the closing one. If it goes on behind that, it
does not stand for an array. -/
def Opened (w : List Token) (e : Expr) : Prop :=
  ∃ inside rest items, w = inside ++ .punct .rbracket :: rest ∧ Derives .items inside items ∧
    (rest ≠ [] → ∀ items', e.kind ≠ .array items')

/-- A phrase that is made longer behind its end. -/
theorem Opened.of_append {ts more w : List Token} {t : Token} {part e : Expr} (hts : ts ≠ [])
    (h : ∀ {w}, ts = .punct .lbracket :: w → Opened w part)
    (heq : ts ++ t :: more = .punct .lbracket :: w) (he : ∀ items, e.kind ≠ .array items) :
    Opened w e := by
  obtain ⟨t', ts, rfl⟩ := List.exists_cons_of_ne_nil hts
  obtain ⟨rfl, rfl⟩ := List.cons.inj heq
  obtain ⟨inside, rest, items, rfl, hitems, -⟩ := h rfl
  exact ⟨inside, rest ++ t :: more, items, List.append_assoc _ _ _, hitems, fun _ => he⟩

theorem Derives.opened {p : Phrase} {ts w : List Token} {tree : p.Tree} {e : Expr}
    (h : Derives p ts tree) (hts : ts = .punct .lbracket :: w) (he : p.node? tree = some e) :
    Opened w e := by
  induction h generalizing w e with
  | ofBinary _ ih | ofOperand _ ih | ofTighter _ _ ih | ofUnary _ ih | ofSuffixed _ ih
  | ofPrimary _ ih => exact ih hts he
  | conditional hpart _ _ ih | joined _ hpart _ ih | member hpart _ ih | index hpart _ ih
  | call hpart _ ih =>
      cases he
      exact .of_append (hpart.ne_nil rfl) (fun h => ih h rfl) hts nofun
  | @prefixed op => cases op <;> cases (List.cons.inj hts).1
  | atom hatom =>
      obtain ⟨rfl, -⟩ := List.cons.inj hts
      cases hatom
  | group | object => cases (List.cons.inj hts).1
  | @array inside items hitems =>
      obtain ⟨-, rfl⟩ := List.cons.inj hts
      exact ⟨inside, [], items, rfl, hitems, fun hrest => absurd rfl hrest⟩
  | _ => cases he

end Grammar

open Grammar Token

namespace Expr

/-- A text lists some expressions: each is read from its own text, with commas in between. One comma
may stand behind the last. -/
inductive Lists : List Char → List Expr → Prop
  | last {s : List Char} {e : Expr} : ofSource (String.ofList s) = .ok e → Lists s [e]
  | closed {s gaps : List Char} {e : Expr} : ofSource (String.ofList s) = .ok e →
      (∀ c ∈ gaps, isGap c = true) → Lists (s ++ ',' :: gaps) [e]
  | more {s rest : List Char} {e : Expr} {es : List Expr} : ofSource (String.ofList s) = .ok e →
      Lists rest es → Lists (s ++ ',' :: rest) (e :: es)

variable {s : List Char} {w : List Token} {e : Expr} {es : List Expr}

/-! ## What texts spell -/

theorem exists_spells_of_ofSource (h : ofSource (String.ofList s) = .ok e) :
    ∃ w, Spells s w ∧ Derives .expr w e.bare := by
  obtain ⟨lexemes, hscan, hplaced⟩ := ofSource_eq_ok_iff.mp h
  rw [String.toList_ofList] at hscan
  exact ⟨_, (spells_iff 0).mpr ⟨lexemes, hscan, rfl⟩, hplaced.derives⟩

theorem exists_ofSource_of_spells (hs : Spells s w) {tree : Expr} (h : Derives .expr w tree) :
    ∃ e, ofSource (String.ofList s) = .ok e ∧ e.bare = tree := by
  have hspells : Spells (Content.ofSource (String.ofList s)).text w := by
    rw [Content.ofSource, String.toList_ofList]
    exact hs
  obtain ⟨e, he, hread⟩ := Content.exists_expression hspells h
  exact ⟨e, hread, he⟩

/-- A list spells its items. -/
theorem Lists.exists_spells (h : Lists s es) :
    ∃ w, Spells s w ∧ Derives .items w (bareItems es) := by
  induction h with
  | last he =>
      obtain ⟨w, hw, hderives⟩ := exists_spells_of_ofSource he
      exact ⟨w, hw, .lastItem hderives⟩
  | closed he hgaps =>
      obtain ⟨w, hw, hderives⟩ := exists_spells_of_ofSource he
      exact ⟨_, hw.append lone_comma (spells_nil_iff.mpr hgaps), .moreItems hderives .noItems⟩
  | more he _ ih =>
      obtain ⟨w, hw, hderives⟩ := exists_spells_of_ofSource he
      obtain ⟨w', hw', hitems⟩ := ih
      exact ⟨_, hw.append lone_comma hw', .moreItems hderives hitems⟩

/-- What spells items is a list of them, or nothing. -/
theorem exists_lists_of_spells (hs : Spells s w) {items : List Expr}
    (h : Derives .items w items) : w = [] ∧ items = [] ∨ ∃ es, Lists s es ∧ bareItems es = items := by
  induction items generalizing s w with
  | nil =>
      cases h
      exact .inl ⟨rfl, rfl⟩
  | cons item items ih =>
      refine .inr ?_
      cases h with
      | lastItem he =>
          obtain ⟨e, hread, rfl⟩ := exists_ofSource_of_spells hs he
          exact ⟨[e], .last hread, rfl⟩
      | moreItems he hitems =>
          obtain ⟨s₁, s₂, rfl, hs₁, hs₂⟩ := hs.split lone_comma
          obtain ⟨e, hread, rfl⟩ := exists_ofSource_of_spells hs₁ he
          obtain ⟨rfl, rfl⟩ | ⟨es, hes, rfl⟩ := ih hs₂ hitems
          · exact ⟨[e], .closed hread (spells_nil_iff.mp hs₂), rfl⟩
          · exact ⟨e :: es, .more hread hes, rfl⟩

/-! ## Between brackets -/

theorem exists_items_of_bare {items : List Expr} (h : e.bare = plain (.array items)) :
    ∃ items', e.kind = .array items' ∧ bareItems items' = items := by
  obtain ⟨kind, span⟩ := e
  have hkind : bareKind kind = .array items := congrArg Expr.kind h
  cases kind <;> simp only [bareKind, reduceCtorEq] at hkind
  case array items' => exact ⟨items', rfl, ExprKind.array.inj hkind⟩

theorem bare_kind_ne_array (h : ∀ items, e.bare.kind ≠ .array items) (items : List Expr) :
    e.kind ≠ .array items := by
  intro hkind
  refine h (bareItems items) ?_
  rw [← plain_bareKind_kind, hkind]
  rfl

/-- A list between brackets is an array of its items. -/
theorem Lists.ofSource_bracketed (h : Lists s es) : ∃ e items,
    ofSource (String.ofList (bracketed s)) = .ok e ∧ e.kind = .array items ∧
      bareItems items = bareItems es := by
  obtain ⟨w, hw, hitems⟩ := h.exists_spells
  have hbrackets := spells_bracketed_iff.mpr ⟨w, rfl, hw⟩
  obtain ⟨e, hread, he⟩ := exists_ofSource_of_spells hbrackets (Derives.array hitems).expr
  obtain ⟨items, hkind, hbare⟩ := exists_items_of_bare he
  exact ⟨e, items, hread, hkind, hbare⟩

theorem not_lists_of_kind (h : ofSource (String.ofList (bracketed s)) = .ok e)
    (hkind : ∀ items, e.kind ≠ .array items) (es : List Expr) : ¬Lists s es := by
  intro hes
  obtain ⟨e', items, hread, hkind', -⟩ := hes.ofSource_bracketed
  obtain rfl := Except.ok.inj (h.symm.trans hread)
  exact hkind items hkind'

/-- What makes an expression between brackets, and is no gap, is a list, or it closes the bracket in
front of it and makes something that is no array. -/
theorem lists_or_closes_of_ofSource (h : ofSource (String.ofList (bracketed s)) = .ok e)
    (hs : ¬∀ c ∈ s, isGap c = true) :
    (∃ es, Lists s es) ∨
      (∀ items, e.kind ≠ .array items) ∧ ∃ before after, s = before ++ ']' :: after ∧
        ((∀ c ∈ before, isGap c = true) ∨ ∃ es, Lists before es) := by
  obtain ⟨_, hbrackets, hderives⟩ := exists_spells_of_ofSource h
  obtain ⟨w, rfl, hw⟩ := spells_bracketed_iff.mp hbrackets
  obtain ⟨inside, rest, items, heq, hitems, hkind⟩ := hderives.opened rfl rfl
  rcases List.eq_nil_or_concat rest with rfl | ⟨rest, last, rfl⟩
  · obtain ⟨rfl, -⟩ := List.append_inj' heq rfl
    obtain ⟨rfl, -⟩ | ⟨es, hes, -⟩ := exists_lists_of_spells hw hitems
    · exact absurd (spells_nil_iff.mp hw) hs
    · exact .inl ⟨es, hes⟩
  · -- the last bracket is the one put there, so the text holds the one that closes
    rw [List.concat_eq_append] at heq hkind
    refine .inr ⟨bare_kind_ne_array (hkind (by simp)), ?_⟩
    rw [← List.cons_append, ← List.append_assoc] at heq
    obtain ⟨rfl, -⟩ := List.append_inj' heq rfl
    obtain ⟨before, after, rfl, hbefore, -⟩ := hw.split lone_rbracket
    refine ⟨before, after, rfl, ?_⟩
    obtain ⟨rfl, -⟩ | ⟨es, hes, -⟩ := exists_lists_of_spells hbefore hitems
    · exact .inl (spells_nil_iff.mp hbefore)
    · exact .inr ⟨es, hes⟩

end Expr

end LiveMarkup
