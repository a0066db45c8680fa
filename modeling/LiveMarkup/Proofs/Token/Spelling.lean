import LiveMarkup.Proofs.Token.Slices
set_option autoImplicit false

/-! # How words of tokens are spelled

A text spells the word of its tokens, wherever they stand (`Spells`). Put together, two texts need not
spell the two words together: `1` and `.5` do not. They do where the second one starts with a character
that is a token by itself wherever it stands, a comma or a bracket (`Lone`, `Spells.append`). Such a
character only hides inside of strings. So a text is cut at the commas and brackets of its word
(`Spells.split`), and whatever it is, it spells the same word between brackets
(`spells_bracketed_iff`). -/

namespace LiveMarkup

open Text Token

/-! ## Words -/

/-- A text is read as a word of tokens: each is the longest match where it starts, with gaps in
between. -/
inductive Spells : List Char → List Token → Prop
  | nil : Spells [] []
  | gap {c : Char} {s : List Char} {w : List Token} : isGap c = true → Spells s w → Spells (c :: s) w
  | token {f : Form} {text rest : List Char} {t : Token} {w : List Token} :
      Longest f text (text ++ rest) → f.value? text = some t → Spells rest w →
      Spells (text ++ rest) (t :: w)

variable {s s₁ s₂ : List Char} {w w₁ w₂ : List Token} {c : Char} {p : Punct}

theorem Token.Reads.spells {base : Nat} {before rest before' : List Char} {lexemes : List Lexeme}
    (h : Reads base before rest lexemes before' []) : Spells rest (lexemes.map Lexeme.token) := by
  generalize hend : ([] : List Char) = rest' at h
  induction h with
  | here =>
      subst hend
      exact .nil
  | gap hgap _ ih => exact .gap hgap (ih hend)
  | token hlongest hvalue _ ih => exact .token hlongest hvalue (ih hend)

theorem Spells.exists_reads (h : Spells s w) (base : Nat) (before : List Char) :
    ∃ lexemes, lexemes.map Lexeme.token = w ∧ Token.Reads base before s lexemes (before ++ s) [] := by
  induction h generalizing before with
  | nil => exact ⟨[], rfl, by rw [List.append_nil]; exact .here⟩
  | @gap c s w hgap _ ih =>
      obtain ⟨lexemes, rfl, hreads⟩ := ih (before ++ [c])
      rw [List.append_assoc, List.singleton_append] at hreads
      exact ⟨lexemes, rfl, .gap hgap hreads⟩
  | @token f text rest t w hlongest hvalue _ ih =>
      obtain ⟨lexemes, rfl, hreads⟩ := ih (before ++ text)
      rw [List.append_assoc] at hreads
      exact ⟨⟨t, .behind base before text⟩ :: lexemes, rfl, .token hlongest hvalue hreads⟩

/-- It does not matter where the text stands. -/
theorem spells_iff (base : Nat) :
    Spells s w ↔ ∃ lexemes, Token.scan s base = .ok lexemes ∧ lexemes.map Lexeme.token = w := by
  constructor
  · intro h
    obtain ⟨lexemes, hw, hreads⟩ := h.exists_reads base []
    exact ⟨lexemes, hreads.scan_eq, hw⟩
  · rintro ⟨lexemes, hscan, rfl⟩
    exact (reads_of_scan hscan).spells

/-- A step of the reader and what is spelled behind it. -/
theorem Spells.cons {t : Token} {rest : List Char} (hstep : (Token.step c s).token? = some t)
    (hrest : (Token.step c s).rest = rest) (h : Spells rest w) : Spells (c :: s) (t :: w) := by
  have hexact := step_exact c s
  obtain ⟨f, hlongest, hvalue⟩ | ⟨-, hnone⟩ := hexact.found
  · rw [hexact.eq, hrest] at hlongest
    rw [hexact.eq, hrest]
    exact .token hlongest (hvalue.symm.trans hstep) h
  · cases hstep.symm.trans hnone

theorem spells_nil_iff : Spells s [] ↔ ∀ c ∈ s, isGap c = true := by
  constructor
  · intro h
    generalize hw : ([] : List Token) = w at h
    induction h with
    | nil => simp
    | gap hgap _ ih => exact List.forall_mem_cons.mpr ⟨hgap, ih hw⟩
    | token => cases hw
  · intro h
    induction s with
    | nil => exact .nil
    | cons c s ih =>
        obtain ⟨hgap, hs⟩ := List.forall_mem_cons.mp h
        exact .gap hgap (ih hs)

namespace Token

/-! ## Marks that stand alone -/

/-- A mark of one character that no other token holds, but for strings. -/
structure Lone (p : Punct) (c : Char) : Prop where
  text : p.text.toList = [c]
  only : ∀ (f : Form) (t : List Char), f.family ≠ .quoted → f.Matches t → c ∈ t → f = .punct p

theorem Digits.isNameChar {t : List Char} (h : Digits t) (hc : c ∈ t) : Text.isNameChar c = true := by
  simp only [Text.isNameChar, h.2 c hc, Bool.or_true, Bool.true_or]

/-- What numbers are written with. -/
theorem Form.Matches.mem_number {f : Form} {t : List Char} (h : f.Matches t)
    (hf : f.family = .number) (hc : c ∈ t) : Text.isNameChar c = true ∨ c ∈ ['.', '+', '-'] := by
  cases f <;> simp only [Form.family, reduceCtorEq] at hf
  case whole => exact .inl (Digits.isNameChar h hc)
  case decimal =>
      obtain ⟨whole, places, exponent, hwhole, hplaces, hexponent, rfl⟩ := h
      rcases List.mem_append.mp hc with hc | hc
      · exact .inl (hwhole.isNameChar hc)
      rcases List.mem_cons.mp hc with rfl | hc
      · exact .inr (by decide)
      rcases List.mem_append.mp hc with hc | hc
      · exact .inl (hplaces.isNameChar hc)
      rcases hexponent with rfl | ⟨hmark, hsign, hdigits⟩
      · cases hc
      rcases List.mem_cons.mp hc with rfl | hc
      · exact .inl (by rcases hmark with rfl | rfl <;> decide)
      rcases List.mem_append.mp hc with hc | hc
      · exact .inr (by cases hsign <;> simp_all)
      · exact .inl (hdigits.isNameChar hc)

/-- It is enough to look at names, at numbers and at the other marks. -/
theorem lone_of_only (htext : p.text.toList = [c]) (hname : isNameChar c = false)
    (hnumber : c ∉ ['.', '+', '-']) (hmark : ∀ p' : Punct, c ∈ p'.text.toList → p' = p) :
    Lone p c := by
  refine ⟨htext, fun f t hf h hc => ?_⟩
  cases hfamily : f.family with
  | word =>
      rw [h.isNameChar hfamily c hc] at hname
      cases hname
  | number =>
      rcases h.mem_number hfamily hc with hc | hc
      · exact absurd (hname.symm.trans hc) Bool.false_ne_true
      · exact absurd hc hnumber
  | quoted => exact absurd hfamily hf
  | mark =>
      cases f <;> simp only [Form.family, reduceCtorEq] at hfamily
      case punct p' =>
          rw [show t = p'.text.toList from h] at hc
          rw [hmark p' hc]

theorem lone_comma : Lone .comma ',' :=
  lone_of_only rfl (by decide) (by decide) fun p' => by cases p' <;> decide

theorem lone_lbracket : Lone .lbracket '[' :=
  lone_of_only rfl (by decide) (by decide) fun p' => by cases p' <;> decide

theorem lone_rbracket : Lone .rbracket ']' :=
  lone_of_only rfl (by decide) (by decide) fun p' => by cases p' <;> decide

namespace Lone

theorem hasForm (h : Lone p c) : (Form.punct p).Matches [c] := h.text.symm

theorem not_isGap (h : Lone p c) : ¬isGap c = true := by
  rw [not_isGap_of_matches h.hasForm]
  exact Bool.false_ne_true

/-- It stands for itself, whatever follows. -/
theorem longest (h : Lone p c) (s : List Char) : Longest (.punct p) [c] ([c] ++ s) := by
  refine ⟨List.prefix_append _ _, h.hasForm, fun g t ht hg => ?_, by rintro ⟨⟩⟩
  obtain ⟨d, t, rfl⟩ := List.exists_cons_of_ne_nil hg.ne_nil
  obtain ⟨rfl, -⟩ := List.cons_prefix_cons.mp ht
  have hfamily : g.family ≠ .quoted := by
    rw [hg.family, ← h.hasForm.family]
    exact nofun
  obtain rfl := h.only g _ hfamily hg List.mem_cons_self
  rw [show d :: t = [d] from Eq.trans hg h.text]

/-- A string does not end with it. -/
theorem not_around (h : Lone p c) (q : Quote) (units : List StringUnit) (s : List Char) :
    q.around units ≠ s ++ [c] := by
  intro heq
  have hsplit : (q.char :: inside units) ++ [q.char] = s ++ [c] := heq
  obtain ⟨-, hchar⟩ := List.append_inj' hsplit rfl
  obtain rfl : q.char = c := (List.cons.inj hchar).1
  have hmark : Form.family (.punct p) = Family.of q.char := h.hasForm.family
  have hquoted : Family.of q.char = .quoted := by cases q <;> decide
  cases hmark.trans hquoted

end Lone

/-- A longest match stays the longest where a mark that stands alone follows what it was matched in. -/
theorem Longest.append {f : Form} {text rest : List Char} (h : Longest f text (text ++ rest))
    (hp : Lone p c) (more : List Char) : Longest f text (text ++ (rest ++ c :: more)) := by
  by_cases hf : f.family = .quoted
  · cases f <;> simp only [Form.family, reduceCtorEq] at hf
    case string q =>
        obtain ⟨units, hunits, rfl⟩ := h.hasForm
        exact longest_around q hunits _
  · refine ⟨List.prefix_append _ _, h.hasForm, fun g t ht hg => ?_, h.keywordFirst⟩
    obtain ⟨d, text, rfl⟩ := List.exists_cons_of_ne_nil h.hasForm.ne_nil
    rw [← List.append_assoc] at ht
    -- a longer match would hold the mark behind its first character
    have hshort : t.length ≤ (d :: text ++ rest).length := by
      by_contra hlong
      have hover : d :: text ++ rest ++ [c] <+: t := by
        refine List.prefix_of_prefix_length_le ⟨more, by simp⟩ ht ?_
        rw [List.length_append, List.length_singleton]
        omega
      obtain ⟨behind, rfl⟩ := hover
      have hg' : g.family ≠ .quoted := by
        rw [hg.family, ← h.hasForm.family]
        exact hf
      obtain rfl := hp.only g _ hg' hg (by simp)
      have hlength := congrArg List.length (Eq.trans hg hp.text)
      simp at hlength
    exact h.longest g t (List.prefix_of_prefix_length_le ht (List.prefix_append _ _) hshort) hg

/-- The value of a form is a mark for the text of the mark only. -/
theorem Form.Matches.eq_of_punct {f : Form} {t : List Char} (h : f.Matches t)
    (hvalue : f.value? t = some (.punct p)) : t = p.text.toList := by
  cases f <;> simp only [Form.value?, Option.some.injEq, reduceCtorEq] at hvalue
  case whole =>
      obtain ⟨n, hn⟩ := exists_int_of_ofNumeral? hvalue
      cases hn
  case decimal => cases h' : Decimal.unsigned? t <;> simp [h'] at hvalue
  case string => cases h' : unescape? t.tail.dropLast <;> simp [h'] at hvalue
  case punct p' =>
      cases hvalue
      exact h

end Token

/-! ## Cutting and putting together -/

namespace Spells

theorem mark (h : Spells s w) (hp : Lone p c) : Spells (c :: s) (.punct p :: w) := by
  rw [← List.singleton_append]
  exact .token (hp.longest s) rfl h

/-- Texts are put together at a mark that stands alone. -/
theorem append (h₁ : Spells s₁ w₁) (hp : Lone p c) (h₂ : Spells s₂ w₂) :
    Spells (s₁ ++ c :: s₂) (w₁ ++ .punct p :: w₂) := by
  induction h₁ with
  | nil => exact h₂.mark hp
  | gap hgap _ ih => exact .gap hgap ih
  | token hlongest hvalue _ ih =>
      rw [List.append_assoc]
      exact .token (hlongest.append hp s₂) hvalue ih

/-- A text is cut at a mark of its word. -/
theorem split (h : Spells s (w₁ ++ .punct p :: w₂)) (hp : Lone p c) :
    ∃ s₁ s₂, s = s₁ ++ c :: s₂ ∧ Spells s₁ w₁ ∧ Spells s₂ w₂ := by
  generalize hw : w₁ ++ .punct p :: w₂ = w at h
  induction h generalizing w₁ with
  | nil => simp at hw
  | @gap d s w hgap _ ih =>
      obtain ⟨s₁, s₂, rfl, h₁, h₂⟩ := ih hw
      exact ⟨d :: s₁, s₂, rfl, .gap hgap h₁, h₂⟩
  | @token f text rest t w hlongest hvalue hrest ih =>
      cases w₁ with
      | nil =>
          obtain ⟨rfl, rfl⟩ := List.cons.inj hw
          have htext := hlongest.hasForm.eq_of_punct hvalue
          exact ⟨[], rest, by rw [htext, hp.text]; rfl, .nil, hrest⟩
      | cons t' w₁ =>
          obtain ⟨rfl, hmore⟩ := List.cons.inj hw
          obtain ⟨s₁, s₂, rfl, h₁, h₂⟩ := ih hmore
          exact ⟨text ++ s₁, s₂, (List.append_assoc _ _ _).symm, .token hlongest.cut hvalue h₁, h₂⟩

theorem eq_nil (h : Spells [] w) : w = [] := by
  generalize hs : ([] : List Char) = s at h
  cases h with
  | nil => rfl
  | gap => cases hs
  | token hlongest => exact absurd (List.append_eq_nil_iff.mp hs.symm).1 hlongest.hasForm.ne_nil

/-- A text that starts with a mark spells it first. -/
theorem of_cons (h : Spells (c :: s) w) (hp : Lone p c) :
    ∃ w', w = .punct p :: w' ∧ Spells s w' := by
  generalize hs : c :: s = source at h
  cases h with
  | nil => cases hs
  | gap hgap =>
      obtain ⟨rfl, rfl⟩ := List.cons.inj hs
      exact absurd hgap hp.not_isGap
  | @token f text rest t w' hlongest hvalue hrest =>
      have hlongest' := hp.longest s
      rw [List.singleton_append, hs] at hlongest'
      obtain ⟨rfl, rfl⟩ := hlongest'.unique hlongest
      obtain rfl : s = rest := (List.cons.inj hs).2
      exact ⟨w', by rw [← Option.some.inj hvalue], hrest⟩

/-- A text that ends with a mark spells it last. -/
theorem of_concat (h : Spells (s ++ [c]) w) (hp : Lone p c) :
    ∃ w', w = w' ++ [.punct p] ∧ Spells s w' := by
  generalize hs : s ++ [c] = source at h
  induction h generalizing s with
  | nil => simp at hs
  | @gap d rest w hgap hrest ih =>
      cases s with
      | nil =>
          obtain ⟨rfl, rfl⟩ := List.cons.inj hs
          exact absurd hgap hp.not_isGap
      | cons e s =>
          obtain ⟨rfl, hmore⟩ := List.cons.inj hs
          obtain ⟨w', rfl, hw'⟩ := ih hmore
          exact ⟨w', rfl, .gap hgap hw'⟩
  | @token f text rest t w hlongest hvalue hrest ih =>
      rcases List.eq_nil_or_concat rest with rfl | ⟨more, e, rfl⟩
      · -- the last token holds the mark at its end, so it is the mark
        rw [List.append_nil] at hs
        have hform := hs ▸ hlongest.hasForm
        have hfamily : f.family ≠ .quoted := by
          cases f with
          | string q =>
              obtain ⟨units, -, heq⟩ := hform
              exact absurd heq.symm (hp.not_around q units s)
          | _ => exact nofun
        obtain rfl := hp.only f _ hfamily hform (by simp)
        obtain rfl : s = [] := List.append_left_eq_self.mp (Eq.trans hform hp.text)
        obtain rfl := hrest.eq_nil
        exact ⟨[], by rw [← Option.some.inj hvalue]; rfl, .nil⟩
      · rw [List.concat_eq_append] at hs hlongest ih
        rw [← List.append_assoc] at hs
        obtain ⟨rfl, hlast⟩ := List.append_inj' hs rfl
        obtain rfl := (List.cons.inj hlast).1
        obtain ⟨w', rfl, hw'⟩ := ih rfl
        exact ⟨t :: w', rfl, .token hlongest.cut hvalue hw'⟩

end Spells

/-- A text between brackets. -/
def bracketed (s : List Char) : List Char := '[' :: (s ++ [']'])

/-- Between brackets a text spells what it spells alone. -/
theorem spells_bracketed_iff : Spells (bracketed s) w ↔
    ∃ w', w = .punct .lbracket :: (w' ++ [.punct .rbracket]) ∧ Spells s w' := by
  constructor
  · intro h
    obtain ⟨_, rfl, hrest⟩ := Spells.of_cons h lone_lbracket
    obtain ⟨w', rfl, hs⟩ := hrest.of_concat lone_rbracket
    exact ⟨w', rfl, hs⟩
  · rintro ⟨w', rfl, h⟩
    exact (h.append lone_rbracket .nil).mark lone_lbracket

end LiveMarkup
