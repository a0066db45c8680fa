import LiveMarkup.Proofs.Token.Form
import LiveMarkup.Proofs.Text.Occurrence
set_option autoImplicit false

/-! # Steps take the longest match

A step of the reader looks at the first character, takes what can follow, and goes back to the last
place where a token was complete. What it takes is the longest match of all forms, with the value of
its form, and where it makes no token without a match, no form has one (`step_exact`). There is a lemma
for each family of forms. -/

namespace LiveMarkup.Token

open Text

/-- What a step has to do at the start of `s`: it takes the longest match and gives its value; or no
form has a match there, and it gives no token. -/
structure Step.Exact (read : Step) (s : List Char) : Prop where
  eq : s = read.text ++ read.rest
  found : (∃ f, Longest f read.text s ∧ read.token? = f.value? read.text) ∨
    Formless s ∧ read.token? = none

variable {c : Char} {s t : List Char}

/-! ## Runs of characters -/

/-- A prefix of characters of one kind is no longer than the run of them. -/
theorem length_le_takeWhile {p : Char → Bool} (ht : t <+: s) (hp : ∀ c ∈ t, p c = true) :
    t.length ≤ (s.takeWhile p).length := by
  obtain ⟨rest, rfl⟩ := ht
  rw [List.takeWhile_append_of_pos hp, List.length_append]
  exact Nat.le_add_right _ _

/-- A run ends before the first character of another kind. -/
theorem takeWhile_of_stop {p : Char → Bool} {run : List Char} {stop : Char} (rest : List Char)
    (hrun : ∀ c ∈ run, p c = true) (hstop : p stop = false) :
    (run ++ stop :: rest).takeWhile p = run ∧ (run ++ stop :: rest).dropWhile p = stop :: rest := by
  rw [List.takeWhile_append_of_pos hrun, List.dropWhile_append_of_pos hrun]
  simp [hstop]

theorem digits_takeWhile (h : s.takeWhile isAsciiDigit ≠ []) :
    Digits (s.takeWhile isAsciiDigit) :=
  ⟨h, fun c hc => List.all_eq_true.mp List.all_takeWhile c hc⟩

theorem digits_takeWhile_cons (hc : isAsciiDigit c = true) :
    Digits ((c :: s).takeWhile isAsciiDigit) := by
  refine digits_takeWhile ?_
  rw [List.takeWhile_cons_of_pos hc]
  exact List.cons_ne_nil _ _

theorem Form.Matches.family_of_start {f : Form} (h : f.Matches t) (ht : t <+: c :: s) :
    f.family = Family.of c := by
  obtain ⟨d, t, rfl⟩ := List.exists_cons_of_ne_nil h.ne_nil
  obtain ⟨rfl, -⟩ := List.cons_prefix_cons.mp ht
  exact h.family

/-! ## Names -/

theorem isNameChar_of_isNameStart (h : isNameStart c = true) : isNameChar c = true := by
  simp only [isNameStart, Bool.or_eq_true] at h
  simp only [isNameChar, Bool.or_eq_true]
  tauto

theorem Form.Matches.isNameChar {f : Form} (h : f.Matches t) (hf : f.family = .word) :
    ∀ c ∈ t, isNameChar c = true := by
  cases f <;> simp only [Form.family, reduceCtorEq] at hf
  case keyword k =>
      rw [show t = k.text.toList from h, ← List.all_eq_true]
      cases k <;> rfl
  case name =>
      obtain ⟨c, rest, hc, hrest, rfl⟩ := h
      exact List.forall_mem_cons.mpr ⟨isNameChar_of_isNameStart hc, hrest⟩

theorem Keyword.mem_all (k : Keyword) : k ∈ Keyword.all := by cases k <;> decide

theorem ofName_cases (t : List Char) :
    (∃ k : Keyword, t = k.text.toList ∧ ofName t = .keyword k) ∨
      (∀ k : Keyword, t ≠ k.text.toList) ∧ ofName t = .ident (String.ofList t) := by
  unfold ofName
  split
  · next k hfind =>
      have hk := List.find?_some hfind
      exact .inl ⟨k, (of_decide_eq_true hk).symm, rfl⟩
  · next hfind =>
      refine .inr ⟨fun k hk => ?_, rfl⟩
      have := List.find?_eq_none.mp hfind k (Keyword.mem_all k)
      exact this (decide_eq_true hk.symm)

theorem exact_name (hc : isNameStart c = true) :
    Step.Exact ⟨some (ofName (c :: s.takeWhile Text.isNameChar)), c :: s.takeWhile Text.isNameChar,
      s.dropWhile Text.isNameChar⟩ (c :: s) := by
  have heq : c :: s = (c :: s.takeWhile Text.isNameChar) ++ s.dropWhile Text.isNameChar := by
    rw [List.cons_append, List.takeWhile_append_dropWhile]
  have hstarts : (c :: s.takeWhile Text.isNameChar) <+: c :: s := ⟨_, heq.symm⟩
  have hfamily : Family.of c = .word := by
    rw [Family.of, hc]
    rfl
  have hlongest : ∀ g t, t <+: c :: s → Form.Matches g t →
      t.length ≤ (c :: s.takeWhile Text.isNameChar).length := by
    intro g t ht hg
    have hrun := length_le_takeWhile ht (hg.isNameChar ((hg.family_of_start ht).trans hfamily))
    rwa [List.takeWhile_cons_of_pos (isNameChar_of_isNameStart hc)] at hrun
  refine ⟨heq, .inl ?_⟩
  obtain ⟨k, hk, hvalue⟩ | ⟨hnone, hvalue⟩ := ofName_cases (c :: s.takeWhile Text.isNameChar)
  · exact ⟨.keyword k, ⟨hstarts, hk, hlongest, by rintro ⟨⟩⟩, congrArg some hvalue⟩
  · have hform : Form.name.Matches (c :: s.takeWhile Text.isNameChar) :=
      ⟨c, _, hc, fun d hd => List.all_eq_true.mp List.all_takeWhile d hd, rfl⟩
    exact ⟨.name, ⟨hstarts, hform, hlongest, fun _ => hnone⟩, congrArg some hvalue⟩

/-! ## Numbers -/

theorem Sign.signRun {sign rest : List Char} (hsign : Sign sign) (hc : isAsciiDigit c = true) :
    Decimal.signRun (sign ++ c :: rest) = (sign, c :: rest) := by
  cases hsign with
  | none =>
      have hplus : c ≠ '+' := fun h => absurd (h ▸ hc) (by decide)
      have hminus : c ≠ '-' := fun h => absurd (h ▸ hc) (by decide)
      simp [Decimal.signRun, hplus, hminus]
  | plus => rfl
  | minus => rfl

theorem signRun_spec (s : List Char) :
    Sign (Decimal.signRun s).1 ∧ (Decimal.signRun s).1 ++ (Decimal.signRun s).2 = s := by
  unfold Decimal.signRun
  split
  · exact ⟨.plus, rfl⟩
  · exact ⟨.minus, rfl⟩
  · exact ⟨.none, rfl⟩

/-- What is taken for an exponent is one, and no longer exponent starts there. -/
theorem takeExponent_spec (s : List Char) :
    (takeExponent s).1 ++ (takeExponent s).2 = s ∧
      ((takeExponent s).1 = [] ∨ Exponent (takeExponent s).1) ∧
      ∀ t, t <+: s → Exponent t → t.length ≤ (takeExponent s).1.length := by
  refine ⟨?_, ?_, ?_⟩
  · unfold takeExponent
    split
    · next c rest =>
        split
        · dsimp only
          split
          · rfl
          · simp [Decimal.digitRun, (signRun_spec rest).2]
        · rfl
    · rfl
  · unfold takeExponent
    split
    · next c rest =>
        split
        · next hmark =>
            dsimp only
            split
            · exact .inl rfl
            · next hrun =>
                exact .inr (.intro hmark (signRun_spec rest).1
                  (digits_takeWhile fun hnil => hrun (List.isEmpty_iff.mpr hnil)))
        · exact .inl rfl
    · exact .inl rfl
  · rintro t ⟨rest, rfl⟩ ⟨hmark, hsign, hdigits⟩
    next mark sign digits =>
    obtain ⟨d, digits, rfl⟩ := List.exists_cons_of_ne_nil hdigits.1
    have hsigned : Decimal.signRun (sign ++ (d :: digits ++ rest)) = (sign, d :: digits ++ rest) :=
      hsign.signRun hdigits.of_cons
    have hrun : (d :: digits ++ rest).takeWhile isAsciiDigit =
        d :: digits ++ rest.takeWhile isAsciiDigit := List.takeWhile_append_of_pos hdigits.2
    simp only [takeExponent, List.cons_append, List.append_assoc, if_pos hmark,
      Decimal.digitRun] at hsigned hrun ⊢
    rw [hsigned, hrun]
    simp

/-- A decimal number at the start of a text cuts it at the point behind its first digits. -/
theorem decimal_start {whole places exponent : List Char} (hwhole : Digits whole)
    (ht : whole ++ '.' :: (places ++ exponent) <+: s) :
    s.takeWhile isAsciiDigit = whole ∧
      ∃ tail, s.dropWhile isAsciiDigit = '.' :: tail ∧ places ++ exponent <+: tail := by
  obtain ⟨rest, rfl⟩ := ht
  have hstop := takeWhile_of_stop (places ++ exponent ++ rest) hwhole.2
    (show isAsciiDigit '.' = false by decide)
  rw [List.append_assoc, List.cons_append]
  exact ⟨hstop.1, _, hstop.2, ⟨rest, rfl⟩⟩

theorem not_isAsciiDigit_of_mark (h : c = 'e' ∨ c = 'E') : isAsciiDigit c = false := by
  rcases h with rfl | rfl <;> decide

/-- The places of a number and its exponent are no longer than what a step takes for them. -/
theorem length_places_le {places exponent tail : List Char} (hplaces : Digits places)
    (hexponent : exponent = [] ∨ Exponent exponent) (ht : places ++ exponent <+: tail) :
    places.length ≤ (tail.takeWhile isAsciiDigit).length ∧
      (places ++ exponent).length ≤ (tail.takeWhile isAsciiDigit).length +
        (takeExponent (tail.dropWhile isAsciiDigit)).1.length := by
  have hrun : places.length ≤ (tail.takeWhile isAsciiDigit).length :=
    length_le_takeWhile ((List.prefix_append _ _).trans ht) hplaces.2
  refine ⟨hrun, ?_⟩
  rcases hexponent with rfl | hexponent
  · rw [List.append_nil]
    omega
  · obtain ⟨rest, rfl⟩ := ht
    cases hexponent with
    | intro hmark hsign hdigits =>
        -- the mark ends the digits, so the exponent starts where the step looks for one
        next mark sign digits =>
        have hstop := takeWhile_of_stop (sign ++ digits ++ rest) hplaces.2
          (not_isAsciiDigit_of_mark hmark)
        simp only [List.append_assoc, List.cons_append] at hstop ⊢
        rw [hstop.1, hstop.2, List.length_append]
        have hlongest := (takeExponent_spec (mark :: (sign ++ (digits ++ rest)))).2.2
          (mark :: (sign ++ digits)) ⟨rest, by simp⟩ (.intro hmark hsign hdigits)
        omega

/-- Digits are the longest match where no decimal number starts. -/
theorem exact_whole (hc : isAsciiDigit c = true)
    (hnone : ∀ t, t <+: c :: s → ¬Form.decimal.Matches t) :
    Step.Exact ⟨ofNumeral? ((c :: s).takeWhile isAsciiDigit), (c :: s).takeWhile isAsciiDigit,
      (c :: s).dropWhile isAsciiDigit⟩ (c :: s) := by
  have hsplit : (c :: s).takeWhile isAsciiDigit ++ (c :: s).dropWhile isAsciiDigit = c :: s :=
    List.takeWhile_append_dropWhile
  refine ⟨hsplit.symm, .inl ⟨.whole, ⟨⟨_, hsplit⟩, digits_takeWhile_cons hc, ?_, by rintro ⟨⟩⟩, rfl⟩⟩
  intro g t ht hg
  have hfamily := (hg.family_of_start ht).trans (Family.of_digit hc)
  cases g <;> simp only [Form.family, reduceCtorEq] at hfamily
  case whole => exact length_le_takeWhile ht hg.2
  case decimal => exact absurd hg (hnone t ht)

/-- Digits, a point, digits and what can be taken for an exponent are the longest match. -/
theorem exact_decimal (hc : isAsciiDigit c = true) {tail : List Char}
    (htail : (c :: s).dropWhile isAsciiDigit = '.' :: tail)
    (hplaces : tail.takeWhile isAsciiDigit ≠ []) :
    let exponent := takeExponent (tail.dropWhile isAsciiDigit)
    let text := (c :: s).takeWhile isAsciiDigit ++ '.' :: tail.takeWhile isAsciiDigit ++ exponent.1
    Step.Exact ⟨(Decimal.unsigned? text).map .float, text, exponent.2⟩ (c :: s) := by
  intro exponent text
  have hexponent := takeExponent_spec (tail.dropWhile isAsciiDigit)
  have heq : c :: s = text ++ exponent.2 := by
    have hsplit : (c :: s).takeWhile isAsciiDigit ++ (c :: s).dropWhile isAsciiDigit = c :: s :=
      List.takeWhile_append_dropWhile
    rw [List.append_assoc, hexponent.1, List.append_assoc, List.cons_append,
      List.takeWhile_append_dropWhile, ← htail, hsplit]
  have hform : Form.decimal.Matches text :=
    ⟨(c :: s).takeWhile isAsciiDigit, tail.takeWhile isAsciiDigit, exponent.1,
      digits_takeWhile_cons hc, digits_takeWhile hplaces, hexponent.2.1, by simp [text]⟩
  refine ⟨heq, .inl ⟨.decimal, ⟨⟨_, heq.symm⟩, hform, ?_, by rintro ⟨⟩⟩, rfl⟩⟩
  intro g t ht hg
  have hfamily := (hg.family_of_start ht).trans (Family.of_digit hc)
  cases g <;> simp only [Form.family, reduceCtorEq] at hfamily
  case whole =>
      have hlength := length_le_takeWhile ht hg.2
      simp only [text, List.length_append]
      omega
  case decimal =>
      obtain ⟨whole, places, exponent', hw, hp, he, rfl⟩ := hg
      obtain ⟨hrun, tail', htail', hbegins⟩ := decimal_start hw ht
      obtain rfl : tail = tail' := (List.cons.inj (htail.symm.trans htail')).2
      have hlength := (length_places_le hp he hbegins).2
      simp only [text, exponent, hrun, List.length_append, List.length_cons] at hlength ⊢
      omega

theorem stepNumber_of_point {tail : List Char} (h : s.dropWhile isAsciiDigit = '.' :: tail) :
    stepNumber s =
      if tail.takeWhile isAsciiDigit = [] then
        ⟨ofNumeral? (s.takeWhile isAsciiDigit), s.takeWhile isAsciiDigit, '.' :: tail⟩
      else
        let exponent := takeExponent (tail.dropWhile isAsciiDigit)
        let text := s.takeWhile isAsciiDigit ++ '.' :: tail.takeWhile isAsciiDigit ++ exponent.1
        ⟨(Decimal.unsigned? text).map .float, text, exponent.2⟩ := by
  have hrun : Decimal.digitRun s = (s.takeWhile isAsciiDigit, '.' :: tail) := by
    rw [Decimal.digitRun, h]
  unfold stepNumber
  rw [hrun]
  by_cases hplaces : tail.takeWhile isAsciiDigit = [] <;> simp [Decimal.digitRun, hplaces]

theorem stepNumber_of_no_point (h : ∀ tail, s.dropWhile isAsciiDigit ≠ '.' :: tail) :
    stepNumber s = ⟨ofNumeral? (s.takeWhile isAsciiDigit), s.takeWhile isAsciiDigit,
      s.dropWhile isAsciiDigit⟩ := by
  have hrun : Decimal.digitRun s = (s.takeWhile isAsciiDigit, s.dropWhile isAsciiDigit) := rfl
  unfold stepNumber
  rw [hrun]
  dsimp only
  split
  · next tail htail => exact absurd htail (h tail)
  · rfl

theorem exact_number (hc : isAsciiDigit c = true) : (stepNumber (c :: s)).Exact (c :: s) := by
  by_cases hpoint : ∃ tail, (c :: s).dropWhile isAsciiDigit = '.' :: tail
  · obtain ⟨tail, htail⟩ := hpoint
    rw [stepNumber_of_point htail]
    split
    · next hplaces =>
        rw [← htail]
        refine exact_whole hc fun t ht hg => ?_
        obtain ⟨whole, places, exponent, hw, hp, he, rfl⟩ := hg
        obtain ⟨-, tail', htail', hbegins⟩ := decimal_start hw ht
        obtain rfl : tail = tail' := (List.cons.inj (htail.symm.trans htail')).2
        have hlength := (length_places_le hp he hbegins).1
        rw [hplaces] at hlength
        exact hp.1 (List.length_eq_zero_iff.mp (Nat.le_zero.mp hlength))
    · next hplaces => exact exact_decimal hc htail hplaces
  · rw [stepNumber_of_no_point fun tail htail => hpoint ⟨tail, htail⟩]
    refine exact_whole hc fun t ht hg => ?_
    obtain ⟨whole, places, exponent, hw, -, -, rfl⟩ := hg
    obtain ⟨-, tail, htail, -⟩ := decimal_start hw ht
    exact hpoint ⟨tail, htail⟩

/-! ## Strings -/

/-- Complete units up to a quote are taken for the rest of a string. -/
theorem takeString_around (q : Quote) {units : List StringUnit} (hunits : ∀ u ∈ units, u.Fits q)
    (rest : List Char) :
    takeString q.char (inside units ++ q.char :: rest) = (inside units ++ [q.char], true, rest) := by
  induction units with
  | nil => cases q <;> simp [takeString, Quote.char]
  | cons u units ih =>
      obtain ⟨hu, hunits⟩ := List.forall_mem_cons.mp hunits
      have ih := ih hunits
      cases u with
      | plain d =>
          obtain ⟨hquote, hback⟩ := hu
          simp [StringUnit.text, takeString, hback, hquote, ih]
      | escaped d =>
          have hd : d ≠ '\n' := hu
          simp [StringUnit.text, takeString, hd, ih]

theorem takeString_append (quote : Char) (s : List Char) :
    (takeString quote s).1 ++ (takeString quote s).2.2 = s := by
  fun_induction takeString quote s <;> simp_all

/-- A closed string is made of complete units up to a quote. -/
theorem exists_units (q : Quote) (s : List Char) (h : (takeString q.char s).2.1 = true) :
    ∃ units, (∀ u ∈ units, StringUnit.Fits q u) ∧
      (takeString q.char s).1 = inside units ++ [q.char] := by
  fun_induction takeString q.char s with
  | case1 => cases h
  | case2 => cases h
  | case3 d s hd text closed rest heq ih =>
      rw [heq] at ih
      obtain ⟨units, hunits, htext⟩ := ih h
      exact ⟨.escaped d :: units, List.forall_mem_cons.mpr ⟨hd, hunits⟩,
        congrArg (fun t => '\\' :: d :: t) htext⟩
  | case4 => cases h
  | case5 s => exact ⟨[], by simp, rfl⟩
  | case6 d s hback hlone hquote text closed rest heq ih =>
      rw [heq] at ih
      obtain ⟨units, hunits, htext⟩ := ih h
      refine ⟨.plain d :: units, List.forall_mem_cons.mpr ⟨⟨hquote, ?_⟩, hunits⟩,
        congrArg (d :: ·) htext⟩
      rintro rfl
      cases s with
      | nil => exact hlone rfl rfl
      | cons e s => exact hback e s rfl rfl

theorem takeString_of_around {q : Quote} {units : List StringUnit} (hunits : ∀ u ∈ units, u.Fits q)
    (h : q.around units <+: q.char :: s) :
    (takeString q.char s).2.1 = true ∧ q.around units = q.char :: (takeString q.char s).1 := by
  obtain ⟨rest, heq⟩ := h
  have hs : s = inside units ++ q.char :: rest := by
    have htail : (inside units ++ [q.char]) ++ rest = s := (List.cons.inj heq).2
    rw [← htail, List.append_assoc, List.singleton_append]
  rw [hs, takeString_around q hunits]
  exact ⟨rfl, rfl⟩

/-- What has a form behind a quote is a string with that quote. -/
theorem Form.Matches.around_of_start {g : Form} {q : Quote} (h : g.Matches t)
    (ht : t <+: q.char :: s) :
    g = .string q ∧ ∃ units, (∀ u ∈ units, StringUnit.Fits q u) ∧ t = q.around units := by
  have hquoted : Family.of q.char = .quoted := by cases q <;> decide
  have hfamily := (h.family_of_start ht).trans hquoted
  cases g <;> simp only [Form.family, reduceCtorEq] at hfamily
  case string q' =>
      obtain ⟨units, hunits, rfl⟩ := h
      obtain rfl := Quote.char_injective (List.cons_prefix_cons.mp ht).1
      exact ⟨rfl, units, hunits, rfl⟩

/-- Units between two quotes are the longest match, whatever follows. -/
theorem longest_around (q : Quote) {units : List StringUnit} (hunits : ∀ u ∈ units, u.Fits q)
    (after : List Char) : Longest (.string q) (q.around units) (q.around units ++ after) := by
  refine ⟨List.prefix_append _ _, ⟨units, hunits, rfl⟩, fun g t ht hg => ?_, by rintro ⟨⟩⟩
  obtain ⟨-, units', hunits', rfl⟩ := hg.around_of_start ht
  have htaken := (takeString_of_around hunits' ht).2
  have htaken' := (takeString_of_around hunits (List.prefix_append (q.around units) after)).2
  rw [htaken, htaken']

theorem exact_string (q : Quote) : (stepString q.char s).Exact (q.char :: s) := by
  have heq : q.char :: s = (q.char :: (takeString q.char s).1) ++ (takeString q.char s).2.2 := by
    rw [List.cons_append, takeString_append]
  refine ⟨heq, ?_⟩
  cases hclosed : (takeString q.char s).2.1 with
  | false =>
      refine .inr ⟨fun g t ht hg => ?_, by simp [stepString, hclosed]⟩
      obtain ⟨-, units, hunits, rfl⟩ := hg.around_of_start ht
      rw [(takeString_of_around hunits ht).1] at hclosed
      cases hclosed
  | true =>
      obtain ⟨units, hunits, htext⟩ := exists_units q s hclosed
      have haround : q.around units = q.char :: (takeString q.char s).1 := by
        rw [htext, Quote.around]
      have hlongest := longest_around q hunits (takeString q.char s).2.2
      rw [haround, ← heq] at hlongest
      refine .inl ⟨.string q, hlongest, ?_⟩
      simp [stepString, hclosed, Form.value?]

/-! ## Operators and punctuation -/

theorem punct?_eq_none (h : punct? s = none) (p : Punct) : ¬p.text.toList <+: s := by
  have hnone := List.findSome?_eq_none_iff.mp h p (Punct.mem_all p)
  exact after?_eq_none_iff.mp (Option.map_eq_none_iff.mp hnone)

theorem punct?_eq_some {p : Punct} {rest : List Char} (h : punct? s = some (p, rest)) :
    s = p.text.toList ++ rest ∧
      ∀ p' : Punct, p'.text.toList <+: s → p'.text.toList.length ≤ p.text.toList.length := by
  -- the marks are tried in an order in which none stands before a longer one
  have hsorted : Punct.all.Pairwise fun p q => q.text.toList.length ≤ p.text.toList.length := by
    decide +kernel
  obtain ⟨before, q, behind, hall, hq, hbefore⟩ := List.findSome?_eq_some_iff.mp h
  obtain ⟨rest', hrest, heq⟩ := Option.map_eq_some_iff.mp hq
  obtain ⟨rfl, rfl⟩ := Prod.mk.inj heq
  refine ⟨eq_append_of_after? hrest, fun p' hp' => ?_⟩
  have hmem := Punct.mem_all p'
  rw [hall] at hmem hsorted
  obtain ⟨-, hbehind, -⟩ := List.pairwise_append.mp hsorted
  rcases List.mem_append.mp hmem with hmem | hmem
  · have hnone := after?_eq_none_iff.mp (Option.map_eq_none_iff.mp (hbefore p' hmem))
    exact absurd hp' hnone
  · rcases List.mem_cons.mp hmem with rfl | hmem
    · exact Nat.le_refl _
    · exact (List.pairwise_cons.mp hbehind).1 p' hmem

/-! ## Steps -/

/-- A step takes the longest match at the start of a text, with its value, or finds that there is
none. -/
theorem step_exact (c : Char) (s : List Char) : (step c s).Exact (c :: s) := by
  unfold step
  split
  · next hname => exact exact_name hname
  · next hname =>
      split
      · next hdigit => exact exact_number hdigit
      · next hdigit =>
          split
          · next hquote =>
              rcases hquote with rfl | rfl
              · exact exact_string .double
              · exact exact_string .single
          · next hquote =>
              have hfamily : Family.of c = .mark := by simp [Family.of, hname, hdigit, hquote]
              have honly : ∀ g t, t <+: c :: s → Form.Matches g t →
                  ∃ p : Punct, g = .punct p ∧ t = p.text.toList := by
                intro g t ht hg
                have hg' := (hg.family_of_start ht).trans hfamily
                cases g <;> simp only [Form.family, reduceCtorEq] at hg'
                case punct p => exact ⟨p, rfl, hg⟩
              split
              · next p rest hp =>
                  obtain ⟨heq, hlongest⟩ := punct?_eq_some hp
                  refine ⟨heq, .inl ⟨.punct p, ⟨⟨rest, heq.symm⟩, rfl, ?_, by rintro ⟨⟩⟩, rfl⟩⟩
                  intro g t ht hg
                  obtain ⟨p', rfl, rfl⟩ := honly g t ht hg
                  exact hlongest p' ht
              · next hp =>
                  refine ⟨rfl, .inr ⟨fun g t ht hg => ?_, rfl⟩⟩
                  obtain ⟨p', rfl, rfl⟩ := honly g t ht hg
                  exact punct?_eq_none hp p' ht

end LiveMarkup.Token
