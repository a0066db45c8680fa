import LiveMarkup.Proofs.Token.Cover
set_option autoImplicit false

/-! # String literals

The inside of a string is a row of units, and both passes over it agree on them: the one that looks for
the closing quote takes a unit at a time (`Token.longest_around`), and so does the one that resolves
the escapes, which makes one character of each unit but `\u` (`Token.unescape?_unit`). So every text
has a literal between quotes of either kind, with a backslash before what would end it or escape
something (`Token.scan_literal`). -/

namespace LiveMarkup.Token

open Text

/-! ## Resolving escapes -/

/-- The character that a unit stands for. What `\u` stands for is told by what follows it. -/
def StringUnit.char : StringUnit → Char
  | plain c => c
  | escaped 'n' => '\n'
  | escaped 't' => '\t'
  | escaped 'r' => '\r'
  | escaped '0' => '\x00'
  | escaped c => c

/-- The text that units stand for if none of them is `\u`. -/
def shown (units : List StringUnit) : String := String.ofList (units.map StringUnit.char)

/-- Escapes are resolved from left to right: a unit makes one character, and what follows it is resolved
by itself. -/
theorem unescape?_unit {q : Quote} {u : StringUnit} (hfits : u.Fits q) (hu : u ≠ .escaped 'u')
    (rest : List Char) : unescape? (u.text ++ rest) = (unescape? rest).map (u.char :: ·) := by
  cases u with
  | plain c =>
      have hback : c ≠ '\\' := hfits.2
      simp [StringUnit.text, StringUnit.char, unescape?, hback]
  | escaped c =>
      have hc : c ≠ 'u' := fun h => hu (h ▸ rfl)
      show unescape? ('\\' :: c :: rest) = _
      unfold StringUnit.char
      split
      · next d heq => cases heq
      · next heq => cases heq; exact unescape?.eq_3 rest
      · next heq => cases heq; exact unescape?.eq_4 rest
      · next heq => cases heq; exact unescape?.eq_5 rest
      · next heq => cases heq; exact unescape?.eq_6 rest
      · next d hn ht hr h0 heq =>
          obtain rfl := StringUnit.escaped.inj heq
          exact unescape?.eq_8 c rest (fun h => hn (h ▸ rfl)) (fun h => ht (h ▸ rfl))
            (fun h => hr (h ▸ rfl)) (fun h => h0 (h ▸ rfl)) hc

theorem unescape?_inside {q : Quote} {units : List StringUnit} (hfits : ∀ u ∈ units, u.Fits q)
    (hunits : ∀ u ∈ units, u ≠ .escaped 'u') :
    unescape? (inside units) = some (units.map StringUnit.char) := by
  induction units with
  | nil => rw [inside_nil, unescape?, List.map_nil]
  | cons u units ih =>
      obtain ⟨hfit, hfits⟩ := List.forall_mem_cons.mp hfits
      obtain ⟨hu, hunits⟩ := List.forall_mem_cons.mp hunits
      rw [inside_cons, unescape?_unit hfit hu, ih hfits hunits]
      rfl

theorem value?_around {q : Quote} {units : List StringUnit} (hfits : ∀ u ∈ units, u.Fits q)
    (hunits : ∀ u ∈ units, u ≠ .escaped 'u') :
    (Form.string q).value? (q.around units) = some (.str (shown units)) := by
  have hinside : (q.around units).tail.dropLast = inside units := by
    rw [Quote.around, List.tail_cons, List.dropLast_concat]
  rw [Form.value?, hinside, unescape?_inside hfits hunits]
  rfl

/-! ## Writing literals -/

/-- A backslash before every backslash and before every quote of the kind, and nothing else changed. -/
def Quote.escape (q : Quote) (s : List Char) : List Char :=
  s.flatMap fun c => if c = '\\' ∨ c = q.char then ['\\', c] else [c]

/-- The literal of a text. -/
def Quote.literal (q : Quote) (s : String) : List Char := q.char :: (q.escape s.toList ++ [q.char])

/-- The unit that a character is written as. -/
def Quote.unit (q : Quote) (c : Char) : StringUnit :=
  if c = '\\' ∨ c = q.char then .escaped c else .plain c

namespace Quote

theorem text_unit (q : Quote) (c : Char) :
    (q.unit c).text = if c = '\\' ∨ c = q.char then ['\\', c] else [c] := by
  unfold unit
  split <;> rfl

theorem fits_unit (q : Quote) (c : Char) : (q.unit c).Fits q := by
  unfold unit
  split
  · next h =>
      show c ≠ '\n'
      rintro rfl
      cases q <;> exact absurd h (by decide)
  · next h => exact ⟨fun hquote => h (.inr hquote), fun hback => h (.inl hback)⟩

theorem unit_ne (q : Quote) (c : Char) : q.unit c ≠ .escaped 'u' := by
  unfold unit
  split
  · next h =>
      intro heq
      obtain rfl := StringUnit.escaped.inj heq
      cases q <;> exact absurd h (by decide)
  · exact nofun

theorem char_unit (q : Quote) (c : Char) : (q.unit c).char = c := by
  unfold unit
  split
  · next h =>
      rcases h with rfl | rfl
      · rfl
      · cases q <;> rfl
  · rfl

theorem literal_eq (q : Quote) (s : String) : q.literal s = q.around (s.toList.map q.unit) := by
  have hescape : q.escape s.toList = inside (s.toList.map q.unit) := by
    rw [escape, inside, List.flatMap_map]
    simp only [text_unit]
  rw [literal, around, hescape]

theorem shown_units (q : Quote) (s : String) : shown (s.toList.map q.unit) = s := by
  have hchars : (s.toList.map q.unit).map StringUnit.char = s.toList := by
    rw [List.map_map]
    exact List.map_id'' (q.char_unit) s.toList
  rw [shown, hchars, String.ofList_toList]

end Quote

/-! ## Reading literals -/

/-- Units between two quotes, none of them `\u`, are one token: the text that they stand for. -/
theorem scan_around {q : Quote} {units : List StringUnit} (hfits : ∀ u ∈ units, u.Fits q)
    (hunits : ∀ u ∈ units, u ≠ .escaped 'u') (base : Nat) :
    scan (q.around units) base = .ok [⟨.str (shown units), .behind base [] (q.around units)⟩] :=
  (longest_around q hfits []).scan (value?_around hfits hunits) base

/-- A token that is a text stands where units stand between quotes. -/
theorem StandsIn.exists_units {base : Nat} {before text after : List Char} {l : Lexeme} {s : String}
    (h : StandsIn base before text after l) (hl : l.token = .str s) :
    ∃ q units, (∀ u ∈ units, StringUnit.Fits q u) ∧ text = q.around units ∧
      ((∀ u ∈ units, u ≠ .escaped 'u') → s = shown units) := by
  obtain ⟨f, hlongest, hvalue⟩ := h.matched
  rw [hl] at hvalue
  cases f <;> simp only [Form.value?, reduceCtorEq, Option.some.injEq] at hvalue
  case whole =>
      obtain ⟨n, hn⟩ := exists_int_of_ofNumeral? hvalue
      cases hn
  case decimal => cases h : Decimal.unsigned? text <;> simp [h] at hvalue
  case string q =>
      obtain ⟨units, hfits, rfl⟩ := hlongest.hasForm
      refine ⟨q, units, hfits, rfl, fun hunits => ?_⟩
      have hshown := value?_around hfits hunits
      rw [Form.value?, hvalue] at hshown
      exact Token.str.inj (Option.some.inj hshown)

/-- Every text has a literal between quotes of either kind: with a backslash before every backslash and
before every such quote it is read as that text, as one token that takes up all of it. Whatever is
accepted between quotes is a row of units; if none of them is `\u`, it is always accepted, each unit
makes one character, and they are resolved one after the other from left to right. -/
theorem scan_literal :
    (∀ (q : Quote) (s : String) (base : Nat),
      scan (q.literal s) base = .ok [⟨.str s, .behind base [] (q.literal s)⟩] ∧
      (base + byteLength (q.literal s) < UInt32.size →
        Span.behind base [] (q.literal s) = ⟨base, base + byteLength (q.literal s)⟩)) ∧
    (∀ (q : Quote) (units : List StringUnit), (∀ u ∈ units, u.Fits q) →
      (∀ u ∈ units, u ≠ .escaped 'u') →
      (∀ base, scan (q.around units) base =
        .ok [⟨.str (shown units), .behind base [] (q.around units)⟩]) ∧
      ∀ u ∈ units, ∀ rest,
        unescape? (u.text ++ rest) = (unescape? rest).map (u.char :: ·)) ∧
    ∀ (source : List Char) (base : Nat) (lexemes : List Lexeme), scan source base = .ok lexemes →
      ∀ l ∈ lexemes, ∀ s, l.token = .str s → ∃ before q units after,
        source = before ++ q.around units ++ after ∧
        l.span = .behind base before (q.around units) ∧ (∀ u ∈ units, u.Fits q) ∧
        ((∀ u ∈ units, u ≠ .escaped 'u') → s = shown units) := by
  refine ⟨fun q s base => ⟨?_, fun hsize => ?_⟩, fun q units hfits hunits => ⟨?_, ?_⟩, ?_⟩
  · have hfits : ∀ u ∈ s.toList.map q.unit, u.Fits q :=
      List.forall_mem_map.mpr fun c _ => q.fits_unit c
    have hunits : ∀ u ∈ s.toList.map q.unit, u ≠ .escaped 'u' :=
      List.forall_mem_map.mpr fun c _ => q.unit_ne c
    have hscan := scan_around hfits hunits base
    rwa [← q.literal_eq, q.shown_units] at hscan
  · exact Span.behind_eq hsize
  · exact fun base => scan_around hfits hunits base
  · exact fun u hu rest => unescape?_unit (hfits u hu) (hunits u hu) rest
  · intro source base lexemes hscan l hl s hs
    obtain ⟨lexemes', hscan', hreads⟩ | ⟨_, _, _, _, -, -, herror⟩ := scan_cases source base
    · obtain rfl := Except.ok.inj (hscan.symm.trans hscan')
      obtain ⟨before, text, after, hsource, hstands⟩ := hreads.stands l hl
      obtain ⟨q, units, hfits, rfl, hshown⟩ := hstands.exists_units hs
      exact ⟨before, q, units, after, hsource, hstands.span, hfits, hshown⟩
    · cases hscan.symm.trans herror

/-- A quote behind a backslash, in a literal by itself and in the middle of an expression. -/
theorem scan_literal_apostrophe :
    let units : List StringUnit := [.plain 'i', .plain 't', .escaped '\'', .plain 's']
    (∀ u ∈ units, u.Fits .single) ∧ (∀ u ∈ units, u ≠ .escaped 'u') ∧
      scan (Quote.single.around units) 3 =
        .ok [⟨.str (shown units), .behind 3 [] (Quote.single.around units)⟩] ∧
      3 + byteLength (Quote.single.literal "it's") < UInt32.size ∧
      Span.behind 3 [] (Quote.single.literal "it's") =
        ⟨3, 3 + byteLength (Quote.single.literal "it's")⟩ ∧
      scan "a 'it\\'s'".toList 0 =
        .ok [⟨.ident "a", ⟨0, 1⟩⟩, ⟨.str "it's", ⟨2, 9⟩⟩] ∧
      ∃ before q units after, "a 'it\\'s'".toList = before ++ Quote.around q units ++ after ∧
        (⟨2, 9⟩ : Span) = .behind 0 before (q.around units) ∧ (∀ u ∈ units, u.Fits q) ∧
        ((∀ u ∈ units, u ≠ .escaped 'u') → "it's" = shown units) := by
  intro units
  have hfits : ∀ u ∈ units, u.Fits .single := by decide
  have hunits : ∀ u ∈ units, u ≠ .escaped 'u' := by decide
  have hscan : scan "a 'it\\'s'".toList 0 =
      .ok [⟨.ident "a", ⟨0, 1⟩⟩, ⟨.str "it's", ⟨2, 9⟩⟩] := by cbv
  refine ⟨hfits, hunits, (scan_literal.2.1 .single units hfits hunits).1 3, by decide,
    (scan_literal.1 .single "it's" 3).2 (by decide), hscan, ?_⟩
  exact scan_literal.2.2 _ 0 _ hscan _ (List.mem_cons_of_mem _ List.mem_cons_self) "it's" rfl

end LiveMarkup.Token
