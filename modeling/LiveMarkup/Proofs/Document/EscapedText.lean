import LiveMarkup.Document.Parse
import LiveMarkup.Proofs.Render.Escaping
import LiveMarkup.Proofs.Text.Occurrence
set_option autoImplicit false

/-! # Escaped text is read back

Escaping writes five characters as references; decoding puts the characters back, in texts and in
attribute values, whatever stands behind them (`decode_escaped`). A reference by name is looked up
in tables of names, and only a name that the word before the semicolon starts with can match
(`longest_of_word`). Escaped text holds no angle bracket and no quote, so it stays one text or one
value when markup is read, and a page shows the string that was escaped (`parse_escaped`). -/

namespace LiveMarkup

open Text

/-! ## References -/

namespace Reference

/-- The names of a table that a word starts with. -/
def startsOf (word : List Char) (names : List (String × Nat)) : List (String × Nat) :=
  names.filter fun entry => entry.1.toList.isPrefixOf word

theorem semicolon_not_mem_names {entry : String × Nat} (h : entry ∈ openNames ++ closedNames) :
    ';' ∉ entry.1.toList := by
  have hall : (openNames ++ closedNames).all (fun e => ';' ∉ e.1.toList) = true := by
    decide +kernel
  simpa using List.all_eq_true.mp hall entry h

/-- A name stands in front of a text only if it stands in front of the word that the first semicolon
ends. -/
theorem matchName_eq_none {needs : Bool} {entry : String × Nat} {word : List Char}
    (hentry : ';' ∉ entry.1.toList) (hword : ¬entry.1.toList <+: word) (rest : List Char) :
    matchName needs entry (word ++ ';' :: rest) = none := by
  have hnone : after? entry.1.toList (word ++ ';' :: rest) = none := by
    rw [after?_eq_none_iff]
    intro hname
    have hclosed : word ++ [';'] <+: word ++ ';' :: rest := ⟨rest, by simp⟩
    rcases List.prefix_or_prefix_of_prefix hname hclosed with hshort | hlong
    · rcases List.prefix_concat_iff.mp hshort with heq | hstart
      · exact hentry (heq ▸ List.mem_append_right _ List.mem_cons_self)
      · exact hword hstart
    · exact hentry (hlong.subset (List.mem_append_right _ List.mem_cons_self))
  rw [matchName, hnone]

theorem longer_none (m : Option Match) : longer m none = m := by
  cases m <;> rfl

/-- Names that do not match can be left out of the search. -/
theorem foldl_matchName_of_word {needs : Bool} {names : List (String × Nat)} {word : List Char}
    (hnames : ∀ entry ∈ names, ';' ∉ entry.1.toList) (best : Option Match) (rest : List Char) :
    names.foldl (fun best entry => longer best (matchName needs entry (word ++ ';' :: rest))) best =
      (startsOf word names).foldl
        (fun best entry => longer best (matchName needs entry (word ++ ';' :: rest))) best := by
  induction names generalizing best with
  | nil => rfl
  | cons entry others ih =>
      have hothers := fun e he => hnames e (List.mem_cons_of_mem entry he)
      rw [List.foldl_cons, ih hothers, startsOf, startsOf, List.filter_cons]
      by_cases hstart : entry.1.toList.isPrefixOf word
      · rw [if_pos hstart, List.foldl_cons]
      · have hword : ¬entry.1.toList <+: word := fun h => hstart (List.isPrefixOf_iff_prefix.mpr h)
        rw [if_neg hstart, matchName_eq_none (hnames entry List.mem_cons_self) hword, longer_none]

/-- A word that is an old name, and of which no other name is a beginning, is found with the
semicolon behind it. -/
theorem longest_of_word {name : String} {code : Nat} {word : List Char}
    (hname : name.toList = word) (hopen : startsOf word openNames = [(name, code)])
    (hclosed : startsOf word closedNames = []) (rest : List Char) :
    longest (word ++ ';' :: rest) = some ⟨Char.ofNat code, true, rest⟩ := by
  have hafter : after? name.toList (word ++ ';' :: rest) = some (';' :: rest) :=
    after?_eq_some_iff.mpr (by rw [hname])
  unfold longest
  rw [foldl_matchName_of_word fun e he => semicolon_not_mem_names (List.mem_append_left _ he),
    foldl_matchName_of_word fun e he => semicolon_not_mem_names (List.mem_append_right _ he),
    hopen, hclosed, List.foldl_nil, List.foldl_cons, List.foldl_nil, matchName, hafter]
  rfl

theorem named?_of_longest {s rest : List Char} {c : Char} (h : longest s = some ⟨c, true, rest⟩)
    (inAttribute : Bool) : named? inAttribute s = some (c, rest) := by
  rw [named?, h, Option.bind_some]
  cases inAttribute <;> rfl

/-- An old name with a semicolon behind it is read as what it stands for. -/
theorem read?_of_name (name : String) {code : Nat} (hhash : '#' ∉ name.toList)
    (hopen : startsOf name.toList openNames = [(name, code)])
    (hclosed : startsOf name.toList closedNames = []) (inAttribute : Bool) (rest : List Char) :
    read? inAttribute (name.toList ++ ';' :: rest) = some (Char.ofNat code, rest) := by
  have hnamed := named?_of_longest (longest_of_word rfl hopen hclosed rest) inAttribute
  rw [← hnamed]
  unfold read?
  split
  · next c s heq =>
      -- a number would begin with its mark
      cases hname : name.toList with
      | nil => rw [hname] at heq; cases heq
      | cons d word =>
          rw [hname] at heq hhash
          obtain ⟨rfl, -⟩ := List.cons.inj heq
          exact absurd List.mem_cons_self hhash
  · rfl

theorem read?_apostrophe (inAttribute : Bool) (rest : List Char) :
    read? inAttribute ("#39;".toList ++ rest) = some ('\'', rest) := rfl

theorem decode_cons {c : Char} (hc : c ≠ '&') (inAttribute : Bool) (s : List Char) :
    decode inAttribute (c :: s) = c :: decode inAttribute s := by
  rw [decode, if_neg hc]

theorem decode_reference {inAttribute : Bool} {s rest : List Char} {c : Char}
    (h : read? inAttribute s = some (c, rest)) :
    decode inAttribute ('&' :: s) = c :: decode inAttribute rest := by
  rw [decode, if_pos rfl]
  split
  · next heq =>
      obtain ⟨rfl, rfl⟩ := Prod.mk.inj (Option.some.inj (h.symm.trans heq))
      rfl
  · next heq => rw [h] at heq; cases heq

/-- One case for each reference, and one for all other characters. -/
theorem decode_escapedChar (inAttribute : Bool) (c : Char) (rest : List Char) :
    decode inAttribute (escapedChar c ++ rest) = c :: decode inAttribute rest := by
  unfold escapedChar
  split
  · next h => exact h ▸ decode_reference (read?_of_name "amp" (by decide)
      (by decide +kernel) (by decide +kernel) inAttribute rest)
  split
  · next h => exact h ▸ decode_reference (read?_of_name "lt" (by decide)
      (by decide +kernel) (by decide +kernel) inAttribute rest)
  split
  · next h => exact h ▸ decode_reference (read?_of_name "gt" (by decide)
      (by decide +kernel) (by decide +kernel) inAttribute rest)
  split
  · next h => exact h ▸ decode_reference (read?_of_name "quot" (by decide)
      (by decide +kernel) (by decide +kernel) inAttribute rest)
  split
  · next h => exact h ▸ decode_reference (read?_apostrophe inAttribute rest)
  · next hamp _ _ _ _ => exact decode_cons hamp inAttribute rest

/-- Decoding undoes escaping, and goes on behind it. -/
theorem decode_escaped (inAttribute : Bool) (s rest : List Char) :
    decode inAttribute (s.flatMap escapedChar ++ rest) = s ++ decode inAttribute rest := by
  induction s with
  | nil => rfl
  | cons c s ih =>
      rw [List.flatMap_cons, List.append_assoc, decode_escapedChar, ih, List.cons_append]

theorem decode_flatMap_escapedChar (inAttribute : Bool) (s : List Char) :
    decode inAttribute (s.flatMap escapedChar) = s := by
  have h := decode_escaped inAttribute s []
  have hnil : decode inAttribute [] = [] := by rw [decode]
  simpa [hnil] using h

end Reference

/-! ## Characters of escaped text -/

/-- The characters that escaping writes in the place of others. -/
def referenceChars : List Char := '&' :: escapes.flatMap String.toList

theorem mem_escapedChar {c d : Char} (h : d ∈ escapedChar c) : d = c ∨ d ∈ referenceChars := by
  unfold escapedChar at h
  split at h
  · exact .inr ((by decide : "&amp;".toList ⊆ referenceChars) h)
  split at h
  · exact .inr ((by decide : "&lt;".toList ⊆ referenceChars) h)
  split at h
  · exact .inr ((by decide : "&gt;".toList ⊆ referenceChars) h)
  split at h
  · exact .inr ((by decide : "&quot;".toList ⊆ referenceChars) h)
  split at h
  · exact .inr ((by decide : "&#39;".toList ⊆ referenceChars) h)
  · exact .inl (List.mem_singleton.mp h)

/-- Escaping brings in no other character. -/
theorem not_mem_flatMap_escapedChar {c : Char} {s : List Char} (hc : c ∉ referenceChars)
    (h : c ∉ s) : c ∉ s.flatMap escapedChar := by
  intro hmem
  obtain ⟨d, hd, hcd⟩ := List.mem_flatMap.mp hmem
  rcases mem_escapedChar hcd with rfl | href
  · exact h hd
  · exact hc href

theorem not_mem_escaped_of_delimiter {c : Char} (hc : c ∈ delimiters) (s : List Char) :
    c ∉ s.flatMap escapedChar := by
  have hinert := inert_escapeMarkup (String.ofList s)
  rw [Inert, escapeMarkup, String.toList_ofList, String.toList_ofList] at hinert
  exact fun hmem => hinert.plain c hmem hc

/-! ## Reading -/

namespace Tag

theorem shown_of_not_mem {s : List Char} (h : '\x00' ∉ s) : shown s = s := by
  unfold shown
  have hsame : ∀ c ∈ s, (if c = '\x00' then Reference.replacement else c) = c := by
    intro c hc
    have hne : c ≠ '\x00' := by
      rintro rfl
      exact h hc
    rw [if_neg hne]
  calc s.map (fun c => if c = '\x00' then Reference.replacement else c) = s.map id :=
        List.map_congr_left hsame
    _ = s := List.map_id s

/-- An attribute whose value stands in quotes that do not occur in it. -/
theorem readAttribute?_quoted {c : Char} {name value : List Char}
    (hname : ∀ d ∈ name, inAttributeName d = true) (hvalue : '"' ∉ value) (rest : List Char) :
    readAttribute? c (name ++ '=' :: '"' :: (value ++ '"' :: rest)) =
      some ((nameOf (c :: name), valueOf value), rest) := by
  have htake : (name ++ '=' :: '"' :: (value ++ '"' :: rest)).takeWhile inAttributeName = name := by
    rw [List.takeWhile_append_of_pos hname]
    simp [inAttributeName]
  have hdrop : (name ++ '=' :: '"' :: (value ++ '"' :: rest)).dropWhile inAttributeName =
      '=' :: '"' :: (value ++ '"' :: rest) := by
    rw [List.dropWhile_append_of_pos hname]
    simp [inAttributeName]
  have hcut : cut? ['"'] (value ++ '"' :: rest) = some (value, rest) := by
    have hleftmost : Leftmost ['"'] (value ++ ['"'] ++ rest) value rest :=
      leftmost_of_not_mem hvalue rest
    rw [List.append_assoc] at hleftmost
    exact cut?_eq_some_iff.mpr hleftmost
  have hread : readValue? ('"' :: (value ++ '"' :: rest)) = some (value, rest) := by
    simpa [readValue?, isGap] using hcut
  unfold readAttribute?
  rw [htake, hdrop]
  show (readValue? ('"' :: (value ++ '"' :: rest))).map _ = _
  rw [hread]
  rfl

/-- An escaped value is read as what was escaped. -/
theorem valueOf_escaped {s : List Char} (h : '\x00' ∉ s) :
    valueOf (s.flatMap escapedChar) = String.ofList s := by
  have hshown : '\x00' ∉ s.flatMap escapedChar := not_mem_flatMap_escapedChar (by decide) h
  rw [valueOf, shown_of_not_mem hshown, Reference.decode_flatMap_escapedChar]

theorem readFrom?_space (name : String) (attributes : List (String × String)) (s : List Char) :
    readFrom? name attributes (' ' :: s) = readFrom? name attributes s := by
  rw [readFrom?.eq_def]
  dsimp only
  rw [if_neg (by decide), if_neg (by decide), if_pos (by decide)]

theorem readFrom?_attribute {c : Char} {s rest : List Char} {a : String × String}
    (hc : endsName c = false) (ha : readAttribute? c s = some (a, rest)) (name : String)
    (attributes : List (String × String)) :
    readFrom? name attributes (c :: s) = readFrom? name (place a.1 a.2 attributes) rest := by
  simp only [endsName, Bool.or_eq_false_iff, beq_eq_false_iff_ne] at hc
  obtain ⟨⟨hgap, hslash⟩, hangle⟩ := hc
  rw [readFrom?.eq_def]
  dsimp only
  rw [if_neg hangle, if_neg hslash, if_neg (by simp [hgap])]
  split
  · next hnone => rw [ha] at hnone; cases hnone
  · next hsome =>
      obtain ⟨rfl, rfl⟩ := Prod.mk.inj (Option.some.inj (ha.symm.trans hsome))
      rfl

/-- A tag whose first attribute has an escaped value in quotes goes on behind that. -/
theorem read?_escaped (tag : List Char) (c : Char) (name : List Char) {s : List Char}
    (htag : ∀ d ∈ tag, inTagName d = true) (hc : endsName c = false)
    (hname : ∀ d ∈ name, inAttributeName d = true) (hs : '\x00' ∉ s)
    (rest : List Char) :
    read? (tag ++ ' ' :: c :: (name ++ '=' :: '"' :: (s.flatMap escapedChar ++ '"' :: rest))) =
      readFrom? (nameOf tag) [(nameOf (c :: name), String.ofList s)] rest := by
  have hquote : '"' ∉ s.flatMap escapedChar := not_mem_escaped_of_delimiter (by decide) s
  unfold read?
  rw [List.takeWhile_append_of_pos htag, List.dropWhile_append_of_pos htag,
    List.takeWhile_cons_of_neg (by decide), List.dropWhile_cons_of_neg (by decide), List.append_nil,
    readFrom?_space, readFrom?_attribute hc (readAttribute?_quoted hname hquote rest),
    valueOf_escaped hs]
  rfl

end Tag

namespace Piece

theorem unifyLineEnds_of_not_mem {s : List Char} (h : '\r' ∉ s) : unifyLineEnds s = s := by
  induction s with
  | nil => rfl
  | cons c s ih =>
      obtain ⟨hc, hs⟩ := not_or.mp (List.mem_cons.not.mp h)
      have hne : c ≠ '\r' := fun heq => hc heq.symm
      unfold unifyLineEnds
      split <;> simp_all

/-- What holds no angle bracket is text as a whole, with the text behind it. -/
theorem cutText_append {s : List Char} (h : '<' ∉ s) (rest : List Char) :
    cutText (s ++ rest) = (s ++ (cutText rest).1, (cutText rest).2) := by
  induction s with
  | nil => rfl
  | cons c s ih =>
      obtain ⟨hc, hs⟩ := not_or.mp (List.mem_cons.not.mp h)
      have hne : ¬c = '<' := fun heq => hc heq.symm
      rw [List.cons_append, cutText, ih hs]
      simp [hne]

/-- One text, one markup behind it, and the rest. -/
theorem readAll_of_cutText {s before markup rest : List Char} {c : Char} {found : List Piece}
    (hcut : cutText s = (before, c :: markup)) (hm : readMarkup? markup = some (found, rest)) :
    readAll s = ofText (Reference.decode false before) ++ found ++ readAll rest := by
  rw [readAll]
  split
  · next h => rw [hcut] at h; cases h
  · next h =>
      rw [hcut] at h
      obtain ⟨-, rfl⟩ := List.cons.inj h
      split
      · next hnone => rw [hm] at hnone; cases hnone
      · next hsome =>
          obtain ⟨rfl, rfl⟩ := Prod.mk.inj (Option.some.inj (hm.symm.trans hsome))
          show ofText (Reference.decode false (cutText s).1) ++ found ++ readAll rest = _
          rw [hcut]

/-- A text that holds no angle bracket. -/
theorem readAll_text {s : List Char} (h : '<' ∉ s) :
    readAll s = ofText (Reference.decode false s) := by
  have hcut : cutText s = (s, []) := by simpa [cutText] using cutText_append h []
  rw [readAll]
  split
  · rw [hcut]
  · next hrest => rw [hcut] at hrest; cases hrest

/-- Markup that a text starts with. -/
theorem readAll_of_markup {markup rest : List Char} {found : List Piece}
    (hopens : opensMarkup markup = true) (hm : readMarkup? markup = some (found, rest)) :
    readAll ('<' :: markup) = found ++ readAll rest := by
  have hcut : cutText ('<' :: markup) = ([], '<' :: markup) := by
    rw [cutText, if_pos (by simpa using hopens)]
  have hempty : Reference.decode false [] = [] := by rw [Reference.decode]
  rw [readAll_of_cutText hcut hm, hempty]
  rfl

/-- An escaped text with markup behind it. -/
theorem readAll_escaped {markup rest : List Char} {found : List Piece} (s : List Char)
    (hopens : opensMarkup markup = true) (hm : readMarkup? markup = some (found, rest)) :
    readAll (s.flatMap escapedChar ++ '<' :: markup) = ofText s ++ found ++ readAll rest := by
  have hangle : '<' ∉ s.flatMap escapedChar := not_mem_escaped_of_delimiter (by decide) s
  have hcut : cutText (s.flatMap escapedChar ++ '<' :: markup) =
      (s.flatMap escapedChar, '<' :: markup) := by
    rw [cutText_append hangle, cutText, if_pos (by simpa using hopens), List.append_nil]
  rw [readAll_of_cutText hcut hm, Reference.decode_flatMap_escapedChar]

/-- A paragraph whose title and text are escaped from one string. -/
def paragraph (s : String) : String :=
  "<p title=\"" ++ escapeMarkup s ++ "\">" ++ escapeMarkup s ++ "</p>"

theorem readAll_paragraph {s : List Char} (hs : '\x00' ∉ s) :
    readAll ('<' :: (['p'] ++ ' ' :: 't' :: ("itle".toList ++ '=' :: '"' ::
      (s.flatMap escapedChar ++ '"' :: '>' :: (s.flatMap escapedChar ++ '<' :: "/p>".toList))))) =
      .start ⟨"p", [("title", String.ofList s)], false⟩ :: (ofText s ++ [.close "p"]) := by
  have hstart : ∀ rest, readMarkup? (['p'] ++ ' ' :: 't' :: ("itle".toList ++ '=' :: '"' ::
      (s.flatMap escapedChar ++ '"' :: '>' :: rest))) =
        some ([.start ⟨"p", [("title", String.ofList s)], false⟩], rest) := by
    intro rest
    have htag : ['p'].all Tag.inTagName = true := by decide
    have hname : "itle".toList.all Tag.inAttributeName = true := by decide
    have hread := Tag.read?_escaped ['p'] 't' "itle".toList (List.all_eq_true.mp htag) (by decide)
      (List.all_eq_true.mp hname) hs ('>' :: rest)
    have hended : Tag.readFrom? "p" [("title", String.ofList s)] ('>' :: rest) =
        some (⟨"p", [("title", String.ofList s)], false⟩, rest) := by
      rw [Tag.readFrom?.eq_def]
      rfl
    exact congrArg (Option.map _) (hread.trans hended)
  have hend : readMarkup? "/p>".toList = some ([.close "p"], []) := by decide +kernel
  have hnil : readAll [] = [] := by
    rw [readAll_text List.not_mem_nil, Reference.decode]
    rfl
  rw [readAll_of_markup rfl (hstart _), readAll_escaped s rfl hend, hnil]
  simp

theorem ofMarkup_paragraph {s : String} (hnull : '\x00' ∉ s.toList) (hreturn : '\r' ∉ s.toList) :
    ofMarkup (paragraph s) =
      .start ⟨"p", [("title", s)], false⟩ :: (ofText s.toList ++ [.close "p"]) := by
  have hsource : (paragraph s).toList =
      '<' :: (['p'] ++ ' ' :: 't' :: ("itle".toList ++ '=' :: '"' ::
        (s.toList.flatMap escapedChar ++ '"' :: '>' ::
          (s.toList.flatMap escapedChar ++ '<' :: "/p>".toList)))) := by
    simp [paragraph, String.toList_append, escapeMarkup]
  have hescaped : '\r' ∉ s.toList.flatMap escapedChar :=
    not_mem_flatMap_escapedChar (by decide) hreturn
  rw [ofMarkup, hsource, unifyLineEnds_of_not_mem (by simp [hescaped]), readAll_paragraph hnull,
    String.ofList_toList]

end Piece

/-! ## The page shows what was escaped -/

namespace Document

open Piece (paragraph)

/-- A paragraph whose title and text are escaped from one string, without null characters and
carriage returns, is read as a single element. Its title is the string, and so is its text: one text
node, and none for the empty string. -/
theorem parse_escaped (s : String) (hnull : '\x00' ∉ s.toList) (hreturn : '\r' ∉ s.toList) :
    ∃ p, (parse (paragraph s)).children root = [p] ∧
      (parse (paragraph s)).element? p = some (.ofTag "p" [("title", s)]) ∧
      if s = "" then (parse (paragraph s)).children p = []
      else ∃ t, (parse (paragraph s)).children p = [t] ∧
        (parse (paragraph s)).text? t = some s := by
  have hparse : parse (paragraph s) = ((Piece.start ⟨"p", [("title", s)], false⟩ ::
      (Piece.ofText s.toList ++ [.close "p"])).foldl addPiece (empty, [])).1 := by
    rw [← Piece.ofMarkup_paragraph hnull hreturn]
    rfl
  rw [hparse]
  by_cases hs : s = ""
  · subst hs
    exact ⟨1, rfl, rfl, rfl⟩
  · have htext : Piece.ofText s.toList = [.text s] := by
      simp [Piece.ofText, hs]
    rw [htext]
    refine ⟨1, rfl, rfl, ?_⟩
    rw [if_neg hs]
    exact ⟨2, rfl, rfl⟩

/-- A text that looks like tags, a comment and references. -/
theorem parse_escaped_markup :
    let s := "</p><!-- &lt; --><b title='\"'>&#39;&"
    '\x00' ∉ s.toList ∧ '\r' ∉ s.toList ∧
      ∃ p t, (parse (paragraph s)).children root = [p] ∧
        (parse (paragraph s)).element? p = some (.ofTag "p" [("title", s)]) ∧
        (parse (paragraph s)).children p = [t] ∧ (parse (paragraph s)).text? t = some s := by
  intro s
  have hnull : '\x00' ∉ s.toList := by decide
  have hreturn : '\r' ∉ s.toList := by decide
  obtain ⟨p, htop, helement, hinside⟩ := parse_escaped s hnull hreturn
  rw [if_neg (by decide)] at hinside
  obtain ⟨t, hchildren, htext⟩ := hinside
  exact ⟨hnull, hreturn, p, t, htop, helement, hchildren, htext⟩

end Document

end LiveMarkup
