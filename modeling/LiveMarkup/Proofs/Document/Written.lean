import LiveMarkup.Document.Write
import LiveMarkup.Proofs.Document.FirstElement
set_option autoImplicit false

/-! # Written trees are read piece by piece

Plain trees are those that markup can tell (`Forest.Plain`): names are lower-case words, void
elements are empty, texts are not empty and never stand side by side, and no element is one whose
content is read as text. The characters that are written for plain trees (`Forest.markup`) are read
as their tags and texts in order (`Forest.pieces`), whatever markup stands behind them
(`Piece.readAll_markup`): each of the two ways of escaping is undone by decoding, an attribute that
is read goes behind the ones before it because names are written in their order, and a text ends
where the next tag opens. -/

namespace LiveMarkup

open Text

/-! ## Plain names and texts -/

def isLowerLetter (c : Char) : Bool := 'a' ≤ c && c ≤ 'z'

def isPlainNameChar (c : Char) : Bool := isLowerLetter c || isAsciiDigit c || c == '-'

/-- A lower-case letter, with lower-case letters, digits and hyphens behind it. -/
def isPlainName (name : String) : Bool :=
  match name.toList with
  | [] => false
  | c :: s => isLowerLetter c && s.all isPlainNameChar

/-- A text without null characters and carriage returns, which markup does not keep. -/
def isPlainText (s : String) : Bool := s.toList.all fun c => c != '\x00' && c != '\r'

/-- Elements whose content is read as text. -/
def textElements : List String := ["script", "style", "textarea", "title"]

/-- An element that is read from its start tag as it was written. -/
structure Element.Plain (e : Element) : Prop where
  name : isPlainName e.tag = true
  structured : e.tag ∉ textElements
  sorted : Tag.Sorted e.attributes
  attributes : ∀ a ∈ e.attributes, isPlainName a.1 = true ∧ isPlainText a.2 = true

instance (attributes : List (String × String)) : Decidable (Tag.Sorted attributes) :=
  inferInstanceAs (Decidable (List.Pairwise _ _))

instance (e : Element) : Decidable e.Plain :=
  decidable_of_iff (isPlainName e.tag = true ∧ e.tag ∉ textElements ∧ Tag.Sorted e.attributes ∧
      ∀ a ∈ e.attributes, isPlainName a.1 = true ∧ isPlainText a.2 = true)
    ⟨fun ⟨hname, hstructured, hsorted, hplain⟩ => ⟨hname, hstructured, hsorted, hplain⟩,
      fun ⟨hname, hstructured, hsorted, hplain⟩ => ⟨hname, hstructured, hsorted, hplain⟩⟩

theorem isAsciiLetter_of_isLowerLetter {c : Char} (h : isLowerLetter c = true) :
    isAsciiLetter c = true := by
  rw [isLowerLetter] at h
  rw [isAsciiLetter, h]
  rfl

theorem isPlainNameChar_of_isLowerLetter {c : Char} (h : isLowerLetter c = true) :
    isPlainNameChar c = true := by
  rw [isPlainNameChar, h]
  rfl

/-- A plain name starts with a letter and goes on with characters of plain names. -/
theorem exists_cons_of_isPlainName {name : String} (h : isPlainName name = true) :
    ∃ c s, name.toList = c :: s ∧ isAsciiLetter c = true ∧
      ∀ x ∈ c :: s, isPlainNameChar x = true := by
  unfold isPlainName at h
  split at h
  · cases h
  · next c s hname =>
      obtain ⟨hfirst, hrest⟩ := Bool.and_eq_true_iff.mp h
      exact ⟨c, s, hname, isAsciiLetter_of_isLowerLetter hfirst, List.forall_mem_cons.mpr
        ⟨isPlainNameChar_of_isLowerLetter hfirst, List.all_eq_true.mp hrest⟩⟩

theorem isPlainNameChar_of_mem {name : String} (h : isPlainName name = true) {c : Char}
    (hc : c ∈ name.toList) : isPlainNameChar c = true := by
  obtain ⟨first, rest, hname, -, hall⟩ := exists_cons_of_isPlainName h
  exact hall c (hname ▸ hc)

theorem ne_of_isPlainNameChar {c d : Char} (hc : isPlainNameChar c = true)
    (hd : isPlainNameChar d = false) : c ≠ d := by
  rintro rfl
  rw [hc] at hd
  cases hd

theorem toLower_of_isPlainNameChar {c : Char} (h : isPlainNameChar c = true) : c.toLower = c := by
  have hupper : ¬('A' ≤ c ∧ c ≤ 'Z') := by
    simp only [isPlainNameChar, isLowerLetter, isAsciiDigit, Bool.or_eq_true, Bool.and_eq_true,
      decide_eq_true_eq, beq_iff_eq] at h
    rintro ⟨hlow, hhigh⟩
    rcases h with (⟨h, -⟩ | ⟨-, h⟩) | rfl
    · exact absurd (Char.le_trans h hhigh) (by decide)
    · exact absurd (Char.le_trans hlow h) (by decide)
    · exact absurd hlow (by decide)
  exact dif_neg hupper

theorem endsName_of_isPlainNameChar {c : Char} (h : isPlainNameChar c = true) :
    Tag.endsName c = false ∧ Tag.inTagName c = true ∧ Tag.inAttributeName c = true := by
  have hne : c ≠ ' ' ∧ c ≠ '\t' ∧ c ≠ '\n' ∧ c ≠ '\x0c' ∧ c ≠ '/' ∧ c ≠ '>' ∧ c ≠ '=' := by
    refine ⟨?_, ?_, ?_, ?_, ?_, ?_, ?_⟩ <;> exact ne_of_isPlainNameChar h (by decide)
  simp [Tag.inTagName, Tag.inAttributeName, Tag.endsName, Tag.isGap, hne]

/-- A plain name is read as itself. -/
theorem nameOf_of_isPlainName {name : String} (h : isPlainName name = true) :
    Tag.nameOf name.toList = name := by
  have hlower : name.toList.map Char.toLower = name.toList := by
    calc name.toList.map Char.toLower = name.toList.map id :=
          List.map_congr_left fun c hc => toLower_of_isPlainNameChar (isPlainNameChar_of_mem h hc)
      _ = name.toList := List.map_id _
  have hnull : '\x00' ∉ name.toList := fun hmem =>
    absurd (isPlainNameChar_of_mem h hmem) (by decide)
  rw [Tag.nameOf, hlower, Tag.shown_of_not_mem hnull, String.ofList_toList]

theorem not_mem_of_isPlainText {s : String} (h : isPlainText s = true) :
    '\x00' ∉ s.toList ∧ '\r' ∉ s.toList := by
  have hall := List.all_eq_true.mp h
  exact ⟨fun hmem => absurd (hall _ hmem) (by decide), fun hmem => absurd (hall _ hmem) (by decide)⟩

/-! ## Characters that are written as references -/

/-- A character as it is written where some characters are escaped. -/
def writtenChar (special : List Char) (c : Char) : List Char :=
  if c ∈ special then escapedChar c else [c]

/-- What is escaped in texts. -/
def textSpecials : List Char := ['&', '<', '>']

/-- What is escaped in the values of attributes. -/
def valueSpecials : List Char := ['&', '"']

theorem toList_escapeText (s : String) :
    (Document.escapeText s).toList = s.toList.flatMap (writtenChar textSpecials) := by
  rw [Document.escapeText, String.toList_join, List.flatMap_map]
  refine List.flatMap_congr fun c _ => ?_
  by_cases hamp : c = '&'
  · subst hamp
    rfl
  by_cases hlt : c = '<'
  · subst hlt
    rfl
  by_cases hgt : c = '>'
  · subst hgt
    rfl
  · simp [writtenChar, textSpecials, hamp, hlt, hgt]

theorem toList_escapeAttribute (s : String) :
    (Document.escapeAttribute s).toList = s.toList.flatMap (writtenChar valueSpecials) := by
  rw [Document.escapeAttribute, String.toList_join, List.flatMap_map]
  refine List.flatMap_congr fun c _ => ?_
  by_cases hamp : c = '&'
  · subst hamp
    rfl
  by_cases hquote : c = '"'
  · subst hquote
    rfl
  · simp [writtenChar, valueSpecials, hamp, hquote]

section

variable {special : List Char}

theorem decode_writtenChar (hamp : '&' ∈ special) (inAttribute : Bool) (c : Char)
    (rest : List Char) :
    Reference.decode inAttribute (writtenChar special c ++ rest) =
      c :: Reference.decode inAttribute rest := by
  unfold writtenChar
  split
  · exact Reference.decode_escapedChar inAttribute c rest
  · next hc =>
      have hne : c ≠ '&' := by
        rintro rfl
        exact hc hamp
      exact Reference.decode_cons hne inAttribute rest

/-- Decoding undoes escaping, if ampersands are escaped. -/
theorem decode_flatMap_writtenChar (hamp : '&' ∈ special) (inAttribute : Bool) (s : List Char) :
    Reference.decode inAttribute (s.flatMap (writtenChar special)) = s := by
  induction s with
  | nil => exact Piece.decode_nil inAttribute
  | cons c s ih => rw [List.flatMap_cons, decode_writtenChar hamp, ih]

/-- A delimiter that is escaped is not written. -/
theorem not_mem_flatMap_of_delimiter {c : Char} (hdelimiter : c ∈ delimiters) (hc : c ∈ special)
    (s : List Char) : c ∉ s.flatMap (writtenChar special) := by
  intro hmem
  obtain ⟨x, -, hx⟩ := List.mem_flatMap.mp hmem
  unfold writtenChar at hx
  split at hx
  · exact (inertChars_escapedChar x).plain c hx hdelimiter
  · next hspecial => exact hspecial (List.mem_singleton.mp hx ▸ hc)

/-- Escaping brings in characters of references only. -/
theorem not_mem_flatMap_writtenChar {c : Char} {s : List Char} (hc : c ∉ referenceChars)
    (h : c ∉ s) : c ∉ s.flatMap (writtenChar special) := by
  intro hmem
  obtain ⟨x, hx, hcx⟩ := List.mem_flatMap.mp hmem
  have hwritten : c = x ∨ c ∈ referenceChars := by
    unfold writtenChar at hcx
    split at hcx
    · exact mem_escapedChar hcx
    · exact .inl (List.mem_singleton.mp hcx)
  rcases hwritten with rfl | href
  · exact h hx
  · exact hc href

end

/-! ## Tags -/

namespace Tag

def writtenAttribute (a : String × String) : List Char :=
  ' ' :: (a.1.toList ++ '=' :: '"' :: (a.2.toList.flatMap (writtenChar valueSpecials) ++ ['"']))

theorem place_of_lt {name value : String} {attributes : List (String × String)}
    (h : ∀ a ∈ attributes, a.1 < name) :
    place name value attributes = attributes ++ [(name, value)] := by
  induction attributes with
  | nil => rfl
  | cons first rest ih =>
      obtain ⟨hfirst, hrest⟩ := List.forall_mem_cons.mp h
      rw [place, if_neg hfirst.ne, if_neg hfirst.not_gt, ih hrest, List.cons_append]

/-- A written attribute is read behind the ones before it. -/
theorem readFrom?_writtenAttribute {a : String × String} {before : List (String × String)}
    (hname : isPlainName a.1 = true) (hvalue : isPlainText a.2 = true)
    (hbefore : ∀ b ∈ before, b.1 < a.1) (tag : String) (rest : List Char) :
    readFrom? tag before (writtenAttribute a ++ rest) = readFrom? tag (before ++ [a]) rest := by
  obtain ⟨name, value⟩ := a
  obtain ⟨c, s, hchars, -, hall⟩ := exists_cons_of_isPlainName hname
  obtain ⟨hfirst, hs⟩ := List.forall_mem_cons.mp hall
  have hnull : '\x00' ∉ value.toList.flatMap (writtenChar valueSpecials) :=
    not_mem_flatMap_writtenChar (by decide) (not_mem_of_isPlainText hvalue).1
  have hread := readAttribute?_quoted (c := c)
    (fun d hd => (endsName_of_isPlainNameChar (hs d hd)).2.2)
    (not_mem_flatMap_of_delimiter (by decide) (by decide : '"' ∈ valueSpecials) value.toList) rest
  rw [valueOf, shown_of_not_mem hnull, decode_flatMap_writtenChar (by decide), ← hchars,
    nameOf_of_isPlainName hname, String.ofList_toList] at hread
  have hwritten : writtenAttribute (name, value) ++ rest = ' ' :: c :: (s ++ '=' :: '"' ::
      (value.toList.flatMap (writtenChar valueSpecials) ++ '"' :: rest)) := by
    simp [writtenAttribute, hchars]
  rw [hwritten, readFrom?_space,
    readFrom?_attribute (endsName_of_isPlainNameChar hfirst).1 hread, place_of_lt hbefore]

theorem readFrom?_writtenAttributes {before attributes : List (String × String)}
    (hsorted : Sorted (before ++ attributes))
    (hplain : ∀ a ∈ attributes, isPlainName a.1 = true ∧ isPlainText a.2 = true) (tag : String)
    (rest : List Char) :
    readFrom? tag before (attributes.flatMap writtenAttribute ++ '>' :: rest) =
      some (⟨tag, before ++ attributes, false⟩, rest) := by
  induction attributes generalizing before with
  | nil =>
      rw [List.flatMap_nil, List.nil_append, List.append_nil, readFrom?.eq_def]
      rfl
  | cons a attributes ih =>
      obtain ⟨ha, hrest⟩ := List.forall_mem_cons.mp hplain
      have hbefore : ∀ b ∈ before, b.1 < a.1 := fun b hb =>
        (List.pairwise_append.mp hsorted).2.2 b hb a List.mem_cons_self
      rw [List.append_cons] at hsorted
      rw [List.flatMap_cons, List.append_assoc, readFrom?_writtenAttribute ha.1 ha.2 hbefore,
        ih hsorted hrest, List.append_assoc, List.singleton_append]

/-- A written start tag, from the name on. -/
theorem read?_written {name : String} {attributes : List (String × String)}
    (hname : isPlainName name = true) (hsorted : Sorted attributes)
    (hplain : ∀ a ∈ attributes, isPlainName a.1 = true ∧ isPlainText a.2 = true)
    (rest : List Char) :
    read? (name.toList ++ (attributes.flatMap writtenAttribute ++ '>' :: rest)) =
      some (⟨name, attributes, false⟩, rest) := by
  have htag : ∀ c ∈ name.toList, inTagName c = true := fun c hc =>
    (endsName_of_isPlainNameChar (isPlainNameChar_of_mem hname hc)).2.1
  have hend : ∃ c s, attributes.flatMap writtenAttribute ++ '>' :: rest = c :: s ∧
      inTagName c = false := by
    cases attributes with
    | nil => exact ⟨'>', rest, rfl, by decide⟩
    | cons a attributes => exact ⟨' ', _, rfl, by decide⟩
  obtain ⟨c, s, hbehind, hc⟩ := hend
  have hattributes : readFrom? name [] (attributes.flatMap writtenAttribute ++ '>' :: rest) =
      some (⟨name, attributes, false⟩, rest) :=
    readFrom?_writtenAttributes (List.nil_append attributes ▸ hsorted) hplain name rest
  rw [hbehind] at hattributes ⊢
  rw [read?, List.takeWhile_append_of_pos htag, List.dropWhile_append_of_pos htag,
    List.takeWhile_cons_of_neg (by simp [hc]), List.dropWhile_cons_of_neg (by simp [hc]),
    List.append_nil, nameOf_of_isPlainName hname, hattributes]

end Tag

/-! ## Trees -/

/-- The characters of an element around those of what is inside. -/
def Element.markup (e : Element) (inside : List Char) : List Char :=
  '<' :: (e.tag.toList ++ (e.attributes.flatMap Tag.writtenAttribute ++ '>' ::
    if isVoid e.tag then [] else inside ++ '<' :: '/' :: (e.tag.toList ++ ['>'])))

/-- The tags of an element around the pieces of what is inside. -/
def Element.pieces (e : Element) (inside : List Piece) : List Piece :=
  .start ⟨e.tag, e.attributes, false⟩ ::
    if isVoid e.tag then [] else inside ++ [.close e.tag]

namespace Document.Forest

/-- Whether a text stands first. -/
def opensWithText : Forest → Bool
  | cons _ (.text _) _ _ => true
  | _ => false

/-- Trees that their markup tells in full. -/
def Plain : Forest → Prop
  | nil => True
  | cons _ (.text s) below next =>
    s ≠ "" ∧ isPlainText s = true ∧ below = nil ∧ next.opensWithText = false ∧ next.Plain
  | cons _ (.element e) below next =>
    e.Plain ∧ (isVoid e.tag = true → below = nil) ∧ below.Plain ∧ next.Plain

/-- The characters of the markup of trees. -/
def markup : Forest → List Char
  | nil => []
  | cons _ (.text s) _ next => s.toList.flatMap (writtenChar textSpecials) ++ next.markup
  | cons _ (.element e) below next => e.markup below.markup ++ next.markup

/-- The tags and texts of trees. -/
def pieces : Forest → List Piece
  | nil => []
  | cons _ (.text s) _ next => .text s :: next.pieces
  | cons _ (.element e) below next => e.pieces below.pieces ++ next.pieces

end Document.Forest

namespace Piece

open Document

variable {rest : List Char}

theorem readAll_startTag {e : Element} (he : e.Plain) (rest : List Char) :
    readAll ('<' :: (e.tag.toList ++ (e.attributes.flatMap Tag.writtenAttribute ++ '>' :: rest))) =
      .start ⟨e.tag, e.attributes, false⟩ :: readAll rest := by
  have hread := Tag.read?_written he.name he.sorted he.attributes rest
  obtain ⟨c, s, hname, hc, -⟩ := exists_cons_of_isPlainName he.name
  have hcontent : withContent ⟨e.tag, e.attributes, false⟩ rest =
      ([.start ⟨e.tag, e.attributes, false⟩], rest) := by
    have hstructured := he.structured
    simp only [textElements, List.mem_cons, List.not_mem_nil, or_false, not_or] at hstructured
    simp [withContent, hstructured]
  rw [hname, List.cons_append] at hread ⊢
  have hmarkup := readMarkup?_letter hc
    (s ++ (e.attributes.flatMap Tag.writtenAttribute ++ '>' :: rest))
  rw [hread, Option.map_some] at hmarkup
  dsimp only at hmarkup
  rw [hcontent] at hmarkup
  exact readAll_of_markup (opensMarkup_letter hc _) hmarkup

theorem readMarkup?_slash {c : Char} (hc : isAsciiLetter c = true) (s : List Char) :
    readMarkup? ('/' :: c :: s) =
      (Tag.read? (c :: s)).map fun (t, rest) => ([.close t.name], rest) := by
  simp only [readMarkup?, hc, if_true]

theorem opensMarkup_endTag {name : String} (hname : isPlainName name = true) (rest : List Char) :
    opensMarkup ('/' :: (name.toList ++ rest)) = true := by
  obtain ⟨c, s, hchars, -⟩ := exists_cons_of_isPlainName hname
  rw [hchars]
  rfl

theorem readAll_endTag {name : String} (hname : isPlainName name = true) (rest : List Char) :
    readAll ('<' :: '/' :: (name.toList ++ '>' :: rest)) = .close name :: readAll rest := by
  have hread : Tag.read? (name.toList ++ '>' :: rest) = some (⟨name, [], false⟩, rest) :=
    Tag.read?_written hname List.Pairwise.nil (by simp) rest
  have hopens := opensMarkup_endTag hname ('>' :: rest)
  obtain ⟨c, s, hchars, hc, -⟩ := exists_cons_of_isPlainName hname
  rw [hchars, List.cons_append] at hread hopens ⊢
  have hmarkup := readMarkup?_slash hc (s ++ '>' :: rest)
  rw [hread, Option.map_some] at hmarkup
  exact readAll_of_markup hopens hmarkup

/-- A text ends where markup stands behind it. -/
theorem readAll_writtenText {s : String} (hempty : s ≠ "") (hrest : cutText rest = ([], rest)) :
    readAll (s.toList.flatMap (writtenChar textSpecials) ++ rest) = .text s :: readAll rest := by
  have hcut := cutText_append
    (not_mem_flatMap_of_delimiter (by decide) (by decide : '<' ∈ textSpecials) s.toList) rest
  rw [readAll_eq, hcut, hrest, List.append_nil, decode_flatMap_writtenChar (by decide)]
  simp [ofText, hempty]

/-- Trees that do not start with a text start with markup, or are none. -/
theorem cutText_markup {f : Forest} (hf : f.Plain) (htext : f.opensWithText = false)
    (hrest : cutText rest = ([], rest)) :
    cutText (f.markup ++ rest) = ([], f.markup ++ rest) := by
  cases f with
  | nil => exact hrest
  | cons id kind below next =>
      cases kind with
      | text s => cases htext
      | element e =>
          obtain ⟨c, s, hname, hc, -⟩ := exists_cons_of_isPlainName hf.1.name
          rw [Forest.markup, Element.markup, hname]
          exact cutText_of_opens (opensMarkup_letter hc _)

/-- An element is read as its tags around what is read inside, which ends where its end tag
opens. -/
theorem readAll_element {e : Element} (he : e.Plain) {inside : List Char} {pieces : List Piece}
    (hinside : ∀ rest, cutText rest = ([], rest) →
      readAll (inside ++ rest) = pieces ++ readAll rest) (rest : List Char) :
    readAll (e.markup inside ++ rest) = e.pieces pieces ++ readAll rest := by
  have hshape : ∀ content : List Char,
      '<' :: (e.tag.toList ++ (e.attributes.flatMap Tag.writtenAttribute ++ '>' :: content)) ++
        rest =
      '<' :: (e.tag.toList ++ (e.attributes.flatMap Tag.writtenAttribute ++ '>' ::
        (content ++ rest))) := by
    intro content
    simp
  rw [Element.markup, Element.pieces, hshape, readAll_startTag he, List.cons_append]
  split
  · rfl
  · have hend : cutText ('<' :: '/' :: (e.tag.toList ++ '>' :: rest)) =
        ([], '<' :: '/' :: (e.tag.toList ++ '>' :: rest)) :=
      cutText_of_opens (opensMarkup_endTag he.name _)
    have hread := hinside _ hend
    rw [readAll_endTag he.name] at hread
    simpa using hread

/-- What is written for plain trees is read as their pieces, in front of any markup. -/
theorem readAll_markup {f : Forest} (hf : f.Plain) (hrest : cutText rest = ([], rest)) :
    readAll (f.markup ++ rest) = f.pieces ++ readAll rest := by
  induction f generalizing rest with
  | nil => rfl
  | cons id kind below next ihb ihn =>
      cases kind with
      | text s =>
          obtain ⟨hempty, -, -, hnext, hf⟩ := hf
          rw [Forest.markup, Forest.pieces, List.append_assoc,
            readAll_writtenText hempty (cutText_markup hf hnext hrest), ihn hf hrest,
            List.cons_append]
      | element e =>
          obtain ⟨he, -, hbelow, hf⟩ := hf
          rw [Forest.markup, Forest.pieces, List.append_assoc,
            readAll_element he (fun _ hend => ihb hbelow hend), ihn hf hrest, List.append_assoc]

theorem not_mem_return_markup {f : Forest} (hf : f.Plain) : '\r' ∉ f.markup := by
  have hname : ∀ {name : String}, isPlainName name = true → '\r' ∉ name.toList :=
    fun h hmem => absurd (isPlainNameChar_of_mem h hmem) (by decide)
  have hwritten : ∀ {special : List Char} {s : String}, isPlainText s = true →
      '\r' ∉ s.toList.flatMap (writtenChar special) :=
    fun h => not_mem_flatMap_writtenChar (by decide) (not_mem_of_isPlainText h).2
  induction f with
  | nil => exact List.not_mem_nil
  | cons id kind below next ihb ihn =>
      cases kind with
      | text s =>
          obtain ⟨-, hs, -, -, hf⟩ := hf
          exact List.mem_append.not.mpr (not_or.mpr ⟨hwritten hs, ihn hf⟩)
      | element e =>
          obtain ⟨he, -, hbelow, hf⟩ := hf
          have hattributes : '\r' ∉ e.attributes.flatMap Tag.writtenAttribute := by
            intro hmem
            obtain ⟨a, ha, hmem⟩ := List.mem_flatMap.mp hmem
            obtain ⟨hn, hv⟩ := he.attributes a ha
            simp [Tag.writtenAttribute, hname hn, hwritten hv] at hmem
          have htag := hname he.name
          have hb := ihb hbelow
          have hn := ihn hf
          unfold Forest.markup Element.markup
          split <;> simp [htag, hattributes, hb, hn]

/-- The markup of plain trees is read as their pieces. -/
theorem ofMarkup_markup {f : Forest} (hf : f.Plain) {markup : String}
    (hmarkup : markup.toList = f.markup) : ofMarkup markup = f.pieces := by
  have hread : readAll (f.markup ++ []) = f.pieces ++ readAll [] := readAll_markup hf rfl
  rw [List.append_nil, readAll_nil, List.append_nil] at hread
  rw [ofMarkup, hmarkup, unifyLineEnds_of_not_mem (not_mem_return_markup hf), hread]

end Piece

/-! ## Written documents -/

namespace Document

variable {d : Document} {parent : Option NodeId} {f : Forest}

theorem toList_join_attributes (attributes : List (String × String)) :
    (String.join (attributes.map fun (name, value) =>
      " " ++ name ++ "=\"" ++ escapeAttribute value ++ "\"")).toList =
        attributes.flatMap Tag.writtenAttribute := by
  rw [String.toList_join, List.flatMap_map]
  refine List.flatMap_congr fun a _ => ?_
  simp [Tag.writtenAttribute, toList_escapeAttribute]

theorem toList_startTag (e : Element) : (startTag e).toList =
    '<' :: (e.tag.toList ++ (e.attributes.flatMap Tag.writtenAttribute ++ ['>'])) := by
  rw [startTag, String.toList_append, String.toList_append, String.toList_append,
    toList_join_attributes]
  simp

theorem holdsRawText_of_structured {id : NodeId} {e : Element} (h : d.element? id = some e)
    (he : e.tag ∉ textElements) : d.holdsRawText id = false := by
  simp only [textElements, List.mem_cons, List.not_mem_nil, or_false, not_or] at he
  simp [holdsRawText, tag?, h, he]

/-- What is written for the nodes of a plain forest is the markup of the forest, when the walk may
go as deep as the forest. -/
theorem Holds.toList_join_writeNode {bound : Nat} (h : d.Holds parent f) (hf : f.Plain)
    (hbound : f.height ≤ bound) :
    (String.join (f.roots.map (d.writeNode bound false))).toList = f.markup := by
  induction f generalizing parent bound with
  | nil => rfl
  | cons id kind below next ihb ihn =>
      obtain ⟨bound, rfl, hlow, hlevel⟩ := Forest.exists_bound_of_height_le hbound
      obtain ⟨hid, hbelow, hnext⟩ := h
      rw [Forest.roots, List.map_cons, String.join_cons, String.toList_append, writeNode,
        kind?_eq hid]
      cases kind with
      | text s =>
          obtain ⟨-, -, -, -, hf⟩ := hf
          rw [ihn hnext hf hlevel, Forest.markup, ← toList_escapeText]
          rfl
      | element e =>
          obtain ⟨he, -, hfb, hf⟩ := hf
          have hraw : d.holdsRawText id = false :=
            holdsRawText_of_structured (element?_eq_some_iff.mpr (kind?_eq hid)) he.structured
          have hinside := ihb hbelow hfb hlow
          rw [ihn hnext hf hlevel, Forest.markup]
          dsimp only
          rw [children_eq hid, hraw, Element.markup]
          split
          · simp [toList_startTag]
          · simp [toList_startTag, hinside]

/-- The markup of what is below an element is that of the forest there. -/
theorem Holds.toList_innerMarkup {top : NodeId} {e : Element}
    (h : d.Holds parent (.tree top (.element e) f))
    (hnodup : (Forest.tree top (.element e) f).ids.Nodup) (hf : f.Plain)
    (he : e.tag ∉ textElements) : (d.innerMarkup top).toList = f.markup := by
  have hheight : f.height ≤ d.depthBound := by
    have := h.height_le hnodup
    simp only [Forest.height, depthBound] at this ⊢
    omega
  rw [innerMarkup, holdsRawText_of_structured (element?_eq_some_iff.mpr (kind?_eq h.1)) he,
    children_eq h.1]
  exact h.2.1.toList_join_writeNode hf hheight

end Document

end LiveMarkup
