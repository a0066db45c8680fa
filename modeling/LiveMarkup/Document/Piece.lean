import LiveMarkup.Document.Tag
set_option autoImplicit false

/-! # Pieces of markup

Markup is cut into texts, start tags and end tags. Comments and declarations are passed over. What a
text element holds is text up to its own end tag, whatever it looks like: with references in titles
and text fields, without them in scripts and styles. Every text is cut into pieces: nothing is
refused. -/

namespace LiveMarkup

open Text

inductive Piece where
  | text (s : String)
  | start (t : Tag)
  | close (name : String)
  deriving DecidableEq, Repr

namespace Piece

/-! ## Comments and declarations -/

/-- What follows the next `>`. -/
def afterAngle (s : List Char) : List Char := ((cut? ['>'] s).map Prod.snd).getD []

/-- What follows the end of a comment. -/
def afterDashes : List Char → List Char
  | '-' :: '-' :: '>' :: rest => rest
  | '-' :: '-' :: '!' :: '>' :: rest => rest
  | _ :: s => afterDashes s
  | [] => []

/-- What follows a comment whose start has been read. One that is closed at once is empty. -/
def afterComment : List Char → List Char
  | '>' :: rest => rest
  | '-' :: '>' :: rest => rest
  | s => afterDashes s

theorem length_afterAngle_le (s : List Char) : (afterAngle s).length ≤ s.length := by
  unfold afterAngle
  cases h : cut? ['>'] s with
  | none => simp
  | some cut =>
    exact length_le_of_cut? h

theorem length_afterDashes_le (s : List Char) : (afterDashes s).length ≤ s.length := by
  fun_induction afterDashes s <;> grind

theorem length_afterComment_le (s : List Char) : (afterComment s).length ≤ s.length := by
  unfold afterComment
  split
  · grind
  · grind
  · exact length_afterDashes_le s

/-! ## Text elements -/

/-- Whether a text starts with a word in any case and the end of a tag name after it. -/
def startsWithName : (word s : List Char) → Bool
  | w :: word, c :: s => w == c.toLower && startsWithName word s
  | [], c :: _ => Tag.endsName c
  | _, [] => false

/-- Whether an end tag of a given name starts a text. -/
def closes (name : String) : List Char → Bool
  | '<' :: '/' :: s => startsWithName name.toList s
  | _ => false

/-- Where a script may end: not inside of a script that is written in a comment. -/
inductive ScriptPart where
  | plain
  | comment
  | nested
  deriving DecidableEq, Repr

/-- The part that a script goes on in after the first character of a text. -/
def ScriptPart.next (part : ScriptPart) (s : List Char) : ScriptPart :=
  match part with
  | plain => if (after? "<!--".toList s).isSome then comment else plain
  | comment =>
    if (after? "-->".toList s).isSome then plain
    else
      match s with
      | '<' :: s => if startsWithName "script".toList s then nested else comment
      | _ => comment
  | nested =>
    if (after? "-->".toList s).isSome then plain
    else if closes "script" s then comment
    else nested

/-- The text of a script or style up to its end tag, and what follows. -/
def cutScript (name : String) : ScriptPart → List Char → List Char × List Char
  | _, [] => ([], [])
  | part, c :: s =>
    if part ≠ .nested && closes name (c :: s) then ([], c :: s)
    else
      let (inside, rest) := cutScript name (part.next (c :: s)) s
      (c :: inside, rest)

/-- The text of a title or text field up to its end tag, and what follows. -/
def cutField (name : String) : List Char → List Char × List Char
  | [] => ([], [])
  | c :: s =>
    if closes name (c :: s) then ([], c :: s)
    else
      let (inside, rest) := cutField name s
      (c :: inside, rest)

theorem length_cutScript_le (name : String) (part : ScriptPart) (s : List Char) :
    (cutScript name part s).2.length ≤ s.length := by
  fun_induction cutScript name part s with
  | case1 => simp
  | case2 => simp
  | case3 part c s h inside rest heq ih => simp_all; omega

theorem length_cutField_le (name : String) (s : List Char) :
    (cutField name s).2.length ≤ s.length := by
  fun_induction cutField name s with
  | case1 => simp
  | case2 => simp
  | case3 c s h inside rest heq ih => simp_all; omega

/-- A text, unless it is empty. -/
def ofText (s : List Char) : List Piece := if s.isEmpty then [] else [.text (String.ofList s)]

/-- A start tag together with the text that its element is made of, if it is a text element. -/
def withContent (t : Tag) (s : List Char) : List Piece × List Char :=
  if t.selfClosing || isVoid t.name then ([.start t], s)
  else if t.name = "script" ∨ t.name = "style" then
    let (inside, rest) := cutScript t.name .plain s
    (.start t :: ofText (Tag.shown inside), rest)
  else if t.name = "textarea" ∨ t.name = "title" then
    let (inside, rest) := cutField t.name s
    (.start t :: ofText (Reference.decode false (Tag.shown inside)), rest)
  else ([.start t], s)

theorem length_withContent_le (t : Tag) (s : List Char) :
    (withContent t s).2.length ≤ s.length := by
  unfold withContent
  split
  · simp
  · split
    · exact length_cutScript_le t.name .plain s
    · split
      · exact length_cutField_le t.name s
      · simp

/-! ## Markup and text -/

/-- Whether an angle bracket before this text starts markup. -/
def opensMarkup : List Char → Bool
  | ['/'] => false
  | c :: _ => isAsciiLetter c || c == '/' || c == '!' || c == '?'
  | [] => false

/-- The text up to the next markup, and the rest. -/
def cutText : List Char → List Char × List Char
  | [] => ([], [])
  | c :: s =>
    if c == '<' && opensMarkup s then ([], c :: s)
    else
      let (inside, rest) := cutText s
      (c :: inside, rest)

/-- What one angle bracket starts, and the rest; `none` if the text ends in a tag. -/
def readMarkup? : List Char → Option (List Piece × List Char)
  | '!' :: '-' :: '-' :: s => some ([], afterComment s)
  | '/' :: c :: s =>
    if isAsciiLetter c then (Tag.read? (c :: s)).map fun (t, rest) => ([.close t.name], rest)
    else some ([], afterAngle (c :: s))
  | c :: s =>
    if isAsciiLetter c then (Tag.read? (c :: s)).map fun (t, rest) => withContent t rest
    else some ([], afterAngle s)
  | [] => some ([], [])

theorem length_cutText_le (s : List Char) : (cutText s).2.length ≤ s.length := by
  fun_induction cutText s with
  | case1 => simp
  | case2 => simp
  | case3 c s h inside rest heq ih => simp_all; omega

theorem length_of_readMarkup? {s rest : List Char} {found : List Piece}
    (h : readMarkup? s = some (found, rest)) : rest.length ≤ s.length := by
  unfold readMarkup? at h
  split at h
  · rename_i s
    have := length_afterComment_le s
    simp only [Option.some.injEq, Prod.mk.injEq] at h
    simp only [List.length_cons, ← h.2]
    omega
  · rename_i c s
    split at h
    · obtain ⟨⟨t, r⟩, ht, h⟩ := Option.map_eq_some_iff.1 h
      have := Tag.length_of_read? ht
      simp only [Prod.mk.injEq] at h
      simp only [List.length_cons, ← h.2] at this ⊢
      omega
    · have := length_afterAngle_le (c :: s)
      simp only [Option.some.injEq, Prod.mk.injEq] at h
      simp only [List.length_cons, ← h.2] at this ⊢
      omega
  · rename_i c s _ _
    split at h
    · obtain ⟨⟨t, r⟩, ht, h⟩ := Option.map_eq_some_iff.1 h
      have := Tag.length_of_read? ht
      have hw := length_withContent_le t r
      dsimp only at h
      rw [h] at hw
      dsimp only at hw
      omega
    · have := length_afterAngle_le s
      simp only [Option.some.injEq, Prod.mk.injEq] at h
      simp only [List.length_cons, ← h.2] at this ⊢
      omega
  · simp only [Option.some.injEq, Prod.mk.injEq] at h
    simp [← h.2]

/-- The pieces of a text whose line ends are line feeds. -/
def readAll (s : List Char) : List Piece :=
  let before := ofText (Reference.decode false (cutText s).1)
  match h : (cutText s).2 with
  | [] => before
  | _ :: markup =>
    match hm : readMarkup? markup with
    | none => before
    | some (found, rest) =>
      have : rest.length < s.length := by
        have hc := length_cutText_le s
        have := length_of_readMarkup? hm
        rw [h, List.length_cons] at hc
        omega
      before ++ found ++ readAll rest
termination_by s.length

/-- Every kind of line end as a line feed. -/
def unifyLineEnds : List Char → List Char
  | '\r' :: '\n' :: s => '\n' :: unifyLineEnds s
  | '\r' :: s => '\n' :: unifyLineEnds s
  | c :: s => c :: unifyLineEnds s
  | [] => []

/-- The pieces of a markup text, in order. -/
def ofMarkup (markup : String) : List Piece := readAll (unifyLineEnds markup.toList)

end Piece

end LiveMarkup
