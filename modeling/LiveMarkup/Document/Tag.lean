import LiveMarkup.Document.Reference
set_option autoImplicit false

/-! # Tags

A tag runs from its name to the next `>` outside of quotes. Names come in lower case, values with
their references decoded, and the attributes in the order of their names; of two with one name the
first counts. A tag that the text ends in is no tag. -/

namespace LiveMarkup

open Text

structure Tag where
  name : String
  attributes : List (String × String)
  /-- Whether a slash stands before the end. -/
  selfClosing : Bool
  deriving DecidableEq, Repr

/-- Elements that have no children and no end tag. -/
def voidElements : List String :=
  ["area", "base", "br", "col", "embed", "hr", "img", "input", "link", "meta", "param", "source",
    "track", "wbr"]

def isVoid (tag : String) : Bool := voidElements.contains tag

namespace Tag

/-- What separates attributes. Carriage returns have become line feeds by then. -/
def isGap (c : Char) : Bool := c == ' ' || c == '\t' || c == '\n' || c == '\x0c'

def endsName (c : Char) : Bool := isGap c || c == '/' || c == '>'

def inTagName (c : Char) : Bool := !endsName c

def inAttributeName (c : Char) : Bool := !(endsName c || c == '=')

/-- What a value without quotes is made of. -/
def inBareValue (c : Char) : Bool := !(isGap c || c == '>')

/-- A null character cannot be shown. -/
def shown (s : List Char) : List Char :=
  s.map fun c => if c = '\x00' then Reference.replacement else c

/-- A name as it is compared. -/
def nameOf (s : List Char) : String := String.ofList (shown (s.map Char.toLower))

def valueOf (s : List Char) : String := String.ofList (Reference.decode true (shown s))

/-- Adds an attribute at its place in the order of names, unless there is one of its name. -/
def place (name value : String) : List (String × String) → List (String × String)
  | [] => [(name, value)]
  | (n, v) :: rest =>
    if n = name then (n, v) :: rest
    else if name < n then (name, value) :: (n, v) :: rest
    else (n, v) :: place name value rest

/-- The value behind an equals sign, without quotes if it stands in quotes, and the rest; `none` if
its quote is not closed. -/
def readValue? (s : List Char) : Option (List Char × List Char) :=
  match s.dropWhile isGap with
  | [] => some ([], [])
  | q :: s =>
    if q = '"' ∨ q = '\'' then cut? [q] s
    else some ((q :: s).takeWhile inBareValue, (q :: s).dropWhile inBareValue)

/-- An attribute, whose first character belongs to its name whatever it is. -/
def readAttribute? (c : Char) (s : List Char) : Option ((String × String) × List Char) :=
  let name := nameOf (c :: s.takeWhile inAttributeName)
  match (s.dropWhile inAttributeName).dropWhile isGap with
  | '=' :: rest => (readValue? rest).map fun (value, rest) => ((name, valueOf value), rest)
  | rest => some ((name, ""), rest)

theorem length_of_readValue? {s value rest : List Char} (h : readValue? s = some (value, rest)) :
    rest.length ≤ s.length := by
  unfold readValue? at h
  have hl := length_dropWhile_le isGap s
  split at h
  · simp only [Option.some.injEq, Prod.mk.injEq] at h
    simp [← h.2]
  · rename_i q r hr
    rw [hr] at hl
    split at h
    · have := length_le_of_cut? h
      simp only [List.length_cons] at hl
      omega
    · have hs := length_dropWhile_le inBareValue (q :: r)
      simp only [Option.some.injEq, Prod.mk.injEq] at h
      rw [h.2] at hs
      omega

theorem length_of_readAttribute? {c : Char} {s rest : List Char} {a : String × String}
    (h : readAttribute? c s = some (a, rest)) : rest.length ≤ s.length := by
  unfold readAttribute? at h
  have hs := length_dropWhile_le inAttributeName s
  have hl := length_dropWhile_le isGap (s.dropWhile inAttributeName)
  dsimp only at h
  split at h
  · rename_i r hr
    rw [hr] at hl
    obtain ⟨⟨value, r'⟩, hv, h⟩ := Option.map_eq_some_iff.1 h
    simp only [Prod.mk.injEq] at h
    have := length_of_readValue? hv
    simp only [List.length_cons] at hl
    rw [← h.2]
    omega
  · simp only [Option.some.injEq, Prod.mk.injEq] at h
    rw [← h.2]
    omega

/-- Goes on with a tag whose name and first attributes have been read. -/
def readFrom? (name : String) (attributes : List (String × String)) :
    List Char → Option (Tag × List Char)
  | [] => none
  | c :: s =>
    if c = '>' then some (⟨name, attributes, false⟩, s)
    else if c = '/' then
      match s with
      | '>' :: rest => some (⟨name, attributes, true⟩, rest)
      | s => readFrom? name attributes s
    else if isGap c then readFrom? name attributes s
    else
      match h : readAttribute? c s with
      | none => none
      | some (a, rest) =>
        have : rest.length ≤ s.length := length_of_readAttribute? h
        readFrom? name (place a.1 a.2 attributes) rest
termination_by s => s.length

/-- Reads a tag from its name on. -/
def read? (s : List Char) : Option (Tag × List Char) :=
  readFrom? (nameOf (s.takeWhile inTagName)) [] (s.dropWhile inTagName)

theorem length_of_readFrom? {name : String} {attributes : List (String × String)}
    {s rest : List Char} {t : Tag} (h : readFrom? name attributes s = some (t, rest)) :
    rest.length < s.length := by
  fun_induction readFrom? name attributes s with
  | case1 => simp at h
  | case2 =>
    simp only [Option.some.injEq, Prod.mk.injEq] at h
    simp [← h.2]
  | case3 =>
    simp only [Option.some.injEq, Prod.mk.injEq] at h
    simp only [List.length_cons, ← h.2]
    omega
  | case4 _ _ _ _ ih => have := ih h; simp only [List.length_cons]; omega
  | case5 _ _ _ _ _ _ ih => have := ih h; simp only [List.length_cons]; omega
  | case6 => simp at h
  | case7 _ _ _ _ _ _ _ _ _ _ ih => have := ih h; simp only [List.length_cons]; omega

theorem length_of_read? {s rest : List Char} {t : Tag} (h : read? s = some (t, rest)) :
    rest.length < s.length := by
  have := length_of_readFrom? h
  have := length_dropWhile_le inTagName s
  omega

end Tag

end LiveMarkup
