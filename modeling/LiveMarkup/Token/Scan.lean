import LiveMarkup.Token
import LiveMarkup.Directive
import LiveMarkup.Decimal.Read
set_option autoImplicit false

/-! # Tokens of a text

Each step takes the longest token that starts where the reader stands, after skipping spaces, tabs
and line ends. Where no token starts, or the token's text has no value, reading stops with the
characters at fault. -/

namespace LiveMarkup

open Text

namespace Token

/-- The characters that separate tokens. -/
def isGap (c : Char) : Bool := c == ' ' || c == '\t' || c == '\r' || c == '\n'

def isNameStart (c : Char) : Bool := isAsciiLetter c || c == '_' || c == '$'

/-- One step of reading: the characters taken, the token they make if they make one, the rest. -/
structure Step where
  token? : Option Token
  text : List Char
  rest : List Char

/-! ## Names and numbers -/

/-- A keyword wins over the name of the same length. -/
def ofName (name : List Char) : Token :=
  match Keyword.all.find? fun k => k.text.toList = name with
  | some k => .keyword k
  | none => .ident (String.ofList name)

/-- A whole number, if 64 bits hold it. -/
def ofNumeral? (digits : List Char) : Option Token :=
  let n := Decimal.numeral digits
  if n < 1 <<< 63 then some (.int (Int64.ofNat n)) else none

/-- A complete exponent at the start of a text: mark, optional sign and digits. -/
def takeExponent (s : List Char) : List Char × List Char :=
  match s with
  | c :: rest =>
    if c = 'e' ∨ c = 'E' then
      let signed := Decimal.signRun rest
      let run := Decimal.digitRun signed.2
      if run.1.isEmpty then ([], s) else (c :: signed.1 ++ run.1, run.2)
    else ([], s)
  | [] => ([], [])

/-- A number: digits, and a fraction if a digit follows the point, and then an exponent if it is
complete. -/
def stepNumber (s : List Char) : Step :=
  let (whole, rest) := Decimal.digitRun s
  match rest with
  | '.' :: tail =>
    let (places, rest') := Decimal.digitRun tail
    if places.isEmpty then ⟨ofNumeral? whole, whole, rest⟩
    else
      let (exponent, rest'') := takeExponent rest'
      let text := whole ++ '.' :: places ++ exponent
      ⟨(Decimal.unsigned? text).map .float, text, rest''⟩
  | _ => ⟨ofNumeral? whole, whole, rest⟩

/-! ## Strings -/

/-- The complete units after an opening quote, up to and including the closing one. A unit is one
character, or a backslash with any character but a line feed. The flag tells whether the string was
closed. -/
def takeString (quote : Char) : List Char → List Char × Bool × List Char
  | [] => ([], false, [])
  | '\\' :: c :: s =>
    if c = '\n' then ([], false, '\\' :: c :: s)
    else
      let (text, closed, rest) := takeString quote s
      ('\\' :: c :: text, closed, rest)
  | ['\\'] => ([], false, ['\\'])
  | c :: s =>
    if c = quote then ([c], true, s)
    else
      let (text, closed, rest) := takeString quote s
      (c :: text, closed, rest)

/-- The number a hexadecimal text denotes; a leading plus sign is allowed. -/
def hexNumber? (s : List Char) : Option Nat :=
  let digits :=
    match s with
    | '+' :: rest => rest
    | s => s
  if digits.isEmpty then none
  else digits.foldlM (fun n c => (hexDigit? c).map (16 * n + ·)) 0

/-- The character with a given code point, if there is one. -/
def scalar? (n : Nat) : Option Char := if n.isValidChar then some (Char.ofNat n) else none

/-- Resolves the escapes of a string's inside. A `\u` escape takes up to four characters, which must
name a character. -/
def unescape? (s : List Char) : Option (List Char) :=
  match s with
  | [] => some []
  | ['\\'] => none
  | '\\' :: 'n' :: rest => (unescape? rest).map ('\n' :: ·)
  | '\\' :: 't' :: rest => (unescape? rest).map ('\t' :: ·)
  | '\\' :: 'r' :: rest => (unescape? rest).map ('\r' :: ·)
  | '\\' :: '0' :: rest => (unescape? rest).map ('\x00' :: ·)
  | '\\' :: 'u' :: rest =>
    match (hexNumber? (rest.take 4)).bind scalar? with
    | some c => (unescape? (rest.drop 4)).map (c :: ·)
    | none => none
  | '\\' :: c :: rest => (unescape? rest).map (c :: ·)
  | c :: rest => (unescape? rest).map (c :: ·)
termination_by s.length
decreasing_by all_goals (simp only [List.length_cons, List.length_drop]; omega)

def stepString (quote : Char) (s : List Char) : Step :=
  let (text, closed, rest) := takeString quote s
  let token? :=
    if closed then (unescape? text.dropLast).map fun t => .str (String.ofList t) else none
  ⟨token?, quote :: text, rest⟩

/-! ## Marks, and the choice by the first character -/

/-- The longest mark at the start of a text. -/
def punct? (s : List Char) : Option (Punct × List Char) :=
  Punct.all.findSome? fun p => (after? p.text.toList s).map fun rest => (p, rest)

/-- The step at a character and what follows it. -/
def step (c : Char) (s : List Char) : Step :=
  if isNameStart c then
    let name := c :: s.takeWhile isNameChar
    ⟨some (ofName name), name, s.dropWhile isNameChar⟩
  else if isAsciiDigit c then stepNumber (c :: s)
  else if c = '"' ∨ c = '\'' then stepString c s
  else
    match punct? (c :: s) with
    | some (p, rest) => ⟨some (.punct p), p.text.toList, rest⟩
    | none => ⟨none, [c], s⟩

/-! ## Every step goes forward -/

theorem takeExponent_length_le (s : List Char) : (takeExponent s).2.length ≤ s.length := by
  unfold takeExponent
  split
  · rename_i c rest
    have hs := Decimal.signRun_length_le rest
    have hd := Decimal.digitRun_length_le (Decimal.signRun rest).2
    split
    · dsimp only
      split
      · exact Nat.le_refl _
      · simp only [List.length_cons]
        omega
    · exact Nat.le_refl _
  · exact Nat.le_refl _

theorem stepNumber_shorter (c : Char) (s : List Char) (h : isAsciiDigit c = true) :
    (stepNumber (c :: s)).rest.length ≤ s.length := by
  have hs := length_dropWhile_le isAsciiDigit s
  have he (r : List Char) := takeExponent_length_le r
  have hr (r : List Char) := length_dropWhile_le isAsciiDigit r
  have hw : (c :: s).dropWhile isAsciiDigit = s.dropWhile isAsciiDigit := by simp [h]
  unfold stepNumber Decimal.digitRun
  simp only [hw]
  split
  · rename_i tail htail
    rw [htail] at hs
    simp only [List.length_cons] at hs
    split
    · simp only [htail, List.length_cons]
      omega
    · exact Nat.le_trans (he _) (Nat.le_trans (hr tail) (by omega))
  · exact hs

theorem takeString_length_le (quote : Char) (s : List Char) :
    (takeString quote s).2.2.length ≤ s.length := by
  fun_induction takeString quote s <;> simp_all <;> omega

theorem punct?_shorter {c : Char} {s rest : List Char} {p : Punct}
    (h : punct? (c :: s) = some (p, rest)) : rest.length ≤ s.length := by
  obtain ⟨q, _, hq⟩ := List.exists_of_findSome?_eq_some h
  obtain ⟨r, hr, heq⟩ := Option.map_eq_some_iff.1 hq
  simp only [Prod.mk.injEq] at heq
  obtain ⟨rfl, rfl⟩ := heq
  have hlen := congrArg List.length (eq_append_of_after? hr)
  have hpos : 0 < q.text.toList.length := by cases q <;> decide
  simp only [List.length_cons, List.length_append] at hlen
  omega

theorem step_shorter (c : Char) (s : List Char) : (step c s).rest.length ≤ s.length := by
  unfold step
  split
  · exact length_dropWhile_le _ s
  · split
    · exact stepNumber_shorter c s ‹_›
    · split
      · exact takeString_length_le c s
      · split
        · exact punct?_shorter ‹_›
        · exact Nat.le_refl _

/-- The tokens of the rest of a text that starts at a byte offset. -/
def scanFrom (offset base : Nat) (s : List Char) : Except LexError (List Lexeme) :=
  match s with
  | [] => .ok []
  | c :: s =>
    if isGap c then scanFrom (offset + c.utf8Size) base s
    else
      let read := step c s
      let stop := offset + byteLength read.text
      let span := (Span.clamped offset stop).shift base
      match read.token? with
      | none => .error (.invalidToken (String.ofList read.text) span)
      | some token => (scanFrom stop base read.rest).map (⟨token, span⟩ :: ·)
termination_by s.length
decreasing_by
  · simp
  · exact Nat.lt_succ_of_le (step_shorter c s)

/-- The tokens of a directive content that starts at byte `base` of its template. -/
def scan (content : List Char) (base : Nat) : Except LexError (List Lexeme) :=
  scanFrom 0 base content

end Token

end LiveMarkup
