import LiveMarkup.Text.Search
set_option autoImplicit false

/-! # Character references

A reference stands for one character: by a name from a fixed table, or by its number. A semicolon
ends it; the oldest names do without. What starts like a reference and is none stands for itself. -/

namespace LiveMarkup.Reference

open Text

/-! ## Names -/

/-- Names that need no semicolon, with the numbers of their characters. -/
def openNames : List (String × Nat) :=
  [("QUOT", 0x22), ("quot", 0x22), ("AMP", 0x26), ("amp", 0x26), ("LT", 0x3C), ("lt", 0x3C),
    ("GT", 0x3E), ("gt", 0x3E), ("nbsp", 0xA0), ("iexcl", 0xA1), ("cent", 0xA2), ("pound", 0xA3),
    ("curren", 0xA4), ("yen", 0xA5), ("brvbar", 0xA6), ("sect", 0xA7), ("uml", 0xA8),
    ("COPY", 0xA9), ("copy", 0xA9), ("ordf", 0xAA), ("laquo", 0xAB), ("not", 0xAC), ("shy", 0xAD),
    ("REG", 0xAE), ("reg", 0xAE), ("macr", 0xAF), ("deg", 0xB0), ("plusmn", 0xB1), ("sup2", 0xB2),
    ("sup3", 0xB3), ("acute", 0xB4), ("micro", 0xB5), ("para", 0xB6), ("middot", 0xB7),
    ("cedil", 0xB8), ("sup1", 0xB9), ("ordm", 0xBA), ("raquo", 0xBB), ("frac14", 0xBC),
    ("frac12", 0xBD), ("frac34", 0xBE), ("iquest", 0xBF), ("Agrave", 0xC0), ("Aacute", 0xC1),
    ("Acirc", 0xC2), ("Atilde", 0xC3), ("Auml", 0xC4), ("Aring", 0xC5), ("AElig", 0xC6),
    ("Ccedil", 0xC7), ("Egrave", 0xC8), ("Eacute", 0xC9), ("Ecirc", 0xCA), ("Euml", 0xCB),
    ("Igrave", 0xCC), ("Iacute", 0xCD), ("Icirc", 0xCE), ("Iuml", 0xCF), ("ETH", 0xD0),
    ("Ntilde", 0xD1), ("Ograve", 0xD2), ("Oacute", 0xD3), ("Ocirc", 0xD4), ("Otilde", 0xD5),
    ("Ouml", 0xD6), ("times", 0xD7), ("Oslash", 0xD8), ("Ugrave", 0xD9), ("Uacute", 0xDA),
    ("Ucirc", 0xDB), ("Uuml", 0xDC), ("Yacute", 0xDD), ("THORN", 0xDE), ("szlig", 0xDF),
    ("agrave", 0xE0), ("aacute", 0xE1), ("acirc", 0xE2), ("atilde", 0xE3), ("auml", 0xE4),
    ("aring", 0xE5), ("aelig", 0xE6), ("ccedil", 0xE7), ("egrave", 0xE8), ("eacute", 0xE9),
    ("ecirc", 0xEA), ("euml", 0xEB), ("igrave", 0xEC), ("iacute", 0xED), ("icirc", 0xEE),
    ("iuml", 0xEF), ("eth", 0xF0), ("ntilde", 0xF1), ("ograve", 0xF2), ("oacute", 0xF3),
    ("ocirc", 0xF4), ("otilde", 0xF5), ("ouml", 0xF6), ("divide", 0xF7), ("oslash", 0xF8),
    ("ugrave", 0xF9), ("uacute", 0xFA), ("ucirc", 0xFB), ("uuml", 0xFC), ("yacute", 0xFD),
    ("thorn", 0xFE), ("yuml", 0xFF)]

/-- Names that count only with a semicolon. -/
def closedNames : List (String × Nat) :=
  [("apos", 0x27), ("OElig", 0x152), ("oelig", 0x153), ("Scaron", 0x160), ("scaron", 0x161),
    ("Yuml", 0x178), ("fnof", 0x192), ("circ", 0x2C6), ("tilde", 0x2DC), ("Alpha", 0x391),
    ("Beta", 0x392), ("Gamma", 0x393), ("Delta", 0x394), ("Epsilon", 0x395), ("Zeta", 0x396),
    ("Eta", 0x397), ("Theta", 0x398), ("Iota", 0x399), ("Kappa", 0x39A), ("Lambda", 0x39B),
    ("Mu", 0x39C), ("Nu", 0x39D), ("Xi", 0x39E), ("Omicron", 0x39F), ("Pi", 0x3A0),
    ("Rho", 0x3A1), ("Sigma", 0x3A3), ("Tau", 0x3A4), ("Upsilon", 0x3A5), ("Phi", 0x3A6),
    ("Chi", 0x3A7), ("Psi", 0x3A8), ("Omega", 0x3A9), ("alpha", 0x3B1), ("beta", 0x3B2),
    ("gamma", 0x3B3), ("delta", 0x3B4), ("epsilon", 0x3B5), ("zeta", 0x3B6), ("eta", 0x3B7),
    ("theta", 0x3B8), ("iota", 0x3B9), ("kappa", 0x3BA), ("lambda", 0x3BB), ("mu", 0x3BC),
    ("nu", 0x3BD), ("xi", 0x3BE), ("omicron", 0x3BF), ("pi", 0x3C0), ("rho", 0x3C1),
    ("sigmaf", 0x3C2), ("sigma", 0x3C3), ("tau", 0x3C4), ("upsilon", 0x3C5), ("phi", 0x3C6),
    ("chi", 0x3C7), ("psi", 0x3C8), ("omega", 0x3C9), ("thetasym", 0x3D1), ("upsih", 0x3D2),
    ("piv", 0x3D6), ("ensp", 0x2002), ("emsp", 0x2003), ("thinsp", 0x2009), ("zwnj", 0x200C),
    ("zwj", 0x200D), ("lrm", 0x200E), ("rlm", 0x200F), ("ndash", 0x2013), ("mdash", 0x2014),
    ("lsquo", 0x2018), ("rsquo", 0x2019), ("sbquo", 0x201A), ("ldquo", 0x201C), ("rdquo", 0x201D),
    ("bdquo", 0x201E), ("dagger", 0x2020), ("Dagger", 0x2021), ("bull", 0x2022),
    ("hellip", 0x2026), ("permil", 0x2030), ("prime", 0x2032), ("Prime", 0x2033),
    ("lsaquo", 0x2039), ("rsaquo", 0x203A), ("oline", 0x203E), ("frasl", 0x2044),
    ("euro", 0x20AC), ("image", 0x2111), ("weierp", 0x2118), ("real", 0x211C), ("trade", 0x2122),
    ("alefsym", 0x2135), ("larr", 0x2190), ("uarr", 0x2191), ("rarr", 0x2192), ("darr", 0x2193),
    ("harr", 0x2194), ("crarr", 0x21B5), ("lArr", 0x21D0), ("uArr", 0x21D1), ("rArr", 0x21D2),
    ("dArr", 0x21D3), ("hArr", 0x21D4), ("forall", 0x2200), ("part", 0x2202), ("exist", 0x2203),
    ("empty", 0x2205), ("nabla", 0x2207), ("isin", 0x2208), ("notin", 0x2209), ("ni", 0x220B),
    ("prod", 0x220F), ("sum", 0x2211), ("minus", 0x2212), ("lowast", 0x2217), ("radic", 0x221A),
    ("prop", 0x221D), ("infin", 0x221E), ("ang", 0x2220), ("and", 0x2227), ("or", 0x2228),
    ("cap", 0x2229), ("cup", 0x222A), ("int", 0x222B), ("there4", 0x2234), ("sim", 0x223C),
    ("cong", 0x2245), ("asymp", 0x2248), ("ne", 0x2260), ("equiv", 0x2261), ("le", 0x2264),
    ("ge", 0x2265), ("sub", 0x2282), ("sup", 0x2283), ("nsub", 0x2284), ("sube", 0x2286),
    ("supe", 0x2287), ("oplus", 0x2295), ("otimes", 0x2297), ("perp", 0x22A5), ("sdot", 0x22C5),
    ("lceil", 0x2308), ("rceil", 0x2309), ("lfloor", 0x230A), ("rfloor", 0x230B), ("loz", 0x25CA),
    ("spades", 0x2660), ("clubs", 0x2663), ("hearts", 0x2665), ("diams", 0x2666),
    ("lang", 0x27E8), ("rang", 0x27E9)]

/-- A name found at the start of a text. -/
structure Match where
  char : Char
  /-- Whether the semicolon is there. -/
  closed : Bool
  rest : List Char

/-- One name at the start of a text, together with its semicolon if that follows. -/
def matchName (needsSemicolon : Bool) (entry : String × Nat) (s : List Char) : Option Match :=
  match after? entry.1.toList s with
  | none => none
  | some (';' :: rest) => some ⟨Char.ofNat entry.2, true, rest⟩
  | some rest => if needsSemicolon then none else some ⟨Char.ofNat entry.2, false, rest⟩

/-- The match that takes more of the text; of equals, the first. -/
def longer (a b : Option Match) : Option Match :=
  match a, b with
  | some x, some y => if y.rest.length < x.rest.length then some y else some x
  | some x, none => some x
  | none, y => y

/-- The longest name at the start of a text. -/
def longest (s : List Char) : Option Match :=
  closedNames.foldl (fun best entry => longer best (matchName true entry s))
    (openNames.foldl (fun best entry => longer best (matchName false entry s)) none)

/-- A reference by name. In an attribute, a name without semicolon is text if it seems to go on or
to be a parameter. -/
def named? (inAttribute : Bool) (s : List Char) : Option (Char × List Char) :=
  (longest s).bind fun m =>
    match inAttribute && !m.closed, m.rest with
    | true, c :: _ =>
      if c = '=' ∨ isAsciiLetter c ∨ isAsciiDigit c then none else some (m.char, m.rest)
    | _, _ => some (m.char, m.rest)

/-! ## Numbers -/

/-- The characters that the numbers from 0x80 to 0x9F stand for; five of them keep their own. -/
def reassigned : List Nat :=
  [0x20AC, 0x81, 0x201A, 0x192, 0x201E, 0x2026, 0x2020, 0x2021, 0x2C6, 0x2030, 0x160, 0x2039, 0x152,
    0x8D, 0x17D, 0x8F, 0x90, 0x2018, 0x2019, 0x201C, 0x201D, 0x2022, 0x2013, 0x2014, 0x2DC, 0x2122,
    0x161, 0x203A, 0x153, 0x9D, 0x17E, 0x178]

/-- The character that stands where none can be shown. -/
def replacement : Char := '\uFFFD'

/-- The character with a number. -/
def charOf (n : Nat) : Char :=
  if n = 0 ∨ ¬n.isValidChar then replacement
  else if 0x80 ≤ n then Char.ofNat (reassigned.getD (n - 0x80) n)
  else Char.ofNat n

def digit? (base : Nat) (c : Char) : Option Nat := (hexDigit? c).filter (· < base)

/-- A number at the start of a text, with its semicolon if that follows. -/
def number? (base : Nat) (s : List Char) : Option (Char × List Char) :=
  match s.takeWhile fun c => (digit? base c).isSome with
  | [] => none
  | digits =>
    let n := digits.foldl (fun n c => base * n + (digit? base c).getD 0) 0
    match s.dropWhile fun c => (digit? base c).isSome with
    | ';' :: rest => some (charOf n, rest)
    | rest => some (charOf n, rest)

/-! ## Decoding -/

/-- A reference whose ampersand has been read. -/
def read? (inAttribute : Bool) : List Char → Option (Char × List Char)
  | '#' :: c :: s => if c = 'x' ∨ c = 'X' then number? 16 s else number? 10 (c :: s)
  | s => named? inAttribute s

theorem length_of_matchName {needs : Bool} {entry : String × Nat} {s : List Char} {m : Match}
    (h : matchName needs entry s = some m) : m.rest.length ≤ s.length := by
  unfold matchName at h
  split at h
  · simp at h
  · rename_i rest hr
    have := congrArg List.length (eq_append_of_after? hr)
    simp only [Option.some.injEq] at h
    subst h
    simp only [List.length_append, List.length_cons] at this ⊢
    omega
  · rename_i rest _ hr
    have := congrArg List.length (eq_append_of_after? hr)
    split at h
    · simp at h
    · simp only [Option.some.injEq] at h
      subst h
      simp only [List.length_append] at this ⊢
      omega

/-- What is left of a text after a match is no longer than the text. -/
def Fits (s : List Char) (m : Option Match) : Prop := ∀ x, m = some x → x.rest.length ≤ s.length

theorem fits_longer {s : List Char} {a b : Option Match} (ha : Fits s a) (hb : Fits s b) :
    Fits s (longer a b) := by
  unfold longer
  split
  · split
    · exact hb
    · exact ha
  · exact ha
  · exact hb

theorem fits_foldl {s : List Char} (needs : Bool) (entries : List (String × Nat))
    {best : Option Match} (h : Fits s best) :
    Fits s (entries.foldl (fun best entry => longer best (matchName needs entry s)) best) := by
  induction entries generalizing best with
  | nil => exact h
  | cons entry rest ih => exact ih (fits_longer h fun _ => length_of_matchName)

theorem fits_longest (s : List Char) : Fits s (longest s) :=
  fits_foldl true closedNames (fits_foldl false openNames fun _ h => by simp at h)

theorem length_of_named? {inAttribute : Bool} {s rest : List Char} {c : Char}
    (h : named? inAttribute s = some (c, rest)) : rest.length ≤ s.length := by
  obtain ⟨m, hm, h⟩ := Option.bind_eq_some_iff.1 h
  have hl := fits_longest s m hm
  split at h
  · split at h
    · simp at h
    · simp only [Option.some.injEq, Prod.mk.injEq] at h
      rw [← h.2]
      exact hl
  · simp only [Option.some.injEq, Prod.mk.injEq] at h
    rw [← h.2]
    exact hl

theorem length_of_number? {base : Nat} {s rest : List Char} {c : Char}
    (h : number? base s = some (c, rest)) : rest.length ≤ s.length := by
  unfold number? at h
  have hl := length_dropWhile_le (fun c => (digit? base c).isSome) s
  split at h
  · simp at h
  · dsimp only at h
    split at h
    · rename_i hd
      simp only [Option.some.injEq, Prod.mk.injEq] at h
      rw [hd] at hl
      rw [← h.2]
      simp only [List.length_cons] at hl
      omega
    · simp only [Option.some.injEq, Prod.mk.injEq] at h
      rw [← h.2]
      exact hl

theorem length_of_read? {inAttribute : Bool} {s rest : List Char} {c : Char}
    (h : read? inAttribute s = some (c, rest)) : rest.length ≤ s.length := by
  unfold read? at h
  split at h
  · split at h
    · have := length_of_number? h
      simp only [List.length_cons]
      omega
    · have := length_of_number? h
      simp only [List.length_cons] at this ⊢
      omega
  · exact length_of_named? h

/-- A text with its references replaced by what they stand for. -/
def decode (inAttribute : Bool) : List Char → List Char
  | [] => []
  | c :: s =>
    if c = '&' then
      match h : read? inAttribute s with
      | some (x, rest) =>
        have : rest.length ≤ s.length := length_of_read? h
        x :: decode inAttribute rest
      | none => c :: decode inAttribute s
    else c :: decode inAttribute s
termination_by s => s.length

end LiveMarkup.Reference
