import LiveMarkup.Token.Scan
import Mathlib.Data.List.Infix
import Mathlib.Data.List.Nodup
set_option autoImplicit false

/-! # The forms of tokens

What a token may be written as, said without a reader: keywords, whole and decimal numbers, strings
between quotes, names, operators and punctuation (`Token.Form`). A form says which texts have it and
which token such a text makes, if it makes one. The first character tells the family of a form, and
no text has two forms, but for the keywords, which read like names (`Form.eq_of_matches`). So there is
one longest match at most at each place of a source, with the form of a keyword rather than that of a
name (`Longest.unique`). -/

namespace LiveMarkup.Token

open Text

/-! ## Strings -/

/-- The two marks that a string can stand between. -/
inductive Quote where
  | double
  | single
  deriving DecidableEq, Repr

def Quote.char : Quote → Char
  | double => '"'
  | single => '\''

theorem Quote.char_injective {q q' : Quote} (h : q.char = q'.char) : q = q' := by
  cases q <;> cases q' <;> first | rfl | exact absurd h (by decide)

/-- What the inside of a string is made of: a character by itself, or a backslash and a character
behind it. -/
inductive StringUnit where
  | plain (c : Char)
  | escaped (c : Char)
  deriving DecidableEq, Repr

namespace StringUnit

def text : StringUnit → List Char
  | plain c => [c]
  | escaped c => ['\\', c]

/-- The units that may stand between two quotes. -/
def Fits (q : Quote) : StringUnit → Prop
  | plain c => c ≠ q.char ∧ c ≠ '\\'
  | escaped c => c ≠ '\n'

instance (q : Quote) : (u : StringUnit) → Decidable (u.Fits q)
  | plain c => inferInstanceAs (Decidable (c ≠ q.char ∧ c ≠ '\\'))
  | escaped c => inferInstanceAs (Decidable (c ≠ '\n'))

end StringUnit

/-- The inside of a string. -/
def inside (units : List StringUnit) : List Char := units.flatMap StringUnit.text

@[simp] theorem inside_nil : inside [] = [] := rfl

@[simp] theorem inside_cons (u : StringUnit) (units : List StringUnit) :
    inside (u :: units) = u.text ++ inside units := rfl

/-- Some units between two quotes. -/
def Quote.around (q : Quote) (units : List StringUnit) : List Char :=
  q.char :: (inside units ++ [q.char])

/-! ## Numbers -/

/-- One or more decimal digits. -/
def Digits (t : List Char) : Prop := t ≠ [] ∧ ∀ c ∈ t, isAsciiDigit c = true

/-- A sign that may be missing. -/
inductive Sign : List Char → Prop
  | none : Sign []
  | plus : Sign ['+']
  | minus : Sign ['-']

/-- An exponent: a mark, a sign that may be missing, and digits. -/
inductive Exponent : List Char → Prop
  | intro {mark : Char} {sign digits : List Char} : mark = 'e' ∨ mark = 'E' → Sign sign →
      Digits digits → Exponent (mark :: (sign ++ digits))

/-! ## Forms -/

inductive Form where
  | keyword (k : Keyword)
  | whole
  | decimal
  | string (q : Quote)
  | name
  | punct (p : Punct)

namespace Form

/-- The texts that have a form. -/
def Matches : Form → List Char → Prop
  | keyword k, t => t = k.text.toList
  | whole, t => Digits t
  | decimal, t => ∃ whole places exponent, Digits whole ∧ Digits places ∧
      (exponent = [] ∨ Exponent exponent) ∧ t = whole ++ '.' :: (places ++ exponent)
  | string q, t => ∃ units, (∀ u ∈ units, StringUnit.Fits q u) ∧ t = q.around units
  | name, t => ∃ c rest, isNameStart c = true ∧ (∀ d ∈ rest, isNameChar d = true) ∧ t = c :: rest
  | punct p, t => t = p.text.toList

/-- The token that a text of a form makes. A number must have a value, and the escapes of a string
must name characters. -/
def value? : Form → List Char → Option Token
  | keyword k, _ => some (.keyword k)
  | whole, t => ofNumeral? t
  | decimal, t => (Decimal.unsigned? t).map .float
  | string _, t => (unescape? t.tail.dropLast).map fun s => .str (String.ofList s)
  | name, t => some (.ident (String.ofList t))
  | punct p, _ => some (.punct p)

end Form

theorem exists_int_of_ofNumeral? {digits : List Char} {t : Token} (h : ofNumeral? digits = some t) :
    ∃ n, t = .int n := by
  unfold ofNumeral? at h
  dsimp only at h
  split at h
  · exact ⟨_, (Option.some.inj h).symm⟩
  · cases h

/-! ## Families -/

/-- What the first character of a token decides. -/
inductive Family where
  | word
  | number
  | quoted
  | mark
  deriving DecidableEq, Repr

def Family.of (c : Char) : Family :=
  if isNameStart c then word
  else if isAsciiDigit c then number
  else if c = '"' ∨ c = '\'' then quoted
  else mark

def Form.family : Form → Family
  | keyword _ => .word
  | whole => .number
  | decimal => .number
  | string _ => .quoted
  | name => .word
  | punct _ => .mark

theorem isNameStart_of_isAsciiDigit {c : Char} (h : isAsciiDigit c = true) :
    isNameStart c = false := by
  rw [Bool.eq_false_iff]
  intro hname
  simp only [isAsciiDigit, Bool.and_eq_true, decide_eq_true_eq, Char.le_def,
    UInt32.le_iff_toNat_le] at h
  change 48 ≤ c.val.toNat ∧ c.val.toNat ≤ 57 at h
  simp only [isNameStart, isAsciiLetter, Bool.or_eq_true, Bool.and_eq_true, decide_eq_true_eq,
    beq_iff_eq, Char.le_def, UInt32.le_iff_toNat_le] at hname
  obtain (((hlower | hupper) | rfl) | rfl) := hname
  · change 97 ≤ c.val.toNat ∧ c.val.toNat ≤ 122 at hlower
    omega
  · change 65 ≤ c.val.toNat ∧ c.val.toNat ≤ 90 at hupper
    omega
  · exact absurd h (by decide)
  · exact absurd h (by decide)

theorem Family.of_digit {c : Char} (h : isAsciiDigit c = true) : Family.of c = .number := by
  rw [Family.of, isNameStart_of_isAsciiDigit h, h]
  rfl

theorem Digits.of_cons {c : Char} {t : List Char} (h : Digits (c :: t)) : isAsciiDigit c = true :=
  h.2 c List.mem_cons_self

/-- The first character of a text tells the family of its form. -/
theorem Form.Matches.family {f : Form} {c : Char} {t : List Char} (h : f.Matches (c :: t)) :
    f.family = Family.of c := by
  cases f with
  | keyword k =>
      have hhead : k.text.toList.head? = some c := by rw [← show c :: t = k.text.toList from h]; rfl
      have hword : k.text.toList.head?.map Family.of = some .word := by cases k <;> decide
      rw [hhead] at hword
      exact (Option.some.inj hword).symm
  | whole => exact (Family.of_digit (Digits.of_cons h)).symm
  | decimal =>
      obtain ⟨whole, places, exponent, hwhole, -, -, heq⟩ := h
      obtain ⟨d, whole, rfl⟩ := List.exists_cons_of_ne_nil hwhole.1
      obtain ⟨rfl, -⟩ := List.cons.inj heq
      exact (Family.of_digit hwhole.of_cons).symm
  | string q =>
      obtain ⟨units, -, heq⟩ := h
      obtain ⟨rfl, -⟩ := List.cons.inj heq
      cases q <;> decide
  | name =>
      obtain ⟨d, rest, hd, -, heq⟩ := h
      obtain ⟨rfl, -⟩ := List.cons.inj heq
      rw [Family.of, hd]
      rfl
  | punct p =>
      have hhead : p.text.toList.head? = some c := by rw [← show c :: t = p.text.toList from h]; rfl
      have hmark : p.text.toList.head?.map Family.of = some .mark := by cases p <;> decide
      rw [hhead] at hmark
      exact (Option.some.inj hmark).symm

theorem Form.Matches.ne_nil {f : Form} {t : List Char} (h : f.Matches t) : t ≠ [] := by
  rintro rfl
  cases f with
  | keyword k => cases k <;> cases h
  | whole => exact h.1 rfl
  | decimal =>
      obtain ⟨whole, places, exponent, -, -, -, heq⟩ := h
      simp at heq
  | string q =>
      obtain ⟨units, -, heq⟩ := h
      cases heq
  | name =>
      obtain ⟨c, rest, -, -, heq⟩ := h
      cases heq
  | punct p => cases p <;> cases h

/-! ## One form for each text -/

theorem Keyword.text_injective {k k' : Keyword} (h : k.text = k'.text) : k = k' := by
  cases k <;> cases k' <;> first | rfl | exact absurd h (by decide)

theorem Punct.text_injective {p p' : Punct} (h : p.text = p'.text) : p = p' := by
  have hnodup : (Punct.all.map Punct.text).Nodup := by decide +kernel
  exact List.inj_on_of_nodup_map hnodup (Punct.mem_all p) (Punct.mem_all p') h

theorem not_digits_of_point {whole rest : List Char} : ¬Digits (whole ++ '.' :: rest) := by
  intro h
  exact absurd (h.2 '.' (by simp)) (by decide)

/-- A text has one form, but for a keyword, which has that of a name too. -/
theorem Form.eq_of_matches {f g : Form} {t : List Char} (hf : f.Matches t) (hg : g.Matches t)
    (hf' : f = .name → ∀ k : Keyword, t ≠ k.text.toList)
    (hg' : g = .name → ∀ k : Keyword, t ≠ k.text.toList) : f = g := by
  obtain ⟨c, t, rfl⟩ := List.exists_cons_of_ne_nil hf.ne_nil
  have hfamily : f.family = g.family := hf.family.trans hg.family.symm
  cases f <;> cases g <;> simp only [Form.family, reduceCtorEq] at hfamily
  case keyword.keyword k k' =>
      rw [Keyword.text_injective (String.toList_injective (Eq.trans (Eq.symm hf) hg))]
  case keyword.name k => exact absurd hf (hg' rfl k)
  case name.keyword k => exact absurd hg (hf' rfl k)
  case name.name => rfl
  case whole.whole => rfl
  case whole.decimal =>
      obtain ⟨whole, places, exponent, -, -, -, heq⟩ := hg
      exact absurd (heq ▸ hf : Digits _) not_digits_of_point
  case decimal.whole =>
      obtain ⟨whole, places, exponent, -, -, -, heq⟩ := hf
      exact absurd (heq ▸ hg : Digits _) not_digits_of_point
  case decimal.decimal => rfl
  case string.string q q' =>
      obtain ⟨units, -, heq⟩ := hf
      obtain ⟨units', -, heq'⟩ := hg
      rw [Quote.char_injective (List.cons.inj (heq.symm.trans heq')).1]
  case punct.punct p p' =>
      rw [Punct.text_injective (String.toList_injective (Eq.trans (Eq.symm hf) hg))]

/-! ## Longest matches -/

/-- The longest text at the start of `s` that has a form, and its form: that of a keyword rather than
that of a name. -/
structure Longest (f : Form) (text s : List Char) : Prop where
  starts : text <+: s
  hasForm : f.Matches text
  longest : ∀ g t, t <+: s → Form.Matches g t → t.length ≤ text.length
  keywordFirst : f = .name → ∀ k : Keyword, text ≠ k.text.toList

/-- No form has a text at the start of `s`. -/
def Formless (s : List Char) : Prop := ∀ f t, t <+: s → ¬Form.Matches f t

namespace Longest

variable {f g : Form} {text text' s : List Char}

theorem unique (h : Longest f text s) (h' : Longest g text' s) : f = g ∧ text = text' := by
  have hlength : text.length = text'.length :=
    Nat.le_antisymm (h'.longest f text h.starts h.hasForm) (h.longest g text' h'.starts h'.hasForm)
  have hbegins := List.prefix_of_prefix_length_le h.starts h'.starts hlength.le
  obtain rfl := hbegins.eq_of_length hlength
  exact ⟨Form.eq_of_matches h.hasForm h'.hasForm h.keywordFirst h'.keywordFirst, rfl⟩

/-- It stays the longest where less follows. -/
theorem of_start (h : Longest f text s) (htext : text <+: text') (hs : text' <+: s) :
    Longest f text text' :=
  ⟨htext, h.hasForm, fun g t ht => h.longest g t (ht.trans hs), h.keywordFirst⟩

theorem cut {rest more : List Char} (h : Longest f text (text ++ (rest ++ more))) :
    Longest f text (text ++ rest) := by
  refine h.of_start (List.prefix_append _ _) ?_
  rw [← List.append_assoc]
  exact List.prefix_append _ _

theorem not_formless (h : Longest f text s) : ¬Formless s :=
  fun hnone => hnone f text h.starts h.hasForm

end Longest

end LiveMarkup.Token
