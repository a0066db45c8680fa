set_option autoImplicit false

/-! # Searching text

Leftmost and rightmost occurrences of one text in another, as a cut into what stands before and
what stands after. Offsets elsewhere count UTF-8 bytes, so the byte length of a text is here too. -/

namespace LiveMarkup.Text

/-- Bytes of the text in UTF-8. -/
def byteLength : List Char → Nat
  | [] => 0
  | c :: s => c.utf8Size + byteLength s

@[simp] theorem byteLength_append (s t : List Char) :
    byteLength (s ++ t) = byteLength s + byteLength t := by
  induction s with
  | nil => simp [byteLength]
  | cons c s ih => simp [byteLength, ih, Nat.add_assoc]

/-- What follows `lead` at the start of a text, if it starts so. -/
def after? : (lead s : List Char) → Option (List Char)
  | [], s => some s
  | _ :: _, [] => none
  | a :: lead, c :: s => if a = c then after? lead s else none

theorem eq_append_of_after? {lead s rest : List Char} (h : after? lead s = some rest) :
    s = lead ++ rest := by
  induction lead generalizing s with
  | nil => simpa [after?] using h
  | cons a lead ih =>
    cases s with
    | nil => simp [after?] at h
    | cons c s =>
      by_cases hc : a = c
      · simp [after?, hc] at h
        rw [ih h, hc]
        rfl
      · simp [after?, hc] at h

/-- Cuts a text at the leftmost occurrence of `pat`: what stands before it and what after. -/
def cut? (pat : List Char) : List Char → Option (List Char × List Char)
  | [] => if pat.isEmpty then some ([], []) else none
  | c :: s =>
    match after? pat (c :: s) with
    | some rest => some ([], rest)
    | none => (cut? pat s).map fun cut => (c :: cut.1, cut.2)

/-- A cut loses nothing but the pattern. -/
theorem eq_of_cut? {pat s before after : List Char} (h : cut? pat s = some (before, after)) :
    s = before ++ pat ++ after := by
  induction s generalizing before after with
  | nil =>
    by_cases hp : pat = []
    · simp [cut?, hp] at h
      simp [hp, h]
    · simp [cut?, hp] at h
  | cons c s ih =>
    unfold cut? at h
    split at h
    · rename_i rest hr
      simp only [Option.some.injEq, Prod.mk.injEq] at h
      rw [← h.1, ← h.2, List.nil_append]
      exact eq_append_of_after? hr
    · obtain ⟨⟨b, a⟩, hcut, heq⟩ := Option.map_eq_some_iff.1 h
      simp only [Prod.mk.injEq] at heq
      rw [← heq.1, ← heq.2, List.cons_append, List.cons_append, ← ih hcut]

theorem length_le_of_cut? {pat s before after : List Char}
    (h : cut? pat s = some (before, after)) : after.length ≤ s.length := by
  rw [eq_of_cut? h, List.length_append]
  exact Nat.le_add_left _ _

theorem length_lt_of_cut? {pat s before after : List Char} (hpat : pat ≠ [])
    (h : cut? pat s = some (before, after)) : after.length < s.length := by
  have := List.length_pos_iff.2 hpat
  simp only [eq_of_cut? h, List.length_append]
  omega

/-- Nothing is searched for an empty pattern: it stands at the start of every text. -/
theorem cut?_nil (s : List Char) : cut? [] s = some ([], s) := by
  cases s <;> simp [cut?, after?]

/-- Cuts a text at the rightmost occurrence of `pat`. -/
def cutLast? (pat : List Char) : List Char → Option (List Char × List Char)
  | [] => if pat.isEmpty then some ([], []) else none
  | c :: s =>
    match cutLast? pat s with
    | some (before, after) => some (c :: before, after)
    | none => (after? pat (c :: s)).map fun rest => ([], rest)

/-- Line feeds in a text. -/
def lineFeeds : List Char → Nat
  | [] => 0
  | c :: s => (if c = '\n' then 1 else 0) + lineFeeds s

@[simp] theorem lineFeeds_append (s t : List Char) :
    lineFeeds (s ++ t) = lineFeeds s + lineFeeds t := by
  induction s with
  | nil => simp [lineFeeds]
  | cons c s ih => simp [lineFeeds, ih, Nat.add_assoc]

theorem length_dropWhile_le (p : Char → Bool) (s : List Char) :
    (s.dropWhile p).length ≤ s.length := (List.dropWhile_sublist p).length_le

/-- ASCII letters to lower case, all else kept. -/
def asciiLower (s : String) : String := String.ofList (s.toList.map Char.toLower)

/-- ASCII letters to upper case, all else kept. -/
def asciiUpper (s : String) : String := String.ofList (s.toList.map Char.toUpper)

def isAsciiLetter (c : Char) : Bool := ('a' ≤ c && c ≤ 'z') || ('A' ≤ c && c ≤ 'Z')

def isAsciiDigit (c : Char) : Bool := '0' ≤ c && c ≤ '9'

/-- The value of a hexadecimal digit in either case. -/
def hexDigit? (c : Char) : Option Nat :=
  if isAsciiDigit c then some (c.toNat - '0'.toNat)
  else if 'a' ≤ c ∧ c ≤ 'f' then some (c.toNat - 'a'.toNat + 10)
  else if 'A' ≤ c ∧ c ≤ 'F' then some (c.toNat - 'A'.toNat + 10)
  else none

/-- Letters, digits, `_` and `$`: what a name of the expression language continues with. -/
def isNameChar (c : Char) : Bool := isAsciiLetter c || isAsciiDigit c || c == '_' || c == '$'

end LiveMarkup.Text
