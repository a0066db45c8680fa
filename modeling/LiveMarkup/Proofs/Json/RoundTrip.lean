import LiveMarkup.Value.Json
import LiveMarkup.Json.Parse
import Mathlib.Data.Nat.Digits.Lemmas
set_option autoImplicit false

/-! # Reading JSON that stands in a script

A document is written with some characters spelled out, so that it can stand in a script
(`spelled`). Reading gives back the document that was written, if its numbers are whole and fit into
64 bits and its containers are not nested too deep (`parse?_spelled`). Inside a string every
character is one step of the reader, however it was escaped and spelled (`stringBody?_spelledChar`);
outside of strings nothing is spelled out. A number ends where what follows it says so (`Ends`). -/

namespace LiveMarkup.Json

/-- A text as it is spelled inside a script. -/
def spelled (s : String) : List Char := s.toList.flatMap Value.scriptSafeChar

@[simp] theorem spelled_append (s t : String) : spelled (s ++ t) = spelled s ++ spelled t := by
  rw [spelled, String.toList_append, List.flatMap_append, spelled, spelled]

theorem scriptSafeChar_eq {c : Char} (h : c ≠ '<' ∧ c ≠ '>' ∧ c ≠ '/') :
    Value.scriptSafeChar c = [c] := by
  rw [Value.scriptSafeChar, if_neg h.1, if_neg h.2.1, if_neg h.2.2]

/-! ## Strings -/

section

variable {c : Char} {read rest : List Char}

theorem stringBody?_plain (hquote : c ≠ '"') (hescape : c ≠ '\\') (hcontrol : 0x20 ≤ c.toNat) :
    stringBody? read (c :: rest) = stringBody? (c :: read) rest := by
  rw [stringBody?.eq_4 read c rest hquote (fun _ _ _ _ _ h _ => hescape h)
    (fun _ _ h _ => hescape h), if_neg]
  exact not_or.mpr ⟨Nat.not_lt.mpr hcontrol, hescape⟩

theorem stringBody?_simple {e : Char} (he : simpleEscape? c = some e) (hu : c ≠ 'u') :
    stringBody? read ('\\' :: c :: rest) = stringBody? (e :: read) rest := by
  rw [stringBody?.eq_3 read c rest fun _ _ _ _ _ h _ => hu h, he]

theorem stringBody?_code {a b d e : Char} {n : Nat} (hn : hexFour? a b d e = some n)
    (hchar : n < 0xD800) :
    stringBody? read ('\\' :: 'u' :: a :: b :: d :: e :: rest) =
      stringBody? (Char.ofNat n :: read) rest := by
  rw [stringBody?.eq_2, hn]
  dsimp only
  rw [if_neg (by omega), if_neg (by omega)]

/-- The four digits of a control character denote it. -/
theorem spelled_hex4 : ∀ n < 0x20,
    spelled ("\\u" ++ hex4 n) =
      ['\\', 'u', '0', '0', Nat.digitChar (n / 16), Nat.digitChar (n % 16)] ∧
    hexFour? '0' '0' (Nat.digitChar (n / 16)) (Nat.digitChar (n % 16)) = some n := by
  decide +kernel

/-- A character of a string is read in one step, however it is written. -/
theorem stringBody?_spelledChar (c : Char) (read rest : List Char) :
    stringBody? read (spelled (escapedChar c) ++ rest) = stringBody? (c :: read) rest := by
  unfold escapedChar
  split
  · next h => subst h; exact stringBody?_simple (by decide) (by decide)
  split
  · next h => subst h; exact stringBody?_simple (by decide) (by decide)
  split
  · next h => subst h; exact stringBody?_simple (by decide) (by decide)
  split
  · next h => subst h; exact stringBody?_simple (by decide) (by decide)
  split
  · next h => subst h; exact stringBody?_simple (by decide) (by decide)
  split
  · next h => subst h; exact stringBody?_simple (by decide) (by decide)
  split
  · next h => subst h; exact stringBody?_simple (by decide) (by decide)
  split
  · next hcontrol =>
      obtain ⟨hs, hn⟩ := spelled_hex4 c.toNat hcontrol
      rw [hs]
      show stringBody? read ('\\' :: 'u' :: '0' :: '0' :: _ :: _ :: rest) = _
      rw [stringBody?_code hn (by omega), Char.ofNat_toNat]
  · next hquote hescape _ _ _ _ _ hcontrol =>
      -- characters that could end a script are spelled by their code point
      have hone : spelled c.toString = Value.scriptSafeChar c := by
        simp [spelled]
      rw [hone]
      unfold Value.scriptSafeChar
      split
      · next h => subst h; exact stringBody?_code (n := 0x3c) (by decide) (by decide)
      split
      · next h => subst h; exact stringBody?_code (n := 0x3e) (by decide) (by decide)
      split
      · next h => subst h; exact stringBody?_code (n := 0x2f) (by decide) (by decide)
      · exact stringBody?_plain hquote hescape (Nat.le_of_not_lt hcontrol)

theorem stringBody?_spelled (cs read rest : List Char) :
    stringBody? read (spelled (String.join (cs.map escapedChar)) ++ '"' :: rest) =
      some (read.reverse ++ cs, rest) := by
  induction cs generalizing read with
  | nil =>
      rw [List.append_nil]
      exact stringBody?.eq_1 read rest
  | cons c cs ih =>
      have hcons : spelled (String.join ((c :: cs).map escapedChar)) =
          spelled (escapedChar c) ++ spelled (String.join (cs.map escapedChar)) := by
        simp [spelled, String.toList_join]
      rw [hcons, List.append_assoc, stringBody?_spelledChar, ih]
      simp

theorem spelled_quote (s : String) (rest : List Char) : spelled (quote s) ++ rest =
    '"' :: (spelled (String.join (s.toList.map escapedChar)) ++ '"' :: rest) := by
  have hquote : spelled "\"" = ['"'] := by decide
  rw [quote, spelled_append, spelled_append, hquote]
  simp

end

/-! ## Whole numbers -/

/-- What follows a number without being taken for a part of it. -/
def Ends : List Char → Prop
  | [] => True
  | c :: _ => Text.isAsciiDigit c = false ∧ c ≠ '.' ∧ c ≠ 'e' ∧ c ≠ 'E'

instance : DecidablePred Ends
  | [] => inferInstanceAs (Decidable True)
  | _ :: _ => inferInstanceAs (Decidable (_ ∧ _ ∧ _ ∧ _))

theorem isAsciiDigit_of_mem_toDigits {n : Nat} {c : Char} (h : c ∈ Nat.toDigits 10 n) :
    Text.isAsciiDigit c = true := by
  have hdigit := Nat.isDigit_of_mem_toDigits (by decide) (by decide) h
  simp only [Char.isDigit, Bool.and_eq_true, decide_eq_true_eq] at hdigit
  simpa [Text.isAsciiDigit, Char.le_def] using hdigit

theorem ne_of_isAsciiDigit {c d : Char} (hc : Text.isAsciiDigit c = true)
    (hd : Text.isAsciiDigit d = false) : c ≠ d := by
  rintro rfl
  rw [hc] at hd
  cases hd

theorem digitChar_ne_zero : ∀ n < 10, n ≠ 0 → n.digitChar ≠ '0' := by decide

theorem head?_toDigits_ne_zero {n : Nat} (hn : n ≠ 0) : (Nat.toDigits 10 n).head? ≠ some '0' := by
  induction n using Nat.strong_induction_on with
  | _ n ih =>
      by_cases hsmall : n < 10
      · rw [Nat.toDigits_of_lt_base hsmall, List.head?_cons]
        exact fun h => digitChar_ne_zero n hsmall hn (Option.some.inj h)
      · have hle : 10 ≤ n := Nat.le_of_not_lt hsmall
        rw [Nat.toDigits_of_base_le (by decide) hle,
          List.head?_append_of_ne_nil _ Nat.toDigits_ne_nil]
        exact ih (n / 10) (by omega) (by omega)

theorem le_ofDigitChars (ds : List Char) (n : Nat) : n ≤ Nat.ofDigitChars 10 ds n := by
  induction ds generalizing n with
  | nil => exact Nat.le_refl n
  | cons c ds ih =>
      rw [Nat.ofDigitChars_cons]
      have := ih (10 * n + (c.toNat - '0'.toNat))
      omega

theorem significantDigits_eq {ds : List Char} {n : Nat}
    (h : Nat.ofDigitChars 10 ds n ≤ wordLimit) :
    significantDigits n ds = (Nat.ofDigitChars 10 ds n, ds.length) := by
  induction ds generalizing n with
  | nil => rfl
  | cons c ds ih =>
      rw [Nat.ofDigitChars_cons] at h ⊢
      have hnext := le_ofDigitChars ds (10 * n + (c.toNat - '0'.toNat))
      rw [significantDigits, if_neg (by omega), ih h, List.length_cons]

theorem digitRun_toDigits (n : Nat) {rest : List Char} (hrest : Ends rest) :
    Decimal.digitRun (Nat.toDigits 10 n ++ rest) = (Nat.toDigits 10 n, rest) := by
  have hall : ∀ c ∈ Nat.toDigits 10 n, Text.isAsciiDigit c = true :=
    fun c => isAsciiDigit_of_mem_toDigits
  have hstop : rest.takeWhile Text.isAsciiDigit = [] ∧ rest.dropWhile Text.isAsciiDigit = rest := by
    cases rest with
    | nil => exact ⟨rfl, rfl⟩
    | cons c rest =>
        rw [List.takeWhile_cons, List.dropWhile_cons, hrest.1]
        exact ⟨rfl, rfl⟩
  rw [Decimal.digitRun, List.takeWhile_append_of_pos hall, List.dropWhile_append_of_pos hall,
    hstop.1, hstop.2, List.append_nil]

/-- Digits that nothing continues are read as a whole number without fraction and exponent. -/
theorem unsignedNumber?_toDigits (n : Nat) {rest : List Char} (hrest : Ends rest) :
    unsignedNumber? (Nat.toDigits 10 n ++ rest) = some (⟨Nat.toDigits 10 n, none, none⟩, rest) := by
  have hplaces : placesPart? rest = some (none, rest) := by
    unfold placesPart?
    split
    · exact absurd rfl hrest.2.1
    · rfl
  have hexponent : exponentPart? rest = some (none, rest) := by
    unfold exponentPart?
    split
    · rw [if_neg]
      exact not_or.mpr hrest.2.2
    · rfl
  have hzero : ((Nat.toDigits 10 n).isEmpty || decide ((Nat.toDigits 10 n).head? = some '0') &&
      decide (1 < (Nat.toDigits 10 n).length)) = false := by
    by_cases hn : n = 0
    · subst hn
      decide
    · simp [head?_toDigits_ne_zero hn, Nat.toDigits_ne_nil]
  unfold unsignedNumber?
  rw [digitRun_toDigits n hrest]
  dsimp only
  rw [hzero, if_neg Bool.false_ne_true, hplaces, Option.bind_some, hexponent, Option.map_some]

/-- A whole number that 64 bits hold, with or without a sign. -/
def FitsWord (n : Int) : Prop := -(1 <<< 63 : Nat) ≤ n ∧ n ≤ wordLimit

theorem toList_toString (n : Int) :
    (toString n).toList = (if n < 0 then ['-'] else []) ++ Nat.toDigits 10 n.natAbs := by
  cases n with
  | ofNat k =>
      show (Nat.repr k).toList = _
      rw [Nat.repr_eq_ofList_toDigits, String.toList_ofList]
      rfl
  | negSucc k =>
      show ("-" ++ Nat.repr (k + 1)).toList = _
      rw [String.toList_append, Nat.repr_eq_ofList_toDigits, String.toList_ofList,
        String.toList_ofList, if_pos (Int.negSucc_lt_zero k), Int.natAbs_negSucc]

theorem mem_toString {n : Int} {c : Char} (h : c ∈ (toString n).toList) :
    Text.isAsciiDigit c = true ∨ c = '-' := by
  rw [toList_toString] at h
  rcases List.mem_append.mp h with hminus | hdigit
  · split at hminus
    · exact .inr (List.mem_singleton.mp hminus)
    · cases hminus
  · exact .inl (isAsciiDigit_of_mem_toDigits hdigit)

theorem exists_toString_cons (n : Int) : ∃ c cs, (toString n).toList = c :: cs ∧
    (Text.isAsciiDigit c = true ∨ c = '-') := by
  have hne : (toString n).toList ≠ [] := by
    rw [toList_toString]
    exact List.append_ne_nil_of_right_ne_nil _ Nat.toDigits_ne_nil
  obtain ⟨c, cs, hcs⟩ := List.exists_cons_of_ne_nil hne
  exact ⟨c, cs, hcs, mem_toString (hcs ▸ List.mem_cons_self)⟩

/-- The number that the digits of a natural number denote. Below zero it is a float if it is too
great for a word, and minus zero is one as well. -/
theorem value?_toDigits {n : Nat} (hn : n ≤ wordLimit) (negative : Bool) :
    Written.value? negative ⟨Nat.toDigits 10 n, none, none⟩ =
      if !negative then some (.int n)
      else if n = 0 then some (.float (-0.0))
      else if n ≤ 1 <<< 63 then some (.int (-(n : Int)))
      else some (.float (-Float.ofNat n)) := by
  have hread : significantDigits 0 (Nat.toDigits 10 n) = (n, (Nat.toDigits 10 n).length) := by
    rw [significantDigits_eq (by rwa [Nat.ofDigitChars_ten_toDigits]),
      Nat.ofDigitChars_ten_toDigits]
  rw [Written.value?, hread]
  simp

theorem toDigits_ne_minus (n : Nat) (rest ds : List Char) :
    Nat.toDigits 10 n ++ rest ≠ '-' :: ds := by
  intro hds
  obtain ⟨c, cs, hcs⟩ := List.exists_cons_of_ne_nil (Nat.toDigits_ne_nil (n := n) (b := 10))
  have hdigit := isAsciiDigit_of_mem_toDigits (n := n) (hcs ▸ List.mem_cons_self)
  rw [hcs, List.cons_append] at hds
  exact ne_of_isAsciiDigit hdigit (by decide) (List.cons.inj hds).1

theorem number?_toString {n : Int} (hn : FitsWord n) {rest : List Char} (hrest : Ends rest) :
    number? ((toString n).toList ++ rest) = some (.int n, rest) := by
  obtain ⟨hmin, hmax⟩ := hn
  have hword : n.natAbs ≤ wordLimit := by
    have : (1 <<< 63 : Nat) ≤ wordLimit := by decide
    omega
  have hunsigned := unsignedNumber?_toDigits n.natAbs hrest
  rw [toList_toString]
  by_cases hneg : n < 0
  · have hsame : -(n.natAbs : Int) = n := by omega
    rw [if_pos hneg, List.singleton_append, List.cons_append, number?]
    dsimp only
    rw [hunsigned, Option.bind_some, value?_toDigits hword, if_neg (by decide),
      if_neg (by omega), if_pos (by omega), hsame]
    rfl
  · have hsame : (n.natAbs : Int) = n := by omega
    rw [if_neg hneg, List.nil_append, number?]
    · dsimp only
      rw [hunsigned, Option.bind_some, value?_toDigits hword, if_pos (by decide), hsame]
      rfl
    · exact toDigits_ne_minus n.natAbs rest

theorem spelled_of_plain {s : String} (h : ∀ c ∈ s.toList, c ≠ '<' ∧ c ≠ '>' ∧ c ≠ '/') :
    spelled s = s.toList := by
  unfold spelled
  revert h
  induction s.toList with
  | nil => exact fun _ => rfl
  | cons c cs ih =>
      intro h
      obtain ⟨hc, hcs⟩ := List.forall_mem_cons.mp h
      rw [List.flatMap_cons, scriptSafeChar_eq hc, ih hcs, List.singleton_append]

theorem spelled_int (n : Int) : spelled (toString n) = (toString n).toList := by
  refine spelled_of_plain fun c hc => ?_
  rcases mem_toString hc with hdigit | rfl
  · have hne : ∀ {d : Char}, Text.isAsciiDigit d = false → c ≠ d := ne_of_isAsciiDigit hdigit
    exact ⟨hne (by decide), hne (by decide), hne (by decide)⟩
  · decide

/-! ## Documents -/

/-- A document that is read as it was written: its numbers are whole and fit into 64 bits, and at
most `depth` containers stand around one another. -/
inductive Exact : Nat → Json → Prop
  | null {depth : Nat} : Exact depth .null
  | bool {depth : Nat} (b : Bool) : Exact depth (.bool b)
  | int {depth : Nat} {n : Int} : FitsWord n → Exact depth (.int n)
  | str {depth : Nat} (s : String) : Exact depth (.str s)
  | array {depth : Nat} {items : List Json} : (∀ j ∈ items, Exact depth j) →
      Exact (depth + 1) (.array items)
  | object {depth : Nat} {members : List (String × Json)} : (∀ m ∈ members, Exact depth m.2) →
      Exact (depth + 1) (.object members)

/-- A reader takes a phrase and leaves `rest`. -/
def Reads {s : List Char} {α : Type} (result : Option (Taken s α)) (value : α) (rest : List Char) :
    Prop :=
  ∃ h, result = some ⟨value, rest, h⟩

theorem reads_taken? {s rest : List Char} {α : Type} {value : α} (h : rest.length < s.length) :
    Reads (taken? s (some (value, rest))) value rest :=
  ⟨h, dif_pos h⟩

theorem skipBlank_cons {c : Char} {s : List Char} (h : isJsonBlank c = false) :
    skipBlank (c :: s) = c :: s := by
  rw [skipBlank, List.dropWhile_cons, h, if_neg Bool.false_ne_true]

theorem isJsonBlank_of_digit {c : Char} (h : Text.isAsciiDigit c = true) :
    isJsonBlank c = false := by
  have hne : ∀ {d : Char}, Text.isAsciiDigit d = false → c ≠ d := ne_of_isAsciiDigit h
  simp only [isJsonBlank, Bool.or_eq_false_iff, beq_eq_false_iff_ne]
  exact ⟨⟨⟨hne (by decide), hne (by decide)⟩, hne (by decide)⟩, hne (by decide)⟩

theorem spelled_text_head {depth : Nat} {j : Json} (h : Exact depth j) :
    ∃ c cs, spelled j.text = c :: cs ∧ isJsonBlank c = false ∧ c ≠ ']' := by
  cases h with
  | null => exact ⟨'n', _, rfl, by decide, by decide⟩
  | bool b => cases b <;> exact ⟨_, _, rfl, by decide, by decide⟩
  | int =>
      obtain ⟨c, cs, hcs, hc⟩ := exists_toString_cons _
      refine ⟨c, cs, (spelled_int _).trans hcs, ?_⟩
      rcases hc with hdigit | rfl
      · exact ⟨isJsonBlank_of_digit hdigit, ne_of_isAsciiDigit hdigit (by decide)⟩
      · exact ⟨by decide, by decide⟩
  | str s =>
      have hquote := spelled_quote s []
      rw [List.append_nil] at hquote
      exact ⟨'"', _, hquote, by decide, by decide⟩
  | array =>
      rw [text, spelled_append, spelled_append]
      exact ⟨'[', _, rfl, by decide, by decide⟩
  | object =>
      rw [text, spelled_append, spelled_append]
      exact ⟨'{', _, rfl, by decide, by decide⟩

section

variable {depth : Nat} {r : List Char}

theorem reads_null : Reads (document? depth (spelled "null" ++ r)) .null r := by
  show Reads (document? depth ('n' :: 'u' :: 'l' :: 'l' :: r)) .null r
  rw [document?.eq_1]
  refine reads_taken? ?_
  simp only [List.length_cons]
  omega

theorem reads_bool (b : Bool) :
    Reads (document? depth (spelled (text (.bool b)) ++ r)) (.bool b) r := by
  cases b with
  | true =>
      show Reads (document? depth ('t' :: 'r' :: 'u' :: 'e' :: r)) (.bool true) r
      rw [document?.eq_1]
      refine reads_taken? ?_
      simp only [List.length_cons]
      omega
  | false =>
      show Reads (document? depth ('f' :: 'a' :: 'l' :: 's' :: 'e' :: r)) (.bool false) r
      rw [document?.eq_1]
      refine reads_taken? ?_
      simp only [List.length_cons]
      omega

theorem reads_str (s : String) :
    Reads (document? depth (spelled (quote s) ++ r)) (.str s) r := by
  rw [spelled_quote, document?.eq_1]
  have hbody := stringBody?_spelled s.toList [] r
  rw [List.reverse_nil, List.nil_append] at hbody
  show Reads (taken? _ ((stringBody? [] _).map _)) _ _
  rw [hbody]
  simp only [Option.map_some, String.ofList_toList]
  refine reads_taken? ?_
  simp only [List.length_cons, List.length_append]
  omega

theorem document?_other {s cs : List Char} {c : Char} (hs : skipBlank s = c :: cs)
    (hc : c ∉ ['n', 't', 'f', '"', '[', '\x7b']) :
    document? depth s = taken? s (number? (c :: cs)) := by
  rw [document?.eq_1]
  split
  case h_7 => rw [hs]
  all_goals
    next hb =>
      rw [hs] at hb
      obtain ⟨rfl, -⟩ := List.cons.inj hb
      simp at hc

theorem reads_int {n : Int} (hn : FitsWord n) (hrest : Ends r) :
    Reads (document? depth (spelled (toString n) ++ r)) (.int n) r := by
  obtain ⟨c, cs, hcs, hc⟩ := exists_toString_cons n
  have hnumber := number?_toString hn hrest
  rw [spelled_int, hcs, List.cons_append] at *
  have hother : isJsonBlank c = false ∧ c ∉ ['n', 't', 'f', '"', '[', '\x7b'] := by
    rcases hc with hdigit | rfl
    · refine ⟨isJsonBlank_of_digit hdigit, fun hmem => ?_⟩
      have hletters : ∀ d ∈ ['n', 't', 'f', '"', '[', '\x7b'], Text.isAsciiDigit d = false := by
        simp [Text.isAsciiDigit]
      exact ne_of_isAsciiDigit hdigit (hletters c hmem) rfl
    · exact ⟨rfl, by simp⟩
  rw [document?_other (skipBlank_cons hother.1) hother.2, hnumber]
  refine reads_taken? ?_
  simp only [List.length_cons, List.length_append]
  omega

theorem ends_cons {c : Char} (h : c = ',' ∨ c = ']' ∨ c = '\x7d') : Ends (c :: r) := by
  obtain rfl | rfl | rfl := h
  all_goals exact ⟨by decide, by decide, by decide, by decide⟩

theorem reads_items {items : List Json} (hne : items ≠ [])
    (h : ∀ j ∈ items, ∀ r, Ends r → Reads (document? depth (spelled j.text ++ r)) j r) :
    Reads (items? depth (spelled (itemsText items) ++ ']' :: r)) items r := by
  induction items with
  | nil => exact absurd rfl hne
  | cons j more ih =>
      obtain ⟨hj, hmore⟩ := List.forall_mem_cons.mp h
      cases more with
      | nil =>
          obtain ⟨hshort, hread⟩ := hj (']' :: r) (ends_cons (by simp))
          rw [itemsText, items?.eq_1, hread, Option.bind_some]
          exact reads_taken? (Nat.lt_of_succ_lt hshort)
      | cons k more =>
          obtain ⟨hshortMore, hreadMore⟩ := ih (List.cons_ne_nil k more) hmore
          obtain ⟨hshort, hread⟩ :=
            hj (',' :: (spelled (itemsText (k :: more)) ++ ']' :: r)) (ends_cons (by simp))
          have htext : spelled (itemsText (j :: k :: more)) ++ ']' :: r =
              spelled j.text ++ ',' :: (spelled (itemsText (k :: more)) ++ ']' :: r) := by
            have hcomma : spelled "," = [','] := by decide
            rw [itemsText, spelled_append, spelled_append, hcomma]
            · simp
            · simp
          rw [htext, items?.eq_1, hread, Option.bind_some]
          show Reads ((items? depth _).bind _) _ _
          rw [hreadMore, Option.bind_some]
          exact reads_taken? (Nat.lt_trans hshortMore (Nat.lt_of_succ_lt hshort))

theorem reads_memberName (key : String) :
    Reads (memberName? (spelled (quote key) ++ ':' :: r)) key r := by
  have hkey := stringBody?_spelled key.toList [] (':' :: r)
  rw [List.reverse_nil, List.nil_append] at hkey
  rw [spelled_quote]
  show Reads ((stringBody? [] _).bind _) key r
  rw [hkey, Option.bind_some]
  show Reads (taken? _ (some (String.ofList key.toList, r))) key r
  rw [String.ofList_toList]
  refine reads_taken? ?_
  simp only [List.length_cons, List.length_append]
  omega

theorem reads_members {members : List (String × Json)} (hne : members ≠ [])
    (h : ∀ m ∈ members, ∀ r, Ends r →
      Reads (document? depth (spelled m.2.text ++ r)) m.2 r) :
    Reads (members? depth (spelled (membersText members) ++ '\x7d' :: r)) members r := by
  induction members with
  | nil => exact absurd rfl hne
  | cons m more ih =>
      obtain ⟨key, j⟩ := m
      obtain ⟨hj, hmore⟩ := List.forall_mem_cons.mp h
      have hcolon : spelled ":" = [':'] := by decide
      have hcomma : spelled "," = [','] := by decide
      cases more with
      | nil =>
          obtain ⟨hshort, hread⟩ := hj ('\x7d' :: r) (ends_cons (by simp))
          obtain ⟨hshortName, hname⟩ :=
            reads_memberName (r := spelled j.text ++ '\x7d' :: r) key
          have htext : spelled (membersText [(key, j)]) ++ '\x7d' :: r =
              spelled (quote key) ++ ':' :: (spelled j.text ++ '\x7d' :: r) := by
            simp [membersText, hcolon]
          rw [htext, members?.eq_1, hname, Option.bind_some]
          dsimp only
          rw [hread, Option.bind_some]
          exact reads_taken? (Nat.lt_of_succ_lt (Nat.lt_trans hshort hshortName))
      | cons m more =>
          obtain ⟨hshortMore, hreadMore⟩ := ih (List.cons_ne_nil m more) hmore
          obtain ⟨hshort, hread⟩ :=
            hj (',' :: (spelled (membersText (m :: more)) ++ '\x7d' :: r)) (ends_cons (by simp))
          obtain ⟨hshortName, hname⟩ := reads_memberName
            (r := spelled j.text ++ ',' :: (spelled (membersText (m :: more)) ++ '\x7d' :: r)) key
          have htext : spelled (membersText ((key, j) :: m :: more)) ++ '\x7d' :: r =
              spelled (quote key) ++ ':' :: (spelled j.text ++
                ',' :: (spelled (membersText (m :: more)) ++ '\x7d' :: r)) := by
            simp [membersText, hcolon, hcomma]
          rw [htext, members?.eq_1, hname, Option.bind_some]
          dsimp only
          rw [hread, Option.bind_some]
          show Reads ((members? depth _).bind _) _ _
          rw [hreadMore, Option.bind_some]
          exact reads_taken? (Nat.lt_trans hshortMore
            (Nat.lt_of_succ_lt (Nat.lt_trans hshort hshortName)))

/-- Items follow, unless the bracket is closed at once. -/
theorem reads_array {s : List Char} {items : List Json} (hopen : ∀ r, skipBlank s ≠ ']' :: r)
    (h : Reads (items? depth s) items r) :
    Reads (document? (depth + 1) ('[' :: s)) (.array items) r := by
  obtain ⟨hshort, hread⟩ := h
  have hs : skipBlank ('[' :: s) = '[' :: s := skipBlank_cons (by decide)
  rw [document?.eq_1]
  split
  case h_5 rest hrest =>
      obtain rfl : s = rest := (List.cons.inj (hs.symm.trans hrest)).2
      dsimp only
      split
      · next r hr => exact absurd hr (hopen r)
      · rw [hread, Option.bind_some]
        exact reads_taken? (Nat.lt_succ_of_lt hshort)
  all_goals simp_all

theorem reads_object {s : List Char} {members : List (String × Json)}
    (hopen : ∀ r, skipBlank s ≠ '\x7d' :: r) (h : Reads (members? depth s) members r) :
    Reads (document? (depth + 1) ('\x7b' :: s)) (.object members) r := by
  obtain ⟨hshort, hread⟩ := h
  have hs : skipBlank ('\x7b' :: s) = '\x7b' :: s := skipBlank_cons (by decide)
  rw [document?.eq_1]
  split
  case h_6 rest hrest =>
      obtain rfl : s = rest := (List.cons.inj (hs.symm.trans hrest)).2
      dsimp only
      split
      · next r hr => exact absurd hr (hopen r)
      · rw [hread, Option.bind_some]
        exact reads_taken? (Nat.lt_succ_of_lt hshort)
  all_goals simp_all

theorem spelled_items_head {j : Json} {more : List Json} (h : Exact depth j) (s r : List Char) :
    skipBlank (spelled (itemsText (j :: more)) ++ s) ≠ ']' :: r := by
  obtain ⟨c, cs, hhead, hblank, hc⟩ := spelled_text_head h
  obtain ⟨tail, htail⟩ : ∃ tail, spelled (itemsText (j :: more)) = c :: tail := by
    cases more with
    | nil => exact ⟨cs, hhead⟩
    | cons k more =>
        refine ⟨cs ++ (spelled "," ++ spelled (itemsText (k :: more))), ?_⟩
        rw [itemsText, spelled_append, spelled_append, hhead]
        · simp
        · simp
  rw [htail, List.cons_append, skipBlank_cons hblank]
  exact fun he => hc (List.cons.inj he).1

theorem spelled_members_head (m : String × Json) (more : List (String × Json)) (s r : List Char) :
    skipBlank (spelled (membersText (m :: more)) ++ s) ≠ '\x7d' :: r := by
  obtain ⟨tail, htail⟩ : ∃ tail, spelled (membersText (m :: more)) ++ s = '"' :: tail := by
    cases more with
    | nil | cons =>
        simp only [membersText, spelled_append, List.append_assoc, spelled_quote]
        exact ⟨_, rfl⟩
  rw [htail, skipBlank_cons (by decide)]
  exact fun he => absurd (List.cons.inj he).1 (by decide)

/-- A document is read as it was written, up to what ends it. -/
theorem Exact.reads {j : Json} {r : List Char} (h : Exact depth j) (hr : Ends r) :
    Reads (document? depth (spelled j.text ++ r)) j r := by
  induction h generalizing r with
  | null => exact reads_null
  | bool b => exact reads_bool b
  | int hn => exact reads_int hn hr
  | str s => exact reads_str s
  | @array depth items hitems ih =>
      have hbrackets : spelled (text (.array items)) ++ r =
          '[' :: (spelled (itemsText items) ++ ']' :: r) := by
        have hopen : spelled "[" = ['['] := by decide
        have hclose : spelled "]" = [']'] := by decide
        simp [text, hopen, hclose]
      rw [hbrackets]
      cases items with
      | nil =>
          show Reads (document? (depth + 1) ('[' :: ']' :: r)) (.array []) r
          rw [document?.eq_1]
          refine reads_taken? ?_
          simp only [List.length_cons]
          omega
      | cons j more =>
          have hfirst := hitems j List.mem_cons_self
          exact reads_array (spelled_items_head hfirst _)
            (reads_items (List.cons_ne_nil j more) fun k hk _ hrest => ih k hk hrest)
  | @object depth members hmembers ih =>
      have hbraces : spelled (text (.object members)) ++ r =
          '\x7b' :: (spelled (membersText members) ++ '\x7d' :: r) := by
        have hopen : spelled "\x7b" = ['\x7b'] := by decide
        have hclose : spelled "\x7d" = ['\x7d'] := by decide
        simp [text, hopen, hclose]
      rw [hbraces]
      cases members with
      | nil =>
          show Reads (document? (depth + 1) ('\x7b' :: '\x7d' :: r)) (.object []) r
          rw [document?.eq_1]
          refine reads_taken? ?_
          simp only [List.length_cons]
          omega
      | cons m more =>
          exact reads_object (spelled_members_head m more _)
            (reads_members (List.cons_ne_nil m more) fun k hk _ hrest => ih k hk hrest)

/-- A document that stands in a script is read as it was written. -/
theorem parse?_spelled {j : Json} (h : Exact depth j) :
    parse? depth (String.ofList (spelled j.text)) = some j := by
  have hreads := h.reads (r := []) trivial
  rw [List.append_nil, ← String.toList_ofList (l := spelled j.text)] at hreads
  obtain ⟨hshort, hread⟩ := hreads
  rw [parse?, hread]
  rfl

end

end LiveMarkup.Json
