import LiveMarkup.Json.Parse
set_option autoImplicit false

/-! # Reading some members of an object

Who asks for a few members of an object need not understand the others. Their values are passed
over: they must have the form of JSON, but no number is too large in them, no escape has to stand
for a character, and they may be nested to any depth. -/

namespace LiveMarkup.Json

open Text

/-! ## Passing over values -/

/-- The rest of a text after a string whose opening quote has been read. -/
def skipString? (s : List Char) : Option (List Char) :=
  match s with
  | '"' :: rest => some rest
  | '\\' :: 'u' :: a :: b :: c :: d :: rest =>
    if (hexFour? a b c d).isSome then skipString? rest else none
  | '\\' :: c :: rest => if (simpleEscape? c).isSome then skipString? rest else none
  | c :: rest => if c.toNat < 0x20 ∨ c = '\\' then none else skipString? rest
  | [] => none
termination_by s.length
decreasing_by all_goals (simp only [List.length_cons]; omega)

/-- The rest of a text after a value that is no container. -/
def skipScalar? (s : List Char) : Option (List Char) :=
  match s with
  | 'n' :: 'u' :: 'l' :: 'l' :: rest => some rest
  | 't' :: 'r' :: 'u' :: 'e' :: rest => some rest
  | 'f' :: 'a' :: 'l' :: 's' :: 'e' :: rest => some rest
  | '"' :: rest => skipString? rest
  | '-' :: rest => (unsignedNumber? rest).map Prod.snd
  | s => (unsignedNumber? s).map Prod.snd

/-- The rest of a text after a key and its colon. -/
def skipKey? (s : List Char) : Option (List Char) :=
  match skipBlank s with
  | '"' :: rest =>
    (skipString? rest).bind fun afterKey =>
      match skipBlank afterKey with
      | ':' :: rest' => some rest'
      | _ => none
  | _ => none

/-- A container that is open. -/
inductive Enclosure where
  | list
  | object
  deriving DecidableEq, Repr

namespace Enclosure

def opening : Enclosure → Char
  | list => '['
  | object => '\x7b'

def closing : Enclosure → Char
  | list => ']'
  | object => '\x7d'

/-- Whether a text begins, after blanks, with the closing bracket; what follows it. -/
def close? (e : Enclosure) (s : List Char) : Option (List Char) :=
  match skipBlank s with
  | c :: rest => if c = e.closing then some rest else none
  | [] => none

end Enclosure

/-- What is open after a value, innermost first, and the rest of the text: containers are closed up
to one that goes on behind a comma. -/
def leave? : List Enclosure → List Char → Option (List Enclosure × List Char)
  | [], s => some ([], s)
  | e :: around, s =>
    match skipBlank s with
    | c :: rest =>
      if c = ',' then some (e :: around, rest)
      else if c = e.closing then leave? around rest
      else none
    | [] => none

/-- Goes into a container whose opening bracket has been read, or past it if it is empty. -/
def enter? (e : Enclosure) (around : List Enclosure) (s : List Char) :
    Option (List Enclosure × List Char) :=
  match e.close? s with
  | some rest => leave? around rest
  | none => some (e :: around, s)

/-- Passes over the key of a value, if it needs one, and over the value or its opening bracket. -/
def skipItem? (around : List Enclosure) (s : List Char) :
    Option (List Enclosure × List Char) :=
  (if around.head? = some .object then skipKey? s else some s).bind fun s =>
    match skipBlank s with
    | c :: rest =>
      if c = Enclosure.list.opening then enter? .list around rest
      else if c = Enclosure.object.opening then enter? .object around rest
      else (skipScalar? (c :: rest)).bind (leave? around)
    | [] => none

/-! Each of these takes something off the text. -/

theorem length_of_skipString? {s rest : List Char} (h : skipString? s = some rest) :
    rest.length < s.length := by
  fun_induction skipString? s with
  | case1 => simp only [Option.some.injEq] at h; simp [← h]
  | case2 _ _ _ _ _ _ ih => have := ih h; simp only [List.length_cons]; omega
  | case3 => simp at h
  | case4 _ _ _ _ ih => have := ih h; simp only [List.length_cons]; omega
  | case5 => simp at h
  | case6 => simp at h
  | case7 _ _ _ _ _ _ ih => have := ih h; simp only [List.length_cons]; omega
  | case8 => simp at h

theorem length_of_placesPart? {s rest : List Char} {places : Option (List Char)}
    (h : placesPart? s = some (places, rest)) : rest.length ≤ s.length := by
  unfold placesPart? at h
  split at h
  · rename_i t
    have := Decimal.digitRun_length_le t
    dsimp only at h
    split at h
    · simp at h
    · simp only [Option.some.injEq, Prod.mk.injEq] at h
      simp only [List.length_cons, ← h.2]
      omega
  · simp only [Option.some.injEq, Prod.mk.injEq] at h
    simp [h.2]

theorem length_of_exponentPart? {s rest : List Char} {exponent : Option Int}
    (h : exponentPart? s = some (exponent, rest)) : rest.length ≤ s.length := by
  unfold exponentPart? at h
  split at h
  · rename_i c t
    have hs := Decimal.signRun_length_le t
    have hd := Decimal.digitRun_length_le (Decimal.signRun t).2
    dsimp only at h
    split at h
    · split at h
      · simp at h
      · simp only [Option.some.injEq, Prod.mk.injEq] at h
        simp only [List.length_cons, ← h.2]
        omega
    · simp only [Option.some.injEq, Prod.mk.injEq] at h
      simp [← h.2]
  · simp only [Option.some.injEq, Prod.mk.injEq] at h
    simp [← h.2]

theorem length_of_unsignedNumber? {s rest : List Char} {w : Written}
    (h : unsignedNumber? s = some (w, rest)) : rest.length < s.length := by
  unfold unsignedNumber? at h
  dsimp only at h
  split at h
  · simp at h
  · rename_i hrun
    obtain ⟨⟨places, t⟩, hp, h⟩ := Option.bind_eq_some_iff.1 h
    obtain ⟨⟨exponent, t'⟩, he, h⟩ := Option.map_eq_some_iff.1 h
    simp only [Prod.mk.injEq] at h
    have hp : t.length ≤ _ := length_of_placesPart? hp
    have he : t'.length ≤ t.length := length_of_exponentPart? he
    have hr : (Decimal.digitRun s).1 ≠ [] := by
      intro hr
      simp [hr] at hrun
    have hs := congrArg List.length (List.takeWhile_append_dropWhile (p := isAsciiDigit) (l := s))
    have hr := List.length_pos_iff.2 hr
    simp only [Decimal.digitRun, List.length_append] at hp hs hr
    rw [← h.2]
    omega

theorem length_of_skipScalar? {s rest : List Char} (h : skipScalar? s = some rest) :
    rest.length < s.length := by
  unfold skipScalar? at h
  split at h
  · simp only [Option.some.injEq] at h; simp only [List.length_cons, ← h]; omega
  · simp only [Option.some.injEq] at h; simp only [List.length_cons, ← h]; omega
  · simp only [Option.some.injEq] at h; simp only [List.length_cons, ← h]; omega
  · have := length_of_skipString? h
    simp only [List.length_cons]
    omega
  · obtain ⟨⟨w, t⟩, hw, rfl⟩ := Option.map_eq_some_iff.1 h
    have := length_of_unsignedNumber? hw
    simp only [List.length_cons]
    omega
  · obtain ⟨⟨w, t⟩, hw, rfl⟩ := Option.map_eq_some_iff.1 h
    exact length_of_unsignedNumber? hw

theorem length_of_skipKey? {s rest : List Char} (h : skipKey? s = some rest) :
    rest.length < s.length := by
  unfold skipKey? at h
  have hs := skipBlank_length_le s
  split at h
  · rename_i t ht
    obtain ⟨afterKey, hk, h⟩ := Option.bind_eq_some_iff.1 h
    have hk := length_of_skipString? hk
    have hb := skipBlank_length_le afterKey
    split at h
    · rename_i t' ht'
      simp only [Option.some.injEq] at h
      rw [ht, List.length_cons] at hs
      rw [ht', List.length_cons, h] at hb
      omega
    · simp at h
  · simp at h

theorem length_of_leave? {around around' : List Enclosure} {s rest : List Char}
    (h : leave? around s = some (around', rest)) : rest.length ≤ s.length := by
  induction around generalizing s with
  | nil =>
    simp only [leave?, Option.some.injEq, Prod.mk.injEq] at h
    simp [h.2]
  | cons e around ih =>
    have hs := skipBlank_length_le s
    unfold leave? at h
    split at h
    · rename_i c t ht
      rw [ht, List.length_cons] at hs
      split at h
      · simp only [Option.some.injEq, Prod.mk.injEq] at h
        rw [← h.2]
        omega
      · split at h
        · have := ih h
          omega
        · simp at h
    · simp at h

theorem length_of_enter? {e : Enclosure} {around around' : List Enclosure} {s rest : List Char}
    (h : enter? e around s = some (around', rest)) : rest.length ≤ s.length := by
  unfold enter? at h
  split at h
  · rename_i t ht
    have := length_of_leave? h
    have hs := skipBlank_length_le s
    unfold Enclosure.close? at ht
    split at ht
    · rename_i c t' ht'
      rw [ht', List.length_cons] at hs
      split at ht
      · simp only [Option.some.injEq] at ht
        rw [ht] at hs
        omega
      · simp at ht
    · simp at ht
  · simp only [Option.some.injEq, Prod.mk.injEq] at h
    simp [h.2]

theorem length_of_skipItem? {around around' : List Enclosure} {s rest : List Char}
    (h : skipItem? around s = some (around', rest)) : rest.length < s.length := by
  obtain ⟨t, ht, h⟩ := Option.bind_eq_some_iff.1 h
  have ht : t.length ≤ s.length := by
    split at ht
    · exact Nat.le_of_lt (length_of_skipKey? ht)
    · simp only [Option.some.injEq] at ht
      simp [ht]
  have hs := skipBlank_length_le t
  split at h
  · rename_i c u hu
    rw [hu, List.length_cons] at hs
    split at h
    · have := length_of_enter? h
      omega
    · split at h
      · have := length_of_enter? h
        omega
      · obtain ⟨u', hu', h⟩ := Option.bind_eq_some_iff.1 h
        have := length_of_skipScalar? hu'
        have := length_of_leave? h
        simp only [List.length_cons] at *
        omega
  · simp at h

/-- The rest of a text after the value that comes next in it and all containers around that. -/
def skipFrom? (around : List Enclosure) (s : List Char) : Option (List Char) :=
  match h : skipItem? around s with
  | none => none
  | some ([], rest) => some rest
  | some (e :: around, rest) =>
    have : rest.length < s.length := length_of_skipItem? h
    skipFrom? (e :: around) rest
termination_by s.length

/-- The rest of a text after one value. -/
def skipValue? (s : List Char) : Option (List Char) := skipFrom? [] s

theorem length_of_skipFrom? {around : List Enclosure} {s rest : List Char}
    (h : skipFrom? around s = some rest) : rest.length < s.length := by
  fun_induction skipFrom? around s with
  | case1 => simp at h
  | case2 _ _ _ hi =>
    simp only [Option.some.injEq] at h
    rw [← h]
    exact length_of_skipItem? hi
  | case3 _ _ _ _ _ _ hr ih => exact Nat.lt_trans (ih h) hr

/-! ## Selecting members -/

/-- One value: read if it is wanted, and else passed over. -/
def valueIf? (wanted : Bool) (s : List Char) : Option (Taken s (Option Json)) :=
  if wanted then (document? depthLimit s).map fun t => ⟨some t.value, t.rest, t.shorter⟩
  else
    match h : skipValue? s with
    | none => none
    | some rest => some ⟨none, rest, length_of_skipFrom? h⟩

/-- A key, after blanks, and the rest of a text after its colon. -/
def key? (s : List Char) : Option (String × List Char) :=
  match skipBlank s with
  | '"' :: rest =>
    (stringBody? [] rest).bind fun (key, afterKey) =>
      match skipBlank afterKey with
      | ':' :: rest' => some (String.ofList key, rest')
      | _ => none
  | _ => none

theorem length_of_stringBody? {read s value rest : List Char}
    (h : stringBody? read s = some (value, rest)) : rest.length < s.length := by
  fun_induction stringBody? read s with
  | case1 => simp only [Option.some.injEq, Prod.mk.injEq] at h; simp [← h.2]
  | case2 => simp at h
  | case3 => simp at h
  | case4 _ _ _ _ _ _ _ _ _ _ _ _ _ _ _ _ _ ih =>
    have := ih h
    simp only [List.length_cons]
    omega
  | case5 => simp at h
  | case6 => simp at h
  | case7 => simp at h
  | case8 _ _ _ _ _ _ _ _ _ _ ih => have := ih h; simp only [List.length_cons]; omega
  | case9 => simp at h
  | case10 _ _ _ _ _ _ ih => have := ih h; simp only [List.length_cons]; omega
  | case11 => simp at h
  | case12 _ _ _ _ _ _ _ ih => have := ih h; simp only [List.length_cons]; omega
  | case13 => simp at h

theorem length_of_key? {s rest : List Char} {key : String} (h : key? s = some (key, rest)) :
    rest.length < s.length := by
  unfold key? at h
  have hs := skipBlank_length_le s
  split at h
  · rename_i t ht
    obtain ⟨⟨k, afterKey⟩, hk, h⟩ := Option.bind_eq_some_iff.1 h
    have hk : afterKey.length < t.length := length_of_stringBody? hk
    have hb := skipBlank_length_le afterKey
    dsimp only at h
    split at h
    · rename_i t' ht'
      simp only [Option.some.injEq, Prod.mk.injEq] at h
      rw [ht, List.length_cons] at hs
      rw [ht', List.length_cons, h.2] at hb
      omega
    · simp at h
  · simp at h

/-- The wanted ones of the members that follow, up to the closing bracket, and the rest. The keys of
all are read. -/
def selectMembers? (wanted : String → Bool) (s : List Char) :
    Option (List (String × Json) × List Char) :=
  match hk : key? s with
  | none => none
  | some (key, afterKey) =>
    (valueIf? (wanted key) afterKey).bind fun value =>
      let member := value.value.toList.map fun v => (key, v)
      match hb : skipBlank value.rest with
      | [] => none
      | c :: rest =>
        if c = ',' then
          have : rest.length < s.length := by
            have := length_of_key? hk
            have := value.shorter
            have hs := skipBlank_length_le value.rest
            rw [hb, List.length_cons] at hs
            omega
          (selectMembers? wanted rest).map fun (members, rest') => (member ++ members, rest')
        else if c = Enclosure.object.closing then some (member, rest)
        else none
termination_by s.length

/-- The wanted members of an object that is a whole text. -/
def selectObject? (wanted : String → Bool) (s : List Char) : Option Json :=
  match Enclosure.object.close? s with
  | some rest => if (skipBlank rest).isEmpty then some (.object []) else none
  | none =>
    (selectMembers? wanted s).bind fun (members, rest) =>
      if (skipBlank rest).isEmpty then some (.object members) else none

/-- The document that a whole text is. Of an object only the wanted members are read. -/
def select? (wanted : String → Bool) (s : String) : Option Json :=
  match skipBlank s.toList with
  | c :: rest =>
    if c = Enclosure.object.opening then selectObject? wanted rest else parse? depthLimit s
  | [] => none

end LiveMarkup.Json
