import LiveMarkup.Proofs.Engine.BlockFiles
set_option autoImplicit false

/-! # Attributes of a start tag

The value of an attribute is searched for in the text of a start tag, not in its attributes. What the
search finds is the first place where the name stands behind a blank, behind another occurrence of
itself or at the very beginning, and in front of an equals sign (`Hit`). In attributes that were
written down one after the other, such a place is the attribute of that name, but it can also be the
end of a longer name (`namename="x"`) or lie in a value (`title="the name=b"`). Up to the first
attribute of the name or the first one that misleads in this way nothing is found, and
`attributeValue?_written` says what is found there. -/

namespace LiveMarkup.BlockFile

open Text

variable {key s t x y front behind more tail : List Char} {c q : Char}

/-! ## What the search finds -/

/-- What a name has to stand behind, if it does not stand at the beginning. -/
def Preceded (key front : List Char) : Prop :=
  (∃ c, front.getLast? = some c ∧ isBlank c = true) ∨ key <:+ front

/-- The name stands behind `front`, where the search takes it for an attribute, and `more` is what
follows its equals sign. -/
structure Hit (key s front more : List Char) : Prop where
  opens : front = [] ∨ Preceded key front
  exists_behind : ∃ behind, s = front ++ key ++ behind ∧ trimStart behind = '=' :: more

/-- A place of the text that is a hit whatever stands in front of the text, as long as the name does
not begin there. -/
def Within (key s front more : List Char) : Prop :=
  Preceded key front ∧ ∃ behind, s = front ++ key ++ behind ∧ trimStart behind = '=' :: more

theorem Within.hit (h : Within key s front more) : Hit key s front more := ⟨.inr h.1, h.2⟩

/-- A hit with no other one in front of it. -/
def FirstHit (key s front more : List Char) : Prop :=
  Hit key s front more ∧ ∀ front' more', Hit key s front' more' → front.length ≤ front'.length

/-- Reads what follows an equals sign. -/
def readValue (s : List Char) : Option (List Char) :=
  match trimStart s with
  | [] => none
  | quote :: inner =>
    if quote = '"' ∨ quote = '\'' then (cut? [quote] inner).map Prod.fst
    else some ((quote :: inner).takeWhile fun c => !(isBlank c || c == '/'))

theorem Hit.unique {more' : List Char} (h : Hit key s front more) (h' : Hit key s front more') :
    more = more' := by
  obtain ⟨behind, hs, hmore⟩ := h.exists_behind
  obtain ⟨behind', hs', hmore'⟩ := h'.exists_behind
  obtain rfl := List.append_cancel_left (hs.symm.trans hs')
  exact (List.cons.inj (hmore.symm.trans hmore')).2

theorem FirstHit.unique {front' more' : List Char} (h : FirstHit key s front more)
    (h' : FirstHit key s front' more') : more = more' := by
  obtain ⟨behind, hs, -⟩ := h.1.exists_behind
  obtain ⟨behind', hs', -⟩ := h'.1.exists_behind
  have hlength := Nat.le_antisymm (h.2 _ _ h'.1) (h'.2 _ _ h.1)
  rw [List.append_assoc] at hs hs'
  obtain ⟨rfl, -⟩ := List.append_inj (hs.symm.trans hs') hlength
  exact h.1.unique h'.1

theorem preceded_append (hq : q ∉ key) (hkey : key ≠ []) :
    Preceded key (x ++ q :: front) ↔ front = [] ∧ isBlank q = true ∨ Preceded key front := by
  have hsuffix : key <:+ x ++ q :: front ↔ key <:+ front := by
    constructor
    · rintro ⟨w, hw⟩
      have hw' : w ++ key ++ [] = x ++ q :: front := by rw [List.append_nil, hw]
      rcases occurrence_cases hq hkey hw' with ⟨rest, -, hnil⟩ | ⟨w', -, hfront⟩
      · simp at hnil
      · exact ⟨w', by rw [hfront, List.append_nil]⟩
    · exact fun h => h.trans ((List.suffix_cons q front).trans (List.suffix_append x _))
  unfold Preceded
  rw [hsuffix]
  cases front with
  | nil => simp [hkey]
  | cons z front => simp [List.getLast?_cons, List.getLast?_append]

/-- Behind an occurrence of the name a text counts as if it began there. -/
theorem preceded_append_name (hc : c ∉ s) :
    Preceded (c :: s) (x ++ (c :: s) ++ front) ↔ front = [] ∨ Preceded (c :: s) front := by
  constructor
  · rintro (⟨z, hz, hblank⟩ | ⟨w, hw⟩)
    · refine or_iff_not_imp_left.mpr fun hfront => .inl ⟨z, ?_, hblank⟩
      rwa [List.getLast?_append, Option.or_of_isSome (by simpa using hfront)] at hz
    · -- the name at the end does not overlap the one before
      rw [List.append_assoc] at hw
      rcases List.append_eq_append_iff.mp hw with ⟨u, -, hu⟩ | ⟨u, rfl, hu⟩
      · have hlength := congrArg List.length hu
        simp only [List.length_append] at hlength
        exact .inl (List.eq_nil_of_length_eq_zero (by omega))
      · have hu' : u ++ (c :: s ++ []) = c :: s ++ front := by rw [List.append_nil, hu]
        rcases eq_nil_or_prefix_of_overlap hc hu' with rfl | ⟨u', rfl⟩
        · exact .inl (by simpa using hu)
        · refine .inr (.inr ⟨u', ?_⟩)
          rw [List.append_assoc] at hu
          exact (List.append_cancel_left hu).symm
  · rintro (rfl | ⟨z, hz, hblank⟩ | hsuffix)
    · exact .inr (by simp)
    · exact .inl ⟨z, by rw [List.getLast?_append, hz, Option.some_or], hblank⟩
    · exact .inr (hsuffix.trans (List.suffix_append ..))

/-- No occurrence starts in front of the leftmost one. -/
theorem exists_of_leftmost {before rest : List Char} (hleft : Leftmost key t before rest)
    (heq : t = front ++ key ++ behind) :
    ∃ mid, front = before ++ mid ∧ mid ++ (key ++ behind) = key ++ rest := by
  have hsame : before ++ (key ++ rest) = front ++ (key ++ behind) := by
    rw [← List.append_assoc, ← List.append_assoc, ← heq, hleft.eq]
  have hle := hleft.least front behind heq
  rcases List.append_eq_append_iff.mp hsame with ⟨mid, rfl, hmid⟩ | ⟨mid, rfl, hmid⟩
  · exact ⟨mid, rfl, hmid.symm⟩
  · obtain rfl : mid = [] := by
      rw [List.length_append] at hle
      exact List.eq_nil_of_length_eq_zero (by omega)
    exact ⟨[], by simp, by simpa using hmid⟩

/-- Behind an occurrence that is passed over the search goes on as if the text began there. -/
theorem hit_iff_of_miss (hc : c ∉ s) {before rest : List Char}
    (hleft : Leftmost (c :: s) t before rest)
    (hmiss : ¬(before.getLast?.all isBlank = true ∧ ∃ more, trimStart rest = '=' :: more)) :
    Hit (c :: s) t front more ↔
      ∃ front', front = before ++ (c :: s) ++ front' ∧ Hit (c :: s) rest front' more := by
  constructor
  · rintro ⟨hopens, behind, heq, hmore⟩
    obtain ⟨mid, rfl, hmid⟩ := exists_of_leftmost hleft heq
    rcases eq_nil_or_prefix_of_overlap hc hmid with rfl | ⟨front', rfl⟩
    · -- the occurrence itself would have been taken
      obtain rfl : behind = rest := List.append_cancel_left hmid
      rw [List.append_nil] at hopens
      refine absurd ⟨?_, more, hmore⟩ hmiss
      rcases hopens with rfl | ⟨z, hz, hblank⟩ | hsuffix
      · rfl
      · rw [hz]
        exact hblank
      · exact absurd hsuffix.isInfix (hleft.absent (List.cons_ne_nil c s))
    · rw [← List.append_assoc] at hopens ⊢
      refine ⟨front', rfl, ?_, behind, ?_, hmore⟩
      · refine (preceded_append_name hc).mp (hopens.resolve_left ?_)
        simp
      · rw [List.append_assoc] at hmid
        rw [List.append_assoc]
        exact (List.append_cancel_left hmid).symm
  · rintro ⟨front', rfl, hopens, behind, rfl, hmore⟩
    refine ⟨.inr ((preceded_append_name hc).mpr hopens), behind, ?_, hmore⟩
    rw [hleft.eq]
    simp only [List.append_assoc]

/-- The leftmost occurrence is the first hit if it is one at all. -/
theorem firstHit_of_leftmost {before rest : List Char} (hleft : Leftmost key t before rest)
    (hblank : before.getLast?.all isBlank = true) (hequals : trimStart rest = '=' :: more) :
    FirstHit key t before more := by
  refine ⟨⟨?_, rest, hleft.eq, hequals⟩, ?_⟩
  · rcases List.eq_nil_or_concat before with rfl | ⟨init, z, rfl⟩
    · exact .inl rfl
    · exact .inr (.inl ⟨z, by simp, by simpa using hblank⟩)
  · intro front' more' hhit
    obtain ⟨behind, heq, -⟩ := hhit.exists_behind
    exact hleft.least front' behind heq

/-- Where all hits lie behind something, the first one is that of the text behind it. -/
theorem FirstHit.shift {lead rest : List Char}
    (hshift : ∀ front more, Hit key t front more ↔ ∃ f, front = lead ++ f ∧ Hit key rest f more)
    (h : FirstHit key rest front more) : FirstHit key t (lead ++ front) more := by
  refine ⟨(hshift _ _).mpr ⟨front, rfl, h.1⟩, fun front' more' hhit => ?_⟩
  obtain ⟨f, rfl, hf⟩ := (hshift front' more').mp hhit
  have hle := h.2 f more' hf
  simp only [List.length_append]
  omega

/-- The search finds the first hit and reads what follows. -/
theorem attributeValue?_cases (hc : c ∉ s) (t : List Char) :
    (attributeValue? (c :: s) t = none ∧ ∀ front more, ¬ Hit (c :: s) t front more) ∨
      ∃ front more, FirstHit (c :: s) t front more ∧
        attributeValue? (c :: s) t = readValue more := by
  have hkey : c :: s ≠ [] := List.cons_ne_nil c s
  induction hn : t.length using Nat.strong_induction_on generalizing t with
  | _ n ih =>
      subst hn
      rw [attributeValue?]
      split
      · next hcut =>
          refine .inl ⟨rfl, fun front more hhit => ?_⟩
          obtain ⟨behind, heq, -⟩ := hhit.exists_behind
          exact cut?_eq_none_iff.mp hcut ⟨front, behind, heq.symm⟩
      · next before rest hcut =>
          have hleft := leftmost_of_cut? hcut
          split
          · next more hblank hequals =>
              exact .inr ⟨before, more, firstHit_of_leftmost hleft hblank hequals, rfl⟩
          · next hother =>
              have hmiss : ¬(before.getLast?.all isBlank = true ∧
                  ∃ more, trimStart rest = '=' :: more) := by
                rintro ⟨hblank, more, hequals⟩
                exact hother more hblank hequals
              rw [dif_neg hkey]
              rcases ih rest.length (length_lt_of_cut? hkey hcut) rest rfl with
                ⟨hnone, habsent⟩ | ⟨front, more, hfirst, hread⟩
              · refine .inl ⟨hnone, fun front more hhit => ?_⟩
                obtain ⟨front', -, hhit'⟩ := (hit_iff_of_miss hc hleft hmiss).mp hhit
                exact habsent front' more hhit'
              · exact .inr ⟨_, more, hfirst.shift fun _ _ => hit_iff_of_miss hc hleft hmiss, hread⟩

theorem attributeValue?_of_firstHit (hc : c ∉ s) (h : FirstHit (c :: s) t front more) :
    attributeValue? (c :: s) t = readValue more := by
  rcases attributeValue?_cases hc t with ⟨-, habsent⟩ | ⟨front', more', hfirst, hread⟩
  · exact absurd h.1 (habsent front more)
  · rw [hread, hfirst.unique h]

/-- What all hits lie behind does not matter. -/
theorem attributeValue?_of_shift (hc : c ∉ s) {lead rest : List Char}
    (hshift : ∀ front more, Hit (c :: s) t front more ↔
      ∃ f, front = lead ++ f ∧ Hit (c :: s) rest f more) :
    attributeValue? (c :: s) t = attributeValue? (c :: s) rest := by
  rcases attributeValue?_cases hc rest with ⟨hnone, habsent⟩ | ⟨f, more, hfirst, hread⟩
  · rcases attributeValue?_cases hc t with ⟨hnone', -⟩ | ⟨front, more, hfirst, -⟩
    · rw [hnone, hnone']
    · obtain ⟨f, -, hf⟩ := (hshift front more).mp hfirst.1
      exact absurd hf (habsent f more)
  · rw [hread]
    exact attributeValue?_of_firstHit hc (hfirst.shift hshift)

/-! ## Attributes that are written down -/

/-- A character that an attribute name can have. -/
def Nameable (c : Char) : Prop := isBlank c = false ∧ c ∉ ['"', '\'', '=', '/', '>']

instance (c : Char) : Decidable (Nameable c) := inferInstanceAs (Decidable (_ ∧ _))

structure Attribute where
  name : List Char
  value : List Char
  quote : Char

namespace Attribute

/-- The text of an attribute, with the space before it. -/
def text (a : Attribute) : List Char :=
  ' ' :: (a.name ++ '=' :: a.quote :: (a.value ++ [a.quote]))

def written (attributes : List Attribute) : List Char := attributes.flatMap text

structure Plain (a : Attribute) : Prop where
  name_ne_nil : a.name ≠ []
  name : ∀ c ∈ a.name, Nameable c
  quote : a.quote = '"' ∨ a.quote = '\''
  value : ∀ c ∈ a.value, c ≠ '>' ∧ c ≠ a.quote

/-- The value has a place that the search takes for the attribute of the name, and `more` is what
follows its equals sign there. -/
def Inside (a : Attribute) (key front more : List Char) : Prop := Within key a.value front more

def FirstInside (a : Attribute) (key front more : List Char) : Prop :=
  a.Inside key front more ∧
    ∀ front' more', a.Inside key front' more' → front.length ≤ front'.length

/-- An attribute that is taken for that of the name whatever it is called: its name ends with the name
twice, or its value looks like an attribute. -/
def Misleads (a : Attribute) (key : List Char) : Prop :=
  key ++ key <:+ a.name ∨ ∃ front more, a.Inside key front more

/-- Where the name stands at the end of the name of an attribute, the search takes the attribute for
the one that it looks for. -/
def Ends (a : Attribute) (key front : List Char) : Prop :=
  a.name = front ++ key ∧ (front = [] ∨ key <:+ front)

/-- A name that can be searched for: its first character stands in it once. -/
structure Searched (c : Char) (s : List Char) : Prop where
  once : c ∉ s
  nameable : ∀ z ∈ c :: s, Nameable z

namespace Searched

variable (h : Searched c s)

include h

theorem not_mem {z : Char} (hz : ¬ Nameable z) : z ∉ c :: s := fun hmem => hz (h.nameable z hmem)

end Searched

variable {a : Attribute}

theorem exists_ends_iff : (∃ front, a.Ends key front) ↔ a.name = key ∨ key ++ key <:+ a.name := by
  constructor
  · rintro ⟨front, hname, rfl | ⟨w, rfl⟩⟩
    · exact .inl hname
    · exact .inr ⟨w, by rw [hname, List.append_assoc]⟩
  · rintro (hname | ⟨w, hw⟩)
    · exact ⟨[], hname, .inl rfl⟩
    · exact ⟨w ++ key, by rw [← hw, List.append_assoc], .inr (List.suffix_append ..)⟩

theorem trimStart_cons_of_not_blank (hq : isBlank q = false) (x : List Char) :
    trimStart (q :: x) = q :: x := by
  rw [trimStart, List.dropWhile_cons, if_neg (by simp [hq])]

/-- A character that is neither blank nor an equals sign stops the search for an equals sign. -/
theorem trimStart_append_eq_iff (hq : isBlank q = false) (hne : q ≠ '=') :
    trimStart (x ++ q :: y) = '=' :: more ↔
      ∃ inner, trimStart x = '=' :: inner ∧ more = inner ++ q :: y := by
  induction x with
  | nil =>
      rw [List.nil_append, trimStart_cons_of_not_blank hq]
      simp [trimStart, hne]
  | cons z x ih =>
      by_cases hz : isBlank z = true
      · have hdrop : ∀ w, trimStart (z :: w) = trimStart w := fun w => by
          rw [trimStart, List.dropWhile_cons, if_pos hz, trimStart]
        rw [List.cons_append, hdrop, hdrop]
        exact ih
      · rw [Bool.not_eq_true] at hz
        rw [List.cons_append, trimStart_cons_of_not_blank hz, trimStart_cons_of_not_blank hz]
        constructor
        · intro h
          obtain ⟨rfl, rfl⟩ := List.cons.inj h
          exact ⟨x, rfl, rfl⟩
        · rintro ⟨inner, h, rfl⟩
          obtain ⟨rfl, rfl⟩ := List.cons.inj h
          rfl

theorem Plain.quote_not_blank (h : a.Plain) : isBlank a.quote = false ∧ a.quote ≠ '=' := by
  rcases h.quote with hq | hq <;> rw [hq] <;> decide

theorem Plain.readValue (h : a.Plain) (tail : List Char) :
    readValue (a.quote :: (a.value ++ a.quote :: tail)) = some a.value := by
  have hleft : Leftmost [a.quote] (a.value ++ [a.quote] ++ tail) a.value tail :=
    leftmost_of_not_mem (fun hmem => (h.value _ hmem).2 rfl) tail
  have hcut : cut? [a.quote] (a.value ++ a.quote :: tail) = some (a.value, tail) := by
    rw [cut?_eq_some_iff]
    simpa using hleft
  unfold BlockFile.readValue
  rw [trimStart_cons_of_not_blank h.quote_not_blank.1]
  dsimp only
  rw [if_pos h.quote, hcut, Option.map_some]

/-- A character that the name does not have, and that is neither blank nor an equals sign, parts a
text: a place of it lies in front of the character or behind it. -/
theorem within_append_iff (hq : q ∉ key) (hkey : key ≠ []) (hsolid : isBlank q = false)
    (hne : q ≠ '=') :
    Within key (x ++ q :: y) front more ↔
      (∃ inner, Within key x front inner ∧ more = inner ++ q :: y) ∨
      ∃ f, Within key y f more ∧ front = x ++ q :: f := by
  have hlater : ∀ f, Preceded key (x ++ q :: f) ↔ Preceded key f := by
    intro f
    rw [preceded_append hq hkey, hsolid]
    simp
  constructor
  · rintro ⟨hpreceded, behind, heq, hmore⟩
    rcases occurrence_cases hq hkey heq.symm with ⟨rest, hx, rfl⟩ | ⟨f, rfl, hy⟩
    · obtain ⟨inner, hinner, rfl⟩ := (trimStart_append_eq_iff hsolid hne).mp hmore
      exact .inl ⟨inner, ⟨hpreceded, rest, hx, hinner⟩, rfl⟩
    · exact .inr ⟨f, ⟨(hlater f).mp hpreceded, behind, hy, hmore⟩, rfl⟩
  · rintro (⟨inner, ⟨hpreceded, rest, rfl, hinner⟩, rfl⟩ | ⟨f, ⟨hpreceded, behind, rfl, hmore⟩, rfl⟩)
    · refine ⟨hpreceded, rest ++ q :: y, by simp, ?_⟩
      exact (trimStart_append_eq_iff hsolid hne).mpr ⟨inner, hinner, rfl⟩
    · refine ⟨(hlater f).mpr hpreceded, behind, ?_, hmore⟩
      simp

theorem not_within_nil (hkey : key ≠ []) : ¬ Within key [] front more := by
  rintro ⟨-, behind, heq, -⟩
  simp [hkey] at heq

/-- Where an attribute begins, the name is hit at the end of the attribute name or behind the equals
sign. -/
theorem hit_name_iff (hs : Searched c s) (ha : a.Plain) :
    Hit (c :: s) (' ' :: (a.name ++ '=' :: tail)) front more ↔
      (∃ f, a.Ends (c :: s) f ∧ front = ' ' :: f ∧ more = tail) ∨
      ∃ f, Within (c :: s) tail f more ∧ front = ' ' :: (a.name ++ '=' :: f) := by
  have hkey : c :: s ≠ [] := List.cons_ne_nil c s
  have hspace : ' ' ∉ c :: s := hs.not_mem (by decide)
  have hequals : '=' ∉ c :: s := hs.not_mem (by decide)
  have hafter : ∀ f, Preceded (c :: s) (' ' :: f) ↔ f = [] ∨ Preceded (c :: s) f := by
    intro f
    have happend : Preceded (c :: s) ([] ++ ' ' :: f) ↔
        f = [] ∧ isBlank ' ' = true ∨ Preceded (c :: s) f := preceded_append hspace hkey
    simpa [isBlank] using happend
  have hlater : ∀ f, Preceded (c :: s) (a.name ++ '=' :: f) ↔ Preceded (c :: s) f := by
    intro f
    rw [preceded_append hequals hkey]
    simp [isBlank]
  constructor
  · rintro ⟨hopens, behind, heq, hmore⟩
    obtain ⟨f, rfl, htext⟩ : ∃ f, front = ' ' :: f ∧
        a.name ++ '=' :: tail = f ++ (c :: s) ++ behind := by
      rcases occurrence_cases hspace hkey (x := []) heq.symm with ⟨_, hnil, -⟩ | hlater
      · simp at hnil
      · exact hlater
    have hpreceded : f = [] ∨ Preceded (c :: s) f :=
      (hafter f).mp (hopens.resolve_left (List.cons_ne_nil ' ' f))
    rcases occurrence_cases hequals hkey htext.symm with ⟨rest, hname, rfl⟩ | ⟨g, rfl, htail⟩
    · -- only at its end is the name followed by an equals sign
      obtain rfl : rest = [] := by
        cases rest with
        | nil => rfl
        | cons z rest =>
            obtain ⟨hz, hsigns⟩ := ha.name z (by rw [hname]; simp)
            rw [List.cons_append, trimStart_cons_of_not_blank hz] at hmore
            obtain ⟨rfl, -⟩ := List.cons.inj hmore
            simp at hsigns
      rw [List.append_nil] at hname
      rw [List.nil_append, trimStart_cons_of_not_blank (by decide)] at hmore
      refine .inl ⟨f, ⟨hname, hpreceded.imp_right ?_⟩, rfl, (List.cons.inj hmore).2.symm⟩
      rintro (⟨z, hz, hblank⟩ | hsuffix)
      · have hmem : z ∈ a.name := by
          rw [hname]
          exact List.mem_append_left _ (List.mem_of_getLast? hz)
        rw [(ha.name z hmem).1] at hblank
        cases hblank
      · exact hsuffix
    · have hlast : Preceded (c :: s) g := (hlater g).mp (hpreceded.resolve_left (by simp))
      exact .inr ⟨g, ⟨hlast, behind, htail, hmore⟩, rfl⟩
  · rintro (⟨f, ⟨hname, hends⟩, rfl, rfl⟩ | ⟨f, ⟨hpreceded, behind, rfl, hmore⟩, rfl⟩)
    · refine ⟨.inr ((hafter f).mpr (hends.imp_right .inr)), '=' :: more, ?_, ?_⟩
      · rw [hname]
        simp
      · exact trimStart_cons_of_not_blank (by decide) _
    · refine ⟨.inr ((hafter _).mpr (.inr ((hlater f).mpr hpreceded))), behind, ?_, hmore⟩
      simp

/-- In the text of an attribute and what follows it, the name is hit at the end of the attribute name,
in the value, or behind the attribute. -/
theorem hit_text_iff (hs : Searched c s) (ha : a.Plain) :
    Hit (c :: s) (a.text ++ tail) front more ↔
      (∃ f, a.Ends (c :: s) f ∧ front = ' ' :: f ∧
        more = a.quote :: (a.value ++ a.quote :: tail)) ∨
      (∃ f inner, a.Inside (c :: s) f inner ∧ front = ' ' :: (a.name ++ '=' :: a.quote :: f) ∧
        more = inner ++ a.quote :: tail) ∨
      ∃ f, Within (c :: s) tail f more ∧ front = a.text ++ f := by
  have hkey : c :: s ≠ [] := List.cons_ne_nil c s
  have hquote : a.quote ∉ c :: s :=
    hs.not_mem (by rcases ha.quote with hq | hq <;> rw [hq] <;> decide)
  obtain ⟨hsolid, hne⟩ := ha.quote_not_blank
  have htext : a.text ++ tail = ' ' :: (a.name ++ '=' :: a.quote :: (a.value ++ a.quote :: tail)) := by
    simp [text]
  have hopened : ∀ f, Within (c :: s) (a.quote :: (a.value ++ a.quote :: tail)) f more ↔
      ∃ g, Within (c :: s) (a.value ++ a.quote :: tail) g more ∧ f = a.quote :: g := by
    intro f
    refine (within_append_iff hquote hkey hsolid hne (x := [])).trans (or_iff_right ?_)
    rintro ⟨inner, hnil, -⟩
    exact not_within_nil hkey hnil
  rw [htext, hit_name_iff hs ha]
  refine or_congr_right ⟨?_, ?_⟩
  · rintro ⟨f, hf, rfl⟩
    obtain ⟨g, hg, rfl⟩ := (hopened f).mp hf
    rcases (within_append_iff hquote hkey hsolid hne).mp hg with
      ⟨inner, hinside, rfl⟩ | ⟨f, htail, rfl⟩
    · exact .inl ⟨g, inner, hinside, rfl, rfl⟩
    · exact .inr ⟨f, htail, by simp [text]⟩
  · rintro (⟨f, inner, hinside, rfl, rfl⟩ | ⟨f, htail, rfl⟩)
    · refine ⟨a.quote :: f, (hopened _).mpr ⟨f, ?_, rfl⟩, rfl⟩
      exact (within_append_iff hquote hkey hsolid hne).mpr (.inl ⟨inner, hinside, rfl⟩)
    · refine ⟨a.quote :: (a.value ++ a.quote :: f), (hopened _).mpr ⟨_, ?_, rfl⟩, by simp [text]⟩
      exact (within_append_iff hquote hkey hsolid hne).mpr (.inr ⟨f, htail, rfl⟩)

/-! ## Attributes one after the other -/

variable {attributes pre rest : List Attribute}

/-- No hit is at the very beginning of attributes, since a space is there. -/
theorem within_of_hit_written (hs : Searched c s)
    (h : Hit (c :: s) (written attributes) front more) :
    Within (c :: s) (written attributes) front more := by
  refine ⟨h.opens.resolve_left ?_, h.exists_behind⟩
  rintro rfl
  obtain ⟨behind, heq, -⟩ := h.exists_behind
  cases attributes with
  | nil => simp [written] at heq
  | cons a rest =>
      obtain ⟨rfl, -⟩ := List.cons.inj heq
      exact hs.not_mem (z := ' ') (by decide) List.mem_cons_self

/-- What neither has the name nor misleads is passed over. -/
theorem attributeValue?_text (hs : Searched c s) (ha : a.Plain) (hname : a.name ≠ c :: s)
    (hclear : ¬ a.Misleads (c :: s)) (rest : List Attribute) :
    attributeValue? (c :: s) (written (a :: rest)) =
      attributeValue? (c :: s) (written rest) := by
  have hshift : ∀ front more, Hit (c :: s) (written (a :: rest)) front more ↔
      ∃ f, front = a.text ++ f ∧ Hit (c :: s) (written rest) f more := by
    intro front more
    rw [written, List.flatMap_cons, ← written, hit_text_iff hs ha]
    constructor
    · rintro (⟨f, hends, -⟩ | ⟨f, inner, hinside, -⟩ | ⟨f, hwithin, hfront⟩)
      · refine absurd (exists_ends_iff.mp ⟨f, hends⟩) ?_
        exact not_or.mpr ⟨hname, fun h => hclear (.inl h)⟩
      · exact absurd (.inr ⟨f, inner, hinside⟩) hclear
      · exact ⟨f, hfront, hwithin.hit⟩
    · rintro ⟨f, hfront, hhit⟩
      exact .inr (.inr ⟨f, within_of_hit_written hs hhit, hfront⟩)
  exact attributeValue?_of_shift hs.once hshift

theorem attributeValue?_append (hs : Searched c s)
    (hpre : ∀ a ∈ pre, a.Plain ∧ a.name ≠ c :: s ∧ ¬ a.Misleads (c :: s)) (rest : List Attribute) :
    attributeValue? (c :: s) (written (pre ++ rest)) =
      attributeValue? (c :: s) (written rest) := by
  induction pre with
  | nil => rfl
  | cons a pre ih =>
      obtain ⟨⟨ha, hname, hclear⟩, hpre⟩ := List.forall_mem_cons.mp hpre
      rw [List.cons_append, attributeValue?_text hs ha hname hclear]
      exact ih hpre

/-- The value of an attribute is found if its name is the one that is searched for, or ends with it
twice. -/
theorem attributeValue?_of_ends (hs : Searched c s) (ha : a.Plain)
    (hends : a.name = c :: s ∨ c :: s ++ c :: s <:+ a.name) (rest : List Attribute) :
    attributeValue? (c :: s) (written (a :: rest)) = some a.value := by
  obtain ⟨f, hf⟩ := exists_ends_iff.mpr hends
  have hfirst : FirstHit (c :: s) (a.text ++ written rest) (' ' :: f)
      (a.quote :: (a.value ++ a.quote :: written rest)) := by
    refine ⟨(hit_text_iff hs ha).mpr (.inl ⟨f, hf, rfl, rfl⟩), fun front' more' hhit => ?_⟩
    have hlength := congrArg List.length hf.1
    rw [List.length_append] at hlength
    rcases (hit_text_iff hs ha).mp hhit with ⟨f', hf', rfl, -⟩ | ⟨f', _, -, rfl, -⟩ | ⟨f', -, rfl⟩
    · rw [List.append_cancel_right (hf.1.symm.trans hf'.1)]
    · simp only [List.length_cons, List.length_append]
      omega
    · simp only [text, List.length_cons, List.length_append]
      omega
  rw [written, List.flatMap_cons, ← written, attributeValue?_of_firstHit hs.once hfirst]
  exact ha.readValue _

/-- If there is a place inside the value that looks like the attribute, its value is read there. -/
theorem attributeValue?_of_firstInside (hs : Searched c s) (ha : a.Plain)
    (hname : ¬(a.name = c :: s ∨ c :: s ++ c :: s <:+ a.name))
    (hinside : a.FirstInside (c :: s) front more) (rest : List Attribute) :
    attributeValue? (c :: s) (written (a :: rest)) =
      readValue (more ++ a.quote :: written rest) := by
  have hfirst : FirstHit (c :: s) (a.text ++ written rest)
      (' ' :: (a.name ++ '=' :: a.quote :: front)) (more ++ a.quote :: written rest) := by
    refine ⟨(hit_text_iff hs ha).mpr (.inr (.inl ⟨front, more, hinside.1, rfl, rfl⟩)), ?_⟩
    intro front' more' hhit
    obtain ⟨behind, hvalue, -⟩ := hinside.1.2
    have hlength := congrArg List.length hvalue
    simp only [List.length_append] at hlength
    rcases (hit_text_iff hs ha).mp hhit with
      ⟨f', hf', -⟩ | ⟨f', inner', hinside', rfl, -⟩ | ⟨f', -, rfl⟩
    · exact absurd (exists_ends_iff.mp ⟨f', hf'⟩) hname
    · have hle := hinside.2 f' inner' hinside'
      simp only [List.length_cons, List.length_append]
      omega
    · simp only [text, List.length_cons, List.length_append]
      omega
  rw [written, List.flatMap_cons, ← written, attributeValue?_of_firstHit hs.once hfirst]

/-- Where nothing misleads before it, the first attribute of the name is found. -/
theorem attributeValue?_of_clear (hs : Searched c s) (hplain : ∀ a ∈ attributes, a.Plain)
    (hclear : ∀ a ∈ attributes.takeWhile fun a => a.name ≠ c :: s, ¬ a.Misleads (c :: s)) :
    attributeValue? (c :: s) (written attributes) =
      (attributes.find? fun a => a.name = c :: s).map Attribute.value := by
  induction attributes with
  | nil =>
      rcases attributeValue?_cases hs.once (written []) with ⟨hnone, -⟩ | ⟨front, more, hfirst, -⟩
      · exact hnone
      · obtain ⟨behind, heq, -⟩ := hfirst.1.exists_behind
        simp [written] at heq
  | cons a rest ih =>
      obtain ⟨ha, hrest⟩ := List.forall_mem_cons.mp hplain
      by_cases hname : a.name = c :: s
      · rw [List.find?_cons_of_pos (by simpa using hname), Option.map_some]
        exact attributeValue?_of_ends hs ha (.inl hname) rest
      · rw [List.takeWhile_cons, if_pos (by simpa using hname)] at hclear
        obtain ⟨hfirst, hclear⟩ := List.forall_mem_cons.mp hclear
        rw [attributeValue?_text hs ha hname hfirst, List.find?_cons_of_neg (by simpa using hname)]
        exact ih hrest hclear

theorem not_mem_written (hplain : ∀ a ∈ attributes, a.Plain) : '>' ∉ written attributes := by
  intro hmem
  obtain ⟨a, ha, hmem⟩ := List.mem_flatMap.mp hmem
  have hname : '>' ∉ a.name := fun h => absurd ((hplain a ha).name _ h) (by decide)
  have hvalue : '>' ∉ a.value := fun h => ((hplain a ha).value _ h).1 rfl
  have hquote : '>' ≠ a.quote := by
    rcases (hplain a ha).quote with hq | hq <;> rw [hq] <;> decide
  simp [text, hname, hvalue, hquote] at hmem

/-- The first fragment of a file has the name that is found in the text of its start tag. -/
theorem name_fragmentsFrom (hplain : ∀ a ∈ attributes, a.Plain) (line : Nat) (inside : List Char) :
    (fragmentsFrom line
      (ComponentSource.templateOpen ++ (written attributes ++ '>' :: inside))).head?.map
        Fragment.name = some (attributeValue? "name".toList (written attributes)) := by
  have hopen : cut? ComponentSource.templateOpen
      (ComponentSource.templateOpen ++ (written attributes ++ '>' :: inside)) =
        some ([], written attributes ++ '>' :: inside) :=
    cut?_eq_some_iff.mpr ⟨rfl, fun _ _ _ => Nat.zero_le _⟩
  have htag : cut? ['>'] (written attributes ++ '>' :: inside) =
      some (written attributes, inside) := by
    rw [cut?_eq_some_iff]
    have hleft : Leftmost ['>'] (written attributes ++ ['>'] ++ inside) (written attributes) inside :=
      leftmost_of_not_mem (not_mem_written hplain) inside
    simpa using hleft
  have hends : ComponentSource.endsTagName (written attributes ++ '>' :: inside) = true := by
    cases attributes with
    | nil => rfl
    | cons a rest => rfl
  rw [fragmentsFrom]
  split
  · next hnone =>
      rw [hopen] at hnone
      cases hnone
  · next before afterName hcut =>
      rw [hopen] at hcut
      cases hcut
      rw [if_pos hends]
      split
      · next hnone =>
          rw [htag] at hnone
          cases hnone
      · next tag inner hcut =>
          rw [htag] at hcut
          cases hcut
          dsimp only
          split <;> rfl

theorem searched_name : Searched 'n' "ame".toList := ⟨by decide, by simp [Nameable, isBlank]⟩

end Attribute

open Attribute in
/-- A fragment has the name that is found in the attributes of its start tag: the value of the first
attribute called `name`, or nothing if there is no such attribute, unless one in front of it misleads.
The first attribute that misleads is found in its place. If its name ends with the word twice its value
is taken, and else what is read inside of its value and behind it. -/
theorem attributeValue?_written {attributes : List Attribute} (hplain : ∀ a ∈ attributes, a.Plain) :
    let key := "name".toList
    (∀ line inside, (fragmentsFrom line
      (ComponentSource.templateOpen ++ (written attributes ++ '>' :: inside))).head?.map
        Fragment.name = some (attributeValue? key (written attributes))) ∧
    ((∀ a ∈ attributes.takeWhile fun a => a.name ≠ key, ¬ a.Misleads key) →
      attributeValue? key (written attributes) =
        (attributes.find? fun a => a.name = key).map Attribute.value) ∧
    ∀ pre a rest, attributes = pre ++ a :: rest →
      (∀ b ∈ pre, b.name ≠ key ∧ ¬ b.Misleads key) → a.name ≠ key →
        (key ++ key <:+ a.name → attributeValue? key (written attributes) = some a.value) ∧
        (¬ key ++ key <:+ a.name → ∀ front more, a.FirstInside key front more →
          attributeValue? key (written attributes) = readValue (more ++ a.quote :: written rest)) := by
  intro key
  refine ⟨name_fragmentsFrom hplain, ?_⟩
  obtain ⟨c, s, hkey, hs⟩ : ∃ c s, key = c :: s ∧ Searched c s := ⟨_, _, rfl, searched_name⟩
  clear_value key
  subst hkey
  refine ⟨attributeValue?_of_clear hs hplain, ?_⟩
  rintro pre a rest rfl hpre hname
  obtain ⟨hplain, hrest⟩ := List.forall_mem_append.mp hplain
  have ha := (List.forall_mem_cons.mp hrest).1
  have hpassed := attributeValue?_append hs (fun b hb => ⟨hplain b hb, hpre b hb⟩) (a :: rest)
  constructor
  · intro htwice
    exact hpassed.trans (attributeValue?_of_ends hs ha (.inr htwice) rest)
  · intro honce front more hinside
    have hother := not_or.mpr ⟨hname, honce⟩
    exact hpassed.trans (attributeValue?_of_firstInside hs ha hother hinside rest)

open Attribute in
/-- A name that ends with the word once does not mislead. A title with something that looks like the
attribute does: what is found is the rest of the title with its quote. -/
theorem attributeValue?_written_titled :
    let key := "name".toList
    let data : Attribute := ⟨"data-name".toList, "x".toList, '"'⟩
    let title : Attribute := ⟨"title".toList, "the name=b".toList, '"'⟩
    let own : Attribute := ⟨key, "y".toList, '\''⟩
    (∀ a ∈ [data, title, own], a.Plain) ∧
      attributeValue? key (written [data, own]) = some "y".toList ∧
      attributeValue? key (written [data, title, own]) = some "b\"".toList := by
  intro key data title own
  have hplain : ∀ a ∈ [data, title, own], a.Plain := by
    simp only [List.forall_mem_cons, List.not_mem_nil, false_implies, implies_true, and_true]
    refine ⟨⟨nofun, ?_, .inl rfl, ?_⟩, ⟨nofun, ?_, .inl rfl, ?_⟩, ⟨nofun, ?_, .inr rfl, ?_⟩⟩ <;>
      simp [data, title, own, key, Nameable, isBlank]
  have hdata : data.name ≠ key ∧ ¬ data.Misleads key := by
    refine ⟨by decide, not_or.mpr ⟨by decide, ?_⟩⟩
    rintro ⟨front, more, -, behind, hvalue, -⟩
    have habsent : ¬ key <:+: data.value := by decide
    exact habsent ⟨front, behind, hvalue.symm⟩
  have hfirst : title.FirstInside key "the ".toList "b".toList := by
    have hleft : Leftmost key title.value "the ".toList "=b".toList := by
      rw [← cut?_eq_some_iff]
      decide
    refine ⟨⟨.inl ⟨' ', by decide, by decide⟩, "=b".toList, by decide, by decide⟩, ?_⟩
    rintro front more ⟨-, behind, hvalue, -⟩
    exact hleft.least front behind hvalue
  refine ⟨hplain, ?_, ?_⟩
  · have hboth : ∀ a ∈ [data, own], a.Plain := fun a ha => hplain a (by
      simp only [List.mem_cons] at ha ⊢
      tauto)
    obtain ⟨-, hclear, -⟩ := attributeValue?_written hboth
    refine (hclear fun a ha => ?_).trans (by decide)
    obtain rfl : a = data := by simpa [data, own, key] using ha
    exact hdata.2
  · obtain ⟨-, -, hmisled⟩ := attributeValue?_written hplain
    obtain ⟨-, hinside⟩ := hmisled [data] title [own] rfl
      (fun b hb => by rw [List.mem_singleton.mp hb]; exact hdata) (by decide)
    exact (hinside (by decide) _ _ hfirst).trans (by decide +kernel)

open Attribute in
/-- Attributes of other names are taken for `name`: one that has its name twice at its end, and one
with a value that looks like the attribute. -/
theorem attributeValue?_of_others :
    let key := "name".toList
    let longer : Attribute := ⟨"namename".toList, "x".toList, '"'⟩
    let title : Attribute := ⟨"title".toList, "the name=b".toList, '"'⟩
    let own : Attribute := ⟨key, "card".toList, '"'⟩
    (∀ a ∈ [longer, title, own], a.Plain) ∧
      (([longer].find? fun a => a.name = key).map Attribute.value = none ∧
        attributeValue? key (written [longer]) = some "x".toList) ∧
      (([title, own].find? fun a => a.name = key).map Attribute.value = some "card".toList ∧
        attributeValue? key (written [title, own]) = some "b\"".toList) := by
  intro key longer title own
  refine ⟨?_, ⟨by decide, by decide +kernel⟩, ⟨by decide, by decide +kernel⟩⟩
  simp only [List.forall_mem_cons, List.not_mem_nil, false_implies, implies_true, and_true]
  refine ⟨⟨nofun, ?_, .inl rfl, ?_⟩, ⟨nofun, ?_, .inl rfl, ?_⟩, ⟨nofun, ?_, .inl rfl, ?_⟩⟩ <;>
    simp [longer, title, own, key, Nameable, isBlank]

end LiveMarkup.BlockFile
