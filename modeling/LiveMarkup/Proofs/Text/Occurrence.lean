import LiveMarkup.Text.Search
import Mathlib.Data.List.Infix
set_option autoImplicit false

/-! # Leftmost occurrences

A cut of a text is one at the leftmost occurrence of the pattern, and there is no cut only where
there is no occurrence (`cut?_eq_some_iff`, `cut?_eq_none_iff`). A text that a source holds is told
by the source text around it, its span by the bytes before and in it. -/

namespace LiveMarkup.Text

/-- A pattern stands in a text between `before` and `after`, and nowhere further to the left. -/
structure Leftmost (pat s before after : List Char) : Prop where
  eq : s = before ++ pat ++ after
  least : ∀ b a, s = b ++ pat ++ a → before.length ≤ b.length

theorem after?_eq_some_iff {lead s rest : List Char} :
    after? lead s = some rest ↔ s = lead ++ rest := by
  refine ⟨eq_append_of_after?, ?_⟩
  rintro rfl
  induction lead with
  | nil => rfl
  | cons a lead ih => simpa [after?] using ih

theorem after?_eq_none_iff {lead s : List Char} : after? lead s = none ↔ ¬ lead <+: s := by
  rw [Option.eq_none_iff_forall_ne_some, List.IsPrefix, not_exists]
  exact forall_congr' fun rest => not_congr (after?_eq_some_iff.trans eq_comm)

theorem cut?_eq_none_iff {pat s : List Char} : cut? pat s = none ↔ ¬ pat <:+: s := by
  induction s with
  | nil => cases pat <;> simp [cut?]
  | cons c s ih =>
      rw [List.infix_cons_iff, not_or, ← after?_eq_none_iff, ← ih, cut?]
      cases after? pat (c :: s) <;> simp

theorem leftmost_of_cut? {pat s before after : List Char} (h : cut? pat s = some (before, after)) :
    Leftmost pat s before after := by
  refine ⟨eq_of_cut? h, ?_⟩
  induction s generalizing before with
  | nil =>
      intro b a _
      unfold cut? at h
      split at h
      · obtain ⟨rfl, -⟩ := Prod.mk.inj (Option.some.inj h)
        exact Nat.zero_le _
      · cases h
  | cons c s ih =>
      intro b a heq
      unfold cut? at h
      split at h
      · obtain ⟨rfl, -⟩ := Prod.mk.inj (Option.some.inj h)
        exact Nat.zero_le _
      · next hmiss =>
          obtain ⟨⟨before', after'⟩, hcut, hpair⟩ := Option.map_eq_some_iff.mp h
          obtain ⟨rfl, rfl⟩ := Prod.mk.inj hpair
          cases b with
          | nil =>
              -- the pattern does not stand at the start
              exact absurd ⟨a, heq.symm⟩ (after?_eq_none_iff.mp hmiss)
          | cons x b =>
              have hrest : s = b ++ pat ++ a := (List.cons.inj heq).2
              exact Nat.succ_le_succ (ih hcut b a hrest)

theorem Leftmost.unique {pat s before after before' after' : List Char}
    (h : Leftmost pat s before after) (h' : Leftmost pat s before' after') :
    before = before' ∧ after = after' := by
  have hlength : before.length = before'.length :=
    Nat.le_antisymm (h.least _ _ h'.eq) (h'.least _ _ h.eq)
  have heq : before ++ (pat ++ after) = before' ++ (pat ++ after') := by
    rw [← List.append_assoc, ← List.append_assoc, ← h.eq, ← h'.eq]
  obtain ⟨hbefore, hbehind⟩ := List.append_inj heq hlength
  exact ⟨hbefore, List.append_cancel_left hbehind⟩

theorem cut?_eq_some_iff {pat s before after : List Char} :
    cut? pat s = some (before, after) ↔ Leftmost pat s before after := by
  refine ⟨leftmost_of_cut?, fun h => ?_⟩
  cases hcut : cut? pat s with
  | none => exact absurd ⟨before, after, h.eq.symm⟩ (cut?_eq_none_iff.mp hcut)
  | some found =>
      obtain ⟨rfl, rfl⟩ := (leftmost_of_cut? hcut).unique h
      rfl

/-- An occurrence of a pattern lies in front of a character that the pattern does not have, or behind
it. -/
theorem occurrence_cases {pat before after x y : List Char} {c : Char} (hc : c ∉ pat)
    (hpat : pat ≠ []) (h : before ++ pat ++ after = x ++ c :: y) :
    (∃ rest, x = before ++ pat ++ rest ∧ after = rest ++ c :: y) ∨
      ∃ before', before = x ++ c :: before' ∧ y = before' ++ pat ++ after := by
  rw [List.append_assoc] at h
  rcases List.append_eq_append_iff.mp h with ⟨t, rfl, ht⟩ | ⟨t, rfl, ht⟩
  · rcases List.append_eq_append_iff.mp ht with ⟨u, rfl, hu⟩ | ⟨u, rfl, hu⟩
    · exact .inl ⟨u, by rw [List.append_assoc], hu⟩
    · cases u with
      | nil => exact .inl ⟨[], by simp, by simpa using hu.symm⟩
      | cons z u =>
          obtain ⟨rfl, -⟩ := List.cons.inj hu
          exact absurd (List.mem_append_right t List.mem_cons_self) hc
  · cases t with
    | nil =>
        obtain ⟨z, pat, rfl⟩ := List.exists_cons_of_ne_nil hpat
        obtain ⟨rfl, -⟩ := List.cons.inj ht
        exact absurd List.mem_cons_self hc
    | cons z t =>
        obtain ⟨rfl, rfl⟩ := List.cons.inj ht
        exact .inr ⟨t, rfl, (List.append_assoc t pat after).symm⟩

/-- Two occurrences of a pattern that has its first character only once do not overlap. -/
theorem eq_nil_or_prefix_of_overlap {c : Char} {pat mid x y : List Char} (hc : c ∉ pat)
    (h : mid ++ (c :: pat ++ x) = c :: pat ++ y) : mid = [] ∨ ∃ rest, mid = c :: pat ++ rest := by
  rcases List.append_eq_append_iff.mp h with ⟨u, hmid, hu⟩ | ⟨u, rfl, -⟩
  · cases mid with
    | nil => exact .inl rfl
    | cons z mid =>
        obtain ⟨rfl, hpat⟩ := List.cons.inj hmid
        cases u with
        | nil => exact .inr ⟨[], by simp [hpat]⟩
        | cons w u =>
            obtain ⟨rfl, -⟩ := List.cons.inj hu
            exact absurd (hpat ▸ List.mem_append_right mid List.mem_cons_self) hc
  · exact .inr ⟨u, rfl⟩

/-- A pattern whose first character stands nowhere before it has no occurrence further left. -/
theorem leftmost_of_not_mem {c : Char} {pat before : List Char} (h : c ∉ before)
    (after : List Char) : Leftmost (c :: pat) (before ++ (c :: pat) ++ after) before after := by
  refine ⟨rfl, fun b a heq => ?_⟩
  by_contra hless
  rw [Nat.not_le] at hless
  have hat := congrArg (fun s => s[b.length]?) heq
  simp only [List.append_assoc, List.cons_append, List.getElem?_append_left hless,
    List.getElem?_append_right (Nat.le_refl b.length), Nat.sub_self, List.getElem?_cons_zero] at hat
  exact h (List.mem_of_getElem? hat)

/-- A pattern whose characters do not stand before it has no occurrence further left. -/
theorem leftmost_of_disjoint {pat before : List Char} (hpat : pat ≠ [])
    (h : ∀ c ∈ before, c ∉ pat) (after : List Char) :
    Leftmost pat (before ++ pat ++ after) before after := by
  obtain ⟨c, rest, rfl⟩ := List.exists_cons_of_ne_nil hpat
  exact leftmost_of_not_mem (fun hmem => h c hmem List.mem_cons_self) after

theorem not_infix_of_disjoint {pat s : List Char} (hpat : pat ≠ []) (h : ∀ c ∈ s, c ∉ pat) :
    ¬ pat <:+: s := by
  intro hin
  obtain ⟨c, hc⟩ := List.exists_mem_of_ne_nil pat hpat
  exact h c (hin.subset hc) hc

/-- What stands before the leftmost occurrence holds no other one. -/
theorem Leftmost.absent {pat s before after : List Char} (hpat : pat ≠ [])
    (h : Leftmost pat s before after) : ¬ pat <:+: before := by
  rintro ⟨b, a, rfl⟩
  have hleast := h.least b (a ++ pat ++ after) (by rw [h.eq]; simp only [List.append_assoc])
  have hlength := List.length_pos_iff.mpr hpat
  simp only [List.length_append] at hleast
  omega

/-! ## Other surroundings -/

/-- Whether an occurrence is the leftmost one does not depend on what stands behind it. -/
theorem Leftmost.behind {pat s before after : List Char} (h : Leftmost pat s before after)
    (after' : List Char) : Leftmost pat (before ++ pat ++ after') before after' := by
  refine ⟨rfl, fun b a heq => ?_⟩
  by_contra hless
  rw [Nat.not_le] at hless
  -- an occurrence further left ends within the one that is found
  have hlength : (b ++ pat).length ≤ (before ++ pat).length := by
    simp only [List.length_append]
    omega
  obtain ⟨rest, hrest⟩ := List.prefix_of_prefix_length_le (heq ▸ List.prefix_append (b ++ pat) a)
    (List.prefix_append (before ++ pat) after') hlength
  have hleast := h.least b (rest ++ after) (by rw [h.eq, ← hrest, List.append_assoc])
  omega

/-- What stands in front of a text is not needed to find the leftmost occurrence in it. -/
theorem Leftmost.drop {pat front s before after : List Char}
    (h : Leftmost pat (front ++ s) (front ++ before) after) : Leftmost pat s before after := by
  refine ⟨?_, fun b a heq => ?_⟩
  · have heq := h.eq
    rwa [List.append_assoc, List.append_assoc, List.append_cancel_left_eq,
      ← List.append_assoc] at heq
  · have hleast := h.least (front ++ b) a (by rw [heq]; simp only [List.append_assoc])
    simp only [List.length_append] at hleast
    omega

/-- A text without the pattern, and a character that the pattern does not have, may be put in front
of a text. -/
theorem Leftmost.prepend {pat front s before after : List Char} {c : Char} (hc : c ∉ pat)
    (hfront : ¬ pat <:+: front) (h : Leftmost pat s before after) :
    Leftmost pat (front ++ c :: s) (front ++ c :: before) after := by
  refine ⟨by rw [h.eq]; simp only [List.append_assoc, List.cons_append], fun b a heq => ?_⟩
  have hpat : pat ≠ [] := by
    rintro rfl
    exact hfront List.nil_infix
  rcases occurrence_cases hc hpat heq.symm with ⟨rest, hbefore, -⟩ | ⟨b', rfl, heq'⟩
  · exact absurd ⟨b, rest, hbefore.symm⟩ hfront
  · have hleast := h.least b' a heq'
    simp only [List.length_append, List.length_cons]
    omega

theorem not_infix_cons {pat s : List Char} {c : Char} (hc : c ∉ pat) (h : ¬ pat <:+: s) :
    ¬ pat <:+: c :: s := by
  rw [List.infix_cons_iff, not_or]
  refine ⟨fun hprefix => ?_, h⟩
  cases pat with
  | nil => exact h List.nil_infix
  | cons a pat => exact hc ((List.cons_prefix_cons.mp hprefix).1 ▸ List.mem_cons_self)

/-- Characters that the pattern does not have may be put between it and a text without it. -/
theorem leftmost_of_spare {pat front spare : List Char} (hspare : ∀ c ∈ spare, c ∉ pat)
    (hne : spare ≠ []) (hfront : ¬ pat <:+: front) (after : List Char) :
    Leftmost pat (front ++ spare ++ pat ++ after) (front ++ spare) after := by
  obtain ⟨c, spare, rfl⟩ := List.exists_cons_of_ne_nil hne
  obtain ⟨hc, hspare⟩ := List.forall_mem_cons.mp hspare
  have hpat : pat ≠ [] := fun hnil => hfront (hnil ▸ List.nil_infix)
  have h := (leftmost_of_disjoint hpat hspare after).prepend hc hfront
  simpa only [List.append_assoc, List.cons_append] using h

end LiveMarkup.Text
