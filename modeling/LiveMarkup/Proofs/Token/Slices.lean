import LiveMarkup.Proofs.Token.Cover
set_option autoImplicit false

/-! # Tokens of a slice

Some tokens of a text that stand together reach over a slice of it (`Span.Reaches`). What was read
before the slice and what follows it has no say in them: the slice on its own is read as just these
tokens, with their spans counted from its start (`Token.scan_slice`). -/

namespace LiveMarkup

open Text

/-! ## Stretches of tokens -/

/-- Lexemes that stand one behind the other, none with its end before its start. -/
structure Lexeme.InOrder (w : List Lexeme) : Prop where
  extent : ∀ l ∈ w, l.span.start ≤ l.span.stop
  order : w.Pairwise fun l l' => l.span.stop ≤ l'.span.start

theorem Lexeme.InOrder.stretch {w w' : List Lexeme} (h : InOrder w) (hw : w' <:+: w) : InOrder w' where
  extent l hl := h.extent l (hw.subset hl)
  order := h.order.sublist hw.sublist

/-- A span reaches from the start of the first lexeme to the end of the last one. -/
def Span.Reaches (s : Span) (w : List Lexeme) : Prop :=
  ∃ first last, w.head? = some first ∧ w.getLast? = some last ∧
    s = ⟨first.span.start, last.span.stop⟩

/-- A span lies within another. -/
def Span.Inside (s t : Span) : Prop := t.start ≤ s.start ∧ s.stop ≤ t.stop

namespace Span.Reaches

variable {s t : Span} {w w₁ w₂ : List Lexeme}

theorem single (l : Lexeme) : l.span.Reaches [l] := ⟨l, l, rfl, rfl, rfl⟩

/-- What is between two stretches does not show in the merged span. -/
theorem merge (h₁ : s.Reaches w₁) (between : List Lexeme) (h₂ : t.Reaches w₂)
    (horder : Lexeme.InOrder (w₁ ++ (between ++ w₂))) :
    (s.merge t).Reaches (w₁ ++ (between ++ w₂)) := by
  obtain ⟨first, last, hfirst, hlast, rfl⟩ := h₁
  obtain ⟨first', last', hfirst', hlast', rfl⟩ := h₂
  have hapart : ∀ l ∈ w₁, ∀ l' ∈ w₂, l.span.stop ≤ l'.span.start := fun l hl l' hl' =>
    (List.pairwise_append.mp horder.order).2.2 l hl l' (List.mem_append_right _ hl')
  have hextent : ∀ l ∈ w₁, l.span.start ≤ l.span.stop := fun l hl =>
    horder.extent l (List.mem_append_left _ hl)
  have hextent' : ∀ l ∈ w₂, l.span.start ≤ l.span.stop := fun l hl =>
    horder.extent l (List.mem_append_right _ (List.mem_append_right _ hl))
  have hstart := Nat.le_trans (hextent _ (List.mem_of_head? hfirst))
    (hapart _ (List.mem_of_head? hfirst) _ (List.mem_of_head? hfirst'))
  have hstop := Nat.le_trans
    (hapart _ (List.mem_of_getLast? hlast) _ (List.mem_of_getLast? hlast'))
    (hextent' _ (List.mem_of_getLast? hlast'))
  refine ⟨first, last', ?_, ?_, ?_⟩
  · rw [List.head?_append, hfirst]
    rfl
  · rw [List.getLast?_append, List.getLast?_append, hlast']
    rfl
  · simp only [Span.merge, Nat.min_eq_left hstart, Nat.max_eq_right hstop]

/-- What reaches over some of the lexemes lies within what reaches over all of them. -/
theorem inside (h₁ : s.Reaches w₁) (h : t.Reaches w) (hw : w₁ <:+: w)
    (horder : Lexeme.InOrder w) : s.Inside t := by
  obtain ⟨first₁, last₁, hfirst₁, hlast₁, rfl⟩ := h₁
  obtain ⟨first, last, hfirst, hlast, rfl⟩ := h
  constructor
  · -- nothing starts before the first one
    obtain ⟨rest, rfl⟩ : ∃ rest, w = first :: rest := by
      cases w with
      | nil => cases hfirst
      | cons l rest => exact ⟨rest, by rw [Option.some.inj hfirst]⟩
    rcases List.mem_cons.mp (hw.subset (List.mem_of_head? hfirst₁)) with rfl | hmem
    · exact Nat.le_refl _
    · exact Nat.le_trans (horder.extent _ List.mem_cons_self)
        ((List.pairwise_cons.mp horder.order).1 _ hmem)
  · -- nothing ends behind the last one
    obtain ⟨front, rfl⟩ := List.getLast?_eq_some_iff.mp hlast
    rcases List.mem_append.mp (hw.subset (List.mem_of_getLast? hlast₁)) with hmem | hmem
    · have hself := List.mem_singleton_self last
      exact Nat.le_trans ((List.pairwise_append.mp horder.order).2.2 _ hmem _ hself)
        (horder.extent _ (List.mem_append_right _ hself))
    · obtain rfl := List.mem_singleton.mp hmem
      exact Nat.le_refl _

end Span.Reaches

/-! ## Tokens of a slice -/

/-- The same token with another span. -/
def Lexeme.mapSpan (f : Span → Span) (l : Lexeme) : Lexeme := ⟨l.token, f l.span⟩

/-- A span as it is seen from byte `start` on. -/
def Span.back (start : Nat) (s : Span) : Span := ⟨s.start - start, s.stop - start⟩

theorem Span.back_merge (start : Nat) (s t : Span) :
    back start (s.merge t) = (back start s).merge (back start t) := by
  simp only [back, merge, Span.mk.injEq]
  omega

theorem Span.back_behind {front before text : List Char}
    (h : byteLength (front ++ before ++ text) < UInt32.size) :
    back (byteLength front) (behind 0 (front ++ before) text) = behind 0 before text := by
  have hsmaller : 0 + byteLength (before ++ text) < UInt32.size := by
    rw [List.append_assoc, byteLength_append] at h
    omega
  rw [behind_eq (by omega), behind_eq hsmaller]
  simp only [back, byteLength_append, Span.mk.injEq]
  omega

namespace Token

namespace Reads

variable {base : Nat} {before rest before' rest' : List Char} {lexemes w₁ w₂ : List Lexeme}

/-- A reading of some tokens and then of others. -/
theorem split (h : Reads base before rest (w₁ ++ w₂) before' rest') :
    ∃ middle behind, Reads base before rest w₁ middle behind ∧
      Reads base middle behind w₂ before' rest' := by
  generalize hw : w₁ ++ w₂ = lexemes at h
  induction h generalizing w₁ with
  | here =>
      obtain ⟨rfl, rfl⟩ := List.append_eq_nil_iff.mp hw
      exact ⟨_, _, .here, .here⟩
  | gap hgap _ ih =>
      obtain ⟨middle, behind, hfirst, hsecond⟩ := ih hw
      exact ⟨middle, behind, .gap hgap hfirst, hsecond⟩
  | token hlongest hvalue hreads ih =>
      cases w₁ with
      | nil =>
          obtain rfl : w₂ = _ := hw
          exact ⟨_, _, .here, .token hlongest hvalue hreads⟩
      | cons l w₁ =>
          obtain ⟨rfl, rfl⟩ := List.cons.inj hw
          obtain ⟨middle, behind, hfirst, hsecond⟩ := ih rfl
          exact ⟨middle, behind, .token hlongest hvalue hfirst, hsecond⟩

/-- A reading that finds a token may as well start at the token. -/
theorem from_token {l : Lexeme} (h : Reads base before rest (l :: lexemes) before' rest') :
    ∃ gaps text behind, rest = gaps ++ (text ++ behind) ∧
      l.span = .behind base (before ++ gaps) text ∧
      Reads base (before ++ gaps) (text ++ behind) (l :: lexemes) before' rest' := by
  generalize hw : l :: lexemes = found at h
  induction h with
  | here => cases hw
  | @gap c _ _ _ _ _ _ _ ih =>
      obtain ⟨gaps, text, behind, rfl, hspan, hreads⟩ := ih hw
      simp only [List.append_assoc, List.singleton_append] at hspan hreads
      exact ⟨c :: gaps, text, behind, rfl, hspan, hreads⟩
  | @token _ text token before rest _ _ _ hlongest hvalue hreads =>
      obtain ⟨rfl, rfl⟩ := List.cons.inj hw
      refine ⟨[], text, rest, rfl, ?_, ?_⟩
      · rw [List.append_nil]
      · rw [List.append_nil]
        exact .token hlongest hvalue hreads

/-- A reading that finds a token last may as well end behind the token. -/
theorem to_token {l : Lexeme} (h : Reads base before rest (lexemes ++ [l]) before' rest') :
    ∃ front text behind, l.span = .behind base front text ∧
      Reads base before rest (lexemes ++ [l]) (front ++ text) behind := by
  generalize hw : lexemes ++ [l] = found at h
  induction h generalizing lexemes with
  | here => simp at hw
  | gap hgap _ ih =>
      obtain ⟨front, text, behind, hspan, hreads⟩ := ih hw
      exact ⟨front, text, behind, hspan, .gap hgap hreads⟩
  | @token f text token before rest _ _ _ hlongest hvalue _ ih =>
      cases lexemes with
      | nil =>
          obtain ⟨rfl, rfl⟩ := List.cons.inj hw
          exact ⟨before, text, rest, rfl, .token hlongest hvalue .here⟩
      | cons first lexemes =>
          obtain ⟨rfl, rfl⟩ := List.cons.inj hw
          obtain ⟨front, last, behind, hspan, hreads⟩ := ih rfl
          exact ⟨front, last, behind, hspan, .token hlongest hvalue hreads⟩

/-- Seen from a place behind `front`, a reading is a reading of what is there. -/
theorem back {front : List Char} (h : Reads 0 (front ++ before) rest lexemes before' rest')
    (hsize : byteLength (front ++ before ++ rest) < UInt32.size) :
    ∃ after, before' = front ++ after ∧
      Reads 0 before rest (lexemes.map (Lexeme.mapSpan (Span.back (byteLength front)))) after
        rest' := by
  generalize hplace : front ++ before = place at h
  induction h generalizing before with
  | here => exact ⟨before, hplace.symm, .here⟩
  | @gap c _ rest _ _ _ hgap _ ih =>
      subst hplace
      have hsource : front ++ (before ++ [c]) ++ rest = front ++ before ++ c :: rest := by simp
      obtain ⟨after, rfl, hreads⟩ := ih (hsource ▸ hsize) (List.append_assoc _ _ _).symm
      exact ⟨after, rfl, .gap hgap hreads⟩
  | @token f text token _ rest _ _ _ hlongest hvalue _ ih =>
      subst hplace
      have hsource : front ++ (before ++ text) ++ rest = front ++ before ++ (text ++ rest) := by simp
      obtain ⟨after, rfl, hreads⟩ := ih (hsource ▸ hsize) (List.append_assoc _ _ _).symm
      have hshorter : byteLength (front ++ before ++ text) < UInt32.size := by
        rw [← List.append_assoc, byteLength_append] at hsize
        omega
      have hspan := Span.back_behind hshorter
      refine ⟨after, rfl, ?_⟩
      rw [List.map_cons, Lexeme.mapSpan, hspan]
      exact .token hlongest hvalue hreads

end Reads

/-- Tokens of a text stand one behind the other. -/
theorem Laid.inOrder {source : List Char} {base start stop : Nat} {lexemes : List Lexeme}
    (h : Laid source base start stop lexemes) : Lexeme.InOrder lexemes where
  extent l hl := Nat.le_of_lt (h.within l hl).2.1
  order := h.ordered

theorem reads_of_scan {source : List Char} {base : Nat} {lexemes : List Lexeme}
    (h : scan source base = .ok lexemes) : Reads base [] source lexemes source [] := by
  obtain ⟨found, hscan, hreads⟩ | ⟨_, _, _, _, -, -, hscan⟩ := scan_cases source base
  · obtain rfl := Except.ok.inj (h.symm.trans hscan)
    exact hreads
  · exact nomatch h.symm.trans hscan

theorem inOrder_of_scan {source : List Char} {lexemes : List Lexeme}
    (hscan : scan source 0 = .ok lexemes) (hsize : byteLength source < UInt32.size) :
    Lexeme.InOrder lexemes :=
  ((reads_of_scan hscan).laid (by rwa [Nat.zero_add])).inOrder

/-- A stretch of the tokens of a text is what the slice under it is read as, seen from there. -/
theorem scan_slice {source : List Char} {lexemes w : List Lexeme}
    (hscan : scan source 0 = .ok lexemes) (hsize : byteLength source < UInt32.size)
    (hw : w <:+: lexemes) {s : Span} (hs : s.Reaches w) :
    ∃ before text after, source = before ++ text ++ after ∧
      s = ⟨byteLength before, byteLength (before ++ text)⟩ ∧
      scan text 0 = .ok (w.map (Lexeme.mapSpan (Span.back s.start))) := by
  obtain ⟨first, last, hfirst, hlast, rfl⟩ := hs
  obtain ⟨earlier, later, rfl⟩ := hw
  -- the part of the reading that finds the stretch, from its first token to its last
  obtain ⟨_, _, hread, -⟩ := (reads_of_scan hscan).split
  obtain ⟨start, rest, hbefore, hread⟩ := hread.split
  obtain ⟨ws, rfl⟩ : ∃ ws, w = first :: ws := by
    cases w with
    | nil => cases hfirst
    | cons l ws => exact ⟨ws, by rw [Option.some.inj hfirst]⟩
  obtain ⟨gaps, lead, tail, rfl, hstart, hread⟩ := hread.from_token
  obtain ⟨ws', hws⟩ := List.getLast?_eq_some_iff.mp hlast
  rw [hws] at hread
  obtain ⟨front, trail, after, hstop, hread⟩ := hread.to_token
  rw [← hws] at hread
  obtain ⟨text, htext, hslice⟩ := hread.cut
  have hend : front ++ trail = start ++ gaps ++ text := by
    have heq := hread.append_eq
    rw [htext, ← List.append_assoc] at heq
    exact (List.append_cancel_right heq).symm
  have hsource : source = start ++ gaps ++ text ++ after := by
    have heq := hbefore.append_eq
    rw [List.nil_append] at heq
    rw [heq, htext]
    simp only [List.append_assoc]
  have hbytes := congrArg byteLength hsource
  rw [byteLength_append] at hbytes
  have hstart' : first.span.start = byteLength (start ++ gaps) := by
    rw [hstart, Span.start_behind (by rw [byteLength_append] at hbytes; omega), Nat.zero_add]
  have hstop' : last.span.stop = byteLength (start ++ gaps ++ text) := by
    rw [hstop, Span.behind_eq (by rw [hend]; omega), hend]
    exact Nat.zero_add _
  refine ⟨start ++ gaps, text, after, hsource, by rw [hstart', hstop'], ?_⟩
  dsimp only
  rw [hstart']
  rw [← List.append_nil (start ++ gaps)] at hslice
  obtain ⟨_, -, hreads⟩ := hslice.back (by rw [List.append_nil]; omega)
  exact hreads.scan_eq

end Token

end LiveMarkup
