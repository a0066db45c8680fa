import LiveMarkup.Proofs.Token.Longest
import LiveMarkup.Proofs.Scanning
set_option autoImplicit false

/-! # What the tokens of a text cover

Reading goes over a text token by token, each the longest match in what is left of the text, with gaps
in between (`Token.Reads`). It ends at the end of the text, or where it is stuck: nothing has a form
there, or the longest match has no value (`scan_cases`). So the spans of the tokens lie in order within
the text and leave out nothing but gaps, and the text of a token read alone gives that token
(`scan_covers`). -/

namespace LiveMarkup

open Text

/-- The span of a text that stands behind `before` in a content which starts at byte `base`. -/
def Span.behind (base : Nat) (before text : List Char) : Span :=
  (clamped (byteLength before) (byteLength before + byteLength text)).shift base

theorem Span.behind_eq {base : Nat} {before text : List Char}
    (h : base + byteLength (before ++ text) < UInt32.size) :
    behind base before text = ⟨base + byteLength before, base + byteLength (before ++ text)⟩ := by
  have hlimit : limit = UInt32.size - 1 := rfl
  rw [byteLength_append] at h ⊢
  rw [behind, clamped_of_le (by omega) (by omega), shift, clamped_of_le (by dsimp only; omega)
    (by dsimp only; omega)]
  simp only [Nat.add_comm]

theorem Span.start_behind {base : Nat} {before : List Char}
    (h : base + byteLength before < UInt32.size) (text : List Char) :
    (behind base before text).start = base + byteLength before := by
  have hlimit : limit = UInt32.size - 1 := rfl
  simp only [behind, shift, clamped]
  omega

theorem Text.byteLength_pos {s : List Char} (h : s ≠ []) : 0 < byteLength s := by
  obtain ⟨c, s, rfl⟩ := List.exists_cons_of_ne_nil h
  exact Nat.lt_of_lt_of_le c.utf8Size_pos (Nat.le_add_right _ _)

/-- The character that takes up a byte of a text is the only one. -/
theorem Text.eq_of_byteLength_lt {before rest front back : List Char} {c d : Char}
    (h : before ++ c :: rest = front ++ d :: back) (hlow : byteLength before ≤ byteLength front)
    (hhigh : byteLength front < byteLength (before ++ [c])) : c = d := by
  obtain ⟨more, rfl, hrest⟩ | ⟨more, rfl, hrest⟩ := List.append_eq_append_iff.mp h
  · cases more with
    | nil => exact (List.cons.inj hrest).1
    | cons e more =>
        obtain ⟨rfl, -⟩ := List.cons.inj hrest
        simp only [byteLength_append, byteLength] at hhigh
        omega
  · cases more with
    | nil => exact (List.cons.inj hrest).1.symm
    | cons e more =>
        have := byteLength_pos (List.cons_ne_nil e more)
        rw [byteLength_append] at hlow
        omega

namespace Token

/-! ## Steps and matches -/

theorem not_isGap_of_matches {c : Char} {f : Form} {t : List Char} (h : f.Matches (c :: t)) :
    isGap c = false := by
  by_contra hgap
  have hc : c = ' ' ∨ c = '\t' ∨ c = '\r' ∨ c = '\n' := by
    simpa only [isGap, Bool.not_eq_false, Bool.or_eq_true, beq_iff_eq, or_assoc] using hgap
  have hmark : Family.of c = .mark := by rcases hc with rfl | rfl | rfl | rfl <;> decide
  have hfamily := h.family.trans hmark
  cases f <;> simp only [Form.family, reduceCtorEq] at hfamily
  case punct p =>
      have hhead : p.text.toList.head? = some c := by rw [← show c :: t = p.text.toList from h]; rfl
      have hnone : p.text.toList.head?.map isGap = some false := by cases p <;> decide
      rw [hhead, Option.map_some, Option.some.injEq] at hnone
      exact hgap hnone

/-- Where a text is the longest match, the step takes it. -/
theorem Longest.step {f : Form} {text rest : List Char} (h : Longest f text (text ++ rest)) :
    ∃ c t, text = c :: t ∧ isGap c = false ∧ step c (t ++ rest) = ⟨f.value? text, text, rest⟩ := by
  obtain ⟨c, t, rfl⟩ := List.exists_cons_of_ne_nil h.hasForm.ne_nil
  refine ⟨c, t, rfl, not_isGap_of_matches h.hasForm, ?_⟩
  have hexact := step_exact c (t ++ rest)
  generalize Token.step c (t ++ rest) = read at hexact ⊢
  obtain ⟨token?, text, behind⟩ := read
  obtain ⟨g, hlongest, hvalue⟩ | ⟨hnone, -⟩ := hexact.found
  · obtain ⟨rfl, rfl⟩ := h.unique hlongest
    have hsame : c :: t ++ rest = c :: t ++ behind := hexact.eq
    have hbehind : rest = behind := List.append_cancel_left hsame
    rw [hbehind, show token? = f.value? (c :: t) from hvalue]
  · exact absurd hnone h.not_formless

/-! ## Readings -/

/-- Reading can go no further at the start of `s`: no gap stands there, and no form has a match or the
longest match has no value. -/
structure Stuck (s : List Char) : Prop where
  noGap : ∃ c rest, s = c :: rest ∧ isGap c = false
  noToken : Formless s ∨ ∃ f text, Longest f text s ∧ f.value? text = none

/-- Where reading is not stuck, and no gap stands, there is a longest match with a value. -/
theorem exists_longest_of_not_stuck {c : Char} {s : List Char} (hgap : ¬isGap c = true)
    (h : ¬Stuck (c :: s)) :
    ∃ f text token rest, c :: s = text ++ rest ∧ Longest f text (text ++ rest) ∧
      f.value? text = some token := by
  have hgap' : ∃ d rest, c :: s = d :: rest ∧ isGap d = false :=
    ⟨c, s, rfl, Bool.eq_false_iff.mpr hgap⟩
  obtain ⟨f, hlongest, -⟩ | ⟨hnone, -⟩ := (step_exact c s).found
  · cases hvalue : f.value? (step c s).text with
    | none => exact absurd ⟨hgap', .inr ⟨f, _, hlongest, hvalue⟩⟩ h
    | some token =>
        have heq := (step_exact c s).eq
        exact ⟨f, (step c s).text, token, (step c s).rest, heq, heq ▸ hlongest, hvalue⟩
  · exact absurd ⟨hgap', .inl hnone⟩ h

/-- Where reading is stuck, the reader stops with an error there. -/
theorem Stuck.scanFrom {s : List Char} (h : Stuck s) (base : Nat) (before : List Char) :
    ∃ text, scanFrom (byteLength before) base s =
      .error (.invalidToken (String.ofList text) (.behind base before text)) := by
  obtain ⟨c, rest, rfl, hgap⟩ := h.noGap
  have hnone : (step c rest).token? = none := by
    obtain ⟨f, hlongest, hvalue⟩ | ⟨-, hnone⟩ := (step_exact c rest).found
    · obtain hformless | ⟨g, text, hlongest', hvalue'⟩ := h.noToken
      · exact absurd hformless hlongest.not_formless
      · obtain ⟨rfl, rfl⟩ := hlongest'.unique hlongest
        exact hvalue.trans hvalue'
    · exact hnone
  refine ⟨(step c rest).text, ?_⟩
  rw [Token.scanFrom, if_neg (by simp [hgap])]
  dsimp only
  rw [hnone]
  rfl

/-- Reading goes from one place of a text to a later one, over gaps and the tokens that are listed. A
place is told by the text before it and behind it. -/
inductive Reads (base : Nat) :
    (before rest : List Char) → List Lexeme → (before' rest' : List Char) → Prop
  | here {before rest : List Char} : Reads base before rest [] before rest
  | gap {c : Char} {before rest before' rest' : List Char} {lexemes : List Lexeme} :
      isGap c = true → Reads base (before ++ [c]) rest lexemes before' rest' →
      Reads base before (c :: rest) lexemes before' rest'
  | token {f : Form} {text : List Char} {token : Token} {before rest before' rest' : List Char}
      {lexemes : List Lexeme} :
      Longest f text (text ++ rest) → f.value? text = some token →
      Reads base (before ++ text) rest lexemes before' rest' →
      Reads base before (text ++ rest) (⟨token, .behind base before text⟩ :: lexemes) before' rest'

variable {base : Nat} {before rest before' rest' : List Char} {lexemes : List Lexeme}

namespace Reads

theorem append_eq (h : Reads base before rest lexemes before' rest') :
    before ++ rest = before' ++ rest' := by
  induction h with
  | here => rfl
  | gap _ _ ih => rw [← ih, List.append_assoc, List.singleton_append]
  | token _ _ _ ih => rw [← ih, List.append_assoc]

theorem starts (h : Reads base before rest lexemes before' rest') : before <+: before' := by
  induction h with
  | here => exact List.prefix_refl _
  | gap _ _ ih => exact (List.prefix_append _ _).trans ih
  | token _ _ _ ih => exact (List.prefix_append _ _).trans ih

theorem byteLength_le (h : Reads base before rest lexemes before' rest') :
    byteLength before ≤ byteLength before' := by
  obtain ⟨more, rfl⟩ := h.starts
  rw [byteLength_append]
  exact Nat.le_add_right _ _

/-- The tokens that have been read are read in whatever is left of the text. -/
theorem cut (h : Reads base before rest lexemes before' rest') :
    ∃ read, rest = read ++ rest' ∧ Reads base before read lexemes (before ++ read) [] := by
  induction h with
  | here => exact ⟨[], rfl, by rw [List.append_nil]; exact .here⟩
  | @gap c _ _ _ _ _ hgap _ ih =>
      obtain ⟨read, rfl, hread⟩ := ih
      refine ⟨c :: read, rfl, .gap hgap ?_⟩
      rwa [List.append_assoc, List.singleton_append] at hread
  | @token f text _ _ _ _ _ _ hlongest hvalue _ ih =>
      obtain ⟨read, rfl, hread⟩ := ih
      refine ⟨text ++ read, (List.append_assoc _ _ _).symm, .token hlongest.cut hvalue ?_⟩
      rwa [List.append_assoc] at hread

/-- The reader goes the same way. -/
theorem scanFrom_eq (h : Reads base before rest lexemes before' rest') :
    scanFrom (byteLength before) base rest =
      (scanFrom (byteLength before') base rest').map (lexemes ++ ·) := by
  induction h with
  | here => cases scanFrom _ base _ <;> rfl
  | @gap c before rest _ _ _ hgap _ ih =>
      rw [scanFrom, if_pos hgap, ← ih]
      simp [byteLength]
  | @token f text token before rest before' rest' lexemes hlongest hvalue _ ih =>
      obtain ⟨c, t, rfl, hgap, hstep⟩ := hlongest.step
      rw [List.cons_append, scanFrom, if_neg (by simp [hgap]), hstep, hvalue]
      dsimp only
      rw [← Span.behind, ← byteLength_append, ih]
      cases scanFrom (byteLength before') base rest' <;> rfl

/-- A reading that comes to the end of a text gives its tokens. -/
theorem scan_eq {source : List Char} (h : Reads base [] source lexemes before' []) :
    scan source base = .ok lexemes := by
  have hscan := h.scanFrom_eq
  rw [scanFrom.eq_1] at hscan
  simpa [scan, byteLength, Except.map] using hscan

/-- Reading goes on to the end of the text or to a place where it is stuck. -/
theorem exists_reads (base : Nat) (before rest : List Char) :
    ∃ lexemes before' rest', Reads base before rest lexemes before' rest' ∧
      (rest' = [] ∨ Stuck rest') := by
  -- what is left of the text gets shorter with every step
  induction hlength : rest.length using Nat.strongRecOn generalizing before rest with
  | ind n ih =>
      subst hlength
      cases rest with
      | nil => exact ⟨[], before, [], .here, .inl rfl⟩
      | cons c rest =>
          by_cases hgap : isGap c = true
          · obtain ⟨lexemes, before', rest', hreads, hend⟩ :=
              ih rest.length (Nat.lt_succ_self _) (before ++ [c]) rest rfl
            exact ⟨lexemes, before', rest', .gap hgap hreads, hend⟩
          · by_cases hstuck : Stuck (c :: rest)
            · exact ⟨[], before, c :: rest, .here, .inr hstuck⟩
            · obtain ⟨f, text, token, more, heq, hlongest, hvalue⟩ :=
                exists_longest_of_not_stuck hgap hstuck
              have hshorter : more.length < (c :: rest).length := by
                rw [heq, List.length_append]
                have := List.length_pos_iff.mpr hlongest.hasForm.ne_nil
                omega
              obtain ⟨lexemes, before', rest', hreads, hend⟩ :=
                ih more.length hshorter (before ++ text) more rfl
              rw [heq]
              exact ⟨_, before', rest', .token hlongest hvalue hreads, hend⟩

end Reads

/-- Every text is read to its end, or up to a place where reading is stuck. -/
theorem scan_cases (source : List Char) (base : Nat) :
    (∃ lexemes, scan source base = .ok lexemes ∧ Reads base [] source lexemes source []) ∨
      ∃ lexemes before rest text, Reads base [] source lexemes before rest ∧ Stuck rest ∧
        scan source base =
          .error (.invalidToken (String.ofList text) (.behind base before text)) := by
  obtain ⟨lexemes, before, rest, hreads, rfl | hstuck⟩ := Reads.exists_reads base [] source
  · obtain rfl : source = before := by simpa using hreads.append_eq
    exact .inl ⟨lexemes, hreads.scan_eq, hreads⟩
  · obtain ⟨text, hstuck'⟩ := hstuck.scanFrom base before
    refine .inr ⟨lexemes, before, rest, text, hreads, hstuck, ?_⟩
    have hscan := hreads.scanFrom_eq
    rw [hstuck'] at hscan
    exact hscan

/-! ## Where tokens stand -/

/-- The text of a token read alone gives the token. -/
theorem Longest.scan {f : Form} {text rest : List Char} {token : Token}
    (h : Longest f text (text ++ rest)) (hvalue : f.value? text = some token) (base : Nat) :
    scan text base = .ok [⟨token, .behind base [] text⟩] := by
  have halone : Longest f text (text ++ []) := by
    rw [List.append_nil]
    exact h.of_start (List.prefix_refl _) (List.prefix_append _ _)
  have hreads : Reads base [] (text ++ []) [⟨token, .behind base [] text⟩] ([] ++ text) [] :=
    .token halone hvalue .here
  rw [List.append_nil] at hreads
  exact hreads.scan_eq

/-- A lexeme stands behind `before` and in front of `after`: its text is the longest match there and has
the token for its value, and read alone, as a content that starts at any byte, it gives that token and
no other. -/
structure StandsIn (base : Nat) (before text after : List Char) (l : Lexeme) : Prop where
  span : l.span = .behind base before text
  matched : ∃ f, Longest f text (text ++ after) ∧ f.value? text = some l.token
  alone : ∀ base', scan text base' = .ok [⟨l.token, .behind base' [] text⟩]

/-- Every token that is read stands somewhere in the text. -/
theorem Reads.stands (h : Reads base before rest lexemes before' rest') :
    ∀ l ∈ lexemes, ∃ front text after,
      before ++ rest = front ++ text ++ after ∧ StandsIn base front text after l := by
  induction h with
  | here => simp
  | @gap c before rest _ _ _ _ _ ih =>
      have hsource : before ++ [c] ++ rest = before ++ c :: rest := by simp
      exact hsource ▸ ih
  | @token f text token before rest _ _ _ hlongest hvalue _ ih =>
      rw [List.append_assoc] at ih
      refine List.forall_mem_cons.mpr ⟨⟨before, text, rest, ?_, rfl, ⟨f, hlongest, hvalue⟩, ?_⟩, ih⟩
      · rw [List.append_assoc]
      · exact fun base' => hlongest.scan hvalue base'

/-! ## What tokens cover -/

/-- The spans of some lexemes cover a source from byte `start` to byte `stop`: they are not empty, lie in
there one behind the other and leave out nothing but gaps. -/
structure Laid (source : List Char) (base start stop : Nat) (lexemes : List Lexeme) : Prop where
  within : ∀ l ∈ lexemes, base + start ≤ l.span.start ∧ l.span.start < l.span.stop ∧
    l.span.stop ≤ base + stop
  ordered : lexemes.Pairwise fun l l' => l.span.stop ≤ l'.span.start
  gaps : ∀ front c back, source = front ++ c :: back → start ≤ byteLength front →
    byteLength front < stop → (∀ l ∈ lexemes, l.span.contains (base + byteLength front) = false) →
    isGap c = true

theorem laid_nil (source : List Char) (base place : Nat) : Laid source base place place [] where
  within := by simp
  ordered := .nil
  gaps := fun _ _ _ _ _ _ => by omega

theorem Laid.gap {c : Char} {source before rest : List Char} {stop : Nat}
    (h : Laid source base (byteLength (before ++ [c])) stop lexemes)
    (hsource : source = before ++ c :: rest) (hgap : isGap c = true) :
    Laid source base (byteLength before) stop lexemes where
  within := by
    intro l hl
    obtain ⟨hstart, hrest⟩ := h.within l hl
    rw [byteLength_append] at hstart
    exact ⟨by omega, hrest⟩
  ordered := h.ordered
  gaps := by
    intro front d back hfront hlow hhigh hnone
    by_cases hhere : byteLength front < byteLength (before ++ [c])
    · exact eq_of_byteLength_lt (hsource.symm.trans hfront) hlow hhere ▸ hgap
    · exact h.gaps front d back hfront (by omega) hhigh hnone

theorem Laid.token {source before text : List Char} {stop : Nat}
    (h : Laid source base (byteLength (before ++ text)) stop lexemes)
    (hsize : base + byteLength (before ++ text) < UInt32.size)
    (hstop : byteLength (before ++ text) ≤ stop) (htext : text ≠ []) (token : Token) :
    Laid source base (byteLength before) stop (⟨token, .behind base before text⟩ :: lexemes) := by
  have hpos := byteLength_pos htext
  have hlength := byteLength_append before text
  rw [Span.behind_eq hsize]
  refine ⟨List.forall_mem_cons.mpr ⟨⟨?_, ?_, ?_⟩, fun l hl => ?_⟩, ?_, ?_⟩
  · exact Nat.le_refl _
  · dsimp only
    omega
  · dsimp only
    omega
  · obtain ⟨hstart, hrest⟩ := h.within l hl
    exact ⟨by omega, hrest⟩
  · exact List.pairwise_cons.mpr ⟨fun l hl => (h.within l hl).1, h.ordered⟩
  · intro front c back hfront hlow hhigh hnone
    obtain ⟨hfirst, hnone⟩ := List.forall_mem_cons.mp hnone
    refine h.gaps front c back hfront ?_ hhigh hnone
    -- a character within the text of the token is in its span
    by_contra hwithin
    simp only [Span.contains, Bool.and_eq_false_iff, decide_eq_false_iff_not] at hfirst
    omega

theorem Reads.laid (h : Reads base before rest lexemes before' rest')
    (hsize : base + byteLength (before ++ rest) < UInt32.size) :
    Laid (before ++ rest) base (byteLength before) (byteLength before') lexemes := by
  induction h with
  | here => exact laid_nil _ _ _
  | @gap c before rest _ _ _ hgap _ ih =>
      have hsource : before ++ [c] ++ rest = before ++ c :: rest := by simp
      rw [hsource] at ih
      exact (ih hsize).gap rfl hgap
  | @token f text token before rest _ _ _ hlongest _ hreads ih =>
      rw [List.append_assoc] at ih
      refine (ih hsize).token ?_ hreads.byteLength_le hlongest.hasForm.ne_nil token
      rw [← List.append_assoc, byteLength_append] at hsize
      omega

/-- Lexemes cover a source from byte `start` to byte `stop`, and each has its text in the source where
its span tells. -/
structure Covers (source : List Char) (base start stop : Nat) (lexemes : List Lexeme) : Prop
    extends Laid source base start stop lexemes where
  stands : ∀ l ∈ lexemes, ∃ before text after, source = before ++ text ++ after ∧
    l.span = ⟨base + byteLength before, base + byteLength (before ++ text)⟩ ∧
    StandsIn base before text after l

/-- What is read is covered. -/
theorem Reads.covers (h : Reads base before rest lexemes before' rest')
    (hsize : base + byteLength (before ++ rest) < UInt32.size) :
    Covers (before ++ rest) base (byteLength before) (byteLength before') lexemes where
  toLaid := h.laid hsize
  stands := by
    intro l hl
    obtain ⟨front, text, after, hsource, hstands⟩ := h.stands l hl
    refine ⟨front, text, after, hsource, ?_, hstands⟩
    rw [hstands.span, Span.behind_eq]
    rw [hsource, byteLength_append] at hsize
    omega

/-- The tokens of a text cover it: their spans are not empty, stand in order within the text and leave
out only spaces, tabs and line ends; each has for its text the longest match of all forms at its start,
the form of a keyword rather than that of a name, and for its value what the form says; and its text
read alone gives just that token. Where there is an error, it starts at the first place behind the
tokens that are read before it, and behind gaps, where no form has a match or the longest match has no
value. -/
theorem scan_covers (source : List Char) (base : Nat)
    (hsize : base + byteLength source < UInt32.size) :
    (∀ lexemes, scan source base = .ok lexemes →
      Covers source base 0 (byteLength source) lexemes) ∧
    ∀ error, scan source base = .error error → ∃ before rest lexemes text span,
      source = before ++ rest ∧ scan before base = .ok lexemes ∧
      Covers source base 0 (byteLength before) lexemes ∧ Stuck rest ∧
      error = .invalidToken text span ∧ span.start = base + byteLength before := by
  obtain ⟨lexemes, hscan, hreads⟩ | ⟨lexemes, before, rest, text, hreads, hstuck, hscan⟩ :=
    scan_cases source base
  · rw [hscan]
    refine ⟨fun lexemes' heq => ?_, nofun⟩
    obtain rfl := Except.ok.inj heq
    exact hreads.covers hsize
  · rw [hscan]
    refine ⟨nofun, fun error heq => ?_⟩
    obtain rfl := Except.error.inj heq
    have hsource : source = before ++ rest := hreads.append_eq
    obtain ⟨read, hread, hreads'⟩ := hreads.cut
    obtain rfl : before = read := List.append_cancel_right (hsource.symm.trans hread)
    refine ⟨before, rest, lexemes, String.ofList text, .behind base before text, hsource,
      hreads'.scan_eq, hreads.covers hsize, hstuck, rfl, Span.start_behind ?_ text⟩
    rw [hsource, byteLength_append] at hsize
    omega

/-- A keyword and a name that begins like it; and a place where nothing has a form. -/
theorem scan_covers_hash :
    4 + byteLength "in inner".toList < UInt32.size ∧
      scan "in inner".toList 4 =
        .ok [⟨.keyword .inWord, ⟨4, 6⟩⟩, ⟨.ident "inner", ⟨7, 12⟩⟩] ∧
      Covers "in inner".toList 4 0 (byteLength "in inner".toList)
        [⟨.keyword .inWord, ⟨4, 6⟩⟩, ⟨.ident "inner", ⟨7, 12⟩⟩] ∧
      ∃ before rest lexemes text span,
        "a # b".toList = before ++ rest ∧ scan before 4 = .ok lexemes ∧
        Covers "a # b".toList 4 0 (byteLength before) lexemes ∧ Stuck rest ∧
        LexError.invalidToken "#" ⟨6, 7⟩ = .invalidToken text span ∧
        span.start = 4 + byteLength before := by
  have hscan : scan "in inner".toList 4 =
      .ok [⟨.keyword .inWord, ⟨4, 6⟩⟩, ⟨.ident "inner", ⟨7, 12⟩⟩] := by cbv
  have herror : scan "a # b".toList 4 = .error (.invalidToken "#" ⟨6, 7⟩) := by cbv
  refine ⟨by decide, hscan, (scan_covers _ 4 (by decide)).1 _ hscan, ?_⟩
  exact (scan_covers _ 4 (by decide)).2 _ herror

end Token

end LiveMarkup
