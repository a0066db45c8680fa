import LiveMarkup.Proofs.Render.FailureLines
import LiveMarkup.Proofs.Text.Occurrence
set_option autoImplicit false

/-! # Cutting a source

What a scanner accepts, said without it: a source falls into text runs and directives if it can be
cut at the leftmost open delimiter and the leftmost close delimiter behind it, over and over, with no
open delimiter inside a directive (`Cut`); else there is a first open delimiter that offends
(`Offends`). Scanning finds the cut or the offence, and the segments lose nothing (`scan_cuts`). -/

namespace LiveMarkup

open Text

/-- A stretch of a source: a text run, or a directive with what stands between its delimiters. -/
inductive Stretch where
  | text (run : List Char)
  | directive (raw : List Char)

namespace Stretch

/-- The source text of a stretch. -/
def source (d : Delimiters) : Stretch → List Char
  | text run => run
  | directive raw => d.around raw

/-- The text run that a text makes: none if it is empty. -/
def ofRun (run : List Char) : List Stretch := if run.isEmpty then [] else [.text run]

/-- The source text of stretches, one behind the other. -/
def written (d : Delimiters) (stretches : List Stretch) : List Char := stretches.flatMap (source d)

def IsText : Stretch → Prop
  | text _ => True
  | directive _ => False

@[simp] theorem written_nil (d : Delimiters) : written d [] = [] := rfl

@[simp] theorem written_cons (d : Delimiters) (first : Stretch) (rest : List Stretch) :
    written d (first :: rest) = first.source d ++ written d rest := rfl

theorem written_append (d : Delimiters) (first rest : List Stretch) :
    written d (first ++ rest) = written d first ++ written d rest :=
  List.flatMap_append

@[simp] theorem written_ofRun (d : Delimiters) (run : List Char) : written d (ofRun run) = run := by
  cases run <;> simp [ofRun, source]

theorem eq_of_mem_ofRun {run : List Char} {stretch : Stretch} (h : stretch ∈ ofRun run) :
    run ≠ [] ∧ stretch = .text run := by
  cases run with
  | nil => simp [ofRun] at h
  | cons c run => exact ⟨List.cons_ne_nil c run, List.mem_singleton.mp h⟩

end Stretch

/-! ## The language -/

/-- A source falls into stretches: it is a text run without an open delimiter, or its leftmost open
delimiter starts a directive that ends at the leftmost close delimiter behind it. -/
inductive Cut (d : Delimiters) : List Char → List Stretch → Prop
  | run {text : List Char} : ¬ d.opening.toList <:+: text → Cut d text (Stretch.ofRun text)
  | directive {source text tail raw rest : List Char} {stretches : List Stretch} :
    Leftmost d.opening.toList source text tail → Leftmost d.closing.toList tail raw rest →
    ¬ d.opening.toList <:+: raw → Cut d rest stretches →
    Cut d source (Stretch.ofRun text ++ .directive raw :: stretches)

/-- What is wrong with an open delimiter: no close delimiter follows it, or it stands inside a
directive. -/
inductive Offence where
  | unterminated
  | nested

/-- The first open delimiter of a source that offends stands behind `before`. -/
inductive Offends (d : Delimiters) : List Char → List Char → Offence → Prop
  | unterminated {source text tail : List Char} :
    Leftmost d.opening.toList source text tail → ¬ d.closing.toList <:+: tail →
    Offends d source text .unterminated
  | nested {source text tail raw rest lead inner : List Char} :
    Leftmost d.opening.toList source text tail → Leftmost d.closing.toList tail raw rest →
    Leftmost d.opening.toList raw lead inner →
    Offends d source (text ++ d.opening.toList ++ lead) .nested
  | later {source text tail raw rest before : List Char} {offence : Offence} :
    Leftmost d.opening.toList source text tail → Leftmost d.closing.toList tail raw rest →
    ¬ d.opening.toList <:+: raw → Offends d rest before offence →
    Offends d source (text ++ d.around raw ++ before) offence

/-- The error for an open delimiter behind `before`. One without an end spoils all that follows. -/
def Offence.error (d : Delimiters) (source before : List Char) : Offence → LexError
  | unterminated => .unterminated d.closing ⟨byteLength before, byteLength source⟩
  | nested => .nested d.opening ⟨byteLength before, byteLength (before ++ d.opening.toList)⟩

section

variable {d : Delimiters} {source text tail raw rest before : List Char}
  {stretches : List Stretch}

theorem ne_nil_of_absent {pat s : List Char} (h : ¬ pat <:+: s) : pat ≠ [] := by
  rintro rfl
  exact h (List.nil_infix)

/-- What the two cuts of a directive leave of a source. -/
theorem eq_of_leftmost (hopen : Leftmost d.opening.toList source text tail)
    (hclose : Leftmost d.closing.toList tail raw rest) :
    source = text ++ d.around raw ++ rest := by
  rw [hopen.eq, hclose.eq]
  simp only [Delimiters.around, List.append_assoc]

theorem length_lt_of_leftmost (hopen : Leftmost d.opening.toList source text tail)
    (hclose : Leftmost d.closing.toList tail raw rest) (hraw : ¬ d.opening.toList <:+: raw) :
    rest.length < source.length := by
  have hpos := Delimiters.length_around_pos (ne_nil_of_absent hraw) raw
  rw [eq_of_leftmost hopen hclose]
  simp only [List.length_append]
  omega

/-- Every source is cut or offends. -/
theorem cut_or_offends (d : Delimiters) (source : List Char) :
    (∃ stretches, Cut d source stretches) ∨ ∃ before offence, Offends d source before offence := by
  -- on the length of the source: what follows a directive is shorter
  induction hn : source.length using Nat.strong_induction_on generalizing source with
  | _ n ih =>
  subst hn
  cases hopen : cut? d.opening.toList source with
  | none => exact .inl ⟨_, .run (cut?_eq_none_iff.mp hopen)⟩
  | some cut =>
      obtain ⟨text, tail⟩ := cut
      have hopen := leftmost_of_cut? hopen
      cases hclose : cut? d.closing.toList tail with
      | none => exact .inr ⟨_, _, .unterminated hopen (cut?_eq_none_iff.mp hclose)⟩
      | some cut =>
          obtain ⟨raw, rest⟩ := cut
          have hclose := leftmost_of_cut? hclose
          cases hnested : cut? d.opening.toList raw with
          | some cut =>
              obtain ⟨lead, inner⟩ := cut
              exact .inr ⟨_, _, .nested hopen hclose (leftmost_of_cut? hnested)⟩
          | none =>
              have hraw := cut?_eq_none_iff.mp hnested
              have hshorter := length_lt_of_leftmost hopen hclose hraw
              rcases ih _ hshorter rest rfl with ⟨stretches, hrest⟩ | ⟨before, offence, hrest⟩
              · exact .inl ⟨_, .directive hopen hclose hraw hrest⟩
              · exact .inr ⟨_, _, .later hopen hclose hraw hrest⟩

/-- A cut loses nothing. -/
theorem Cut.written (h : Cut d source stretches) : Stretch.written d stretches = source := by
  induction h with
  | run _ => exact Stretch.written_ofRun d _
  | directive hopen hclose _ _ ih =>
      rw [Stretch.written_append, Stretch.written_ofRun, Stretch.written_cons, ih,
        eq_of_leftmost hopen hclose, List.append_assoc]
      rfl

/-- A text run of a cut is not empty and holds no open delimiter. -/
theorem Cut.text_of_mem (h : Cut d source stretches) {run : List Char}
    (hmem : Stretch.text run ∈ stretches) : run ≠ [] ∧ ¬ d.opening.toList <:+: run := by
  induction h with
  | run hopen =>
      obtain ⟨hrun, heq⟩ := Stretch.eq_of_mem_ofRun hmem
      obtain rfl := Stretch.text.inj heq
      exact ⟨hrun, hopen⟩
  | directive hopen _ hraw _ ih =>
      rcases List.mem_append.mp hmem with hmem | hmem
      · obtain ⟨hrun, heq⟩ := Stretch.eq_of_mem_ofRun hmem
        obtain rfl := Stretch.text.inj heq
        exact ⟨hrun, hopen.absent (ne_nil_of_absent hraw)⟩
      · exact ih ((List.mem_cons.mp hmem).resolve_left Stretch.noConfusion)

/-- Between two text runs of a cut there is a directive. -/
theorem Cut.apart (h : Cut d source stretches) :
    stretches.IsChain fun a b => ¬ (a.IsText ∧ b.IsText) := by
  induction h with
  | @run text _ => cases text <;> simp [Stretch.ofRun]
  | @directive _ text _ raw _ stretches _ _ _ _ ih =>
      have hdirective : (Stretch.directive raw :: stretches).IsChain
          fun a b => ¬ (a.IsText ∧ b.IsText) := by
        cases stretches with
        | nil => exact .singleton _
        | cons b rest => exact .cons_cons (fun h => h.1) ih
      cases text with
      | nil => exact hdirective
      | cons c text => exact .cons_cons (fun h => h.2) hdirective

end

/-! ## Segments -/

/-- A text stands in a source at a span of bytes. -/
def Span.Covers (span : Span) (source text : List Char) : Prop :=
  ∃ before after, source = before ++ text ++ after ∧
    span = ⟨byteLength before, byteLength (before ++ text)⟩

/-- A segment shows a stretch of a source that stands behind `before`: a text run as it is, a
directive by a part of what stands between its delimiters. Its line is that of the first
character of the stretch. -/
inductive Segment.Shows (d : Delimiters) (before : List Char) : Stretch → Segment → Prop
  | text {s : Segment} : s.kind = .text →
    s.span = ⟨byteLength before, byteLength (before ++ s.content)⟩ →
    s.line = 1 + lineFeeds before → Shows d before (.text s.content) s
  | directive {kind : DirectiveKind} {lead trail : List Char} {s : Segment} :
    s.kind = .directive kind →
    s.span = ⟨byteLength (before ++ d.opening.toList ++ lead),
      byteLength (before ++ d.opening.toList ++ lead ++ s.content)⟩ →
    s.line = 1 + lineFeeds before → Shows d before (.directive (lead ++ s.content ++ trail)) s

/-- Segments show the stretches of a source that stand behind `before`, one each. -/
inductive Segment.Lay (d : Delimiters) : List Char → List Stretch → List Segment → Prop
  | nil (before : List Char) : Lay d before [] []
  | cons {before : List Char} {first : Stretch} {rest : List Stretch} {s : Segment}
    {segments : List Segment} : Shows d before first s →
    Lay d (before ++ first.source d) rest segments → Lay d before (first :: rest) (s :: segments)

namespace Segment

section

variable {d : Delimiters} {before source : List Char} {stretch : Stretch}
  {stretches : List Stretch} {s : Segment} {segments : List Segment}

theorem Shows.isText_iff (h : Shows d before stretch s) : s.kind = .text ↔ stretch.IsText := by
  cases h with
  | text hkind _ _ => simp [hkind, Stretch.IsText]
  | directive hkind _ _ => simp [hkind, Stretch.IsText]

theorem Shows.covers (h : Shows d before stretch s) (behind : List Char) :
    s.span.Covers (before ++ stretch.source d ++ behind) s.content := by
  cases h with
  | text _ hspan _ => exact ⟨before, behind, rfl, hspan⟩
  | @directive _ lead trail _ _ hspan _ =>
      refine ⟨before ++ d.opening.toList ++ lead, trail ++ d.closing.toList ++ behind, ?_, hspan⟩
      simp only [Stretch.source, Delimiters.around, List.append_assoc]

/-- The span of a segment lies within its stretch. -/
theorem Shows.within (h : Shows d before stretch s) :
    byteLength before ≤ s.span.start ∧ s.span.stop ≤ byteLength (before ++ stretch.source d) := by
  cases h with
  | text _ hspan _ =>
      rw [hspan]
      exact ⟨Nat.le_refl _, Nat.le_refl _⟩
  | directive _ hspan _ =>
      rw [hspan]
      simp only [Stretch.source, Delimiters.around, byteLength_append]
      omega

theorem Lay.covers (h : Lay d before stretches segments) :
    ∀ s ∈ segments, s.span.Covers (before ++ Stretch.written d stretches) s.content := by
  induction h with
  | nil => simp
  | @cons before first rest s segments hfirst _ ih =>
      intro t ht
      rw [Stretch.written_cons, ← List.append_assoc]
      rcases List.mem_cons.mp ht with rfl | ht
      · exact hfirst.covers _
      · exact ih t ht

theorem Lay.spans (h : Lay d before stretches segments) :
    (∀ s ∈ segments, byteLength before ≤ s.span.start) ∧
      segments.Pairwise fun s t => s.span.stop ≤ t.span.start := by
  induction h with
  | nil => simp
  | @cons before first rest s segments hfirst _ ih =>
      obtain ⟨hbehind, hpairwise⟩ := ih
      obtain ⟨hstart, hstop⟩ := hfirst.within
      refine ⟨fun t ht => ?_, .cons (fun t ht => hstop.trans (hbehind t ht)) hpairwise⟩
      rcases List.mem_cons.mp ht with rfl | ht
      · exact hstart
      · have hlater := hbehind t ht
        rw [byteLength_append] at hlater
        omega

theorem Lay.text_of_mem (h : Lay d before stretches segments) (hmem : s ∈ segments)
    (hkind : s.kind = .text) : Stretch.text s.content ∈ stretches := by
  induction h with
  | nil => simp at hmem
  | cons hfirst _ ih =>
      rcases List.mem_cons.mp hmem with rfl | hmem
      · cases hfirst with
        | text _ _ _ => exact List.mem_cons_self
        | directive hdirective _ _ => cases hkind.symm.trans hdirective
      · exact List.mem_cons_of_mem _ (ih hmem)

theorem Lay.apart (h : Lay d before stretches segments)
    (hapart : stretches.IsChain fun a b => ¬ (a.IsText ∧ b.IsText)) :
    segments.IsChain fun s t => ¬ (s.kind = .text ∧ t.kind = .text) := by
  induction h with
  | nil => exact .nil
  | cons hfirst hrest ih =>
      cases hrest with
      | nil => exact .singleton _
      | cons hsecond _ =>
          obtain ⟨hpair, htail⟩ := List.isChain_cons_cons.mp hapart
          refine .cons_cons ?_ (ih htail)
          rwa [hfirst.isText_iff, hsecond.isText_iff]

end

end Segment

/-! ## What is between the delimiters -/

namespace Directive

theorem trimStart_suffix (s : List Char) : trimStart s <:+ s := List.dropWhile_suffix _

theorem trimEnd_prefix (s : List Char) : trimEnd s <+: s := by
  have h := (List.dropWhile_suffix isBlank (l := s.reverse)).reverse
  rwa [List.reverse_reverse] at h

theorem suffix_of_after? {lead s rest : List Char} (h : after? lead s = some rest) : rest <:+ s :=
  ⟨lead, (eq_append_of_after? h).symm⟩

theorem suffix_of_afterHeader? {keyword : String} {body inner : List Char}
    (h : afterHeader? keyword body = some inner) : inner <:+ body := by
  unfold afterHeader? at h
  split at h
  · next rest hafter =>
      split at h
      · next found htrim =>
          obtain rfl := Option.some.inj h
          have hinner : found <:+ trimStart rest := htrim ▸ List.suffix_cons _ _
          exact (hinner.trans (trimStart_suffix rest)).trans (suffix_of_after? hafter)
      · cases h
  · cases h

/-- The content of a directive is taken from the end of its body. -/
theorem classify_suffix (body : List Char) : (classify body).2 <:+ body := by
  unfold classify
  split
  case h_6 =>
    split
    · next rest hblock =>
        split at hblock
        · split at hblock
          · obtain rfl := Option.some.inj hblock
            exact List.suffix_cons _ _
          · cases hblock
        · cases hblock
    · split
      · next inner hfor => exact suffix_of_afterHeader? hfor
      · split
        · next inner hif => exact suffix_of_afterHeader? hif
        · split
          · next rest helse =>
              split
              · exact List.suffix_refl body
              · exact suffix_of_after? helse
          · exact List.suffix_refl body
  all_goals exact List.suffix_cons _ _

/-- The content of a directive is a part of what stands between its delimiters, behind as many bytes
as are told. -/
theorem exists_content (raw : List Char) :
    ∃ lead trail, raw = lead ++ (content raw).2.2 ++ trail ∧
      (content raw).2.1 = byteLength lead := by
  obtain ⟨lead, hlead⟩ : trimStart (classify (trimStart raw)).2 <:+ raw :=
    ((trimStart_suffix _).trans (classify_suffix _)).trans (trimStart_suffix _)
  obtain ⟨trail, htrail⟩ := trimEnd_prefix (trimStart (classify (trimStart raw)).2)
  refine ⟨lead, trail, ?_, ?_⟩
  · rw [List.append_assoc]
    exact hlead.symm.trans (congrArg (lead ++ ·) htrail.symm)
  · show byteLength raw - byteLength (trimStart (classify (trimStart raw)).2) = byteLength lead
    have hlength := congrArg byteLength hlead
    rw [byteLength_append] at hlength
    omega

end Directive

/-! ## Scanning -/

/-- The segments of stretches that stand behind `before`. -/
def Stretch.segments (d : Delimiters) : (before : List Char) → List Stretch → List Segment
  | _, [] => []
  | before, .text run :: rest =>
    Segment.ofText (byteLength before) (lineFeeds before + 1) run ::
      segments d (before ++ run) rest
  | before, .directive raw :: rest =>
    Segment.ofDirective (byteLength before + byteLength d.opening.toList) (lineFeeds before + 1) raw ::
      segments d (before ++ d.around raw) rest

theorem Span.clamped_of_le {start stop : Nat} (hle : start ≤ stop) (hstop : stop ≤ Span.limit) :
    Span.clamped start stop = ⟨start, stop⟩ := by
  unfold Span.clamped
  rw [Nat.min_eq_left (hle.trans hstop), Nat.min_eq_left hstop]

section

variable {d : Delimiters} {source before : List Char} {stretches : List Stretch}

theorem Segment.shows_ofText {run : List Char}
    (hsize : byteLength (before ++ run) ≤ Span.limit) :
    Shows d before (.text run) (ofText (byteLength before) (lineFeeds before + 1) run) := by
  have hspan : Span.clamped (byteLength before) (byteLength before + byteLength run) =
      ⟨byteLength before, byteLength (before ++ run)⟩ := by
    rw [byteLength_append] at hsize ⊢
    exact Span.clamped_of_le (Nat.le_add_right _ _) hsize
  exact Shows.text (s := ofText (byteLength before) (lineFeeds before + 1) run) rfl hspan
    (Nat.add_comm _ _)

theorem Segment.ofDirective_eq (offset line : Nat) (raw : List Char) :
    ofDirective offset line raw =
      ⟨.directive (Directive.content raw).1, (Directive.content raw).2.2,
        Span.clamped (offset + (Directive.content raw).2.1)
          (offset + (Directive.content raw).2.1 + byteLength (Directive.content raw).2.2), line⟩ :=
  rfl

theorem Segment.shows_ofDirective {raw : List Char}
    (hsize : byteLength (before ++ d.around raw) ≤ Span.limit) :
    Shows d before (.directive raw)
      (ofDirective (byteLength before + byteLength d.opening.toList) (lineFeeds before + 1) raw) := by
  obtain ⟨lead, trail, hraw, hlead⟩ := Directive.exists_content raw
  rw [ofDirective_eq, hlead]
  generalize hcontent : (Directive.content raw).2.2 = content at hraw
  have hspan : Span.clamped (byteLength before + byteLength d.opening.toList + byteLength lead)
      (byteLength before + byteLength d.opening.toList + byteLength lead + byteLength content) =
      ⟨byteLength (before ++ d.opening.toList ++ lead),
        byteLength (before ++ d.opening.toList ++ lead ++ content)⟩ := by
    rw [hraw] at hsize
    simp only [Delimiters.around, byteLength_append] at hsize ⊢
    exact Span.clamped_of_le (Nat.le_add_right _ _) (by omega)
  rw [hspan, hraw]
  exact .directive (s := ⟨_, content, _, _⟩) rfl rfl (Nat.add_comm _ _)

theorem Stretch.lay_segments
    (hsize : byteLength (before ++ Stretch.written d stretches) ≤ Span.limit) :
    Segment.Lay d before stretches (Stretch.segments d before stretches) := by
  induction stretches generalizing before with
  | nil => exact .nil before
  | cons first rest ih =>
      rw [written_cons, ← List.append_assoc] at hsize
      have hfirst : byteLength (before ++ first.source d) ≤ Span.limit := by
        rw [byteLength_append] at hsize
        omega
      cases first with
      | text run => exact .cons (Segment.shows_ofText hfirst) (ih hsize)
      | directive raw => exact .cons (Segment.shows_ofDirective hfirst) (ih hsize)

theorem Stretch.segments_append (first rest : List Stretch) :
    segments d before (first ++ rest) =
      segments d before first ++ segments d (before ++ written d first) rest := by
  induction first generalizing before with
  | nil => simp [segments]
  | cons stretch first ih =>
      rw [written_cons, ← List.append_assoc]
      cases stretch with
      | text run => exact congrArg _ ih
      | directive raw => exact congrArg _ ih

theorem Stretch.segments_ofRun (run : List Char) :
    segments d before (ofRun run) =
      Segment.ofRun (byteLength before) (lineFeeds before + 1) run := by
  cases run <;> rfl

/-- Scanning in terms of the two cuts alone. -/
theorem scanFrom_eq (d : Delimiters) (offset line : Nat) (source : List Char) :
    scanFrom d offset line source =
      match cut? d.opening.toList source with
      | none => .ok (Segment.ofRun offset line source)
      | some (text, tail) =>
        match cut? d.closing.toList tail with
        | none => .error <| .unterminated d.closing <| Span.clamped (offset + byteLength text)
            (offset + byteLength text + byteLength d.opening.toList + byteLength tail)
        | some (raw, rest) =>
          match cut? d.opening.toList raw with
          | some (lead, _) => .error <| .nested d.opening <| Span.clamped
              (offset + byteLength text + byteLength d.opening.toList + byteLength lead)
              (offset + byteLength text + byteLength d.opening.toList + byteLength lead +
                byteLength d.opening.toList)
          | none => (scanFrom d (offset + byteLength text + byteLength (d.around raw))
              (line + lineFeeds text + lineFeeds (d.around raw)) rest).map fun segments =>
                Segment.ofRun offset line text ++
                  Segment.ofDirective (offset + byteLength text + byteLength d.opening.toList)
                    (line + lineFeeds text) raw :: segments := by
  rw [scanFrom]
  split
  · next hopen => rw [hopen, Segment.ofRun]
  · next text tail hopen =>
      simp only [hopen]
      split
      · next hclose => simp only [hclose]
      · next raw rest hclose =>
          simp only [hclose]
          split
          · next hnested => simp only [hnested]
          · next hnested =>
              simp only [hnested]
              refine congrArg (Except.map · _) (funext fun segments => ?_)
              cases text <;> rfl

/-- Scanning goes on behind a directive. -/
theorem scanFrom_of_directive {text tail raw rest : List Char}
    (hopen : Leftmost d.opening.toList source text tail)
    (hclose : Leftmost d.closing.toList tail raw rest) (hraw : ¬ d.opening.toList <:+: raw)
    (before : List Char) :
    scanFrom d (byteLength before) (lineFeeds before + 1) source =
      (scanFrom d (byteLength (before ++ text ++ d.around raw))
        (lineFeeds (before ++ text ++ d.around raw) + 1) rest).map fun segments =>
          Stretch.segments d before (Stretch.ofRun text ++ [.directive raw]) ++ segments := by
  have hline : lineFeeds before + 1 + lineFeeds text + lineFeeds (d.around raw) =
      lineFeeds (before ++ text ++ d.around raw) + 1 := by
    simp only [lineFeeds_append]
    omega
  have hsegments : Stretch.segments d before (Stretch.ofRun text ++ [.directive raw]) =
      Segment.ofRun (byteLength before) (lineFeeds before + 1) text ++
        [Segment.ofDirective (byteLength before + byteLength text + byteLength d.opening.toList)
          (lineFeeds before + 1 + lineFeeds text) raw] := by
    rw [Stretch.segments_append, Stretch.segments_ofRun, Stretch.written_ofRun, Stretch.segments,
      Stretch.segments, byteLength_append, lineFeeds_append, Nat.add_right_comm (lineFeeds before)]
  rw [scanFrom_eq, cut?_eq_some_iff.mpr hopen]
  dsimp only
  rw [cut?_eq_some_iff.mpr hclose]
  dsimp only
  rw [cut?_eq_none_iff.mpr hraw, hsegments, ← hline, byteLength_append, byteLength_append]
  refine congrArg (Except.map · _) (funext fun segments => ?_)
  rw [List.append_assoc, List.singleton_append]

/-- Scanning a source that can be cut gives the segments of its stretches. -/
theorem scanFrom_of_cut (h : Cut d source stretches) (before : List Char) :
    scanFrom d (byteLength before) (lineFeeds before + 1) source =
      .ok (Stretch.segments d before stretches) := by
  induction h generalizing before with
  | @run text hopen => rw [scanFrom_eq, cut?_eq_none_iff.mpr hopen, Stretch.segments_ofRun]
  | @directive source text tail raw rest stretches hopen hclose hraw _ ih =>
      have hhead : Stretch.written d (Stretch.ofRun text ++ [Stretch.directive raw]) =
          text ++ d.around raw := by
        rw [Stretch.written_append, Stretch.written_ofRun, Stretch.written_cons,
          Stretch.written_nil, List.append_nil]
        rfl
      rw [scanFrom_of_directive hopen hclose hraw, ih, ← List.singleton_append (l := stretches),
        ← List.append_assoc (Stretch.ofRun text), Stretch.segments_append _ stretches, hhead,
        ← List.append_assoc before]
      rfl

/-- Scanning a source that offends fails at the first offence. -/
theorem scanFrom_of_offends {found : List Char} {offence : Offence}
    (h : Offends d source found offence) (before : List Char)
    (hsize : byteLength (before ++ source) ≤ Span.limit) :
    scanFrom d (byteLength before) (lineFeeds before + 1) source =
      .error (offence.error d (before ++ source) (before ++ found)) := by
  induction h generalizing before with
  | @unterminated source text tail hopen hclose =>
      rw [scanFrom_eq, cut?_eq_some_iff.mpr hopen]
      dsimp only
      rw [cut?_eq_none_iff.mpr hclose]
      rw [hopen.eq] at hsize ⊢
      simp only [byteLength_append] at hsize
      rw [Span.clamped_of_le (by omega) (by omega)]
      simp only [Offence.error, byteLength_append, Nat.add_assoc]
  | @nested source text tail raw rest lead inner hopen hclose hnested =>
      rw [scanFrom_eq, cut?_eq_some_iff.mpr hopen]
      dsimp only
      rw [cut?_eq_some_iff.mpr hclose]
      dsimp only
      rw [cut?_eq_some_iff.mpr hnested]
      dsimp only
      rw [eq_of_leftmost hopen hclose, hnested.eq] at hsize
      simp only [Delimiters.around, byteLength_append] at hsize
      rw [Span.clamped_of_le (by omega) (by omega)]
      simp only [Offence.error, byteLength_append, Nat.add_assoc]
  | @later source text tail raw rest found offence hopen hclose hraw _ ih =>
      rw [eq_of_leftmost hopen hclose] at hsize
      rw [scanFrom_of_directive hopen hclose hraw, ih, eq_of_leftmost hopen hclose]
      · simp only [List.append_assoc]
        rfl
      · simpa only [List.append_assoc] using hsize

end

/-- Scanning accepts the sources that can be cut, and its segments lose nothing: they show the
stretches of the cut, whose texts make up the source; text segments are not empty, hold no open
delimiter and never follow one another; the contents stand at their spans, which come one behind the
other. Any other source is refused at its first open delimiter that offends. -/
theorem scan_cuts (d : Delimiters) (source : String)
    (hsize : byteLength source.toList < UInt32.size) :
    ((∃ segments, scan source d = .ok segments) ↔ ∃ stretches, Cut d source.toList stretches) ∧
    (∀ segments, scan source d = .ok segments →
      (∃ stretches, Cut d source.toList stretches ∧ Stretch.written d stretches = source.toList ∧
        Segment.Lay d [] stretches segments) ∧
      (∀ s ∈ segments, s.kind = .text →
        s.content ≠ [] ∧ ¬ d.opening.toList <:+: s.content) ∧
      (segments.IsChain fun s t => ¬ (s.kind = .text ∧ t.kind = .text)) ∧
      (∀ s ∈ segments, s.span.Covers source.toList s.content) ∧
      segments.Pairwise fun s t => s.span.stop ≤ t.span.start) ∧
    ∀ e, scan source d = .error e ↔
      ∃ before offence, Offends d source.toList before offence ∧
        e = offence.error d source.toList before := by
  have hlimit : byteLength source.toList ≤ Span.limit := Nat.le_sub_one_of_lt hsize
  have hcut : ∀ stretches, Cut d source.toList stretches →
      scan source d = .ok (Stretch.segments d [] stretches) :=
    fun stretches h => scanFrom_of_cut h []
  have hoffends : ∀ before offence, Offends d source.toList before offence →
      scan source d = .error (offence.error d source.toList before) :=
    fun before offence h => scanFrom_of_offends h [] hlimit
  refine ⟨⟨?_, ?_⟩, ?_, fun e => ⟨?_, ?_⟩⟩
  · rintro ⟨segments, hscan⟩
    refine (cut_or_offends d source.toList).resolve_right ?_
    rintro ⟨before, offence, h⟩
    cases hscan.symm.trans (hoffends before offence h)
  · rintro ⟨stretches, h⟩
    exact ⟨_, hcut stretches h⟩
  · intro segments hscan
    rcases cut_or_offends d source.toList with ⟨stretches, h⟩ | ⟨before, offence, h⟩
    · obtain rfl := Except.ok.inj (hscan.symm.trans (hcut stretches h))
      have hwritten := h.written
      have hlay : Segment.Lay d [] stretches (Stretch.segments d [] stretches) :=
        Stretch.lay_segments (by rwa [List.nil_append, hwritten])
      refine ⟨⟨stretches, h, hwritten, hlay⟩, fun s hs hkind => ?_, hlay.apart h.apart,
        fun s hs => ?_, hlay.spans.2⟩
      · exact h.text_of_mem (hlay.text_of_mem hs hkind)
      · have hcovers := hlay.covers s hs
        rwa [List.nil_append, hwritten] at hcovers
    · cases hscan.symm.trans (hoffends before offence h)
  · intro hscan
    rcases cut_or_offends d source.toList with ⟨stretches, h⟩ | ⟨before, offence, h⟩
    · cases hscan.symm.trans (hcut stretches h)
    · exact ⟨before, offence, h, Except.error.inj (hscan.symm.trans (hoffends before offence h))⟩
  · rintro ⟨before, offence, h, rfl⟩
    exact hoffends before offence h

/-- Delimiters of several bytes, and a close delimiter in the text behind the directive. -/
theorem scan_cuts_multibyte :
    byteLength "é\n«- ü »»".toList < UInt32.size ∧
    ∃ segments, scan "é\n«- ü »»" ⟨"«", "»"⟩ = .ok segments ∧
      (∃ stretches, Cut ⟨"«", "»"⟩ "é\n«- ü »»".toList stretches ∧
        Segment.Lay ⟨"«", "»"⟩ [] stretches segments) ∧
      ∀ s ∈ segments, s.span.Covers "é\n«- ü »»".toList s.content := by
  have hsize : byteLength "é\n«- ü »»".toList < UInt32.size := by decide
  have hscan : scan "é\n«- ü »»" ⟨"«", "»"⟩ = .ok
      [⟨.text, ['é', '\n'], ⟨0, 3⟩, 1⟩, ⟨.directive .raw, ['ü'], ⟨7, 9⟩, 2⟩,
        ⟨.text, ['»'], ⟨12, 14⟩, 2⟩] := by cbv
  obtain ⟨⟨stretches, hcut, -, hlay⟩, -, -, hcovers, -⟩ := (scan_cuts _ _ hsize).2.1 _ hscan
  exact ⟨hsize, _, hscan, ⟨stretches, hcut, hlay⟩, hcovers⟩

end LiveMarkup
