import LiveMarkup.Proofs.Engine.MarkedProgram
set_option autoImplicit false

/-! # Faults of a source

What is at fault in a source that does not compile, said without the compiler: an open delimiter that
offends; or else the first directive that cannot be read, or that closes a scope where none is open;
or else the directive that opened the innermost scope left open (`Faulty`). Every source compiles or
has a fault, and the error tells the line of the fault (`Program.exists_program_or_faulty`,
`Faulty.compile_eq_error`). -/

namespace LiveMarkup

open Text Scopes

/-! ## Lines of places -/

theorem lineFeedsBefore_append (before rest : List Char) :
    lineFeedsBefore (byteLength before) (before ++ rest) = lineFeeds before := by
  induction before with
  | nil =>
      cases rest with
      | nil => rfl
      | cons c rest =>
          have hpos : ¬ c.utf8Size ≤ 0 := Nat.not_le_of_lt c.utf8Size_pos
          rw [List.nil_append, byteLength, lineFeedsBefore, if_neg hpos]
          rfl
  | cons c before ih =>
      rw [List.cons_append, byteLength, lineFeedsBefore, if_pos (Nat.le_add_right _ _),
        Nat.add_sub_cancel_left, ih]
      rfl

/-- A place in a source is on the line that its line feeds tell. -/
theorem lineAt_append (before rest : List Char) :
    lineAt (before ++ rest) (byteLength before) = lineFeeds before + 1 := by
  rw [lineAt, lineFeedsBefore_append]

/-! ## Segments that stop a reading -/

/-- The header of a segment is well formed. -/
def Segment.Reads (s : Segment) : Prop := ∃ items, s.items = .ok items

/-- A segment that cannot be taken in behind others: its header is malformed, or it closes a scope
where none is open. -/
def Segment.Stops (s : Segment) (before : List Segment) : Prop :=
  ¬ s.Reads ∨ s.closesScope = true ∧ Balanced before

/-- Text can be taken in anywhere. -/
theorem Segment.Stops.kind {s : Segment} {before : List Segment} (h : s.Stops before) :
    s.kind ≠ .text := by
  intro hkind
  rcases h with hreads | ⟨hclose, -⟩
  · exact hreads ⟨[.text (String.ofList s.content)], by rw [Segment.items, hkind]⟩
  · rw [Segment.closesScope, hkind] at hclose
    cases hclose

theorem Segment.kind_of_opensScope {s : Segment} (h : s.opensScope = true) : s.kind ≠ .text := by
  intro hkind
  rw [Segment.opensScope, hkind] at h
  cases h

namespace Unfinished

variable {u u' : Unfinished} {s : Segment} {before segments : List Segment}

/-- Where a segment stops a reading, it is the only thing that can. -/
theorem step_cases (ht : OpenTrail u.sites before) (s : Segment) :
    (s.Reads ∧ ∃ u', u.step s = .ok u' ∧ OpenTrail u'.sites (before ++ [s])) ∨
      s.Stops before ∧ ∃ e, u.step s = .error e ∧ e.line = s.line := by
  cases hstep : u.step s with
  | ok u' => exact .inl ⟨exists_items_of_step hstep, u', rfl, trail_step ht hstep⟩
  | error e =>
      refine .inr ⟨?_, e, rfl, line_of_step_eq_error hstep⟩
      by_cases hreads : s.Reads
      · obtain ⟨items, hitems⟩ := hreads
        obtain ⟨hclose, hframes, -⟩ := step_eq_error hitems hstep
        rw [sites, hframes] at ht
        cases ht with
        | outside hbalanced => exact .inr ⟨hclose, hbalanced⟩
      · exact .inl hreads

/-- Segments are read to their end if each of them can be read and every close is matched. -/
theorem exists_foldlM (ht : OpenTrail u.sites before) (hreads : ∀ s ∈ segments, s.Reads)
    (hmatched : Matched (before ++ segments)) :
    ∃ u', segments.foldlM step u = .ok u' ∧ OpenTrail u'.sites (before ++ segments) := by
  induction segments generalizing u before with
  | nil => exact ⟨u, rfl, by simpa using ht⟩
  | cons s rest ih =>
      obtain ⟨hs, hrest⟩ := List.forall_mem_cons.mp hreads
      obtain ⟨-, next, hnext, htrail⟩ | ⟨hstops, -⟩ := step_cases ht s
      · rw [List.append_cons] at hmatched ⊢
        obtain ⟨u', hu', htrail'⟩ := ih htrail hrest hmatched
        exact ⟨u', (ok_bind hnext).trans hu', htrail'⟩
      · -- a matched close is no stop
        have hunmatched := hstops.resolve_left (not_not_intro hs)
        exact absurd hmatched (not_matched_of_firstUnmatched
          ⟨before, rest, rfl, hunmatched.1, hunmatched.2⟩)

/-- Else a first segment stops the reading, with an error on its line. -/
theorem foldlM_cases (ht : OpenTrail u.sites before) (segments : List Segment) :
    ((∀ s ∈ segments, s.Reads) ∧ Matched (before ++ segments)) ∨
      ∃ read s rest, segments = read ++ s :: rest ∧ (∀ r ∈ read, r.Reads) ∧
        Matched (before ++ read) ∧ s.Stops (before ++ read) := by
  induction segments generalizing u before with
  | nil => exact .inl ⟨by simp, by simpa using ht.matched⟩
  | cons s rest ih =>
      obtain ⟨hs, next, -, htrail⟩ | ⟨hstops, -⟩ := step_cases ht s
      · obtain ⟨hrest, hmatched⟩ | ⟨read, t, behind, rfl, hread, hmatched, hstops⟩ := ih htrail
        · exact .inl ⟨List.forall_mem_cons.mpr ⟨hs, hrest⟩, by rwa [List.append_cons]⟩
        · rw [← List.append_cons] at hmatched hstops
          exact .inr ⟨s :: read, t, behind, rfl, List.forall_mem_cons.mpr ⟨hs, hread⟩, hmatched,
            hstops⟩
      · exact .inr ⟨[], s, rest, rfl, by simp, by simpa using ht.matched, by simpa using hstops⟩

end Unfinished

/-! ## Faults -/

/-- The directive that stands behind some source text. -/
def Segment.behind (d : Delimiters) (before raw : List Char) : Segment :=
  .ofDirective (byteLength before + byteLength d.opening.toList) (lineFeeds before + 1) raw

theorem Stretch.segments_directive (d : Delimiters) (pre : List Stretch) (raw : List Char)
    (post : List Stretch) :
    segments d [] (pre ++ .directive raw :: post) =
      segments d [] pre ++ Segment.behind d (written d pre) raw ::
        segments d (written d pre ++ d.around raw) post := by
  rw [segments_append]
  rfl

/-- The segment of a stretch that stands behind some source text. -/
def Stretch.segment (d : Delimiters) (before : List Char) : Stretch → Segment
  | .text run => .ofText (byteLength before) (lineFeeds before + 1) run
  | .directive raw => .behind d before raw

theorem Stretch.segments_cons (d : Delimiters) (before : List Char) (first : Stretch)
    (rest : List Stretch) : segments d before (first :: rest) =
      first.segment d before :: segments d (before ++ first.source d) rest := by
  cases first <;> rfl

/-- Every segment is that of a stretch. -/
theorem Stretch.exists_of_segments_eq {d : Delimiters} {before : List Char}
    {stretches : List Stretch} {read rest : List Segment} {s : Segment}
    (h : segments d before stretches = read ++ s :: rest) :
    ∃ pre stretch post, stretches = pre ++ stretch :: post ∧ segments d before pre = read ∧
      stretch.segment d (before ++ written d pre) = s ∧
      segments d (before ++ written d pre ++ stretch.source d) post = rest := by
  induction stretches generalizing before read with
  | nil => simp [segments] at h
  | cons first others ih =>
      rw [segments_cons] at h
      cases read with
      | nil =>
          obtain ⟨hs, hrest⟩ := List.cons.inj h
          exact ⟨[], first, others, rfl, rfl, by simpa using hs, by simpa using hrest⟩
      | cons t read =>
          obtain ⟨ht, hrest⟩ := List.cons.inj h
          obtain ⟨pre, stretch, post, rfl, hpre, hs, hpost⟩ := ih hrest
          refine ⟨first :: pre, stretch, post, rfl, ?_, ?_, ?_⟩
          · rw [segments_cons, ht, hpre]
          · rw [written_cons, ← List.append_assoc, hs]
          · rw [written_cons, ← List.append_assoc, hpost]

theorem Stretch.exists_raw_of_segment {d : Delimiters} {before : List Char} {stretch : Stretch}
    (h : (stretch.segment d before).kind ≠ .text) : ∃ raw, stretch = .directive raw := by
  cases stretch with
  | text run => exact absurd rfl h
  | directive raw => exact ⟨raw, rfl⟩

/-- What is at fault in a source stands behind `before`: the first open delimiter that offends; in a
source that can be cut, the first directive that stops the reading; or, where none does, the directive
that opened the innermost scope left open. -/
inductive Faulty (d : Delimiters) (source : List Char) : List Char → Prop
  | delimiter {before : List Char} {offence : Offence} : Offends d source before offence →
    Faulty d source before
  | directive {pre post : List Stretch} {raw : List Char} :
    Cut d source (pre ++ .directive raw :: post) →
    (∀ s ∈ Stretch.segments d [] pre, s.Reads) → Matched (Stretch.segments d [] pre) →
    (Segment.behind d (Stretch.written d pre) raw).Stops (Stretch.segments d [] pre) →
    Faulty d source (Stretch.written d pre)
  | unclosed {pre post : List Stretch} {raw : List Char} :
    Cut d source (pre ++ .directive raw :: post) →
    (∀ s ∈ Stretch.segments d [] (pre ++ .directive raw :: post), s.Reads) →
    Matched (Stretch.segments d [] (pre ++ .directive raw :: post)) →
    (Segment.behind d (Stretch.written d pre) raw).opensScope = true →
    Balanced (Stretch.segments d (Stretch.written d pre ++ d.around raw) post) →
    Faulty d source (Stretch.written d pre)

/-- An open delimiter that offends stands in the source. -/
theorem Offends.prefix {d : Delimiters} {source before : List Char} {offence : Offence}
    (h : Offends d source before offence) : before ++ d.opening.toList <+: source := by
  induction h with
  | unterminated hopen _ => exact ⟨_, hopen.eq.symm⟩
  | @nested source text tail raw rest lead inner hopen hclose hnested =>
      refine ⟨inner ++ d.closing.toList ++ rest, ?_⟩
      rw [hopen.eq, hclose.eq, hnested.eq]
      simp only [List.append_assoc]
  | @later source text tail raw rest before offence hopen hclose _ _ ih =>
      obtain ⟨behind, hbehind⟩ := ih
      refine ⟨behind, ?_⟩
      rw [eq_of_leftmost hopen hclose, ← hbehind]
      simp only [List.append_assoc]

/-- Scanning a source that offends fails at the first offence, as far as a span can name it. -/
theorem exists_start_of_offends {d : Delimiters} {source found : List Char} {offence : Offence}
    (h : Offends d source found offence) (before : List Char) :
    ∃ e, scanFrom d (byteLength before) (lineFeeds before + 1) source = .error e ∧
      e.span.start = min (byteLength (before ++ found)) Span.limit := by
  induction h generalizing before with
  | @unterminated source text tail hopen hclose =>
      rw [scanFrom_eq, cut?_eq_some_iff.mpr hopen]
      dsimp only
      rw [cut?_eq_none_iff.mpr hclose, byteLength_append]
      exact ⟨_, rfl, rfl⟩
  | @nested source text tail raw rest lead inner hopen hclose hnested =>
      rw [scanFrom_eq, cut?_eq_some_iff.mpr hopen]
      dsimp only
      rw [cut?_eq_some_iff.mpr hclose]
      dsimp only
      rw [cut?_eq_some_iff.mpr hnested]
      simp only [byteLength_append, ← Nat.add_assoc]
      exact ⟨_, rfl, rfl⟩
  | @later source text tail raw rest found offence hopen hclose hraw _ ih =>
      obtain ⟨e, he, hstart⟩ := ih (before ++ text ++ d.around raw)
      refine ⟨e, ?_, by simpa only [List.append_assoc] using hstart⟩
      rw [scanFrom_of_directive hopen hclose hraw, he]
      rfl

/-- A directive of a cut stands behind what is written before it. -/
theorem Cut.prefix_directive {d : Delimiters} {source raw : List Char} {pre post : List Stretch}
    (h : Cut d source (pre ++ .directive raw :: post)) :
    Stretch.written d pre ++ d.around raw <+: source := by
  refine ⟨Stretch.written d post, ?_⟩
  rw [← h.written, Stretch.written_append, Stretch.written_cons, List.append_assoc]
  rfl

namespace Faulty

variable {d : Delimiters} {source : String} {before : List Char}

/-- A fault stands at an open delimiter. -/
theorem prefix_source {source : List Char} (h : Faulty d source before) :
    before ++ d.opening.toList <+: source := by
  have hdirective : ∀ {pre post : List Stretch} {raw : List Char},
      Cut d source (pre ++ .directive raw :: post) →
      Stretch.written d pre ++ d.opening.toList <+: source := by
    intro pre post raw hcut
    refine List.IsPrefix.trans ⟨raw ++ d.closing.toList, ?_⟩ hcut.prefix_directive
    rw [Delimiters.around]
    simp only [List.append_assoc]
  cases h with
  | delimiter hoffends => exact hoffends.prefix
  | directive hcut _ _ _ => exact hdirective hcut
  | unclosed hcut _ _ _ _ => exact hdirective hcut

/-- A source with a fault is refused on the line of its fault, if a span can name the place. -/
theorem compile_eq_error (h : Faulty d source.toList before)
    (hplace : byteLength before < UInt32.size) :
    ∃ e, Program.compile source d = .error e ∧ e.line = lineFeeds before + 1 := by
  have hstart : OpenTrail Unfinished.empty.sites [] := .outside balanced_nil
  cases h with
  | delimiter hoffends =>
      obtain ⟨e, hscan, hstart⟩ := exists_start_of_offends hoffends []
      obtain ⟨rest, hrest⟩ := hoffends.prefix
      refine ⟨.ofLex (lineAt source.toList e.span.start) e, ?_, ?_⟩
      · rw [Program.compile, scan, ← show lineFeeds [] + 1 = 1 from rfl,
          ← show byteLength [] = 0 from rfl, hscan]
        rfl
      · show lineAt source.toList e.span.start = _
        have hlimit : byteLength before ≤ Span.limit := Nat.le_sub_one_of_lt hplace
        rw [hstart, List.nil_append, Nat.min_eq_left hlimit, ← hrest, List.append_assoc,
          lineAt_append]
  | @directive pre post raw hcut hreads hmatched hstops =>
      obtain ⟨u, hu, htrail⟩ := Unfinished.exists_foldlM hstart hreads hmatched
      obtain ⟨hs, u', -, htrail'⟩ | ⟨-, e, he, hline⟩ :=
        Unfinished.step_cases htrail (Segment.behind d (Stretch.written d pre) raw)
      · -- the directive could only be taken in if it did not stop the reading
        obtain ⟨hclose, hbalanced⟩ := hstops.resolve_left (not_not_intro hs)
        exact absurd htrail'.matched
          (not_matched_of_firstUnmatched ⟨_, [], rfl, hclose, hbalanced⟩)
      · refine ⟨e, ?_, hline⟩
        rw [Program.compile_of_cut hcut, Program.ofSegments, Stretch.segments_directive,
          List.foldlM_append, ok_bind hu, List.foldlM_cons, he]
        rfl
  | @unclosed pre post raw hcut hreads hmatched hopens hbalanced =>
      obtain ⟨⟨frames, outside⟩, hu, htrail⟩ := Unfinished.exists_foldlM hstart hreads hmatched
      rw [List.nil_append, Stretch.segments_directive] at htrail
      cases frames with
      | nil =>
          cases htrail with
          | outside hall =>
              exact absurd hall (not_balanced_of_innermostOpen ⟨_, _, rfl, hopens, hbalanced⟩)
      | cons f fs =>
          obtain ⟨-, s, ⟨_, _, hsegments, hs, hafter⟩, hsite⟩ := htrail.innermostOpen
          obtain ⟨-, rfl⟩ := innermostOpen_unique hsegments hopens hs hbalanced hafter
          obtain ⟨kind, -, hfinish⟩ := Unfinished.finish_of_open hsite fs outside
          have hcompile : Program.compile source d = Unfinished.finish ⟨f :: fs, outside⟩ := by
            rw [Program.compile_of_cut hcut, Program.ofSegments, ok_bind hu]
          exact ⟨_, hcompile.trans hfinish, rfl⟩

end Faulty

/-- A source that has no fault compiles. -/
theorem Program.exists_program_or_faulty (source : String) (d : Delimiters) :
    (∃ p, compile source d = .ok p) ∨ ∃ before, Faulty d source.toList before := by
  have hstart : OpenTrail Unfinished.empty.sites [] := .outside balanced_nil
  rcases cut_or_offends d source.toList with ⟨stretches, hcut⟩ | ⟨before, offence, hoffends⟩
  · obtain ⟨hreads, hmatched⟩ | ⟨read, s, rest, hsegments, hreads, hmatched, hstops⟩ :=
      Unfinished.foldlM_cases hstart (Stretch.segments d [] stretches)
    · obtain ⟨⟨frames, outside⟩, hu, htrail⟩ := Unfinished.exists_foldlM hstart hreads hmatched
      cases frames with
      | nil =>
          refine .inl ⟨⟨outside.reverse⟩, ?_⟩
          rw [compile_of_cut hcut, ofSegments, ok_bind hu]
          rfl
      | cons f fs =>
          obtain ⟨-, s, ⟨read, rest, hsegments, hs, hafter⟩, -⟩ := htrail.innermostOpen
          obtain ⟨pre, stretch, post, rfl, rfl, rfl, rfl⟩ :=
            Stretch.exists_of_segments_eq hsegments
          obtain ⟨raw, rfl⟩ := Stretch.exists_raw_of_segment (Segment.kind_of_opensScope hs)
          exact .inr ⟨_, .unclosed hcut hreads hmatched hs hafter⟩
    · obtain ⟨pre, stretch, post, rfl, rfl, rfl, -⟩ := Stretch.exists_of_segments_eq hsegments
      obtain ⟨raw, rfl⟩ := Stretch.exists_raw_of_segment hstops.kind
      exact .inr ⟨_, .directive hcut hreads hmatched hstops⟩
  · exact .inr ⟨before, .delimiter hoffends⟩

end LiveMarkup
