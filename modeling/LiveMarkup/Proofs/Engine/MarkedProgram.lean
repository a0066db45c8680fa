import LiveMarkup.Proofs.Engine.Expansion
set_option autoImplicit false

/-! # Programs of marked templates

The mark of a root adds three nodes to the program of its template, in the place of the text that it
is put into, and changes nothing else (`ComponentSource.compile_markRoot`). The marked source is cut
as the source is, so its segments are those of the source with the mark among them. Behind the mark
they stand in other places, and on other lines if the delimiters have line feeds. -/

namespace LiveMarkup

open Text

/-! ## Marked templates -/

/-- The line feeds that a directive has at least. -/
def Delimiters.lineFeeds (d : Delimiters) : Nat :=
  Text.lineFeeds d.opening.toList + Text.lineFeeds d.closing.toList

theorem Stretch.lineFeeds_written_marked (d : Delimiters) (a b : List Char) :
    Text.lineFeeds (written d (marked a b)) = Text.lineFeeds (a ++ b) + d.lineFeeds := by
  rw [written_marked]
  simp only [lineFeeds_append, Delimiters.lineFeeds]
  have h₁ : Text.lineFeeds " ".toList = 0 := by decide
  have h₂ : Text.lineFeeds rootAttribute.toList = 0 := by decide
  have h₃ : Text.lineFeeds "=\"".toList = 0 := by decide
  have h₄ : Text.lineFeeds "$ctxKey".toList = 0 := by decide
  have h₅ : Text.lineFeeds "\"".toList = 0 := by decide
  omega

theorem Program.compile_of_cut {d : Delimiters} {source : String} {stretches : List Stretch}
    (h : Cut d source.toList stretches) :
    compile source d = ofSegments (Stretch.segments d [] stretches) := by
  have hscan : scan source d = .ok (Stretch.segments d [] stretches) := scanFrom_of_cut h []
  rw [compile, hscan]
  rfl

/-- Behind text without a tag, a marked run of text is read as the run without the mark, with the
nodes of the mark in the place of its node. -/
theorem exists_endsAlike_foldlM_marked (d : Delimiters) (before a b : List Char)
    (post : List Stretch) :
    ∃ key : Expr, key.kind = .instanceKey ∧ ∀ u : Unfinished,
      u.Front (lineFeeds (before ++ a) + 1) →
      EndsAlike (fun m m' => lineFeeds (before ++ a) + 1 ≤ m ∧ m' = m + d.lineFeeds)
        (Unfinished.Expanded (lineFeeds (before ++ a) + 1) d.lineFeeds
          (.text (String.ofList (a ++ b)))
          (Node.marked (String.ofList (a ++ ComponentSource.markHead)) key
            (lineFeeds (before ++ a) + 1) (String.ofList ('"' :: b))))
        ((Stretch.segments d before (.text (a ++ b) :: post)).foldlM Unfinished.step u)
        ((Stretch.segments d before (Stretch.marked a b ++ post)).foldlM Unfinished.step u) := by
  obtain ⟨key, hkey, hmark⟩ := exists_foldlM_marked d before a b
  have hhead : lineFeeds ComponentSource.markHead = 0 := by decide
  rw [← List.append_assoc, lineFeeds_append, hhead, Nat.add_zero] at hmark
  refine ⟨key, hkey, fun u hu => ?_⟩
  have hmoved : lineFeeds (before ++ Stretch.written d (Stretch.marked a b)) =
      lineFeeds (before ++ (a ++ b)) + d.lineFeeds := by
    rw [lineFeeds_append, lineFeeds_append, Stretch.lineFeeds_written_marked, Nat.add_assoc]
  have hle : lineFeeds (before ++ a) + 1 ≤ lineFeeds (before ++ (a ++ b)) + 1 := by
    simp only [lineFeeds_append]
    omega
  have hpost := Stretch.below_segments (d := d) hmoved hle post
  rw [Stretch.segments_append, List.foldlM_append, ok_bind (hmark u)]
  exact EndsAlike.foldlM hpost (fun _ _ _ _ h hs => h.step hs) hu.expanded

/-- Stretches with a mark in a run of text, the first one with a tag, are read as the stretches
without it, with the nodes of the mark in the place of the node of that run. -/
theorem Program.exists_endsAlike_marked (d : Delimiters) {pre : List Stretch}
    (hpre : ∀ run, .text run ∈ pre → ComponentSource.cutAtFirstTag? run = none) (a b : List Char)
    (post : List Stretch) :
    ∃ key : Expr, key.kind = .instanceKey ∧
      EndsAlike (LineMoved (lineFeeds (Stretch.written d pre ++ a) + 1) d.lineFeeds)
        (fun p p' => Node.Expanded d.lineFeeds (.text (String.ofList (a ++ b)))
          (Node.marked (String.ofList (a ++ ComponentSource.markHead)) key
            (lineFeeds (Stretch.written d pre ++ a) + 1) (String.ofList ('"' :: b)))
          p.nodes p'.nodes)
        (ofSegments (Stretch.segments d [] (pre ++ .text (a ++ b) :: post)))
        (ofSegments (Stretch.segments d [] (pre ++ (Stretch.marked a b ++ post)))) := by
  obtain ⟨key, hkey, hmarked⟩ :=
    exists_endsAlike_foldlM_marked d (Stretch.written d pre) a b post
  refine ⟨key, hkey, ?_⟩
  have hline : ∀ s ∈ Stretch.segments d [] pre,
      s.line ≤ lineFeeds (Stretch.written d pre ++ a) + 1 := by
    intro s hs
    have hle := Stretch.line_le_of_mem_segments hs
    simp only [List.nil_append, lineFeeds_append] at hle ⊢
    omega
  rw [ofSegments, ofSegments, Stretch.segments_append, Stretch.segments_append,
    List.foldlM_append, List.foldlM_append, List.nil_append]
  cases hread : (Stretch.segments d [] pre).foldlM Unfinished.step .empty with
  | error e =>
      obtain ⟨s, hs, hsame⟩ := Unfinished.exists_line_of_foldlM_eq_error hread
      exact .error rfl (.inl ⟨hsame ▸ hline s hs, rfl⟩)
  | ok u =>
      have hfront : u.Front (lineFeeds (Stretch.written d pre ++ a) + 1) :=
        Unfinished.front_of_foldlM hread hline fun s hs hkind =>
          hpre _ (Stretch.text_of_mem_segments hs hkind)
      exact EndsAlike.bind ((hmarked u hfront).mono fun _ _ hbehind => Or.inr hbehind)
        fun _ _ hread => hread.finish

/-- The mark is all that a marked template has more. -/
theorem ComponentSource.compile_markRoot {d : Delimiters} {name text marked : String}
    (hd : d.Apart) (hclose : d.closing ≠ "")
    (hsize : byteLength (unwrap text.toList) < UInt32.size)
    (h : markRoot name text d = .ok marked) :
    ∃ front a b behind key, cutAtFirstTag? (a ++ b) = some (a, b) ∧
      unwrap text.toList = front ++ a ++ (b ++ behind) ∧
      marked.toList = front ++ a ++ markHead ++ d.around keyName ++ ('"' :: b ++ behind) ∧
      key.kind = .instanceKey ∧
      EndsAlike (LineMoved (lineFeeds (front ++ a) + 1) d.lineFeeds)
        (fun p p' => Node.Expanded d.lineFeeds (.text (String.ofList (a ++ b)))
          (Node.marked (String.ofList (a ++ markHead)) key (lineFeeds (front ++ a) + 1)
            (String.ofList ('"' :: b))) p.nodes p'.nodes)
        (Program.compile (String.ofList (unwrap text.toList)) d) (Program.compile marked d) := by
  obtain ⟨pre, a, b, post, hcut, hcut', hfirst, htagless⟩ :=
    exists_cut_of_markRoot hd hclose hsize h
  obtain ⟨key, hkey, hends⟩ := Program.exists_endsAlike_marked d htagless a b post
  rw [← String.toList_ofList (l := unwrap text.toList)] at hcut
  rw [← List.append_assoc, ← Program.compile_of_cut hcut', ← Program.compile_of_cut hcut] at hends
  refine ⟨Stretch.written d pre, a, b, Stretch.written d post, key, hfirst, ?_, ?_, hkey, hends⟩
  · rw [← String.toList_ofList (l := unwrap text.toList), ← hcut.written, Stretch.written_append,
      Stretch.written_cons]
    simp only [Stretch.source, List.append_assoc]
  · rw [← hcut'.written, Stretch.written_append, Stretch.written_append]
    simp only [Stretch.marked, Stretch.written_cons, Stretch.written_nil, Stretch.source,
      List.append_assoc, List.nil_append]

/-- The program of a template with a start tag in a comment and one in a branch. -/
def ruleProgram : Program :=
  ⟨[.text "<!-- <b> -->",
    .choose [.arm (.node (.ident "a") ⟨17, 18⟩) [.text "<hr>"] 1]
      (some [.interpolate (.node (.ident "b") ⟨31, 32⟩) true 1])]⟩

/-- The `else` behind the mark is read as before. -/
theorem ComponentSource.compile_markRoot_rule :
    (⟨"[", "]"⟩ : Delimiters).Apart ∧ ("]" : String) ≠ "" ∧
    byteLength (unwrap "<template><!-- <b> -->[if (a)]<hr>[else][b][/]</template>".toList) <
      UInt32.size ∧
    markRoot "rule" "<template><!-- <b> -->[if (a)]<hr>[else][b][/]</template>" ⟨"[", "]"⟩ =
      .ok "<!-- <b> -->[if (a)]<hr element=\"[$ctxKey]\">[else][b][/]" ∧
    Program.compile "<!-- <b> -->[if (a)]<hr>[else][b][/]" ⟨"[", "]"⟩ = .ok ruleProgram ∧
    ∃ p a b key line,
      Program.compile "<!-- <b> -->[if (a)]<hr element=\"[$ctxKey]\">[else][b][/]" ⟨"[", "]"⟩ =
        .ok p ∧
      Node.Expanded 0 (.text (String.ofList (a ++ b)))
        (Node.marked (String.ofList (a ++ markHead)) key line (String.ofList ('"' :: b)))
        ruleProgram.nodes p.nodes := by
  have hd : (⟨"[", "]"⟩ : Delimiters).Apart := by
    simp [Delimiters.Apart, Delimiters.Spare, markHead, keyName_eq, rootAttribute]
  have hmark : markRoot "rule" "<template><!-- <b> -->[if (a)]<hr>[else][b][/]</template>"
      ⟨"[", "]"⟩ = .ok "<!-- <b> -->[if (a)]<hr element=\"[$ctxKey]\">[else][b][/]" :=
    eq_ok_of_toOption (by decide +kernel)
  have hbody : unwrap "<template><!-- <b> -->[if (a)]<hr>[else][b][/]</template>".toList =
      "<!-- <b> -->[if (a)]<hr>[else][b][/]".toList := by decide +kernel
  have hsize : byteLength (unwrap
      "<template><!-- <b> -->[if (a)]<hr>[else][b][/]</template>".toList) < UInt32.size := by
    rw [hbody]
    decide +kernel
  have hcompile : Program.compile "<!-- <b> -->[if (a)]<hr>[else][b][/]" ⟨"[", "]"⟩ =
      .ok ruleProgram := by cbv
  obtain ⟨front, a, b, behind, key, -, -, -, -, hends⟩ :=
    compile_markRoot hd (by decide) hsize hmark
  rw [hbody, String.ofList_toList] at hends
  obtain ⟨p, hp, hexpanded⟩ := hends.exists_of_ok hcompile
  exact ⟨hd, by decide, hsize, hmark, hcompile, p, a, b, key, _, hp, hexpanded⟩

/-! ## Where a mark changes more -/

theorem Node.Expanded.head_cases {k : Nat} {x n n' : Node} {run rest rest' : List Node}
    (h : Expanded k x run (n :: rest) (n' :: rest')) :
    (∃ after', n' :: rest' = run ++ after' ∧ bareAll k rest = bareAll 0 after') ∨
      ExpandedIn k x run n n' ∨ n = n' := by
  generalize hnodes : n :: rest = nodes at h
  generalize hnodes' : n' :: rest' = nodes' at h
  cases h with
  | @here before after after' _ hafter =>
      cases before with
      | nil =>
          obtain ⟨-, rfl⟩ := List.cons.inj hnodes
          exact .inl ⟨after', rfl, hafter⟩
      | cons m before =>
          obtain ⟨rfl, -⟩ := List.cons.inj hnodes'
          exact .inr (.inr (List.cons.inj hnodes).1)
  | @inside before after after' m m' _ hin _ =>
      cases before with
      | nil =>
          obtain ⟨rfl, -⟩ := List.cons.inj hnodes
          obtain ⟨rfl, -⟩ := List.cons.inj hnodes'
          exact .inr (.inl hin)
      | cons m before =>
          obtain ⟨rfl, -⟩ := List.cons.inj hnodes'
          exact .inr (.inr (List.cons.inj hnodes).1)

/-- A source with a directive behind some text, and a tag behind it. -/
def farTag (size : Nat) : List Char := List.replicate (size + 1) 'x' ++ "[a]<p>".toList

/-- The source with the mark in the directive. -/
def farTagMarked (size : Nat) : List Char :=
  List.replicate (size + 1) 'x' ++ "[ element=\"[$ctxKey]\"a]<p>".toList

theorem not_mem_replicate {pat : List Char} (size : Nat) (h : 'x' ∉ pat) :
    ∀ c ∈ List.replicate size 'x', c ∉ pat := by
  intro c hc
  rwa [List.eq_of_mem_replicate hc]

theorem byteLength_replicate (size : Nat) : byteLength (List.replicate size 'x') = size := by
  induction size with
  | zero => rfl
  | succ size ih =>
      rw [List.replicate_succ, byteLength, ih, Nat.add_comm]
      rfl

theorem cut_farTag (size : Nat) : Cut ⟨"[", "]"⟩ (farTag size)
    [.text (List.replicate (size + 1) 'x'), .directive ['a'], .text ['<', 'p', '>']] := by
  have hopen : Leftmost ['['] (farTag size) (List.replicate (size + 1) 'x')
      ['a', ']', '<', 'p', '>'] := by
    have hleft := leftmost_of_disjoint (List.cons_ne_nil '[' [])
      (not_mem_replicate (size + 1) (by simp)) ['a', ']', '<', 'p', '>']
    rwa [List.append_assoc] at hleft
  have hclose : Leftmost [']'] (['a'] ++ [']'] ++ ['<', 'p', '>']) ['a'] ['<', 'p', '>'] :=
    leftmost_of_disjoint (List.cons_ne_nil ']' []) (by simp) _
  have hraw : ¬ ['['] <:+: ['a'] := not_infix_of_disjoint (List.cons_ne_nil '[' []) (by simp)
  have hbehind : ¬ ['['] <:+: ['<', 'p', '>'] :=
    not_infix_of_disjoint (List.cons_ne_nil '[' []) (by simp)
  exact @Cut.directive ⟨"[", "]"⟩ _ _ _ _ _ _ hopen hclose hraw (.run hbehind)

theorem compile_farTag (size : Nat) :
    ∃ p, Program.compile (String.ofList (farTag size)) ⟨"[", "]"⟩ = .ok p := by
  have hspells : Spells ['a'] [.ident "a"] := .cons rfl rfl .nil
  have hstep (offset line : Nat) : ∃ e, ∀ u : Unfinished,
      u.step (Segment.ofDirective offset line ['a']) = .ok (u.push (.interpolate e true line)) := by
    obtain ⟨span, hsegment⟩ : ∃ span, Segment.ofDirective offset line ['a'] =
        ⟨.directive .escaped, ['a'], span, line⟩ := ⟨_, rfl⟩
    obtain ⟨e, -, he⟩ := Content.exists_expression (c := ⟨['a'], span, line⟩) hspells
      (Grammar.Derives.ident (by decide))
    exact ⟨e, fun u => by rw [hsegment]; exact ok_bind he⟩
  have hcut := cut_farTag size
  rw [← String.toList_ofList (l := farTag size)] at hcut
  obtain ⟨e, he⟩ := hstep (byteLength ([] ++ List.replicate (size + 1) 'x') + byteLength "[".toList)
    (lineFeeds ([] ++ List.replicate (size + 1) 'x') + 1)
  have hread : ∃ nodes, (Stretch.segments ⟨"[", "]"⟩ []
      [.text (List.replicate (size + 1) 'x'), .directive ['a'], .text ['<', 'p', '>']]).foldlM
        Unfinished.step .empty = .ok ⟨[], nodes⟩ := ⟨_, ok_bind (he _)⟩
  obtain ⟨nodes, hread⟩ := hread
  rw [Program.compile_of_cut hcut]
  exact ⟨⟨nodes.reverse⟩, ok_bind hread⟩

namespace ComponentSource

theorem cutAtFirstTag?_of_not_mem {s : List Char} (h : '<' ∉ s) : cutAtFirstTag? s = none := by
  induction s with
  | nil => simp [cutAtFirstTag?]
  | cons c s ih =>
      obtain ⟨hc, hs⟩ := not_or.mp (mt List.mem_cons.mpr h)
      rw [cutAtFirstTag?_char (Ne.symm hc), ih hs]
      rfl

theorem unwrap_farTag (size : Nat) : unwrap (farTag size) = farTag size := by
  rw [farTag, List.replicate_succ]
  rfl

/-- The offset of the tag is cut down to the last one of a span. -/
theorem rootOffset?_farTag {size : Nat} (h : Span.limit ≤ size) :
    rootOffset? (Stretch.segments ⟨"[", "]"⟩ []
      [.text (List.replicate (size + 1) 'x'), .directive ['a'], .text ['<', 'p', '>']]) =
        some (Span.limit + 2) := by
  have hlead : cutAtFirstTag? (List.replicate (size + 1) 'x') = none :=
    cutAtFirstTag?_of_not_mem fun h => absurd (List.eq_of_mem_replicate h) (by decide)
  have htag : cutAtFirstTag? ['<', 'p', '>'] = some (['<', 'p'], ['>']) := by cbv
  have hname : byteLength ['<', 'p'] = 2 := by decide
  simp only [rootOffset?, Stretch.segments, Segment.ofText, Segment.ofDirective_eq, hlead, htag,
    hname, Span.clamped, Delimiters.around, byteLength_append, byteLength_replicate,
    List.findSome?_cons, List.nil_append, if_true, if_false, reduceCtorEq, Option.map_none,
    Option.map_some]
  rw [Nat.min_eq_right (by omega)]

theorem markRoot_farTag {size : Nat} (h : Span.limit = size) :
    markRoot "box" (String.ofList (farTag size)) ⟨"[", "]"⟩ =
      .ok (String.ofList (farTagMarked size)) := by
  have hoffset : Span.limit + 2 = byteLength (List.replicate (size + 1) 'x' ++ ['[']) := by
    rw [byteLength_append, byteLength_replicate, h]
    rfl
  have hsource : farTag size =
      (List.replicate (size + 1) 'x' ++ ['[']) ++ "a]<p>".toList := by
    rw [farTag, List.append_assoc]
    rfl
  have hscan : scan (String.ofList (farTag size)) ⟨"[", "]"⟩ = .ok (Stretch.segments ⟨"[", "]"⟩ []
      [.text (List.replicate (size + 1) 'x'), .directive ['a'],
        .text ['<', 'p', '>']]) := by
    rw [scan, String.toList_ofList]
    exact scanFrom_of_cut (cut_farTag size) []
  rw [markRoot]
  simp only [String.toList_ofList, unwrap_farTag]
  rw [hscan]
  refine (ok_bind rfl).trans ?_
  rw [rootOffset?_farTag (Nat.le_of_eq h), hoffset, hsource]
  simp only [cutAtByte_append]
  refine congrArg Except.ok (String.toList_injective ?_)
  simp only [String.toList_append, String.toList_ofList, List.append_assoc]
  rfl

/-- The mark stands in the directive. -/
theorem compile_farTagMarked (size : Nat) :
    ∃ e, Program.compile (String.ofList (farTagMarked size)) ⟨"[", "]"⟩ = .error e := by
  have hopen : cut? "[".toList (farTagMarked size) = some (List.replicate (size + 1) 'x',
      " element=\"[$ctxKey]\"a]<p>".toList) := by
    have hleft := leftmost_of_disjoint (List.cons_ne_nil '[' [])
      (not_mem_replicate (size + 1) (by simp)) " element=\"[$ctxKey]\"a]<p>".toList
    rw [List.append_assoc] at hleft
    exact cut?_eq_some_iff.mpr hleft
  have hclose : cut? "]".toList " element=\"[$ctxKey]\"a]<p>".toList =
      some (" element=\"[$ctxKey".toList, "\"a]<p>".toList) := by cbv
  have hnested : cut? "[".toList " element=\"[$ctxKey".toList =
      some (" element=\"".toList, "$ctxKey".toList) := by cbv
  have hscan : ∃ e, scan (String.ofList (farTagMarked size)) ⟨"[", "]"⟩ = .error e := by
    rw [scan, String.toList_ofList, scanFrom_eq]
    simp only [hopen, hclose, hnested]
    exact ⟨_, rfl⟩
  obtain ⟨e, he⟩ := hscan
  exact ⟨_, by rw [Program.compile, he]; rfl⟩

/-- A mark on two lines moves what is behind it to the next line. And a mark is put into a directive
that stands before the tag, and spoils the template, if spans do not reach the tag. -/
theorem compile_markRoot_differs :
    ((⟨"\n[", "]"⟩ : Delimiters).Apart ∧
      markRoot "box" "<p>\n[x]</p>" ⟨"\n[", "]"⟩ =
        .ok "<p element=\"\n[$ctxKey]\">\n[x]</p>" ∧
      ¬ EndsAlike Eq
        (fun p p' => ∃ x a key n b, Node.Expanded 0 x (Node.marked a key n b) p.nodes p'.nodes)
        (Program.compile (String.ofList (unwrap "<p>\n[x]</p>".toList)) ⟨"\n[", "]"⟩)
        (Program.compile "<p element=\"\n[$ctxKey]\">\n[x]</p>" ⟨"\n[", "]"⟩)) ∧
    (⟨"[", "]"⟩ : Delimiters).Apart ∧
    markRoot "box" (String.ofList (farTag Span.limit)) ⟨"[", "]"⟩ =
      .ok (String.ofList (farTagMarked Span.limit)) ∧
    ∃ p e, Program.compile (String.ofList (unwrap (farTag Span.limit))) ⟨"[", "]"⟩ = .ok p ∧
      Program.compile (String.ofList (farTagMarked Span.limit)) ⟨"[", "]"⟩ = .error e := by
  have hd : (⟨"\n[", "]"⟩ : Delimiters).Apart := by
    simp [Delimiters.Apart, Delimiters.Spare, markHead, keyName_eq, rootAttribute]
  have hd' : (⟨"[", "]"⟩ : Delimiters).Apart := by
    simp [Delimiters.Apart, Delimiters.Spare, markHead, keyName_eq, rootAttribute]
  have hmark : markRoot "box" "<p>\n[x]</p>" ⟨"\n[", "]"⟩ =
      .ok "<p element=\"\n[$ctxKey]\">\n[x]</p>" := eq_ok_of_toOption (by decide +kernel)
  have hcompile : Program.compile (String.ofList (unwrap "<p>\n[x]</p>".toList)) ⟨"\n[", "]"⟩ =
      .ok ⟨[.text "<p>", .interpolate (.node (.ident "x") ⟨5, 6⟩) true 1, .text "</p>"]⟩ := by cbv
  have hcompile' : Program.compile "<p element=\"\n[$ctxKey]\">\n[x]</p>" ⟨"\n[", "]"⟩ =
      .ok ⟨[.text "<p element=\"", .interpolate (.node .instanceKey ⟨14, 21⟩) true 1, .text "\">",
        .interpolate (.node (.ident "x") ⟨26, 27⟩) true 2, .text "</p>"]⟩ := by cbv
  have hfar : ∃ p,
      Program.compile (String.ofList (unwrap (farTag Span.limit))) ⟨"[", "]"⟩ = .ok p := by
    rw [unwrap_farTag]
    exact compile_farTag _
  obtain ⟨p, hp⟩ := hfar
  obtain ⟨e, he⟩ := compile_farTagMarked Span.limit
  refine ⟨⟨hd, hmark, fun h => ?_⟩, hd', markRoot_farTag rfl, p, e, hp, he⟩
  rw [hcompile, hcompile'] at h
  cases h with
  | ok h =>
      obtain ⟨x, a, key, n, b, h⟩ := h
      rcases h.head_cases with ⟨after', hrun, hafter⟩ | hin | hsame
      · simp only [Node.marked, List.cons_append, List.nil_append, List.cons.injEq] at hrun
        obtain ⟨-, -, -, rfl⟩ := hrun
        simp [Node.bareAll, Node.bare] at hafter
      · cases hin
      · simp at hsame

end ComponentSource

end LiveMarkup
