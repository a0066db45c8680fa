import LiveMarkup.Proofs.Engine.Faults
import LiveMarkup.Proofs.Render.Blame
set_option autoImplicit false

/-! # Lines of a component

A component is compiled from what its `template` element holds, with the mark of the root in it. The
lines of its errors are those of the marked template: what stands before the element's contents does
not count, so a directive is reported on its line in the source only if there is no line feed in
front of the contents (`Template.lines_of_component`). -/

namespace LiveMarkup

open Text

namespace Text

theorem eq_of_cutLast? {pat s before after : List Char} (h : cutLast? pat s = some (before, after)) :
    s = before ++ pat ++ after := by
  induction s generalizing before with
  | nil =>
      unfold cutLast? at h
      split at h
      · next hp =>
          obtain ⟨rfl, rfl⟩ := Prod.mk.inj (Option.some.inj h)
          rw [List.isEmpty_iff.mp hp]
          rfl
      · cases h
  | cons c s ih =>
      unfold cutLast? at h
      split at h
      · next hlater =>
          obtain ⟨rfl, rfl⟩ := Prod.mk.inj (Option.some.inj h)
          rw [ih hlater]
          rfl
      · obtain ⟨rest, hafter, hpair⟩ := Option.map_eq_some_iff.mp h
        obtain ⟨rfl, rfl⟩ := Prod.mk.inj hpair
        exact eq_append_of_after? hafter

end Text

/-! ## What is unwrapped -/

namespace ComponentSource

/-- What stands before the contents of an enclosing `template` element: the element's start tag, with
all that is before it. -/
def opener (source : List Char) : List Char :=
  match after? templateOpen (trimStart source) with
  | none => []
  | some rest =>
    if endsTagName rest then
      match cut? ['>'] rest with
      | none => []
      | some (tag, _) => source.takeWhile isBlank ++ templateOpen ++ tag ++ ['>']
    else []

/-- Unwrapping keeps a part of the source. -/
theorem exists_closer (source : List Char) :
    ∃ closer, source = opener source ++ unwrap source ++ closer := by
  unfold opener unwrap
  cases hafter : after? templateOpen (trimStart source) with
  | none => exact ⟨[], (List.append_nil _).symm⟩
  | some rest =>
      have hsource : source = source.takeWhile isBlank ++ templateOpen ++ rest := by
        rw [List.append_assoc, ← eq_append_of_after? hafter]
        exact (List.takeWhile_append_dropWhile).symm
      dsimp only
      split
      · cases hcut : cut? ['>'] rest with
        | none => exact ⟨[], (List.append_nil _).symm⟩
        | some cut =>
            obtain ⟨tag, inner⟩ := cut
            have hwhole : source =
                source.takeWhile isBlank ++ templateOpen ++ tag ++ ['>'] ++ inner := by
              conv_lhs => rw [hsource, eq_of_cut? hcut]
              simp only [List.append_assoc]
            dsimp only
            cases hlast : cutLast? templateClose inner with
            | none => exact ⟨[], by rw [List.append_nil]; exact hwhole⟩
            | some cut =>
                obtain ⟨body, after⟩ := cut
                refine ⟨templateClose ++ after, ?_⟩
                conv_lhs => rw [hwhole, eq_of_cutLast? hlast]
                simp only [List.append_assoc]
      · exact ⟨[], (List.append_nil _).symm⟩

end ComponentSource

/-! ## Items of a cut source -/

theorem exists_of_mapM_eq_ok {α β ε : Type} {f : α → Except ε β} {as : List α} {bs : List β}
    (h : as.mapM f = .ok bs) {b : β} (hb : b ∈ bs) : ∃ a ∈ as, f a = .ok b := by
  induction as generalizing bs with
  | nil =>
      cases h
      cases hb
  | cons a as ih =>
      rw [List.mapM_cons] at h
      obtain ⟨first, hfirst, h⟩ := bind_eq_ok h
      obtain ⟨others, hothers, h⟩ := bind_eq_ok h
      cases h
      obtain rfl | hb := List.mem_cons.mp hb
      · exact ⟨a, List.mem_cons_self, hfirst⟩
      · obtain ⟨a', ha', hb⟩ := ih hothers hb
        exact ⟨a', List.mem_cons_of_mem _ ha', hb⟩

/-- What a program says is said by a stretch of its source. -/
theorem Program.exists_stretch_of_mem {d : Delimiters} {source : String} {stretches : List Stretch}
    {p : Program} (hcut : Cut d source.toList stretches) (h : compile source d = .ok p) {i : Item}
    (hi : i ∈ Node.flattenAll p.nodes) :
    ∃ pre stretch post, stretches = pre ++ stretch :: post ∧
      (stretch.segment d (Stretch.written d pre)).items = .ok [i] := by
  obtain ⟨segments, parts, hscan, hparts, hflat⟩ := counted_of_compile h
  obtain rfl := Except.ok.inj (hscan.symm.trans (scanFrom_of_cut hcut []))
  rw [hflat] at hi
  obtain ⟨part, hpart, hi⟩ := List.mem_flatten.mp ((Item.counting_sublist _ _).subset hi)
  obtain ⟨s, hs, hitems⟩ := exists_of_mapM_eq_ok hparts hpart
  obtain ⟨read, rest, hsegments⟩ := List.append_of_mem hs
  obtain ⟨pre, stretch, post, rfl, -, rfl, -⟩ := Stretch.exists_of_segments_eq hsegments
  refine ⟨pre, stretch, post, rfl, ?_⟩
  rw [List.nil_append] at hitems
  rcases Segment.items_eq_ok hitems with rfl | ⟨j, rfl, -⟩
  · cases hi
  · rw [hitems, List.mem_singleton.mp hi]

/-- What is reported with a line is said by a directive that starts on that line. -/
theorem Program.exists_directive_of_mem {d : Delimiters} {source : String}
    {stretches : List Stretch} {p : Program} (hcut : Cut d source.toList stretches)
    (h : compile source d = .ok p) {i : Item} (hi : i ∈ Node.flattenAll p.nodes) {line : Nat}
    (hline : i.line? = some line) :
    ∃ pre raw post, stretches = pre ++ .directive raw :: post ∧
      (Segment.behind d (Stretch.written d pre) raw).items = .ok [i] ∧
      line = lineFeeds (Stretch.written d pre) + 1 := by
  obtain ⟨pre, stretch, post, hstretches, hitems⟩ := exists_stretch_of_mem hcut h hi
  rcases Segment.items_eq_ok hitems with hnil | ⟨j, hj, hreported⟩
  · cases hnil
  · obtain rfl := List.singleton_inj.mp hj
    obtain ⟨hkind, rfl⟩ := hreported line hline
    obtain ⟨raw, rfl⟩ := Stretch.exists_raw_of_segment hkind
    exact ⟨pre, raw, post, hstretches, hitems, rfl⟩

/-! ## Directives of a marked template -/

namespace ComponentSource

/-- What a mark is in the source of a marked template. -/
def mark (d : Delimiters) : List Char := markHead ++ d.around keyName ++ ['"']

/-- A directive that stands behind `before` stands behind `place` in the marked template: in the same
place, or behind the mark. -/
def Moved (d : Delimiters) (before place : List Char) : Prop :=
  place = before ∨ ∃ front rest, before = front ++ rest ∧ place = front ++ mark d ++ rest

/-- How a line is told of the place behind `before` in what a source holds behind `opener`: the line
feeds of the opener do not count, those of the mark may. -/
def Told (d : Delimiters) (opener before : List Char) (line : Nat) : Prop :=
  line + lineFeeds opener = lineFeeds (opener ++ before) + 1 ∨
    line + lineFeeds opener = lineFeeds (opener ++ before) + 1 + d.lineFeeds

theorem written_marked (d : Delimiters) (a b : List Char) :
    Stretch.written d (Stretch.marked a b) = a ++ mark d ++ b := by
  show a ++ markHead ++ (d.around keyName ++ ('"' :: b ++ [])) = _
  rw [List.append_nil, mark]
  simp only [List.append_assoc, List.singleton_append]

theorem lineFeeds_mark (d : Delimiters) : lineFeeds (mark d) = d.lineFeeds := by
  have hmarked := Stretch.lineFeeds_written_marked d [] []
  rw [written_marked, List.nil_append, List.append_nil] at hmarked
  rw [hmarked, List.append_nil, lineFeeds, Nat.zero_add]

variable {d : Delimiters} {opener before place : List Char}

theorem told_of_lineMoved {n line : Nat} (h : LineMoved n d.lineFeeds (lineFeeds before + 1) line)
    (opener : List Char) : Told d opener before line := by
  unfold Told
  rw [lineFeeds_append]
  obtain ⟨-, rfl⟩ | ⟨-, rfl⟩ := h
  · exact .inl (by omega)
  · exact .inr (by omega)

theorem Moved.told (h : Moved d before place) (opener : List Char) :
    Told d opener before (lineFeeds place + 1) := by
  unfold Told
  rw [lineFeeds_append]
  obtain rfl | ⟨front, rest, rfl, rfl⟩ := h
  · exact .inl (by omega)
  · simp only [lineFeeds_append, lineFeeds_mark]
    exact .inr (by omega)

/-- A directive of the marked stretches is that of the mark or one of the stretches. -/
theorem exists_directive_of_marked {pre post pre' post' : List Stretch} {a b raw : List Char}
    (h : pre ++ Stretch.marked a b ++ post = pre' ++ .directive raw :: post') :
    raw = keyName ∨ ∃ pre₀ post₀, pre ++ .text (a ++ b) :: post = pre₀ ++ .directive raw :: post₀ ∧
      Moved d (Stretch.written d pre₀) (Stretch.written d pre') := by
  rw [List.append_assoc] at h
  obtain ⟨between, rfl, hrest⟩ | ⟨between, rfl, hrest⟩ := List.append_eq_append_iff.mp h
  · -- the directive is that of the mark, or behind the mark
    match between, hrest with
    | [], hrest => cases hrest
    | [_], hrest =>
        simp only [Stretch.marked, List.cons_append, List.nil_append, List.cons.injEq] at hrest
        exact .inl (Stretch.directive.inj hrest.2.1).symm
    | [_, _], hrest =>
        simp [Stretch.marked] at hrest
    | x :: y :: z :: between, hrest =>
        simp only [Stretch.marked, List.cons_append, List.nil_append, List.cons.injEq] at hrest
        obtain ⟨rfl, rfl, rfl, rfl⟩ := hrest
        refine .inr ⟨pre ++ .text (a ++ b) :: between, post', by simp, .inr
          ⟨Stretch.written d pre ++ a, b ++ Stretch.written d between, ?_, ?_⟩⟩
        · simp only [Stretch.written_append, Stretch.written_cons, Stretch.source,
            List.append_assoc]
        · rw [show Stretch.text (a ++ markHead) :: .directive keyName :: .text ('"' :: b) :: between =
            Stretch.marked a b ++ between from rfl, Stretch.written_append, Stretch.written_append,
            written_marked]
          simp only [List.append_assoc]
  · -- the directive is in front of the mark
    cases between with
    | nil => cases hrest
    | cons x between =>
        obtain ⟨rfl, -⟩ := List.cons.inj hrest
        exact .inr ⟨pre', between ++ .text (a ++ b) :: post, by simp, .inl rfl⟩

end ComponentSource

/-! ## Errors of components -/

/-- Where a source cannot be scanned, compiling it fails on the line that marking it fails on. -/
theorem ComponentSource.exists_error_of_markRoot {d : Delimiters} {name text : String}
    {reason file shown : String} {line : Nat}
    (h : markRoot name text d = .error (.compile reason file line shown)) :
    ∃ e, Program.compile (String.ofList (unwrap text.toList)) d = .error e ∧ e.line = line := by
  unfold markRoot at h
  dsimp only at h
  cases hscan : scan (String.ofList (unwrap text.toList)) d with
  | error e =>
      rw [hscan] at h
      cases h
      exact ⟨_, by rw [Program.compile, hscan]; rfl, by rw [String.toList_ofList]⟩
  | ok segments =>
      -- only the scan has syntax errors
      rw [hscan] at h
      simp only [Except.mapError, bind, Except.bind] at h
      split at h <;> cases h

/-- A component with a syntax error has one in what is unwrapped. -/
theorem Template.exists_error_of_component {d : Delimiters} {name text : String}
    {reason file shown : String} {line : Nat} (hd : d.Apart) (hclose : d.closing ≠ "")
    (hsize : byteLength (ComponentSource.unwrap text.toList) < UInt32.size)
    (h : Template.component name text d = .error (.compile reason file line shown)) :
    ∃ e n, Program.compile (String.ofList (ComponentSource.unwrap text.toList)) d = .error e ∧
      LineMoved n d.lineFeeds e.line line := by
  cases hmark : ComponentSource.markRoot name text d with
  | error e =>
      rw [component, hmark] at h
      obtain rfl := Except.error.inj h
      obtain ⟨e, he, rfl⟩ := ComponentSource.exists_error_of_markRoot hmark
      exact ⟨e, e.line, he, .inl ⟨Nat.le_refl _, rfl⟩⟩
  | ok marked =>
      obtain ⟨pre, a, b, post, hcut, hcut', hfirst, htagless⟩ :=
        ComponentSource.exists_cut_of_markRoot hd hclose hsize hmark
      obtain ⟨key, -, hends⟩ := Program.exists_endsAlike_marked d htagless a b post
      rw [← String.toList_ofList (l := ComponentSource.unwrap text.toList)] at hcut
      rw [← List.append_assoc, ← Program.compile_of_cut hcut', ← Program.compile_of_cut hcut] at hends
      have hbuild : Template.build name marked d = .error (.compile reason file line shown) := by
        rw [component, hmark] at h
        exact h
      rw [build] at hbuild
      revert hends hbuild
      generalize Program.compile (String.ofList (ComponentSource.unwrap text.toList)) d = x
      generalize Program.compile marked d = x'
      intro hends hbuild
      cases hends with
      | ok _ => cases hbuild
      | @error e e' _ hline =>
          cases hbuild
          exact ⟨e, _, rfl, hline⟩

/-- The lines that the errors of a component tell are lines of what its `template` element holds. A
component that does not compile has a fault there, and the error tells its line; a render that fails
tells the line of a directive that stands there and fails with the error. Told in the source, both
are too low by the line feeds in front of what is unwrapped. (A mark that has line feeds, as
delimiters may, puts what is behind it as many lines further down.) -/
theorem Template.lines_of_component {d : Delimiters} {name text : String} (hd : d.Apart)
    (hclose : d.closing ≠ "")
    (hsize : byteLength (ComponentSource.unwrap text.toList) < UInt32.size) :
    let body := ComponentSource.unwrap text.toList
    let opener := ComponentSource.opener text.toList
    (∃ closer, text.toList = opener ++ body ++ closer) ∧
    (∀ {reason file line shown},
      component name text d = .error (.compile reason file line shown) →
        (∃ before, Faulty d body before) ∧ ∀ before, Faulty d body before →
          opener ++ before ++ d.opening.toList <+: text.toList ∧
          ComponentSource.Told d opener before line) ∧
    ∀ {t}, component name text d = .ok t →
      ∀ {σ : Type} {c : RenderCall σ} {world world' : σ} {f : RenderFailure},
        t.program.execute c world = some (.error f, world') →
          ∃ before place raw i, opener ++ before ++ d.around raw <+: text.toList ∧
            ComponentSource.Moved d before place ∧ place ++ d.around raw <+: t.source.toList ∧
            (Segment.behind d place raw).items = .ok [i] ∧ i.FailsWith c f.error ∧
            ComponentSource.Told d opener before f.line := by
  intro body opener
  obtain ⟨closer, hcloser⟩ := ComponentSource.exists_closer text.toList
  refine ⟨⟨closer, hcloser⟩, fun {reason file line shown} herror => ?_,
    fun {t} ht {σ c world world' f} hrun => ?_⟩
  · obtain ⟨e, n, he, hmoved⟩ := exists_error_of_component hd hclose hsize herror
    obtain ⟨p, hp⟩ | hfaulty := Program.exists_program_or_faulty (String.ofList body) d
    · cases hp.symm.trans he
    rw [String.toList_ofList] at hfaulty
    refine ⟨hfaulty, fun before hbefore => ?_⟩
    obtain ⟨rest, hrest⟩ := hbefore.prefix_source
    have hplace : byteLength before < UInt32.size := by
      have hwhole : byteLength body < UInt32.size := hsize
      rw [← hrest, byteLength_append, byteLength_append] at hwhole
      omega
    rw [← String.toList_ofList (l := body)] at hbefore
    obtain ⟨e', he', hline⟩ := hbefore.compile_eq_error hplace
    obtain rfl := Except.error.inj (he.symm.trans he')
    refine ⟨⟨rest ++ closer, ?_⟩, ?_⟩
    · conv_rhs => rw [hcloser]
      show _ = opener ++ body ++ closer
      rw [← hrest]
      simp only [List.append_assoc]
    · rw [hline] at hmoved
      exact ComponentSource.told_of_lineMoved hmoved opener
  · obtain ⟨marked, hmark, hbuild⟩ := bind_eq_ok ht
    obtain ⟨p, hcompile, hp⟩ := bind_eq_ok hbuild
    cases hp
    have hcompile := eq_ok_of_mapError hcompile
    obtain ⟨pre, a, b, post, hcut, hcut', -⟩ :=
      ComponentSource.exists_cut_of_markRoot hd hclose hsize hmark
    -- the directive at fault in the marked template
    have hmeaning := p.execute_meaning c world
    cases hfault : ExceptT.run (Node.meaningAll c 0 p.nodes .empty) world with
    | none =>
        rw [hfault] at hmeaning
        cases hmeaning.symm.trans hrun
    | some r =>
        obtain ⟨result, world₁⟩ := r
        rw [hfault] at hmeaning
        cases result with
        | ok shown => cases hmeaning.symm.trans hrun
        | error fault =>
            obtain ⟨i, line, hi, hline, hexecute⟩ := hmeaning
            obtain ⟨rfl, rfl⟩ : (⟨fault.error, line⟩ : RenderFailure) = f ∧ world₁ = world' := by
              simpa using hexecute.symm.trans hrun
            obtain ⟨j, hj, hfails⟩ := Program.failsWith_of_fault hfault
            obtain rfl := Option.some.inj (hi.symm.trans hj)
            obtain ⟨pre', raw, post', hstretches, hitems, rfl⟩ :=
              Program.exists_directive_of_mem hcut' hcompile (List.mem_of_getElem? hi) hline
            obtain rfl | ⟨pre₀, post₀, hbody, hmoved⟩ :=
              ComponentSource.exists_directive_of_marked (d := d) hstretches
            · -- showing the instance key does not fail
              obtain ⟨key, hkey, hmarked⟩ := exists_items_mark
                (byteLength (Stretch.written d pre') + byteLength d.opening.toList)
                (lineFeeds (Stretch.written d pre') + 1)
              obtain rfl := List.singleton_inj.mp (Except.ok.inj (hmarked.symm.trans hitems))
              exact absurd hfails (Item.not_failsWith_instanceKey hkey _ _)
            · refine ⟨Stretch.written d pre₀, Stretch.written d pre', raw, i, ?_, hmoved, ?_, hitems,
                hfails, hmoved.told opener⟩
              · rw [hbody] at hcut
                obtain ⟨rest, hrest⟩ := hcut.prefix_directive
                refine ⟨rest ++ closer, ?_⟩
                conv_rhs => rw [hcloser]
                show _ = opener ++ body ++ closer
                rw [show body = ComponentSource.unwrap text.toList from rfl, ← hrest]
                simp only [List.append_assoc]
              · rw [hstretches] at hcut'
                exact hcut'.prefix_directive

/-- A component whose `template` element starts on the second line. -/
def noteText : String := "\n<template>\n<p>[missing]</p></template>"

/-- The component as it is compiled. -/
def noteTemplate : Template where
  name := "note"
  source := "\n<p element=\"[$ctxKey]\">[missing]</p>"
  program := ⟨[.text "\n<p element=\"", .interpolate (.node .instanceKey ⟨14, 21⟩) true 2,
    .text "\">", .interpolate (.node (.ident "missing") ⟨25, 32⟩) true 2, .text "</p>"]⟩

theorem component_noteText : Template.component "note" noteText ⟨"[", "]"⟩ = .ok noteTemplate :=
  Template.component_of_segments
    [⟨.text, "\n<p element=\"".toList, ⟨0, 13⟩, 1⟩,
      ⟨.directive .escaped, "$ctxKey".toList, ⟨14, 21⟩, 2⟩, ⟨.text, "\">".toList, ⟨22, 24⟩, 2⟩,
      ⟨.directive .escaped, "missing".toList, ⟨25, 32⟩, 2⟩, ⟨.text, "</p>".toList, ⟨33, 37⟩, 2⟩]
    (by decide +kernel) (by decide +kernel) (by cbv)

theorem execute_noteTemplate : noteTemplate.program.execute
    (RenderCall.plain (Store.host 1) (.object (.given 0) [])) Store.empty =
      some (.error ⟨.undefinedVariable "missing", 2⟩, Store.empty) := by cbv

/-- The failure of the directive on the third line of the note is told as one of the second line. -/
theorem Template.failure_of_noteText :
    (∃ t, component "note" noteText ⟨"[", "]"⟩ = .ok t ∧ ∃ world', t.program.execute
      (RenderCall.plain (Store.host 1) (.object (.given 0) [])) Store.empty =
        some (.error ⟨.undefinedVariable "missing", 2⟩, world')) ∧
    noteText.toList = "\n<template>\n<p>".toList ++
      (⟨"[", "]"⟩ : Delimiters).around "missing".toList ++ "</p></template>".toList ∧
    lineFeeds "\n<template>\n<p>".toList + 1 = 3 :=
  ⟨⟨noteTemplate, component_noteText, _, execute_noteTemplate⟩, by decide +kernel, by decide +kernel⟩

/-- The line that the failure of the note tells is too low by the one line feed in front of what is
unwrapped. -/
theorem Template.lines_of_component_note :
    (⟨"[", "]"⟩ : Delimiters).Apart ∧ ("]" : String) ≠ "" ∧
    byteLength (ComponentSource.unwrap noteText.toList) < UInt32.size ∧
    component "note" noteText ⟨"[", "]"⟩ = .ok noteTemplate ∧
    noteTemplate.program.execute (RenderCall.plain (Store.host 1) (.object (.given 0) []))
      Store.empty = some (.error ⟨.undefinedVariable "missing", 2⟩, Store.empty) ∧
    ∃ before raw, "\n<template>".toList ++ before ++ (⟨"[", "]"⟩ : Delimiters).around raw <+:
        noteText.toList ∧ 2 + 1 = lineFeeds ("\n<template>".toList ++ before) + 1 := by
  have hd : (⟨"[", "]"⟩ : Delimiters).Apart := by
    simp [Delimiters.Apart, Delimiters.Spare, ComponentSource.markHead, ComponentSource.keyName_eq,
      rootAttribute]
  have hsize : byteLength (ComponentSource.unwrap noteText.toList) < UInt32.size := by
    decide +kernel
  have hopener : ComponentSource.opener noteText.toList = "\n<template>".toList := by
    decide +kernel
  obtain ⟨-, -, hlines⟩ := @lines_of_component _ "note" noteText hd (by decide) hsize
  obtain ⟨before, place, raw, i, hstands, -, -, -, -, htold⟩ :=
    hlines component_noteText execute_noteTemplate
  rw [hopener] at hstands htold
  refine ⟨hd, by decide, hsize, component_noteText, execute_noteTemplate, before, raw, hstands, ?_⟩
  obtain htold | htold := htold
  · exact htold
  · exact htold

end LiveMarkup
