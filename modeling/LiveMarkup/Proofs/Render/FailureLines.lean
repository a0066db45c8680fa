import LiveMarkup.Proofs.Render.Meaning
import LiveMarkup.Reactive.Native
set_option autoImplicit false

/-! # Lines of failures

Compiling keeps where each directive stands in the source, so the line that a failed render reports
is the line of the directive that failed (`Program.execute_of_compile`): one more than the line
feeds before its open delimiter. -/

namespace LiveMarkup

open Text

/-- Something that a source holds, with the source text before it. -/
structure Located (α : Type) where
  what : α
  before : List Char

/-- The things come one behind the other. -/
def Located.InOrder {α : Type} (things : List (Located α)) : Prop :=
  things.Pairwise fun a b => a.before.length < b.before.length

/-- Things of which something holds, one behind the other, and none before a position. -/
inductive Located.Standing {α : Type} (holds : Located α → Prop) : Nat → List (Located α) → Prop
  | nil (start : Nat) : Standing holds start []
  | cons {start : Nat} {q : Located α} {rest : List (Located α)} : holds q →
    start ≤ q.before.length → Standing holds (q.before.length + 1) rest →
    Standing holds start (q :: rest)

namespace Located.Standing

variable {α : Type} {holds : Located α → Prop} {start start' : Nat} {things : List (Located α)}

theorem mono (h : Standing holds start things) (hle : start' ≤ start) :
    Standing holds start' things := by
  cases h with
  | nil => exact .nil start'
  | cons hq hstart hrest => exact .cons hq (hle.trans hstart) hrest

theorem of_mem (h : Standing holds start things) :
    ∀ q ∈ things, holds q ∧ start ≤ q.before.length := by
  induction h with
  | nil => simp
  | cons hq hstart _ ih =>
      intro r hr
      rcases List.mem_cons.mp hr with rfl | hr
      · exact ⟨hq, hstart⟩
      · obtain ⟨hr, hlater⟩ := ih r hr
        exact ⟨hr, hstart.trans (Nat.le_of_succ_le hlater)⟩

theorem inOrder (h : Standing holds start things) : Located.InOrder things := by
  induction h with
  | nil => exact .nil
  | cons _ _ hrest ih => exact .cons (fun r hr => (hrest.of_mem r hr).2) ih

end Located.Standing

/-! ## Segments -/

/-- A directive as it stands in a source. -/
def Delimiters.around (d : Delimiters) (raw : List Char) : List Char :=
  d.opening.toList ++ raw ++ d.closing.toList

theorem Delimiters.length_around_pos {d : Delimiters} (h : d.opening.toList ≠ [])
    (raw : List Char) : 0 < (d.around raw).length := by
  have hopening := List.length_pos_iff.mpr h
  unfold around
  simp only [List.length_append]
  omega

/-- A segment that a source holds after some text: a text run, or a directive with its
delimiters. Its line is one more than the line feeds before it. -/
inductive Segment.StandsAt (d : Delimiters) (source before : List Char) : Segment → Prop
  | text {text : List Char} : before ++ text <+: source →
    StandsAt d source before (.ofText (byteLength before) (lineFeeds before + 1) text)
  | directive {raw : List Char} : before ++ d.around raw <+: source →
    StandsAt d source before
      (.ofDirective (byteLength before + byteLength d.opening.toList) (lineFeeds before + 1) raw)

/-- The text run that starts a rest of a source, if there is one. -/
def Segment.ofRun (offset line : Nat) (text : List Char) : List Segment :=
  if text.isEmpty then [] else [Segment.ofText offset line text]

/-- A rest of a source that falls into segments is a text run, or it starts with a text run and a
directive. -/
theorem scanFrom_eq_ok {d : Delimiters} {offset line : Nat} {source : List Char}
    {segments : List Segment} (h : scanFrom d offset line source = .ok segments) :
    segments = Segment.ofRun offset line source ∨
    ∃ text raw rest following, d.opening.toList ≠ [] ∧
      source = text ++ d.around raw ++ rest ∧
      scanFrom d (offset + byteLength (text ++ d.around raw))
        (line + lineFeeds (text ++ d.around raw)) rest =
          .ok following ∧
      segments = Segment.ofRun offset line text ++
        Segment.ofDirective (offset + byteLength text + byteLength d.opening.toList)
          (line + lineFeeds text) raw :: following := by
  unfold scanFrom at h
  split at h
  · cases h
    exact .inl rfl
  · next text tail hcut =>
      dsimp only at h
      split at h
      · cases h
      · next raw rest hclose =>
          split at h
          · cases h
          · next hnested =>
              have hopening : d.opening.toList ≠ [] := by
                intro hnil
                rw [hnil, cut?_nil] at hnested
                cases hnested
              cases hfollowing : scanFrom d _ _ rest with
              | error e =>
                  rw [hfollowing] at h
                  cases h
              | ok following =>
                  rw [hfollowing] at h
                  cases h
                  refine .inr ⟨text, raw, rest, following, hopening, ?_, ?_, ?_⟩
                  · rw [eq_of_cut? hcut, eq_of_cut? hclose]
                    simp only [Delimiters.around, List.append_assoc]
                  · rw [byteLength_append, lineFeeds_append, ← Nat.add_assoc, ← Nat.add_assoc]
                    exact hfollowing
                  · unfold Segment.ofRun
                    cases text.isEmpty <;> rfl

/-- A text run that stands before other segments stands in order with them. -/
theorem ofRun_located {d : Delimiters} {before text source : List Char}
    (h : before ++ text <+: source) {behind : List (Located Segment)}
    (hbehind : Located.Standing (fun q => q.what.StandsAt d source q.before) (before ++ text).length
      behind) :
    ∃ located : List (Located Segment),
      Segment.ofRun (byteLength before) (lineFeeds before + 1) text ++ behind.map Located.what =
        located.map Located.what ∧
      Located.Standing (fun q => q.what.StandsAt d source q.before) before.length located := by
  unfold Segment.ofRun
  cases text with
  | nil =>
      rw [List.append_nil] at hbehind
      exact ⟨behind, rfl, hbehind⟩
  | cons c text =>
      have hpassed : before.length + 1 ≤ (before ++ c :: text).length := by
        simp only [List.length_append, List.length_cons]
        omega
      exact ⟨⟨_, before⟩ :: behind, rfl, .cons (.text h) (Nat.le_refl _) (hbehind.mono hpassed)⟩

/-- Scanning the rest of a source finds segments that stand in it, in order. -/
theorem scanFrom_located {d : Delimiters} {rest : List Char} {segments : List Segment}
    (before : List Char)
    (h : scanFrom d (byteLength before) (lineFeeds before + 1) rest = .ok segments) :
    ∃ located : List (Located Segment), segments = located.map Located.what ∧
      Located.Standing (fun q => q.what.StandsAt d (before ++ rest) q.before) before.length
        located := by
  -- on the length of the rest: what comes behind a directive is shorter, but not its tail
  induction hn : rest.length using Nat.strong_induction_on generalizing rest segments before with
  | _ n ih =>
  subst hn
  rcases scanFrom_eq_ok h with rfl | ⟨text, raw, after, following, hopening, rfl, hscan, rfl⟩
  · have hrun := ofRun_located (d := d) (List.prefix_refl (before ++ rest)) (.nil _)
    simpa only [List.map_nil, List.append_nil] using hrun
  · have hpassed := Delimiters.length_around_pos hopening raw
    have hwhole : before ++ (text ++ d.around raw ++ after) =
        before ++ (text ++ d.around raw) ++ after := by
      simp only [List.append_assoc]
    have htext : before ++ text <+: before ++ (text ++ d.around raw ++ after) :=
      ⟨d.around raw ++ after, by simp only [List.append_assoc]⟩
    have hdirective :
        before ++ text ++ d.around raw <+: before ++ (text ++ d.around raw ++ after) :=
      ⟨after, by simp only [List.append_assoc]⟩
    -- what comes behind the directive
    have hfollowing : scanFrom d (byteLength (before ++ (text ++ d.around raw)))
        (lineFeeds (before ++ (text ++ d.around raw)) + 1) after = .ok following := by
      rw [byteLength_append, lineFeeds_append, Nat.add_right_comm]
      exact hscan
    obtain ⟨behind, rfl, hbehind⟩ :=
      ih after.length (by simp only [List.length_append]; omega) _ hfollowing rfl
    rw [← hwhole] at hbehind
    -- the directive itself
    have hstands := Segment.StandsAt.directive hdirective
    rw [byteLength_append, lineFeeds_append, Nat.add_right_comm (lineFeeds before)] at hstands
    have hlater : (before ++ text).length + 1 ≤ (before ++ (text ++ d.around raw)).length := by
      simp only [List.length_append]
      omega
    exact ofRun_located htext
      (.cons (q := ⟨_, before ++ text⟩) hstands (Nat.le_refl _) (hbehind.mono hlater))

/-! ## Items -/

/-- An item that a source holds after some text: what a segment that stands there says. -/
def Located.StandsIn (d : Delimiters) (source : List Char) (q : Located Item) : Prop :=
  ∃ s : Segment, s.StandsAt d source q.before ∧ s.items = .ok [q.what]

/-- A segment says one item at most, and it is reported with the segment's line if at all. -/
theorem Segment.items_eq_ok {s : Segment} {said : List Item} (h : s.items = .ok said) :
    said = [] ∨ ∃ i, said = [i] ∧ ∀ line, i.line? = some line →
      s.kind ≠ .text ∧ line = s.line := by
  unfold items at h
  cases hk : s.kind with
  | text =>
      simp only [hk] at h
      cases h
      exact .inr ⟨_, rfl, fun line hline => nomatch hline⟩
  | directive kind =>
      cases kind <;> simp only [hk] at h
      case comment => cases h; exact .inl rfl
      case close => cases h; exact .inr ⟨_, rfl, fun line hline => nomatch hline⟩
      case elseKind =>
        obtain ⟨condition, -, h⟩ := bind_eq_ok h
        cases h
        refine .inr ⟨_, rfl, fun line hline => ⟨nofun, ?_⟩⟩
        cases condition with
        | none => cases hline
        | some c => exact (Option.some.inj hline).symm
      all_goals
        obtain ⟨header, -, h⟩ := bind_eq_ok h
        cases h
        exact .inr ⟨_, rfl, fun line hline => ⟨nofun, (Option.some.inj hline).symm⟩⟩

/-- The items of located segments stand where their segments do. -/
theorem items_located {d : Delimiters} {source : List Char} {start : Nat}
    {segments : List (Located Segment)} {parts : List (List Item)}
    (hstanding : Located.Standing (fun q => q.what.StandsAt d source q.before) start segments)
    (hparts : (segments.map Located.what).mapM Segment.items = .ok parts) :
    ∃ located : List (Located Item), parts.flatten = located.map Located.what ∧
      Located.Standing (Located.StandsIn d source) start located := by
  induction hstanding generalizing parts with
  | nil start =>
      cases hparts
      exact ⟨[], rfl, .nil start⟩
  | @cons start s rest hs hstart _ ih =>
      rw [List.map_cons, List.mapM_cons] at hparts
      obtain ⟨said, hsaid, hparts⟩ := bind_eq_ok hparts
      obtain ⟨others, hothers, hparts⟩ := bind_eq_ok hparts
      cases hparts
      obtain ⟨located, hmap, hlocated⟩ := ih hothers
      rcases Segment.items_eq_ok hsaid with rfl | ⟨i, rfl, -⟩
      · refine ⟨located, ?_, hlocated.mono (Nat.le_succ_of_le hstart)⟩
        rw [List.flatten_cons, List.nil_append, hmap]
      · refine ⟨⟨i, s.before⟩ :: located, ?_, .cons ⟨s.what, hs, hsaid⟩ hstart hlocated⟩
        rw [List.flatten_cons, hmap, List.map_cons, List.singleton_append]

/-- The items that count are some of the items, in their order. -/
theorem Item.counting_sublist (scopes : List OpenScope) (items : List Item) :
    (counting scopes items).Sublist items := by
  induction items generalizing scopes with
  | nil => exact .slnil
  | cons i rest ih =>
      rw [counting]
      split
      · exact (ih _).cons_cons i
      · exact (ih _).cons i

/-! ## Programs -/

/-- A segment that has been taken in has a well-formed header. -/
theorem Unfinished.exists_items_of_step {u u' : Unfinished} {s : Segment} (h : u.step s = .ok u') :
    ∃ items, s.items = .ok items := by
  unfold step at h
  unfold Segment.items
  cases hk : s.kind with
  | text => exact ⟨_, rfl⟩
  | directive kind =>
      cases kind <;> simp only [hk] at h ⊢
      case comment => exact ⟨_, rfl⟩
      case close => exact ⟨_, rfl⟩
      all_goals
        obtain ⟨header, hheader, -⟩ := bind_eq_ok h
        exact ⟨_, ok_bind hheader⟩

theorem Unfinished.exists_parts_of_run {u u' : Unfinished} {segments : List Segment}
    (h : segments.foldlM step u = .ok u') :
    ∃ parts, segments.mapM Segment.items = .ok parts := by
  induction segments generalizing u with
  | nil => exact ⟨[], rfl⟩
  | cons s rest ih =>
      rw [List.foldlM_cons] at h
      obtain ⟨next, hstep, h⟩ := bind_eq_ok h
      obtain ⟨items, hitems⟩ := exists_items_of_step hstep
      obtain ⟨parts, hparts⟩ := ih h
      exact ⟨items :: parts, by rw [List.mapM_cons, ok_bind hitems, ok_bind hparts]; rfl⟩

/-- A compiled program, written out, is what counts of the items that the source's segments say. -/
theorem Program.counted_of_compile {source : String} {d : Delimiters} {p : Program}
    (h : compile source d = .ok p) :
    ∃ segments parts, scan source d = .ok segments ∧ segments.mapM Segment.items = .ok parts ∧
      Node.flattenAll p.nodes = Item.counting [] parts.flatten := by
  unfold compile ofSegments at h
  obtain ⟨segments, hscan, h⟩ := bind_eq_ok h
  obtain ⟨u, hrun, hfinish⟩ := bind_eq_ok h
  have hsegments : scan source d = .ok segments := by
    cases hs : scan source d with
    | error e =>
        rw [hs] at hscan
        cases hscan
    | ok found =>
        rw [hs] at hscan
        cases hscan
        rfl
  obtain ⟨parts, hparts⟩ := Unfinished.exists_parts_of_run hrun
  refine ⟨segments, parts, hsegments, hparts, ?_⟩
  have hstart : OpenTrail Unfinished.empty.sites [] := .outside Scopes.balanced_nil
  rcases Unfinished.run_cases hparts hstart with
    ⟨u', hu', -, hflat⟩ | ⟨_, _, _, _, _, _, herror⟩
  · obtain rfl : u = u' := Except.ok.inj (hrun.symm.trans hu')
    obtain ⟨frames, outside⟩ := u
    match frames with
    | [] =>
        cases hfinish
        exact hflat
    | ⟨.choose _ _ _ _, _⟩ :: _ => cases hfinish
    | ⟨.loop _ _ _ _, _⟩ :: _ => cases hfinish
  · exact nomatch hrun.symm.trans herror

/-- The directives of a compiled program stand in its source, in their order. -/
theorem Program.located_of_compile {source : String} {d : Delimiters} {p : Program}
    (h : compile source d = .ok p) :
    ∃ located : List (Located Item), Node.flattenAll p.nodes = located.map Located.what ∧
      (∀ q ∈ located, q.StandsIn d source.toList) ∧ Located.InOrder located := by
  obtain ⟨segments, parts, hscan, hparts, hflat⟩ := counted_of_compile h
  obtain ⟨segments, rfl, hsegments⟩ := scanFrom_located [] hscan
  obtain ⟨all, hall, hstanding⟩ := items_located hsegments hparts
  have hsome := Item.counting_sublist [] parts.flatten
  rw [hall] at hsome
  obtain ⟨located, hsub, hlocated⟩ := List.sublist_map_iff.mp hsome
  refine ⟨located, ?_, fun q hq => (hstanding.of_mem q (hsub.subset hq)).1,
    hstanding.inOrder.sublist hsub⟩
  rw [hflat, hall, hlocated]

/-- An item that is reported with a line is a directive, and the line is that of its open
delimiter. -/
theorem Located.StandsIn.line {d : Delimiters} {source : List Char} {q : Located Item}
    (h : q.StandsIn d source) {line : Nat} (hline : q.what.line? = some line) :
    q.before ++ d.opening.toList <+: source ∧ line = lineFeeds q.before + 1 := by
  obtain ⟨s, hstands, hitems⟩ := h
  rcases Segment.items_eq_ok hitems with hnil | ⟨i, hi, hreported⟩
  · exact nomatch hnil
  · obtain rfl := List.singleton_inj.mp hi
    obtain ⟨hkind, rfl⟩ := hreported line hline
    cases hstands with
    | text _ => exact absurd rfl hkind
    | directive hstarts =>
        refine ⟨List.IsPrefix.trans ?_ hstarts, rfl⟩
        unfold Delimiters.around
        rw [List.append_assoc, ← List.append_assoc]
        exact List.prefix_append _ _

end LiveMarkup
