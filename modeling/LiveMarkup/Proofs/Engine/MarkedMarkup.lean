import LiveMarkup.Proofs.Document.MarkedTag
import LiveMarkup.Proofs.Engine.MarkedProgram
set_option autoImplicit false

/-! # Markup with a mark

A component template without directives is one run of text, and the mark splits it in two
(`Template.exists_component_of_plain`). Every render with an instance key shows the text with the key
in the mark. A browser reads the same page from that as from the text alone, with the key at the
first element, just if it agrees with the marking on where the first tag ends its name
(`Template.markedFirst_parse_component_iff`). The marking only takes ASCII letters, digits, hyphens
and colons for a part of the name; markup allows more. -/

namespace LiveMarkup

open Text

namespace ComponentSource

variable {d : Delimiters} {name text marked : String}

theorem rootOffset?_ofRun (d : Delimiters) (run : List Char) :
    rootOffset? (Stretch.segments d [] (Stretch.ofRun run)) =
      (cutAtFirstTag? run).map fun (before, _) => byteLength before := by
  cases run with
  | nil => simp [Stretch.ofRun, Stretch.segments, rootOffset?, cutAtFirstTag?]
  | cons c run =>
      rw [Stretch.ofRun_of_ne_nil (List.cons_ne_nil c run)]
      cases hcut : cutAtFirstTag? (c :: run) with
      | none => simp [Stretch.segments, rootOffset?, Segment.ofText, hcut]
      | some cut =>
          simp [Stretch.segments, rootOffset?, Segment.ofText, hcut, Span.clamped, byteLength]

/-- A source without directives is marked in the one run of text that it is. -/
theorem exists_cutAtFirstTag?_of_plain (hplain : ¬ d.opening.toList <:+: unwrap text.toList)
    (h : markRoot name text d = .ok marked) :
    ∃ a b, cutAtFirstTag? (unwrap text.toList) = some (a, b) ∧
      marked.toList = Stretch.written d (Stretch.marked a b) := by
  have hscan : scan (String.ofList (unwrap text.toList)) d =
      .ok (Stretch.segments d [] (Stretch.ofRun (unwrap text.toList))) := by
    rw [scan, String.toList_ofList]
    exact scanFrom_of_cut (.run hplain) []
  unfold markRoot at h
  obtain ⟨segments, hsegments, h⟩ := bind_eq_ok h
  obtain rfl := Except.ok.inj (hscan.symm.trans (eq_ok_of_mapError hsegments))
  rw [rootOffset?_ofRun] at h
  cases hcut : cutAtFirstTag? (unwrap text.toList) with
  | none => rw [hcut] at h; cases h
  | some cut =>
      obtain ⟨a, b⟩ := cut
      refine ⟨a, b, rfl, ?_⟩
      simp only [hcut, Option.map_some] at h
      rw [(exists_of_cutAtFirstTag? hcut).1, cutAtByte_append] at h
      rw [← Except.ok.inj h]
      simp only [String.toList_append, String.toList_ofList, Stretch.written_marked,
        List.append_assoc]

end ComponentSource

/-- A component without directives shows its text with the instance key in it, and nothing else. -/
theorem Template.exists_component_of_plain {d : Delimiters} {name text marked : String}
    (hd : d.Apart) (hclose : d.closing ≠ "")
    (hplain : ¬ d.opening.toList <:+: ComponentSource.unwrap text.toList)
    (h : ComponentSource.markRoot name text d = .ok marked) :
    ∃ a b key line,
      ComponentSource.cutAtFirstTag? (ComponentSource.unwrap text.toList) = some (a, b) ∧
      key.kind = .instanceKey ∧
      Template.component name text d = .ok ⟨name, marked, ⟨Node.marked
        (String.ofList (a ++ ComponentSource.markHead)) key line (String.ofList ('"' :: b))⟩⟩ := by
  obtain ⟨a, b, hfirst, hmarked⟩ := ComponentSource.exists_cutAtFirstTag?_of_plain hplain h
  obtain ⟨hsource, before, c, tag, rfl, -, -⟩ := ComponentSource.exists_of_cutAtFirstTag? hfirst
  have hcut : Cut d marked.toList (Stretch.marked (before ++ '<' :: c :: tag) b) := by
    have hrun : Cut d (ComponentSource.unwrap text.toList)
        ([] ++ .text (before ++ '<' :: c :: tag ++ b) :: []) := by
      rw [List.nil_append, ← hsource, ← Stretch.ofRun_of_ne_nil (by simp [hsource])]
      exact .run hplain
    have hcut := Cut.marked hd (by simpa using hclose) hrun
    rw [List.append_nil, List.nil_append] at hcut
    rwa [hmarked]
  obtain ⟨key, hkey, hfold⟩ := exists_foldlM_marked d [] (before ++ '<' :: c :: tag) b
  obtain ⟨line, hcompile⟩ : ∃ line, Program.compile marked d = .ok ⟨Node.marked
      (String.ofList (before ++ '<' :: c :: tag ++ ComponentSource.markHead)) key line
      (String.ofList ('"' :: b))⟩ := by
    rw [Program.compile_of_cut hcut]
    exact ⟨_, ok_bind (hfold _)⟩
  refine ⟨_, b, key, line, hfirst, hkey, ?_⟩
  rw [component, h]
  show build name marked d = _
  rw [build, hcompile]
  rfl

theorem Program.execute_marked {σ : Type} {c : RenderCall σ} {k : String}
    (hk : c.instanceKey = some k) {key : Expr} (hkey : key.kind = .instanceKey) (line : Nat)
    (head behind : String) (world : σ) :
    execute ⟨Node.marked head key line behind⟩ c world =
      some (.ok (head ++ escapeMarkup k ++ behind), world) := by
  have hrun : ExceptT.run (Node.execAll c (Node.marked head key line behind))
      (Machine.start world) = _ :=
    RenderCall.Unmarked.run_marked hk hkey head behind line [] _
  rw [execute, hrun, Node.execAll]
  show some (Except.ok ("" ++ head ++ escapeMarkup k ++ behind), world) = _
  rw [String.empty_append]

/-- The markup of a component without directives is marked as it is meant to be, if its first start
tag is where a page has its first element, behind settled text: a page that is read from a render
differs from one that is read from the text of the template in nothing but the attribute with the
instance key, and that is at the first element. But this holds just if the tag is finished in the
template and the page ends its name at the mark. -/
theorem Template.markedFirst_parse_component {σ : Type} {d : Delimiters}
    {name text marked k : String} {c : RenderCall σ} (hd : d.Apart) (hclose : d.closing ≠ "")
    (hplain : ¬ d.opening.toList <:+: ComponentSource.unwrap text.toList)
    (hmarked : ComponentSource.markRoot name text d = .ok marked) (hk : c.instanceKey = some k)
    (hnull : '\x00' ∉ k.toList) (hreturn : '\r' ∉ k.toList) (world : σ) :
    ∃ t out, Template.component name text d = .ok t ∧
      t.program.execute c world = some (.ok out, world) ∧
      ∃ before tag behind,
        ComponentSource.cutAtFirstTag? (ComponentSource.unwrap text.toList) =
          some (before ++ '<' :: tag, behind) ∧ '<' ∉ tag ∧
        (Piece.Settled (Piece.unifyLineEnds before) →
          (Document.MarkedFirst rootAttribute k
              (Document.parse (String.ofList (ComponentSource.unwrap text.toList)))
              (Document.parse out) ↔
            Tag.Whole tag (Piece.unifyLineEnds behind))) := by
  obtain ⟨a, behind, key, line, hfirst, hkey, ht⟩ :=
    exists_component_of_plain hd hclose hplain hmarked
  obtain ⟨hsource, before, letter, tag, rfl, hletter, htag⟩ :=
    ComponentSource.exists_of_cutAtFirstTag? hfirst
  refine ⟨_, _, ht, Program.execute_marked hk hkey line _ _ world, before, letter :: tag, behind,
    hfirst, ?_, fun hbefore => ?_⟩
  · exact Piece.not_mem_tag hletter htag (by decide)
  · have hshown : (String.ofList (before ++ '<' :: letter :: tag ++ ComponentSource.markHead) ++
        escapeMarkup k ++ String.ofList ('"' :: behind)).toList =
          before ++ '<' :: Piece.markedTag (letter :: tag) k.toList behind := by
      simp [Piece.markedTag, escapeMarkup, ComponentSource.markHead]
    have hiff := Document.markedFirst_parse_iff hbefore hletter htag hnull hreturn
      (String.toList_ofList.trans (hsource.trans (by simp))) hshown
    rwa [String.ofList_toList] at hiff

/-- Where the last bracket of a text stands is told by the text. -/
theorem eq_of_append_bracket {before before' tag tag' : List Char}
    (h : before ++ '<' :: tag = before' ++ '<' :: tag') (htag : '<' ∉ tag) (htag' : '<' ∉ tag') :
    before = before' ∧ tag = tag' := by
  rcases List.append_eq_append_iff.mp h with ⟨more, rfl, hmore⟩ | ⟨more, rfl, hmore⟩
  · cases more with
    | nil => exact ⟨(List.append_nil _).symm, (List.cons.inj hmore).2⟩
    | cons x more => exact absurd (by simp [(List.cons.inj hmore).2]) htag
  · cases more with
    | nil => exact ⟨List.append_nil _, (List.cons.inj hmore).2.symm⟩
    | cons x more => exact absurd (by simp [(List.cons.inj hmore).2]) htag'

/-- A card in a template, with a tag in a comment before it and an attribute of its own. -/
def cardSource : String := "<template><!-- <b> --><my-card element='x' id=c>y</my-card></template>"

def cardMarkup : String := "<!-- <b> --><my-card element='x' id=c>y</my-card>"

/-- The card has the key in the place of what it had. -/
theorem Template.markedFirst_parse_component_card :
    (⟨"[", "]"⟩ : Delimiters).Apart ∧
    ¬ ['['] <:+: ComponentSource.unwrap cardSource.toList ∧
    ComponentSource.markRoot "card" cardSource ⟨"[", "]"⟩ =
      .ok "<!-- <b> --><my-card element=\"[$ctxKey]\" element='x' id=c>y</my-card>" ∧
    ∃ t out, Template.component "card" cardSource ⟨"[", "]"⟩ = .ok t ∧
      t.program.execute (.keyed (Store.host 1) .null "<1>") Store.empty =
        some (.ok out, Store.empty) ∧
      Document.MarkedFirst rootAttribute "<1>" (Document.parse cardMarkup) (Document.parse out) := by
  have hd : (⟨"[", "]"⟩ : Delimiters).Apart := by
    simp [Delimiters.Apart, Delimiters.Spare, ComponentSource.markHead,
      ComponentSource.keyName_eq, rootAttribute]
  have hbody : ComponentSource.unwrap cardSource.toList = cardMarkup.toList := by decide +kernel
  have hplain : ¬ ['['] <:+: ComponentSource.unwrap cardSource.toList := by
    rw [hbody]
    exact Text.cut?_eq_none_iff.mp rfl
  have hmarked : ComponentSource.markRoot "card" cardSource ⟨"[", "]"⟩ =
      .ok "<!-- <b> --><my-card element=\"[$ctxKey]\" element='x' id=c>y</my-card>" :=
    eq_ok_of_toOption (by decide +kernel)
  obtain ⟨t, out, ht, hrun, before, tag, behind, hcut, htag, hiff⟩ :=
    Template.markedFirst_parse_component (c := .keyed (Store.host 1) .null "<1>") hd (by decide)
      hplain hmarked rfl (by decide) (by decide) Store.empty
  rw [hbody] at hcut hiff
  have hfirst : ComponentSource.cutAtFirstTag? cardMarkup.toList = some
      ("<!-- <b> -->".toList ++ '<' :: "my-card".toList,
        " element='x' id=c>y</my-card>".toList) := by
    cbv
  obtain ⟨hplace, rfl⟩ := Prod.mk.inj (Option.some.inj (hcut.symm.trans hfirst))
  obtain ⟨rfl, rfl⟩ := eq_of_append_bracket hplace htag (by decide)
  refine ⟨hd, hplain, hmarked, t, out, ht, hrun, ?_⟩
  rw [String.ofList_toList] at hiff
  exact (hiff (.markup (fun _ => ⟨rfl, rfl⟩) (fun _ => List.not_mem_nil) .nil)).mpr
    ⟨by decide +kernel, by decide +kernel⟩

/-- A component whose tag has an underscore in its name, as it is marked. -/
def underscored : Template where
  name := "tag"
  source := "<my element=\"\x7b\x7b$ctxKey\x7d\x7d\"_tag>x</my_tag>"
  program := ⟨Node.marked "<my element=\"" (.node .instanceKey ⟨15, 22⟩) 1 "\"_tag>x</my_tag>"⟩

/-- A tag name with an underscore is cut in two: the first element of the page has another name. -/
theorem Template.not_markedFirst_underscored :
    ComponentSource.markRoot "tag" "<my_tag>x</my_tag>" .braces = .ok underscored.source ∧
    Template.component "tag" "<my_tag>x</my_tag>" .braces = .ok underscored ∧
    underscored.program.execute (.keyed (Store.host 1) .null "k") Store.empty =
      some (.ok "<my element=\"k\"_tag>x</my_tag>", Store.empty) ∧
    (Document.parse "<my_tag>x</my_tag>").firstElementChild? Document.root = some 1 ∧
    (Document.parse "<my_tag>x</my_tag>").tag? 1 = some "my_tag" ∧
    (Document.parse "<my element=\"k\"_tag>x</my_tag>").tag? 1 = some "my" ∧
    ¬ Document.MarkedFirst rootAttribute "k" (Document.parse "<my_tag>x</my_tag>")
      (Document.parse "<my element=\"k\"_tag>x</my_tag>") := by
  have hmark : ComponentSource.markRoot "tag" "<my_tag>x</my_tag>" .braces =
      .ok underscored.source := eq_ok_of_toOption (by decide +kernel)
  have ht : Template.component "tag" "<my_tag>x</my_tag>" .braces = .ok underscored :=
    Template.component_of_segments
      [⟨.text, "<my element=\"".toList, ⟨0, 13⟩, 1⟩,
        ⟨.directive .escaped, "$ctxKey".toList, ⟨15, 22⟩, 1⟩,
        ⟨.text, "\"_tag>x</my_tag>".toList, ⟨24, 40⟩, 1⟩]
      (by decide +kernel) (by decide +kernel) (by cbv)
  have hrun : underscored.program.execute (.keyed (Store.host 1) .null "k") Store.empty =
      some (.ok "<my element=\"k\"_tag>x</my_tag>", Store.empty) := by
    have hshown : "<my element=\"" ++ escapeMarkup "k" ++ "\"_tag>x</my_tag>" =
        "<my element=\"k\"_tag>x</my_tag>" := by decide +kernel
    rw [← hshown]
    exact Program.execute_marked (c := .keyed (Store.host 1) .null "k") (k := "k") rfl
      (show (Expr.node .instanceKey ⟨15, 22⟩).kind = .instanceKey from rfl) 1 _ _ Store.empty
  have hfirst : (Document.parse "<my_tag>x</my_tag>").firstElementChild? Document.root = some 1 := by
    decide +kernel
  have htag : (Document.parse "<my_tag>x</my_tag>").tag? 1 = some "my_tag" := by decide +kernel
  have htag' : (Document.parse "<my element=\"k\"_tag>x</my_tag>").tag? 1 = some "my" := by
    decide +kernel
  refine ⟨hmark, ht, hrun, hfirst, htag, htag', fun hmarks => ?_⟩
  obtain ⟨x, e, e', hx, he, -, he', hsame⟩ := hmarks.exists_tag
  obtain rfl := Option.some.inj (hx.symm.trans hfirst)
  rw [Document.tag?, he] at htag
  rw [Document.tag?, he'] at htag'
  rw [Option.some.inj htag, Option.some.inj htag'] at hsame
  exact absurd hsame (by decide)

end LiveMarkup
