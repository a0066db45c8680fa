import LiveMarkup.Engine.Component
import LiveMarkup.Proofs.Scanning
import LiveMarkup.Proofs.Template.Written
set_option autoImplicit false

/-! # Where a component template is marked

The mark is put into the source of a template, behind the name of the first start tag in its literal
text, and the marked source is scanned again. That scan finds the stretches of the old source, with
the mark in the run of text that has the tag and nothing changed beside it
(`ComponentSource.exists_cut_of_markRoot`): delimiters that share no character with the mark cannot
be found in it, and the searches of the old source do not depend on what stands behind their finds.
-/

namespace LiveMarkup

open Text

/-! ## The first start tag of a text -/

theorem prefix_of_prefix_append_cons {pat s t : List Char} {c : Char} (hc : c ∉ pat)
    (h : pat <+: s ++ c :: t) : pat <+: s := by
  rcases List.prefix_or_prefix_of_prefix h (List.prefix_append s _) with hprefix | ⟨u, rfl⟩
  · exact hprefix
  · cases u with
    | nil => rw [List.append_nil]
    | cons x u =>
        obtain ⟨rfl, -⟩ := List.cons_prefix_cons.mp ((List.prefix_append_right_inj s).mp h)
        exact absurd (List.mem_append_right _ List.mem_cons_self) hc

namespace ComponentSource

/-- A cut at the first tag loses nothing, and it is just past the name of a tag. -/
theorem exists_of_cutAtFirstTag? {s a b : List Char} (h : cutAtFirstTag? s = some (a, b)) :
    s = a ++ b ∧ ∃ before c name, a = before ++ '<' :: c :: name ∧ isAsciiLetter c = true ∧
      ∀ d ∈ name, isTagNameChar d = true := by
  fun_induction cutAtFirstTag? s generalizing a with
  | case1 => cases h
  | case2 => cases h
  | case3 rest comment following hcut hlt ih =>
      obtain ⟨⟨a', b'⟩, hrest, heq⟩ := Option.map_eq_some_iff.mp h
      obtain ⟨rfl, rfl⟩ := Prod.mk.inj heq
      obtain ⟨hfollowing, before, c, name, rfl, hc, hname⟩ := ih hrest
      refine ⟨?_, "<!--".toList ++ comment ++ "-->".toList ++ before, c, name, ?_, hc, hname⟩
      · rw [eq_of_cut? hcut, hfollowing]
        simp
      · simp
  | case4 c rest hcomment hc =>
      obtain ⟨rfl, rfl⟩ := Prod.mk.inj (Option.some.inj h)
      refine ⟨?_, [], c, _, rfl, hc, fun d hd => ?_⟩
      · rw [List.cons_append, List.cons_append, List.takeWhile_append_dropWhile]
      · exact List.mem_takeWhile_imp hd
  | case5 c rest hcomment hc ih =>
      obtain ⟨⟨a', b'⟩, hrest, heq⟩ := Option.map_eq_some_iff.mp h
      obtain ⟨rfl, rfl⟩ := Prod.mk.inj heq
      obtain ⟨hfollowing, before, c, name, rfl, hc, hname⟩ := ih hrest
      exact ⟨by rw [hfollowing]; rfl, '<' :: before, c, name, rfl, hc, hname⟩
  | case6 c rest hcomment hopen ih =>
      obtain ⟨⟨a', b'⟩, hrest, heq⟩ := Option.map_eq_some_iff.mp h
      obtain ⟨rfl, rfl⟩ := Prod.mk.inj heq
      obtain ⟨hfollowing, before, c', name, rfl, hc, hname⟩ := ih hrest
      exact ⟨by rw [hfollowing]; rfl, c :: before, c', name, rfl, hc, hname⟩

theorem cutAtFirstTag?_comment {rest comment following : List Char}
    (hcut : cut? "-->".toList rest = some (comment, following)) :
    cutAtFirstTag? ("<!--".toList ++ rest) = (cutAtFirstTag? following).map fun (before, after) =>
      ("<!--".toList ++ comment ++ "-->".toList ++ before, after) := by
  show cutAtFirstTag? ('<' :: '!' :: '-' :: '-' :: rest) = _
  rw [cutAtFirstTag?]
  split
  · next hnone => rw [hcut] at hnone; cases hnone
  · next hsome =>
      obtain ⟨rfl, rfl⟩ := Prod.mk.inj (Option.some.inj (hcut.symm.trans hsome))
      rfl

theorem cutAtFirstTag?_letter {c : Char} (hc : isAsciiLetter c = true) (rest : List Char) :
    cutAtFirstTag? ('<' :: c :: rest) =
      some ('<' :: c :: rest.takeWhile isTagNameChar, rest.dropWhile isTagNameChar) := by
  rw [cutAtFirstTag?, if_pos hc]
  rintro _ rfl -
  exact absurd hc (by decide)

theorem cutAtFirstTag?_bracket {c : Char} {rest : List Char} (hc : ¬ isAsciiLetter c = true)
    (hcomment : ¬ "!--".toList <+: c :: rest) :
    cutAtFirstTag? ('<' :: c :: rest) =
      (cutAtFirstTag? (c :: rest)).map fun (before, after) => ('<' :: before, after) := by
  rw [cutAtFirstTag?, if_neg hc]
  rintro following rfl rfl
  exact hcomment ⟨following, rfl⟩

theorem cutAtFirstTag?_char {c : Char} (hc : c ≠ '<') (rest : List Char) :
    cutAtFirstTag? (c :: rest) =
      (cutAtFirstTag? rest).map fun (before, after) => (c :: before, after) := by
  rw [cutAtFirstTag?]
  · rintro _ rfl -
    exact hc rfl
  · rintro _ _ rfl -
    exact hc rfl

/-- A tag stays the first one when what stands behind its name is changed, unless its name goes
on. -/
theorem cutAtFirstTag?_append {s a b : List Char} (h : cutAtFirstTag? s = some (a, b)) {c : Char}
    (hc : isTagNameChar c = false) (more : List Char) :
    cutAtFirstTag? (a ++ c :: more) = some (a, c :: more) := by
  fun_induction cutAtFirstTag? s generalizing a with
  | case1 => cases h
  | case2 => cases h
  | case3 rest comment following hcut hlt ih =>
      obtain ⟨⟨a', b'⟩, hrest, heq⟩ := Option.map_eq_some_iff.mp h
      obtain ⟨rfl, rfl⟩ := Prod.mk.inj heq
      have hcut' : cut? "-->".toList (comment ++ "-->".toList ++ (a' ++ c :: more)) =
          some (comment, a' ++ c :: more) :=
        cut?_eq_some_iff.mpr ((leftmost_of_cut? hcut).behind _)
      have hsource : "<!--".toList ++ comment ++ "-->".toList ++ a' ++ c :: more =
          "<!--".toList ++ (comment ++ "-->".toList ++ (a' ++ c :: more)) := by
        simp only [List.append_assoc]
      rw [hsource, cutAtFirstTag?_comment hcut', ih hrest]
      rfl
  | case4 c' rest hcomment hletter =>
      obtain ⟨rfl, rfl⟩ := Prod.mk.inj (Option.some.inj h)
      have hname : ∀ d ∈ rest.takeWhile isTagNameChar, isTagNameChar d = true :=
        fun d hd => List.mem_takeWhile_imp hd
      have hends : ¬ isTagNameChar c = true := by simp [hc]
      rw [List.cons_append, List.cons_append, cutAtFirstTag?_letter hletter,
        List.takeWhile_append_of_pos hname, List.dropWhile_append_of_pos hname,
        List.takeWhile_cons_of_neg hends, List.dropWhile_cons_of_neg hends, List.append_nil]
  | case5 c' rest hcomment hletter ih =>
      obtain ⟨⟨a', b'⟩, hrest, heq⟩ := Option.map_eq_some_iff.mp h
      obtain ⟨rfl, rfl⟩ := Prod.mk.inj heq
      obtain ⟨hsource, before, c₀, name, hname, -, -⟩ := exists_of_cutAtFirstTag? hrest
      have hcomment' : ¬ "!--".toList <+: a' ++ c :: more := by
        intro hprefix
        -- a comment that starts here starts in front of the tag
        rw [hname, List.append_assoc, List.cons_append] at hprefix
        have hbefore := prefix_of_prefix_append_cons (by decide) hprefix
        have hfirst : "!--".toList <+: c' :: rest := by
          rw [hsource, hname, List.append_assoc]
          exact hbefore.trans (List.prefix_append _ _)
        obtain ⟨following, hfollowing⟩ := hfirst
        obtain ⟨rfl, hrest'⟩ := List.cons.inj hfollowing
        exact hcomment following rfl hrest'.symm
      cases a' with
      | nil => simp at hname
      | cons x a' =>
          obtain ⟨rfl, -⟩ := List.cons.inj hsource
          have hagain : cutAtFirstTag? ('<' :: c' :: (a' ++ c :: more)) =
              (cutAtFirstTag? (c' :: a' ++ c :: more)).map fun (before, after) =>
                ('<' :: before, after) := cutAtFirstTag?_bracket hletter hcomment'
          rw [ih hrest] at hagain
          exact hagain
  | case6 c' rest hcomment hopen ih =>
      obtain ⟨⟨a', b'⟩, hrest, heq⟩ := Option.map_eq_some_iff.mp h
      obtain ⟨rfl, rfl⟩ := Prod.mk.inj heq
      have hne : c' ≠ '<' := by
        rintro rfl
        cases rest with
        | nil => simp [cutAtFirstTag?] at hrest
        | cons d rest => exact hopen d rest rfl rfl
      rw [List.cons_append, cutAtFirstTag?_char hne, ih hrest]
      rfl

end ComponentSource

/-! ## The mark among the stretches of a source -/

/-- What stands between the delimiters of a mark. -/
def ComponentSource.keyName : List Char := "$ctxKey".toList

theorem ComponentSource.keyName_eq : keyName = ['$', 'c', 't', 'x', 'K', 'e', 'y'] := rfl

/-- What stands in front of the directive of a mark. -/
def ComponentSource.markHead : List Char := ' ' :: (rootAttribute.toList ++ ['=', '"'])

/-- A mark shares no character with the delimiters. -/
def Delimiters.Apart (d : Delimiters) : Prop :=
  d.Spare (ComponentSource.markHead ++ ComponentSource.keyName)

/-- A run of text with the mark in it. -/
def Stretch.marked (a b : List Char) : List Stretch :=
  [.text (a ++ ComponentSource.markHead), .directive ComponentSource.keyName, .text ('"' :: b)]

/-- A marked run as it is written, in the texts that it is put together from. -/
theorem Stretch.written_marked (d : Delimiters) (a b : List Char) :
    written d (marked a b) = a ++ (" ".toList ++ (rootAttribute.toList ++ ("=\"".toList ++
      (d.opening.toList ++ ("$ctxKey".toList ++ (d.closing.toList ++ ("\"".toList ++ b))))))) := by
  show a ++ ComponentSource.markHead ++ (d.around ComponentSource.keyName ++ ('"' :: b ++ [])) = _
  rw [Delimiters.around, List.append_nil]
  simp only [List.append_assoc]
  rfl

theorem Stretch.ofRun_of_ne_nil {run : List Char} (h : run ≠ []) : ofRun run = [.text run] := by
  cases run with
  | nil => exact absurd rfl h
  | cons c run => rfl

section

variable {d : Delimiters} {a b source : List Char} {stretches pre post : List Stretch}

theorem Delimiters.Apart.head (h : d.Apart) : d.Spare ComponentSource.markHead :=
  fun c hc => h c (List.mem_append_left _ hc)

theorem Delimiters.Apart.key (h : d.Apart) : d.Spare ComponentSource.keyName :=
  fun c hc => h c (List.mem_append_right _ hc)

theorem Delimiters.Apart.quote_not_mem (h : d.Apart) : '"' ∉ d.opening.toList :=
  (h.head '"' (by decide)).1

/-- A marked run is cut at the mark, if what comes behind it is cut. -/
theorem Cut.marked_run (hd : d.Apart) (hclose : d.closing.toList ≠ [])
    (ha : ¬ d.opening.toList <:+: a) (h : Cut d source (.text ('"' :: b) :: post)) :
    Cut d (Stretch.written d (Stretch.marked a b ++ post)) (Stretch.marked a b ++ post) := by
  have hopening := ne_nil_of_absent ha
  have hhead : ∀ c ∈ ComponentSource.markHead, c ∉ d.opening.toList := fun c hc => (hd.head c hc).1
  have hne : a ++ ComponentSource.markHead ≠ [] := by simp [ComponentSource.markHead]
  have hcut := Cut.directive (leftmost_of_spare hhead (List.cons_ne_nil _ _) ha _)
    (leftmost_of_disjoint hclose (fun c hc => (hd.key c hc).2) source)
    (not_infix_of_disjoint hopening fun c hc => (hd.key c hc).1) h
  rw [Stretch.ofRun_of_ne_nil hne, ← h.written] at hcut
  simpa only [Stretch.marked, Stretch.written_cons, Stretch.source, Delimiters.around,
    List.append_assoc, List.cons_append, List.nil_append] using hcut

/-- Where a run of text is among the stretches in front of a directive and those behind it. -/
theorem Stretch.split_at_text {text raw run : List Char}
    (h : pre ++ Stretch.text run :: post = ofRun text ++ .directive raw :: stretches) :
    (pre = [] ∧ run = text ∧ post = .directive raw :: stretches) ∨
      ∃ pre', pre = ofRun text ++ .directive raw :: pre' ∧
        stretches = pre' ++ .text run :: post := by
  rcases List.append_eq_append_iff.mp h with ⟨front, hfront, hbehind⟩ | ⟨front, rfl, hbehind⟩
  · cases text with
    | nil =>
        obtain ⟨rfl, rfl⟩ := List.append_eq_nil_iff.mp hfront.symm
        cases hbehind
    | cons c text =>
        cases front with
        | nil => cases hbehind
        | cons x front =>
            obtain ⟨rfl, rfl⟩ := List.cons.inj hbehind
            cases pre with
            | nil =>
                obtain ⟨hrun, rfl⟩ := List.cons.inj hfront
                exact .inl ⟨rfl, (Stretch.text.inj hrun).symm, rfl⟩
            | cons y pre => simp [ofRun] at hfront
  · cases front with
    | nil => cases hbehind
    | cons x front =>
        obtain ⟨rfl, rfl⟩ := List.cons.inj hbehind
        exact .inr ⟨front, rfl, rfl⟩

/-- A source that is marked in one of its runs of text is cut as before, with the mark in that
run. -/
theorem Cut.marked (hd : d.Apart) (hclose : d.closing.toList ≠ [])
    (h : Cut d source (pre ++ .text (a ++ b) :: post)) :
    Cut d (Stretch.written d (pre ++ Stretch.marked a b ++ post))
      (pre ++ Stretch.marked a b ++ post) := by
  -- on the cut: the run is the one in front of the first directive, or behind it
  generalize hstretches : pre ++ Stretch.text (a ++ b) :: post = stretches at h
  induction h generalizing pre with
  | @run text hopen =>
      cases text with
      | nil => simp [Stretch.ofRun] at hstretches
      | cons c text =>
          cases pre with
          | cons x pre => simp [Stretch.ofRun] at hstretches
          | nil =>
              obtain ⟨hrun, rfl⟩ := List.cons.inj hstretches
              rw [← Stretch.text.inj hrun] at hopen
              have hb : ¬ d.opening.toList <:+: '"' :: b := not_infix_cons hd.quote_not_mem
                fun hin => hopen (hin.trans (List.suffix_append a b).isInfix)
              exact Cut.marked_run hd hclose
                (fun hin => hopen (hin.trans (List.prefix_append a b).isInfix)) (.run hb)
  | @directive source text tail raw rest stretches hopen hclose' hraw hrest ih =>
      rcases Stretch.split_at_text hstretches with ⟨rfl, rfl, rfl⟩ | ⟨pre, rfl, rfl⟩
      · have habsent := hopen.absent (ne_nil_of_absent hraw)
        have hb : Leftmost d.opening.toList ('"' :: (b ++ (d.opening.toList ++ tail))) ('"' :: b)
            tail := by
          have hcut := hopen.eq ▸ hopen
          rw [List.append_assoc a, List.append_assoc a, List.append_assoc b] at hcut
          exact hcut.drop.prepend hd.quote_not_mem fun hin => habsent (hin.trans List.nil_infix)
        exact Cut.marked_run hd hclose
          (fun hin => habsent (hin.trans (List.prefix_append a b).isInfix))
          (.directive hb hclose' hraw hrest)
      · have hcut := Cut.directive (hopen.behind _) (hclose'.behind _) hraw (ih rfl)
        simpa only [Stretch.written_append, Stretch.written_ofRun, Stretch.written_cons,
          Stretch.source, Delimiters.around, List.append_assoc, List.cons_append] using hcut

/-! ## Marking -/

theorem eq_ok_of_mapError {ε ε' α : Type} {x : Except ε α} {f : ε → ε'} {v : α}
    (h : x.mapError f = .ok v) : x = .ok v := by
  cases x with
  | error e => cases h
  | ok w => exact congrArg Except.ok (Except.ok.inj h)

theorem cutAtByte_append (front behind : List Char) :
    ComponentSource.cutAtByte (byteLength front) (front ++ behind) = (front, behind) := by
  induction front with
  | nil => cases behind <;> rfl
  | cons c front ih =>
      have hsize : c.utf8Size + byteLength front ≠ 0 := by have := c.utf8Size_pos; omega
      rw [List.cons_append, ComponentSource.cutAtByte, byteLength, if_neg hsize,
        Nat.add_sub_cancel_left, ih]

namespace ComponentSource

/-- The run of text that is marked is the first one that has a tag, and the mark goes behind the
name of the tag. -/
theorem exists_of_rootOffset? {before : List Char} {offset : Nat}
    (hsize : byteLength (before ++ Stretch.written d stretches) ≤ Span.limit)
    (h : rootOffset? (Stretch.segments d before stretches) = some offset) :
    ∃ pre a b post, stretches = pre ++ .text (a ++ b) :: post ∧
      cutAtFirstTag? (a ++ b) = some (a, b) ∧
      (∀ run, .text run ∈ pre → cutAtFirstTag? run = none) ∧
      offset = byteLength (before ++ Stretch.written d pre ++ a) := by
  induction stretches generalizing before with
  | nil => cases h
  | cons first rest ih =>
      rw [Stretch.written_cons, ← List.append_assoc] at hsize
      cases first with
      | text run =>
          cases hcut : cutAtFirstTag? run with
          | none =>
              have hrest : rootOffset? (Stretch.segments d (before ++ run) rest) = some offset := by
                rw [rootOffset?, Stretch.segments, List.findSome?_cons] at h
                simp only [Segment.ofText, if_true, hcut, Option.map_none] at h
                exact h
              obtain ⟨pre, a, b, post, rfl, hfirst, htagless, rfl⟩ := ih hsize hrest
              refine ⟨.text run :: pre, a, b, post, rfl, hfirst, fun run' hmem => ?_, ?_⟩
              · rcases List.mem_cons.mp hmem with heq | hmem
                · rw [Stretch.text.inj heq, hcut]
                · exact htagless run' hmem
              · rw [Stretch.written_cons, ← List.append_assoc before]
          | some cut =>
              obtain ⟨a, b⟩ := cut
              obtain ⟨rfl, -⟩ := exists_of_cutAtFirstTag? hcut
              rw [rootOffset?, Stretch.segments, List.findSome?_cons] at h
              simp only [Segment.ofText, if_true, hcut, Option.map_some, Option.some.injEq] at h
              have hstart : min (byteLength before) Span.limit + byteLength a = offset := h
              have hwithin : byteLength before ≤ Span.limit := by
                simp only [byteLength_append] at hsize
                omega
              refine ⟨[], a, b, rest, rfl, hcut, fun _ hmem => absurd hmem List.not_mem_nil, ?_⟩
              show offset = byteLength (before ++ [] ++ a)
              rw [List.append_nil, byteLength_append, ← hstart, Nat.min_eq_left hwithin]
      | directive raw =>
          obtain ⟨pre, a, b, post, rfl, hcut, htagless, rfl⟩ := ih hsize h
          refine ⟨.directive raw :: pre, a, b, post, rfl, hcut, fun run hmem => ?_, ?_⟩
          · exact htagless run ((List.mem_cons.mp hmem).resolve_left Stretch.noConfusion)
          · rw [Stretch.written_cons, ← List.append_assoc before]

/-- A source that is accepted has a run of text with a tag, the first of its kind, and is marked
there. The marked source is cut as the source is, with the mark in that run. -/
theorem exists_cut_of_markRoot {name text marked : String} (hd : d.Apart) (hclose : d.closing ≠ "")
    (hsize : byteLength (unwrap text.toList) < UInt32.size)
    (h : markRoot name text d = .ok marked) :
    ∃ pre a b post, Cut d (unwrap text.toList) (pre ++ .text (a ++ b) :: post) ∧
      Cut d marked.toList (pre ++ Stretch.marked a b ++ post) ∧
      cutAtFirstTag? (a ++ b) = some (a, b) ∧
      ∀ run, .text run ∈ pre → cutAtFirstTag? run = none := by
  have hsize' : byteLength (unwrap text.toList) ≤ Span.limit := Nat.le_pred_of_lt hsize
  unfold markRoot at h
  obtain ⟨segments, hscan, h⟩ := bind_eq_ok h
  have hscan' : scanFrom d 0 1 (unwrap text.toList) = .ok segments := by
    rw [← String.toList_ofList (l := unwrap text.toList)]
    exact eq_ok_of_mapError hscan
  rcases cut_or_offends d (unwrap text.toList) with ⟨stretches, hcut⟩ | ⟨found, offence, hoffends⟩
  · obtain rfl := Except.ok.inj (hscan'.symm.trans (scanFrom_of_cut hcut []))
    cases hoffset : rootOffset? (Stretch.segments d [] stretches) with
    | none => simp only [hoffset] at h; cases h
    | some offset =>
        obtain ⟨pre, a, b, post, rfl, hfirst, htagless, rfl⟩ :=
          exists_of_rootOffset? (by rwa [List.nil_append, hcut.written]) hoffset
        refine ⟨pre, a, b, post, hcut, ?_, hfirst, htagless⟩
        have hmarked := Cut.marked hd (by simpa using hclose) hcut
        have hbody : unwrap text.toList =
            Stretch.written d pre ++ a ++ (b ++ Stretch.written d post) := by
          rw [← hcut.written, Stretch.written_append, Stretch.written_cons]
          simp only [Stretch.source, List.append_assoc]
        simp only [hoffset, List.nil_append] at h
        rw [hbody, cutAtByte_append] at h
        have hsource : marked.toList = Stretch.written d (pre ++ Stretch.marked a b ++ post) := by
          rw [← Except.ok.inj h]
          simp only [String.toList_append, String.toList_ofList, Stretch.written_append,
            Stretch.written_marked, List.append_assoc]
        rwa [hsource]
  · cases hscan'.symm.trans (scanFrom_of_offends hoffends [] (by rwa [List.nil_append]))

end ComponentSource

end

end LiveMarkup
