import LiveMarkup.Engine.Component
import LiveMarkup.Proofs.Document.EscapedText
import LiveMarkup.Proofs.Document.Links
import LiveMarkup.Proofs.Document.Parse
set_option autoImplicit false

/-! # The first element of a page

Text in which no element starts and no markup stays open (`Settled`) may stand in front of a tag:
the tag is read as if it stood alone. The first start tag of a page makes its first element, and
what comes later leaves that where it is (`Leads`). So a tag that is marked, with a name and a value
in quotes as its first attribute, gives the first element its mark, whatever is behind it
(`attribute?_firstElementChild?_parse`). -/

namespace LiveMarkup

open Text

namespace Piece

/-! ## Line ends -/

theorem unifyLineEnds_cons {c : Char} (hc : c ≠ '\r') (s : List Char) :
    unifyLineEnds (c :: s) = c :: unifyLineEnds s := by
  rw [unifyLineEnds]
  · rintro _ rfl
    exact absurd rfl hc
  · exact hc

/-- Line ends are unified part by part, but for one that two parts have halves of. -/
theorem unifyLineEnds_append (s t : List Char) :
    unifyLineEnds (s ++ t) = unifyLineEnds s ++ unifyLineEnds t ∨
      ∃ rest, t = '\n' :: rest ∧
        unifyLineEnds (s ++ t) = unifyLineEnds s ++ unifyLineEnds rest := by
  fun_induction unifyLineEnds s with
  | case1 s ih => simpa [unifyLineEnds] using ih
  | case2 s hs ih =>
      -- a carriage return takes a line feed with it
      cases hst : s ++ t with
      | nil =>
          obtain ⟨rfl, rfl⟩ := List.append_eq_nil_iff.mp hst
          exact .inl rfl
      | cons c rest =>
          by_cases hc : c = '\n'
          · subst hc
            cases s with
            | nil => exact .inr ⟨rest, hst, by simp [unifyLineEnds, hst]⟩
            | cons c' s => exact absurd (List.cons.inj hst).1 fun h => hs s (by rw [h])
          · rw [List.cons_append, hst]
            have hreturn : unifyLineEnds ('\r' :: c :: rest) =
                '\n' :: unifyLineEnds (c :: rest) := by
              simp [unifyLineEnds, hc]
            rw [hreturn, ← hst]
            simpa using ih
  | case3 c s _ hc ih =>
      have hc : c ≠ '\r' := hc
      simpa [unifyLineEnds_cons hc] using ih
  | case4 => exact .inl rfl

theorem unifyLineEnds_append_of_not_mem {s : List Char} (h : '\r' ∉ s) (t : List Char) :
    unifyLineEnds (s ++ t) = s ++ unifyLineEnds t := by
  induction s with
  | nil => rfl
  | cons c s ih =>
      obtain ⟨hc, hs⟩ := not_or.mp (List.mem_cons.not.mp h)
      rw [List.cons_append, unifyLineEnds_cons (Ne.symm hc), ih hs, List.cons_append]

/-! ## Text before a tag -/

/-- Text that starts no element and leaves no markup open. An angle bracket either opens nothing,
whatever comes behind the text, or it opens markup that ends in the text: a comment, a declaration
or an end tag. -/
inductive Settled : List Char → Prop
  | nil : Settled []
  | char {c : Char} {s : List Char} : c ≠ '<' → Settled s → Settled (c :: s)
  | bracket {s : List Char} : (∀ more, opensMarkup (s ++ more) = false) → Settled s →
    Settled ('<' :: s)
  | markup {s rest : List Char} {found : List Piece} :
    (∀ more, opensMarkup (s ++ more) = true ∧
      readMarkup? (s ++ more) = some (found, rest ++ more)) →
    (∀ t, .start t ∉ found) → Settled rest → Settled ('<' :: s)

theorem settled_of_not_mem {s : List Char} (h : '<' ∉ s) : Settled s := by
  induction s with
  | nil => exact .nil
  | cons c s ih =>
      obtain ⟨hc, hs⟩ := not_or.mp (List.mem_cons.not.mp h)
      exact .char (Ne.symm hc) (ih hs)

theorem Settled.append {s more : List Char} (h : Settled s) (hmore : Settled more) :
    Settled (s ++ more) := by
  induction h with
  | nil => exact hmore
  | char hc _ ih => exact .char hc ih
  | bracket hopens _ ih =>
      refine .bracket (fun behind => ?_) ih
      rw [List.append_eq, List.append_assoc]
      exact hopens _
  | markup hread hfound _ ih =>
      refine .markup (fun behind => ?_) hfound ih
      rw [List.append_eq, List.append_assoc, List.append_assoc]
      exact hread _

theorem settled_of_lineFeed {s : List Char} (h : Settled ('\n' :: s)) : Settled s := by
  cases h with
  | char _ hs => exact hs

theorem settled_unifyLineEnds_append {s t : List Char} (hs : Settled (unifyLineEnds s))
    (ht : Settled (unifyLineEnds t)) : Settled (unifyLineEnds (s ++ t)) := by
  rcases unifyLineEnds_append s t with happend | ⟨rest, rfl, happend⟩
  · rw [happend]
    exact hs.append ht
  · rw [unifyLineEnds_cons (by decide)] at ht
    rw [happend]
    exact hs.append (settled_of_lineFeed ht)

/-! ## Reading -/

theorem cutText_of_opens {s : List Char} (h : opensMarkup s = true) :
    cutText ('<' :: s) = ([], '<' :: s) := by
  rw [cutText, if_pos (by simpa using h)]

/-- A text that ends in a tag. -/
theorem readAll_of_unfinished {s before markup : List Char} {c : Char}
    (hcut : cutText s = (before, c :: markup)) (hm : readMarkup? markup = none) :
    readAll s = ofText (Reference.decode false before) := by
  rw [readAll]
  split
  · next h => rw [hcut] at h; cases h
  · next h =>
      rw [hcut] at h
      obtain ⟨-, rfl⟩ := List.cons.inj h
      split
      · rw [hcut]
      · next hsome => rw [hm] at hsome; cases hsome

theorem decode_nil (inAttribute : Bool) : Reference.decode inAttribute [] = [] := by
  rw [Reference.decode]

theorem readAll_nil : readAll [] = [] := by
  rw [readAll_text List.not_mem_nil, decode_nil]
  rfl

/-- The text up to the next markup is read apart from what follows. -/
theorem readAll_eq (s : List Char) :
    readAll s = ofText (Reference.decode false (cutText s).1) ++ readAll (cutText s).2 := by
  have hagain : cutText (cutText s).2 = ([], (cutText s).2) := by
    fun_induction cutText s with
    | case1 => rfl
    | case2 c s hc =>
        obtain ⟨rfl, hopens⟩ : c = '<' ∧ opensMarkup s = true := by simpa using hc
        exact cutText_of_opens hopens
    | case3 c s hc inside rest heq ih => rwa [heq] at ih
  obtain ⟨before, rest, hcut⟩ : ∃ before rest, cutText s = (before, rest) := ⟨_, _, rfl⟩
  rw [hcut] at hagain ⊢
  cases rest with
  | nil =>
      rw [readAll, readAll_nil, List.append_nil]
      split
      · rw [hcut]
      · next h => rw [hcut] at h; cases h
  | cons c markup =>
      cases hm : readMarkup? markup with
      | none =>
          rw [readAll_of_unfinished hcut hm, readAll_of_unfinished hagain hm, decode_nil]
          exact (List.append_nil _).symm
      | some read =>
          rw [readAll_of_cutText hcut hm, readAll_of_cutText hagain hm, decode_nil,
            List.append_assoc, List.append_assoc]
          rfl

/-- Pieces without a start tag. -/
def StartFree (pieces : List Piece) : Prop := ∀ t, .start t ∉ pieces

theorem startFree_ofText (s : List Char) : StartFree (ofText s) := by
  intro t ht
  unfold ofText at ht
  split at ht <;> simp at ht

theorem StartFree.append {a b : List Piece} (ha : StartFree a) (hb : StartFree b) :
    StartFree (a ++ b) :=
  fun t ht => (List.mem_append.mp ht).elim (ha t) (hb t)

/-- The text that settled text ends in, or that stands in front of its first markup, is the same
whatever comes behind. -/
theorem Settled.exists_cutText {s : List Char} (h : Settled s) :
    ∃ front, ∀ behind, cutText behind = ([], behind) → (cutText (s ++ behind)).1 = front := by
  induction h with
  | nil => exact ⟨[], fun behind hbehind => by rw [List.nil_append, hbehind]⟩
  | @char c s hc _ ih =>
      obtain ⟨front, ih⟩ := ih
      exact ⟨c :: front, fun behind hbehind => by simp [cutText, hc, ih behind hbehind]⟩
  | @bracket s hno _ ih =>
      obtain ⟨front, ih⟩ := ih
      exact ⟨'<' :: front, fun behind hbehind => by simp [cutText, hno, ih behind hbehind]⟩
  | markup hread =>
      exact ⟨[], fun behind _ => by rw [List.cons_append, cutText_of_opens (hread behind).1]⟩

/-- What stands behind settled text, nothing or markup, is read as if it stood alone. -/
theorem Settled.exists_readAll {s : List Char} (h : Settled s) :
    ∃ before, StartFree before ∧ ∀ behind, cutText behind = ([], behind) →
      readAll (s ++ behind) = before ++ readAll behind := by
  -- on the text; what is in front of the next markup is put aside
  have hrest : ∃ before, StartFree before ∧ ∀ behind, cutText behind = ([], behind) →
      readAll (cutText (s ++ behind)).2 = before ++ readAll behind := by
    induction h with
    | nil =>
        refine ⟨[], fun _ => List.not_mem_nil, fun behind hbehind => ?_⟩
        rw [List.nil_append, hbehind]
        rfl
    | @char c s hc _ ih =>
        obtain ⟨before, hbefore, ih⟩ := ih
        refine ⟨before, hbefore, fun behind hbehind => ?_⟩
        have hcut : (cutText (c :: s ++ behind)).2 = (cutText (s ++ behind)).2 := by
          simp [cutText, hc]
        rw [hcut, ih behind hbehind]
    | @bracket s hno _ ih =>
        obtain ⟨before, hbefore, ih⟩ := ih
        refine ⟨before, hbefore, fun behind hbehind => ?_⟩
        have hcut : (cutText ('<' :: s ++ behind)).2 = (cutText (s ++ behind)).2 := by
          simp [cutText, hno]
        rw [hcut, ih behind hbehind]
    | @markup s rest found hread hfound hrest ih =>
        obtain ⟨front, hfront⟩ := hrest.exists_cutText
        obtain ⟨before, hbefore, ih⟩ := ih
        refine ⟨found ++ (ofText (Reference.decode false front) ++ before),
          StartFree.append hfound ((startFree_ofText _).append hbefore), fun behind hbehind => ?_⟩
        obtain ⟨hopens, hread⟩ := hread behind
        rw [List.cons_append, cutText_of_opens hopens, readAll_of_markup hopens hread,
          readAll_eq (rest ++ _), hfront behind hbehind, ih behind hbehind, List.append_assoc,
          List.append_assoc]
  obtain ⟨before, hbefore, hread⟩ := hrest
  obtain ⟨front, hfront⟩ := h.exists_cutText
  refine ⟨ofText (Reference.decode false front) ++ before, (startFree_ofText _).append hbefore,
    fun behind hbehind => ?_⟩
  rw [readAll_eq, hread behind hbehind, hfront behind hbehind, List.append_assoc]

theorem Settled.startFree_readAll {s : List Char} (h : Settled s) : StartFree (readAll s) := by
  obtain ⟨before, hbefore, hread⟩ := h.exists_readAll
  have halone : readAll s = before := by
    rw [← List.append_nil s, hread [] rfl, readAll_nil, List.append_nil]
  rwa [halone]

/-! ## Tags with a mark -/

theorem opensMarkup_letter {c : Char} (hc : isAsciiLetter c = true) (s : List Char) :
    opensMarkup (c :: s) = true := by
  unfold opensMarkup
  split
  · next heq =>
      obtain ⟨rfl, -⟩ := List.cons.inj heq
      exact absurd hc (by decide)
  · next heq =>
      obtain ⟨rfl, -⟩ := List.cons.inj heq
      simp [hc]
  · next heq => cases heq

theorem readMarkup?_letter {c : Char} (hc : isAsciiLetter c = true) (s : List Char) :
    readMarkup? (c :: s) = (Tag.read? (c :: s)).map fun (t, rest) => withContent t rest := by
  unfold readMarkup?
  split
  · next heq =>
      obtain ⟨rfl, -⟩ := List.cons.inj heq
      exact absurd hc (by decide)
  · next heq =>
      obtain ⟨rfl, -⟩ := List.cons.inj heq
      exact absurd hc (by decide)
  · next heq =>
      obtain ⟨rfl, rfl⟩ := List.cons.inj heq
      rw [if_pos hc]
  · next heq => cases heq

theorem exists_withContent (t : Tag) (s : List Char) :
    ∃ inside rest, withContent t s = (.start t :: inside, rest) := by
  unfold withContent
  split
  · exact ⟨[], s, rfl⟩
  split
  · exact ⟨_, _, rfl⟩
  split
  · exact ⟨_, _, rfl⟩
  · exact ⟨[], s, rfl⟩

theorem readAll_of_read? {c : Char} (hc : isAsciiLetter c = true) {s rest : List Char} {t : Tag}
    (h : Tag.read? (c :: s) = some (t, rest)) :
    readAll ('<' :: c :: s) = (withContent t rest).1 ++ readAll (withContent t rest).2 := by
  have hmarkup := readMarkup?_letter hc s
  rw [h, Option.map_some] at hmarkup
  exact readAll_of_markup (opensMarkup_letter hc s) hmarkup

theorem readAll_of_read?_eq_none {c : Char} (hc : isAsciiLetter c = true) {s : List Char}
    (h : Tag.read? (c :: s) = none) : readAll ('<' :: c :: s) = [] := by
  have hmarkup := readMarkup?_letter hc s
  rw [h] at hmarkup
  rw [readAll_of_unfinished (cutText_of_opens (opensMarkup_letter hc s)) hmarkup, decode_nil]
  rfl

/-- A letter behind an angle bracket starts a tag; of one that the text ends in nothing is read. -/
theorem readAll_letter {c : Char} (hc : isAsciiLetter c = true) (s : List Char) :
    Tag.read? (c :: s) = none ∧ readAll ('<' :: c :: s) = [] ∨
      ∃ t rest after, Tag.read? (c :: s) = some (t, rest) ∧
        readAll ('<' :: c :: s) = .start t :: after := by
  cases hread : Tag.read? (c :: s) with
  | none => exact .inl ⟨rfl, readAll_of_read?_eq_none hc hread⟩
  | some read =>
      obtain ⟨t, rest⟩ := read
      obtain ⟨inside, following, hcontent⟩ := exists_withContent t rest
      refine .inr ⟨t, rest, inside ++ readAll following, rfl, ?_⟩
      rw [readAll_of_read? hc hread, hcontent, List.cons_append]

end Piece

namespace Tag

theorem mem_place_of_mem {name value : String} {attributes : List (String × String)}
    {e : String × String} (he : e ∈ attributes) : e ∈ place name value attributes := by
  induction attributes with
  | nil => cases he
  | cons first rest ih =>
      unfold place
      split
      · exact he
      split
      · exact List.mem_cons_of_mem _ he
      · rcases List.mem_cons.mp he with rfl | he
        · exact List.mem_cons_self
        · exact List.mem_cons_of_mem _ (ih he)

/-- What has been read of a tag stays. -/
theorem mem_readFrom? {name : String} {attributes : List (String × String)} {s rest : List Char}
    {t : Tag} {e : String × String} (he : e ∈ attributes)
    (ht : readFrom? name attributes s = some (t, rest)) : e ∈ t.attributes := by
  fun_induction readFrom? name attributes s with
  | case1 => cases ht
  | case2 =>
      simp only [Option.some.injEq, Prod.mk.injEq] at ht
      rwa [← ht.1]
  | case3 =>
      simp only [Option.some.injEq, Prod.mk.injEq] at ht
      rwa [← ht.1]
  | case4 _ _ _ _ ih => exact ih he ht
  | case5 _ _ _ _ _ _ ih => exact ih he ht
  | case6 => cases ht
  | case7 _ _ _ _ _ _ _ _ _ _ ih => exact ih (mem_place_of_mem he) ht

end Tag

namespace Piece

/-- The text of a start tag with an escaped value in its first attribute, from the name on. -/
def markedTag (tag k behind : List Char) : List Char :=
  tag ++ ' ' :: (rootAttribute.toList ++ '=' :: '"' :: (k.flatMap escapedChar ++ '"' :: behind))

theorem inTagName_of_isTagNameChar {c : Char} (h : ComponentSource.isTagNameChar c = true) :
    Tag.inTagName c = true := by
  have hne : c ≠ ' ' ∧ c ≠ '\t' ∧ c ≠ '\n' ∧ c ≠ '\x0c' ∧ c ≠ '/' ∧ c ≠ '>' := by
    refine ⟨?_, ?_, ?_, ?_, ?_, ?_⟩ <;> (rintro rfl; exact absurd h (by decide))
  simp [Tag.inTagName, Tag.endsName, Tag.isGap, hne]

theorem isTagNameChar_of_mem_tag {c d : Char} {name : List Char} (hc : isAsciiLetter c = true)
    (hname : ∀ d ∈ name, ComponentSource.isTagNameChar d = true) (hd : d ∈ c :: name) :
    ComponentSource.isTagNameChar d = true := by
  rcases List.mem_cons.mp hd with rfl | hd
  · simp [ComponentSource.isTagNameChar, hc]
  · exact hname d hd

theorem not_mem_tag {c d : Char} {name : List Char} (hc : isAsciiLetter c = true)
    (hname : ∀ d ∈ name, ComponentSource.isTagNameChar d = true)
    (hd : ComponentSource.isTagNameChar d = false) : d ∉ c :: name := fun hmem => by
  rw [isTagNameChar_of_mem_tag hc hname hmem] at hd
  cases hd

theorem inTagName_tag {c : Char} {name : List Char} (hc : isAsciiLetter c = true)
    (hname : ∀ d ∈ name, ComponentSource.isTagNameChar d = true) :
    ∀ d ∈ c :: name, Tag.inTagName d = true := fun _ hd =>
  inTagName_of_isTagNameChar (isTagNameChar_of_mem_tag hc hname hd)

theorem markedTag_append (tag k behind : List Char) :
    markedTag tag k behind = markedTag tag k [] ++ behind := by
  simp [markedTag]

theorem return_not_mem_markedTag {tag k : List Char} (htag : '\r' ∉ tag) (hk : '\r' ∉ k) :
    '\r' ∉ markedTag tag k [] := by
  have hescaped : '\r' ∉ k.flatMap escapedChar := not_mem_flatMap_escapedChar (by decide) hk
  simp [markedTag, rootAttribute, htag, hescaped]

/-- The pieces of settled text come first, whatever tag stands behind it. -/
theorem Settled.exists_ofMarkup {before : List Char} (h : Settled (unifyLineEnds before)) :
    ∃ pieces, StartFree pieces ∧ ∀ (markup : String) (c : Char) (tag behind : List Char),
      isAsciiLetter c = true → '\r' ∉ c :: tag →
        markup.toList = before ++ '<' :: (c :: tag ++ behind) →
          ofMarkup markup = pieces ++ readAll ('<' :: (c :: tag ++ unifyLineEnds behind)) := by
  obtain ⟨pieces, hfree, hread⟩ := h.exists_readAll
  refine ⟨pieces, hfree, fun markup c tag behind hc hreturn hmarkup => ?_⟩
  have hquiet : '\r' ∉ '<' :: c :: tag := List.not_mem_cons_of_ne_of_not_mem (by decide) hreturn
  have hunified : unifyLineEnds markup.toList =
      unifyLineEnds before ++ '<' :: (c :: tag ++ unifyLineEnds behind) := by
    rw [hmarkup]
    rcases unifyLineEnds_append before ('<' :: (c :: tag ++ behind)) with happend | ⟨rest, hrest, -⟩
    · rw [happend, ← List.cons_append, unifyLineEnds_append_of_not_mem hquiet]
      rfl
    · cases hrest
  rw [ofMarkup, hunified]
  exact hread _ (cutText_of_opens (opensMarkup_letter hc (tag ++ _)))

/-- The mark is the first attribute that is read. -/
theorem read?_markedTag {tag k : List Char} (htag : ∀ d ∈ tag, Tag.inTagName d = true)
    (hk : '\x00' ∉ k) (behind : List Char) :
    Tag.read? (markedTag tag k behind) =
      Tag.readFrom? (Tag.nameOf tag) [(rootAttribute, String.ofList k)] behind := by
  have hattribute : "lement".toList.all Tag.inAttributeName = true := by decide
  exact Tag.read?_escaped tag 'e' "lement".toList htag (by decide)
    (List.all_eq_true.mp hattribute) hk behind

/-- A marked tag is read with its mark, whatever attributes follow; one that the text ends in is not
read at all. -/
theorem readAll_markedTag {c : Char} {name k : List Char} (hc : isAsciiLetter c = true)
    (hname : ∀ d ∈ name, ComponentSource.isTagNameChar d = true) (hk : '\x00' ∉ k)
    (behind : List Char) :
    readAll ('<' :: markedTag (c :: name) k behind) = [] ∨
      ∃ t after, readAll ('<' :: markedTag (c :: name) k behind) = .start t :: after ∧
        Table.get? rootAttribute t.attributes = some (String.ofList k) := by
  have hmark := read?_markedTag (inTagName_tag hc hname) hk behind
  rcases readAll_letter hc (name ++ _) with ⟨-, hnone⟩ | ⟨t, rest, after, hread, hsome⟩
  · exact .inl hnone
  · have hsound : Document.NamesUnique t.attributes := sound_read hread
    have hmem : (rootAttribute, String.ofList k) ∈ t.attributes :=
      Tag.mem_readFrom? List.mem_cons_self (hmark.symm.trans hread)
    exact .inr ⟨t, after, hsome, Table.get?_of_mem hsound hmem⟩

end Piece

/-! ## The first element -/

namespace Document

variable {d d' d'' : Document} {stack : List OpenElement} {p : NodeId} {e : Element}
  {kind : NodeKind}

/-- What stands at the top of a document stands there in another, as it is, before anything else. -/
structure Leads (d d' : Document) : Prop where
  top : d.children root <+: d'.children root
  same : ∀ x ∈ d.children root, d'.element? x = d.element? x

theorem Leads.refl (d : Document) : Leads d d := ⟨List.prefix_refl _, fun _ _ => rfl⟩

theorem Leads.trans (h : Leads d d') (h' : Leads d' d'') : Leads d d'' where
  top := h.top.trans h'.top
  same := fun x hx => (h'.same x (h.top.subset hx)).trans (h.same x hx)

theorem Leads.firstElementChild? (h : Leads d d') {x : NodeId}
    (hx : d.firstElementChild? root = some x) :
    d'.firstElementChild? root = some x ∧ d'.element? x = d.element? x := by
  have hmem := List.mem_of_find?_eq_some hx
  refine ⟨?_, h.same x hmem⟩
  obtain ⟨more, hmore⟩ := h.top
  have hfound : (d.children root).find? (fun child => (d'.element? child).isSome) = some x := by
    rw [← List.head?_filter, List.filter_congr fun child hchild => by rw [h.same child hchild],
      List.head?_filter]
    exact hx
  rw [Document.firstElementChild?, ← hmore, List.find?_append, hfound]
  rfl

namespace Growing

/-- A new node at the end of an element leaves what stands at the top, and may be the last there. -/
theorem addNode_top (h : Growing d stack) (hp : d.element? p = some e)
    (hnames : ∀ e, kind = .element e → NamesUnique e.attributes) :
    Leads d ((d.alloc kind).2.attach p (d.alloc kind).1) ∧
      ((d.alloc kind).2.attach p (d.alloc kind).1).children root =
        if p = root then d.children root ++ [(d.alloc kind).1] else d.children root := by
  obtain ⟨-, -, hsame⟩ := h.wellFormed.grow hp hnames
  have hchildren : ((d.alloc kind).2.attach p (d.alloc kind).1).children root =
      if p = root then d.children root ++ [(d.alloc kind).1] else d.children root := by
    have hlive : ((d.alloc kind).2.node? p).isSome := by
      obtain ⟨n, hn, -⟩ := exists_node_of_kind? (element?_eq_some_iff.mp hp)
      obtain ⟨hvacant, hnode⟩ := node?_alloc h.wellFormed.accounted kind
      have hne : p ≠ (d.alloc kind).1 := by
        rintro rfl
        rw [hvacant] at hn
        cases hn
      rw [hnode, if_neg hne, hn]
      rfl
    rw [children_attach hlive, children_alloc h.wellFormed.accounted,
      children_alloc h.wellFormed.accounted]
    by_cases hroot : p = root
    · rw [if_pos hroot, if_pos hroot.symm, hroot]
    · rw [if_neg hroot, if_neg (Ne.symm hroot)]
  refine ⟨⟨?_, fun x hx => ?_⟩, hchildren⟩
  · rw [hchildren]
    split
    · exact List.prefix_append _ _
    · exact List.prefix_refl _
  · have hlive := h.wellFormed.treelike.live_of_mem_children hx
    rw [element?, hsame x hlive, element?]

/-- A text in the place of another changes no element. -/
theorem addText_leads (h : Growing d stack) (hp : d.element? p = some e) (s : String) :
    Leads d (d.addText p s) ∧ ∀ x ∈ (d.addText p s).children root,
      x ∈ d.children root ∨ (d.addText p s).element? x = none := by
  unfold Document.addText
  dsimp only
  split
  · next id before hlast hbefore =>
      have hid : d.text? id = some before := by simpa [hlast] using hbefore
      have hchildren : (d.modify id fun n => { n with kind := .text (before ++ s) }).children root =
          d.children root := children_modify fun _ => rfl
      refine ⟨⟨?_, fun x _ => ?_⟩, fun x hx => .inl (hchildren ▸ hx)⟩
      · rw [hchildren]
      · by_cases hx : x = id
        · obtain ⟨n, hn, hkind⟩ := exists_node_of_kind? (text?_eq_some_iff.mp hid)
          simp [element?, kind?, hx, hn, hkind]
        · rw [element?, kind?, node?_modify, if_neg hx]
          rfl
  · have hnames : ∀ e, NodeKind.text s = .element e → NamesUnique e.attributes := by
      rintro _ ⟨⟩
    obtain ⟨hleads, hchildren⟩ := h.addNode_top hp hnames
    obtain ⟨-, hnew, -⟩ := h.wellFormed.grow hp hnames
    refine ⟨hleads, fun x hx => ?_⟩
    replace hx : x ∈ ((d.alloc (.text s)).2.attach p (d.alloc (.text s)).1).children root := hx
    rw [hchildren] at hx
    split at hx
    · rcases List.mem_append.mp hx with hx | hx
      · exact .inl hx
      · obtain rfl := List.mem_singleton.mp hx
        right
        show Document.element? ((d.alloc (.text s)).2.attach p (d.alloc (.text s)).1) _ = none
        rw [element?, hnew]
    · exact .inl hx

theorem addPiece_leads (h : Growing d stack) {piece : Piece} (hpiece : piece.Sound) :
    Leads d (Document.addPiece (d, stack) piece).1 := by
  obtain ⟨e, hcurrent⟩ := h.current
  cases piece with
  | text s => exact (h.addText_leads hcurrent s).1
  | close name => exact .refl d
  | start t =>
      have hnames : ∀ e, NodeKind.element (.ofTag t.name t.attributes) = .element e →
          NamesUnique e.attributes := by
        rintro _ ⟨⟩
        exact hpiece
      exact (h.addNode_top hcurrent hnames).1

theorem foldl_leads (h : Growing d stack) {pieces : List Piece} (hpieces : ∀ p ∈ pieces, p.Sound) :
    Leads d (pieces.foldl Document.addPiece (d, stack)).1 := by
  induction pieces generalizing d stack with
  | nil => exact .refl d
  | cons first rest ih =>
      have hfirst := hpieces first List.mem_cons_self
      exact (h.addPiece_leads hfirst).trans
        (ih (h.addPiece hfirst) fun p hp => hpieces p (List.mem_cons_of_mem _ hp))

end Growing

/-- Pieces without a start tag open nothing and add no element. -/
theorem foldl_startFree (h : Growing d []) {pieces : List Piece} (hpieces : Piece.StartFree pieces)
    (hd : ∀ x ∈ d.children root, d.element? x = none) :
    ∃ d', pieces.foldl Document.addPiece (d, []) = (d', []) ∧ Growing d' [] ∧
      ∀ x ∈ d'.children root, d'.element? x = none := by
  induction pieces generalizing d with
  | nil => exact ⟨d, rfl, h, hd⟩
  | cons first rest ih =>
      have hrest : Piece.StartFree rest := fun t ht => hpieces t (List.mem_cons_of_mem _ ht)
      cases first with
      | start t => exact absurd List.mem_cons_self (hpieces t)
      | close name => exact ih h hrest hd
      | text s =>
          obtain ⟨hleads, hadded⟩ := h.addText_leads h.root_bare s
          have hnone : ∀ x ∈ (d.addText root s).children root,
              (d.addText root s).element? x = none := by
            intro x hx
            rcases hadded x hx with hx | hx
            · rw [hleads.same x hx, hd x hx]
            · exact hx
          exact ih (h.addText h.root_bare s) hrest hnone

/-- The first start tag makes the first element: the node that comes next. -/
theorem firstElementChild?_foldl_start (h : Growing d [])
    (hd : ∀ x ∈ d.children root, d.element? x = none) {t : Tag} {after : List Piece}
    (hsound : ∀ p ∈ .start t :: after, p.Sound) :
    ((.start t :: after).foldl addPiece (d, [])).1.firstElementChild? root =
        some (d.alloc (.element (.ofTag t.name t.attributes))).1 ∧
      ((.start t :: after).foldl addPiece (d, [])).1.element?
        (d.alloc (.element (.ofTag t.name t.attributes))).1 =
          some (.ofTag t.name t.attributes) := by
  have ht : Piece.Sound (.start t) := hsound _ List.mem_cons_self
  have hnames : ∀ e, NodeKind.element (.ofTag t.name t.attributes) = .element e →
      NamesUnique e.attributes := by
    rintro _ ⟨⟩
    exact ht
  obtain ⟨hleads, hchildren⟩ := h.addNode_top h.root_bare hnames
  obtain ⟨-, hnew, -⟩ := h.wellFormed.grow h.root_bare hnames
  have helement := element?_eq_some_iff.mpr hnew
  have hfirst : (addPiece (d, []) (.start t)).1.firstElementChild? root =
      some (d.alloc (.element (.ofTag t.name t.attributes))).1 := by
    have hold : (d.children root).find? (fun child =>
        ((addPiece (d, []) (.start t)).1.element? child).isSome) = none := by
      rw [List.find?_eq_none]
      intro x hx
      rw [show (addPiece (d, []) (.start t)).1.element? x = none from
        (hleads.same x hx).trans (hd x hx)]
      simp
    rw [firstElementChild?, show (addPiece (d, []) (.start t)).1.children root = _ from hchildren,
      if_pos rfl, List.find?_append, hold, Option.none_or, List.find?_singleton,
      show (addPiece (d, []) (.start t)).1.element? _ = _ from helement]
    rfl
  have hafter := (h.addPiece ht).foldl_leads fun p hp => hsound p (List.mem_cons_of_mem _ hp)
  obtain ⟨hkept, hsame⟩ := hafter.firstElementChild? hfirst
  exact ⟨hkept, hsame.trans helement⟩

theorem exists_firstElementChild? {before after : List Piece} {t : Tag}
    (hsound : ∀ p ∈ before ++ .start t :: after, p.Sound) (hbefore : Piece.StartFree before) :
    ∃ x, ((before ++ .start t :: after).foldl addPiece (empty, [])).1.firstElementChild? root =
        some x ∧
      ((before ++ .start t :: after).foldl addPiece (empty, [])).1.element? x =
        some (.ofTag t.name t.attributes) := by
  obtain ⟨d, hd, hgrowing, hnone⟩ := foldl_startFree growing_empty hbefore (by decide +kernel)
  rw [List.foldl_append, hd]
  exact ⟨_, firstElementChild?_foldl_start hgrowing hnone fun p hp =>
    hsound p (List.mem_append_right _ hp)⟩

/-- Without a start tag there is no element. -/
theorem firstElementChild?_startFree {pieces : List Piece} (h : Piece.StartFree pieces) :
    (pieces.foldl addPiece (empty, [])).1.firstElementChild? root = none := by
  obtain ⟨d, hd, -, hnone⟩ := foldl_startFree growing_empty h (by decide +kernel)
  rw [hd, firstElementChild?, List.find?_eq_none]
  intro x hx
  rw [hnone x hx]
  simp

/-- Behind settled text, the first tag of a page makes its first element; a tag that is marked gives
it the mark. -/
theorem attribute?_firstElementChild?_parse {before behind k name : List Char} {c : Char}
    {markup : String} (hbefore : Piece.Settled (Piece.unifyLineEnds before))
    (hc : isAsciiLetter c = true) (hname : ∀ d ∈ name, ComponentSource.isTagNameChar d = true)
    (hnull : '\x00' ∉ k) (hreturn : '\r' ∉ k)
    (hmarkup : markup.toList = before ++ '<' :: Piece.markedTag (c :: name) k behind) {x : NodeId}
    (hx : (parse markup).firstElementChild? root = some x) :
    (parse markup).attribute? x rootAttribute = some (String.ofList k) := by
  have htag : '\r' ∉ c :: name := Piece.not_mem_tag hc hname (by decide)
  have hpieces : ∃ pieces, Piece.StartFree pieces ∧ Piece.ofMarkup markup = pieces ++
      Piece.readAll ('<' :: Piece.markedTag (c :: name) k (Piece.unifyLineEnds behind)) := by
    obtain ⟨pieces, hfree, hread⟩ := hbefore.exists_ofMarkup
    rw [Piece.markedTag_append] at hmarkup ⊢
    exact ⟨pieces, hfree, hread _ _ _ _ hc (Piece.return_not_mem_markedTag htag hreturn) hmarkup⟩
  obtain ⟨pieces, hfree, hread⟩ := hpieces
  have hparse : parse markup = ((Piece.ofMarkup markup).foldl addPiece (empty, [])).1 := rfl
  rw [hparse] at hx ⊢
  rcases Piece.readAll_markedTag hc hname hnull (Piece.unifyLineEnds behind) with
    hnone | ⟨t, after, hsome, hmark⟩
  · rw [hread, hnone, List.append_nil, firstElementChild?_startFree hfree] at hx
    cases hx
  · rw [hsome] at hread
    have hsound : ∀ p ∈ pieces ++ .start t :: after, p.Sound := by
      rw [← hread]
      exact fun p hp => Piece.sound_of_mem_readAll hp
    obtain ⟨y, hy, helement⟩ := exists_firstElementChild? hsound hfree
    rw [← hread] at hy helement
    obtain rfl := Option.some.inj (hy.symm.trans hx)
    rw [attribute?, helement]
    exact hmark

/-- Settled text alone makes no element. -/
theorem firstElementChild?_parse_settled {markup : String}
    (h : Piece.Settled (Piece.unifyLineEnds markup.toList)) :
    (parse markup).firstElementChild? root = none :=
  firstElementChild?_startFree h.startFree_readAll

end Document

end LiveMarkup
