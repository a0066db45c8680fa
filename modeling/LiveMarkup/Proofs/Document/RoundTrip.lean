import LiveMarkup.Proofs.Document.Attributes
import LiveMarkup.Proofs.Document.Written
set_option autoImplicit false

/-! # Markup of a tree is read as the tree

Reading the pieces of plain trees adds, behind the children of the innermost open element, trees
that are alike, and leaves open what was open (`ReadsAs`, `readsAs_pieces`): a start tag opens its
element on top of all others, what is below it goes there, and its end tag finds it on top again,
even if elements of the same name are open further out. So the document that is read from the markup
of plain trees under a root has the trees that were written (`deepEqual_parse_innerMarkup`). -/

namespace LiveMarkup.Document

variable {d : Document} {parent : Option NodeId} {p id top : NodeId} {before : List NodeId}
  {f below : Forest} {kind : NodeKind} {e : Element}

/-! ## Adding nodes at the end -/

/-- The node that pieces are added to. -/
def current (stack : List OpenElement) : NodeId := (stack.head?.map OpenElement.id).getD root

/-- No text stands last, so that a text that is added does not go on with it. -/
def EndsWithoutText (d : Document) (nodes : List NodeId) : Prop :=
  ∀ x, nodes.getLast? = some x → d.text? x = none

theorem endsWithoutText_concat (h : d.kind? id = some (.element e)) :
    d.EndsWithoutText (before ++ [id]) := by
  intro x hx
  obtain rfl : id = x := by simpa using hx
  rw [text?, h]

theorem addText_of_endsWithoutText (h : d.EndsWithoutText (d.children p)) (s : String) :
    d.addText p s = (d.alloc (.text s)).2.attach p (d.alloc (.text s)).1 := by
  unfold addText
  dsimp only
  split
  · next x content hlast hcontent =>
      rw [hlast, Option.bind_some, h x hlast] at hcontent
      cases hcontent
  · rfl

/-! ## Reading trees -/

theorem closeElement_top (name : String) (id : NodeId) (stack : List OpenElement) :
    closeElement name (⟨name, id⟩ :: stack) = stack := by
  simp [closeElement]

/-- What it takes to read some pieces as trees: behind the children of the innermost open element
there are then trees that are alike, and what was open is open. -/
def ReadsAs (pieces : List Piece) (f : Forest) : Prop :=
  ∀ (d : Document) (stack : List OpenElement) (before : List NodeId),
    d.Placed (some (current stack)) before [] .nil →
      (f.opensWithText = true → d.EndsWithoutText before) →
        ∃ d' g, pieces.foldl addPiece (d, stack) = (d', stack) ∧
          Replaces d d' (some (current stack)) before [] .nil g ∧ g.Alike f

/-- The tags of an element around pieces that are read as what is below it. -/
theorem readsAs_element {inside : List Piece} (he : e.Plain)
    (hvoid : isVoid e.tag = true → below = .nil) (hinside : ReadsAs inside below) (id : NodeId) :
    ReadsAs (e.pieces inside) (.tree id (.element e) below) := by
  intro d stack before h _
  have hnames := he.sorted.namesUnique
  have halike : NodeKind.alike (.element (.ofTag e.tag e.attributes)) (.element e) = true :=
    alike_of_get? rfl hnames hnames fun _ => rfl
  have hfirst : Replaces d _ (some (current stack)) before [] .nil
      (.tree _ (.element (.ofTag e.tag e.attributes)) .nil) :=
    h.replaces_attach (by rintro _ ⟨⟩; exact hnames)
  rw [Element.pieces]
  by_cases hv : isVoid e.tag = true
  · obtain rfl := hvoid hv
    refine ⟨_, _, ?_, hfirst, halike, trivial, trivial⟩
    rw [if_pos hv, List.foldl_cons, List.foldl_nil]
    simp [addPiece, hv, current]
  · -- the element is open on top of the others until its end tag comes
    obtain ⟨d', g, hfold, hedit, hg⟩ := hinside _
      (⟨e.tag, (d.alloc (.element (.ofTag e.tag e.attributes))).1⟩ :: stack) []
      hfirst.placed.descend fun _ _ hx => by cases hx
    refine ⟨d', _, ?_, Replaces.trans h hfirst (hedit.inside hfirst.placed ?_), halike, hg, trivial⟩
    · have hopen : addPiece (d, stack) (.start ⟨e.tag, e.attributes, false⟩) =
          ((d.alloc (.element (.ofTag e.tag e.attributes))).2.attach (current stack)
            (d.alloc (.element (.ofTag e.tag e.attributes))).1,
            ⟨e.tag, (d.alloc (.element (.ofTag e.tag e.attributes))).1⟩ :: stack) := by
        simp [addPiece, hv, current]
      rw [if_neg hv, List.foldl_cons, hopen, List.foldl_append, hfold, List.foldl_cons,
        List.foldl_nil, addPiece, closeElement_top]
    · rintro s ⟨⟩

/-- Trees in front of others. -/
theorem ReadsAs.followedBy {first rest : List Piece} {next : Forest}
    (hfirst : ReadsAs first (.tree id kind below)) (hrest : ReadsAs rest next)
    (hapart : next.opensWithText = true → ∃ e, kind = .element e) :
    ReadsAs (first ++ rest) (.cons id kind below next) := by
  intro d stack before h hlast
  obtain ⟨d₁, g, hfold, hedit, halike⟩ := hfirst d stack before h (by
    intro htext
    cases kind with
    | text s => exact hlast rfl
    | element e => cases htext)
  cases g with
  | nil => exact halike.elim
  | cons id' kind' below' next' =>
  obtain ⟨hkind, hbelow, hnil⟩ := halike
  cases next' with
  | cons => exact hnil.elim
  | nil =>
  obtain ⟨d₂, g, hfold', hedit', halike⟩ := hrest d₁ stack _ (h.behind hedit) (by
    intro htext
    obtain ⟨e, rfl⟩ := hapart htext
    cases kind' with
    | text s => cases hkind
    | element e' => exact endsWithoutText_concat (kind?_eq hedit.placed.holds.1))
  refine ⟨d₂, .cons id' kind' below' g, ?_, h.replaces_cons hedit hedit', hkind, hbelow, halike⟩
  rw [List.foldl_append, hfold, hfold']

/-- A text is a node of its own where no text stands before it. -/
theorem readsAs_text (s : String) (id : NodeId) :
    ReadsAs [.text s] (.tree id (.text s) .nil) := by
  intro d stack before h hlast
  have hedit : Replaces d _ (some (current stack)) before [] .nil (.tree _ (.text s) .nil) :=
    h.replaces_attach (by rintro _ ⟨⟩)
  refine ⟨_, _, ?_, hedit, by simp [NodeKind.alike], trivial, trivial⟩
  have hchildren : d.children (current stack) = before := by
    obtain ⟨-, n, hn, hchildren⟩ := h.above _ rfl
    rw [children_eq hn, hchildren]
    simp [Forest.roots]
  have hadd := addText_of_endsWithoutText (hchildren.symm ▸ hlast rfl) s
  rw [List.foldl_cons, List.foldl_nil]
  exact congrArg (·, stack) hadd

/-- The pieces of plain trees are read as the trees. -/
theorem readsAs_pieces (hf : f.Plain) : ReadsAs f.pieces f := by
  induction f with
  | nil => exact fun d stack before h _ => ⟨d, .nil, rfl, Replaces.refl h, trivial⟩
  | cons id kind below next ihb ihn =>
      cases kind with
      | text s =>
          obtain ⟨-, -, rfl, hnext, hf⟩ := hf
          refine (readsAs_text s id).followedBy (ihn hf) fun htext => ?_
          rw [hnext] at htext
          cases htext
      | element e =>
          obtain ⟨he, hvoid, hbelow, hf⟩ := hf
          exact (readsAs_element he hvoid (ihb hbelow) id).followedBy (ihn hf) fun _ => ⟨e, rfl⟩

/-! ## Reading a document -/

/-- A document that was just made holds its root only. -/
theorem placed_empty :
    Document.empty.Placed none [] [] (.tree root (.element (.ofTag rootTag [])) .nil) := by
  have haccounted : (⟨#[], [], #[]⟩ : Document).SlotsAccounted := ⟨List.nodup_nil, by simp⟩
  have hroot : Replaces ⟨#[], [], #[]⟩ Document.empty none [] [] .nil
      (.tree root (.element (.ofTag rootTag [])) .nil) :=
    haccounted.replaces_alloc (by rintro _ ⟨⟩; exact List.nodup_nil)
  exact hroot.placed

/-- The markup of plain trees is read as a document that holds such trees under its root. -/
theorem exists_holds_parse {markup : String} (hf : f.Plain) (hmarkup : markup.toList = f.markup) :
    ∃ g, (parse markup).Holds none (.tree root (.element (.ofTag rootTag [])) g) ∧
      (Forest.tree root (.element (.ofTag rootTag [])) g).ids.Nodup ∧ g.Alike f := by
  obtain ⟨d, g, hfold, hedit, halike⟩ := readsAs_pieces hf Document.empty [] []
    placed_empty.descend fun _ _ hx => by cases hx
  have hparse : parse markup = d := by
    rw [parse, Piece.ofMarkup_markup hf hmarkup, hfold]
  have hplaced := (Replaces.inside placed_empty hedit (by rintro s ⟨⟩)).placed
  exact ⟨g, hparse ▸ hplaced.holds, hplaced.nodup, halike⟩

/-! ## Plain documents -/

/-- No two texts stand side by side below a node. -/
def TextsApart (d : Document) (x : NodeId) : Prop :=
  (d.children x).IsChain fun a b => d.text? a = none ∨ d.text? b = none

/-- What a node is like that its markup tells in full. -/
def PlainAt (d : Document) (x : NodeId) : Prop :=
  (∀ s ∈ d.text? x, s ≠ "" ∧ isPlainText s = true) ∧
    ∀ e ∈ d.element? x, e.Plain ∧ (isVoid e.tag = true → d.children x = []) ∧ d.TextsApart x

/-- Everything under a node, the node apart, is plain. -/
structure PlainBelow (d : Document) (top : NodeId) : Prop where
  apart : d.TextsApart top
  nodes : ∀ x, d.Under x top → x ≠ top → d.PlainAt x

instance (d : Document) (x : NodeId) : Decidable (d.TextsApart x) :=
  inferInstanceAs (Decidable (List.IsChain _ _))

instance (d : Document) (x : NodeId) : Decidable (d.PlainAt x) :=
  inferInstanceAs (Decidable (_ ∧ _))

/-- Only slots that are in use need a look. -/
theorem plainBelow_of_slots (hapart : d.TextsApart top)
    (hnodes : ∀ x < d.slots.size, x ≠ top → d.PlainAt x) : d.PlainBelow top := by
  refine ⟨hapart, fun x _ hx => ?_⟩
  by_cases hlt : x < d.slots.size
  · exact hnodes x hlt hx
  · have hvacant : d.kind? x = none := by
      simp [kind?, node?, Array.getElem?_eq_none (Nat.le_of_not_lt hlt)]
    simp [PlainAt, text?, element?, hvacant]

theorem Holds.plain (h : d.Holds parent f) (hsound : f.Sound)
    (hnodes : ∀ x ∈ f.ids, d.PlainAt x)
    (hapart : f.roots.IsChain fun a b => d.text? a = none ∨ d.text? b = none) : f.Plain := by
  induction f generalizing parent with
  | nil => trivial
  | cons id kind below next ihb ihn =>
      obtain ⟨hid, hbelow, hnext⟩ := h
      obtain ⟨htext, -, hsb, hsn⟩ := hsound
      obtain ⟨hatText, hatElement⟩ : d.PlainAt id := hnodes id List.mem_cons_self
      have hplainNext : next.Plain :=
        ihn hnext hsn (fun x hx => hnodes x (by simp [Forest.ids, hx])) hapart.of_cons
      cases kind with
      | text s =>
          obtain ⟨hempty, hs⟩ := hatText s (text?_eq_some_iff.mpr (kind?_eq hid))
          refine ⟨hempty, hs, htext s rfl, ?_, hplainNext⟩
          cases next with
          | nil => rfl
          | cons id' kind' below' next' =>
              cases kind' with
              | element e => rfl
              | text s' =>
                  rcases (List.isChain_cons_cons.mp hapart).1 with h | h
                  · simp [text?, kind?_eq hid] at h
                  · simp [text?, kind?_eq hnext.1] at h
      | element e =>
          obtain ⟨he, hvoid, hchildren⟩ := hatElement e (element?_eq_some_iff.mpr (kind?_eq hid))
          rw [TextsApart, children_eq hid] at hchildren
          refine ⟨he, fun hv => ?_, ?_, hplainNext⟩
          · have hnone := hvoid hv
            rw [children_eq hid] at hnone
            cases below with
            | nil => rfl
            | cons => cases hnone
          · exact ihb hbelow hsb (fun x hx => hnodes x (by simp [Forest.ids, hx])) hchildren

/-- The forest below a node of a well-formed document is plain if what is under the node is. -/
theorem WellFormed.exists_plain_tree (hd : d.WellFormed) (htop : d.element? top = some e)
    (hplain : d.PlainBelow top) :
    ∃ f, d.Holds (d.parent? top) (.tree top (.element e) f) ∧
      (Forest.tree top (.element e) f).ids.Nodup ∧ f.Plain := by
  obtain ⟨n, hn, hkind⟩ := exists_node_of_kind? (element?_eq_some_iff.mp htop)
  obtain ⟨f, hholds, hnodup, hsound⟩ := hd.exists_tree hn
  rw [hkind] at hholds hnodup hsound
  refine ⟨f, hholds, hnodup, ?_⟩
  have hnot : top ∉ f.ids := by simpa [Forest.ids] using (List.nodup_cons.mp hnodup).1
  have hunder : ∀ x ∈ f.ids, d.Under x top := by
    intro x hx
    obtain ⟨r, hr, hxr⟩ := hholds.2.1.under_root hx
    exact hxr.tail (hholds.2.1.parent?_of_mem_roots hr)
  have hapart := hplain.apart
  rw [TextsApart, children_eq hholds.1] at hapart
  refine hholds.2.1.plain hsound.2.2.1 (fun x hx => ?_) hapart
  exact hplain.nodes x (hunder x hx) fun heq => hnot (heq ▸ hx)

/-- Under a bare root, plain trees are read from their markup as they are. -/
theorem deepEqual_parse_innerMarkup (hd : d.WellFormed) (htop : d.element? top = some e)
    (htag : e.tag = rootTag) (hbare : e.attributes = []) (hplain : d.PlainBelow top) :
    (parse (d.innerMarkup top)).deepEqual root d top = true := by
  obtain ⟨f, hholds, hnodup, hf⟩ := hd.exists_plain_tree htop hplain
  have hstructured : e.tag ∉ textElements := by
    rw [htag]
    decide
  obtain ⟨g, hread, hreadNodup, halike⟩ :=
    exists_holds_parse hf (hholds.toList_innerMarkup hnodup hf hstructured)
  have hroot : NodeKind.alike (.element (.ofTag rootTag [])) (.element e) = true := by
    simp [NodeKind.alike, Element.ofTag, htag, hbare]
  rw [hread.deepEqual_iff hreadNodup hholds]
  exact ⟨hroot, halike, trivial⟩

/-- Lists in lists and void elements between texts that look like markup and references. -/
def outline : Document where
  slots := #[
    some ⟨.element (.ofTag rootTag []), none, [1, 2]⟩,
    some ⟨.text "1 < 2 & \"3\" > '0' &lt;", some 0, []⟩,
    some ⟨.element (.ofTag "ul" [("id", "&amp;\">"), ("title", "</ul>")]), some 0, [3, 4]⟩,
    some ⟨.element (.ofTag "li" []), some 2, [5, 6, 7, 8]⟩,
    some ⟨.element (.ofTag "li" []), some 2, []⟩,
    some ⟨.element (.ofTag "img" [("alt", ""), ("src", "/?a=b&copy=1")]), some 3, []⟩,
    some ⟨.element (.ofTag "br" []), some 3, []⟩,
    some ⟨.text "</li><!-- &amp;amp; -->", some 3, []⟩,
    some ⟨.element (.ofTag "ul" []), some 3, [9]⟩,
    some ⟨.element (.ofTag "x-li2" []), some 8, []⟩]
  free := []
  log := #[]

theorem deepEqual_parse_outline :
    outline.innerMarkup root = "1 &lt; 2 &amp; \"3\" &gt; '0' &amp;lt;" ++
      "<ul id=\"&amp;amp;&quot;>\" title=\"</ul>\">" ++
      "<li><img alt=\"\" src=\"/?a=b&amp;copy=1\"><br>&lt;/li&gt;&lt;!-- &amp;amp;amp; --&gt;" ++
      "<ul><x-li2></x-li2></ul></li><li></li></ul>" ∧
    outline.WellFormed ∧ outline.element? root = some (.ofTag rootTag []) ∧
      outline.PlainBelow root ∧
      (parse (outline.innerMarkup root)).deepEqual root outline root = true := by
  have hwell : outline.WellFormed := wellFormed_of_isOrdered (by decide +kernel)
  have hroot : outline.element? root = some (.ofTag rootTag []) := by decide +kernel
  have hplain : outline.PlainBelow root :=
    plainBelow_of_slots (by decide +kernel) (by decide +kernel)
  exact ⟨by decide +kernel, hwell, hroot, hplain,
    deepEqual_parse_innerMarkup hwell hroot rfl rfl hplain⟩

end LiveMarkup.Document
