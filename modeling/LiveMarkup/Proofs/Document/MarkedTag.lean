import LiveMarkup.Proofs.Document.Attributes
import LiveMarkup.Proofs.Document.FirstElement
set_option autoImplicit false

/-! # Pages that differ in a mark

A tag that is given one more attribute in front of its others is read as before, with that attribute
in the place of one of the same name (`Tag.override`). What follows the tag is read as before too,
so the documents differ in one element and in nothing else about it (`Document.Touches`): they grow
by the same steps into the same slots.

Behind settled text, the mark of a tag therefore changes nothing but an attribute of the first
element, if the tag is finished and its name ends where the mark stands; and only then
(`Document.markedFirst_parse_iff`). -/

namespace LiveMarkup

open Text

/-! ## Attributes in the place of others -/

namespace Tag

variable {name value name' value' : String} {attributes : List (String × String)}

/-- Attributes with one that counts before any other of its name. -/
def override (name value : String) (attributes : List (String × String)) :
    List (String × String) :=
  place name value (attributes.filter fun a => a.1 != name)

theorem override_nil (name value : String) : override name value [] = [(name, value)] := rfl

theorem Sorted.not_mem_keys_tail {first : String × String} (h : Sorted (first :: attributes))
    (hname : name ≤ first.1) : name ∉ Table.keys attributes := by
  intro hmem
  obtain ⟨a, ha, rfl⟩ := List.mem_map.mp hmem
  exact absurd ((List.pairwise_cons.mp h).1 a ha) (not_lt.mpr hname)

theorem mem_place_iff (h : Sorted attributes) {a : String × String} :
    a ∈ place name value attributes ↔
      a ∈ attributes ∨ a = (name, value) ∧ name ∉ Table.keys attributes := by
  induction attributes with
  | nil => simp [place, Table.keys]
  | cons first rest ih =>
      have hkeys : name ∈ Table.keys (first :: rest) ↔ name = first.1 ∨ name ∈ Table.keys rest :=
        List.mem_cons
      unfold place
      split
      · next heq => exact (or_iff_left fun hnew => hnew.2 (hkeys.mpr (.inl heq.symm))).symm
      · next hne =>
          split
          · next hlt =>
              have hnew : name ∉ Table.keys (first :: rest) := fun hmem =>
                (hkeys.mp hmem).elim (Ne.symm hne) (h.not_mem_keys_tail hlt.le)
              rw [List.mem_cons, and_iff_left hnew]
              exact or_comm
          · have hsame : name ∉ Table.keys (first :: rest) ↔ name ∉ Table.keys rest := by
              rw [hkeys, or_iff_right (Ne.symm hne)]
            rw [List.mem_cons, List.mem_cons, ih (List.pairwise_cons.mp h).2, hsame]
            exact or_assoc.symm

theorem Sorted.filter (h : Sorted attributes) (p : String × String → Bool) :
    Sorted (attributes.filter p) := List.Pairwise.filter p h

theorem Sorted.override (h : Sorted attributes) (name value : String) :
    Sorted (override name value attributes) :=
  (h.filter _).place name value

theorem mem_override_iff (h : Sorted attributes) {a : String × String} :
    a ∈ override name value attributes ↔ a = (name, value) ∨ a ∈ attributes ∧ a.1 ≠ name := by
  have habsent : name ∉ Table.keys (attributes.filter fun a => a.1 != name) := by
    simp [Table.keys]
  rw [Tag.override, mem_place_iff (h.filter _)]
  simp only [List.mem_filter, bne_iff_ne, habsent, not_false_eq_true, and_true]
  exact or_comm

theorem mem_keys_override (h : Sorted attributes) :
    name' ∈ Table.keys (override name value attributes) ↔
      name' = name ∨ name' ∈ Table.keys attributes := by
  simp only [Table.keys, List.mem_map, mem_override_iff h]
  grind

/-- An attribute may be placed before or after another is overridden. -/
theorem override_place (h : Sorted attributes) :
    override name value (place name' value' attributes) =
      place name' value' (override name value attributes) := by
  refine List.Pairwise.eq_of_mem_iff ((h.place _ _).override name value)
    ((h.override name value).place name' value') fun a => ?_
  rw [mem_override_iff (h.place _ _), mem_place_iff h, mem_place_iff (h.override _ _),
    mem_override_iff h, mem_keys_override h]
  grind

/-- A tag is read in the same way whatever attribute stands in front of its others. -/
theorem readFrom?_override (h : Sorted attributes) (tag : String) (s : List Char) :
    readFrom? tag (override name value attributes) s =
      (readFrom? tag attributes s).map fun (t, rest) =>
        ({ t with attributes := override name value t.attributes }, rest) := by
  fun_induction readFrom? tag attributes s with
  | case1 => rw [readFrom?]; rfl
  | case2 => rw [readFrom?.eq_def]; rfl
  | case3 => rw [readFrom?.eq_def]; rfl
  | case4 attributes s hangle hslash ih =>
      rw [← ih h, readFrom?.eq_def]
      dsimp only
      rw [if_neg hslash, if_pos rfl]
      split
      · next heq => exact absurd rfl (hangle _)
      · rfl
  | case5 attributes c s hangle hslash hgap ih =>
      rw [← ih h, readFrom?.eq_def]
      dsimp only
      rw [if_neg hangle, if_neg hslash, if_pos hgap]
  | case6 attributes c s hangle hslash hgap hnone =>
      rw [readFrom?.eq_def]
      dsimp only
      rw [if_neg hangle, if_neg hslash, if_neg hgap]
      split
      · rfl
      · next hsome => rw [hnone] at hsome; cases hsome
  | case7 attributes c s hangle hslash hgap a rest ha _ ih =>
      have hc : endsName c = false := by simp [endsName, hangle, hslash, hgap]
      rw [readFrom?_attribute hc ha, ← override_place h]
      exact ih (h.place a.1 a.2)

theorem name_of_readFrom? {tag : String} {s rest : List Char} {t : Tag}
    (h : readFrom? tag attributes s = some (t, rest)) : t.name = tag := by
  fun_induction readFrom? tag attributes s with
  | case1 => cases h
  | case2 => simp only [Option.some.injEq, Prod.mk.injEq] at h; rw [← h.1]
  | case3 => simp only [Option.some.injEq, Prod.mk.injEq] at h; rw [← h.1]
  | case4 _ _ _ _ ih => exact ih h
  | case5 _ _ _ _ _ _ ih => exact ih h
  | case6 => cases h
  | case7 _ _ _ _ _ _ _ _ _ _ ih => exact ih h

theorem name_of_read? {s rest : List Char} {t : Tag} (h : read? s = some (t, rest)) :
    t.name = nameOf (s.takeWhile inTagName) := name_of_readFrom? h

theorem length_nameOf (s : List Char) : (nameOf s).length = s.length := by
  simp [nameOf, shown]

/-- A tag that is finished, and whose name is `tag` and no more. -/
structure Whole (tag behind : List Char) : Prop where
  ends : behind.head?.any endsName = true
  finished : (read? (tag ++ behind)).isSome

theorem whole_of_finished {tag behind : List Char} (htag : ∀ d ∈ tag, inTagName d = true)
    (hfinished : (read? (tag ++ behind)).isSome) (hstop : behind.takeWhile inTagName = []) :
    Whole tag behind := by
  refine ⟨?_, hfinished⟩
  cases behind with
  | nil =>
      unfold read? at hfinished
      rw [List.dropWhile_append_of_pos htag, List.dropWhile_nil, readFrom?] at hfinished
      cases hfinished
  | cons d rest =>
      have hd : ¬ inTagName d = true := fun hd => by simp [hd] at hstop
      simpa [inTagName] using hd

end Tag

namespace Piece

variable {c : Char} {tag name k behind rest : List Char} {t : Tag}

/-- The mark counts as an attribute in front of the others. -/
theorem read?_markedTag_of_ends (htag : ∀ d ∈ tag, Tag.inTagName d = true)
    (hends : behind.head?.any Tag.endsName = true) (hk : '\x00' ∉ k) :
    Tag.read? (markedTag tag k behind) = (Tag.read? (tag ++ behind)).map fun (t, rest) =>
      ({ t with attributes := Tag.override rootAttribute (String.ofList k) t.attributes },
        rest) := by
  have hread : Tag.read? (tag ++ behind) = Tag.readFrom? (Tag.nameOf tag) [] behind := by
    cases behind with
    | nil => cases hends
    | cons d rest =>
        have hd : Tag.endsName d = true := hends
        have hstop : ¬ Tag.inTagName d = true := by simp [Tag.inTagName, hd]
        unfold Tag.read?
        rw [List.takeWhile_append_of_pos htag, List.dropWhile_append_of_pos htag,
          List.takeWhile_cons_of_neg hstop, List.dropWhile_cons_of_neg hstop, List.append_nil]
  rw [read?_markedTag htag hk, hread, ← Tag.readFrom?_override List.Pairwise.nil, Tag.override_nil]

/-- What an element holds does not depend on its attributes. -/
theorem withContent_attributes (t : Tag) (attributes : List (String × String)) (s : List Char) :
    withContent { t with attributes } s =
      (.start { t with attributes } :: (withContent t s).1.tail, (withContent t s).2) := by
  unfold withContent
  dsimp only
  split
  · rfl
  split
  · rfl
  split
  · rfl
  · rfl

theorem readAll_start (hc : isAsciiLetter c = true) {s : List Char}
    (h : Tag.read? (c :: s) = some (t, rest)) :
    readAll ('<' :: c :: s) =
      .start t :: ((withContent t rest).1.tail ++ readAll (withContent t rest).2) := by
  rw [readAll_of_read? hc h, withContent_attributes t t.attributes rest]
  rfl

/-- The mark changes nothing behind the tag. -/
theorem readAll_markedTag_of_whole (hc : isAsciiLetter c = true)
    (hname : ∀ d ∈ name, ComponentSource.isTagNameChar d = true) (hk : '\x00' ∉ k)
    (hwhole : Tag.Whole (c :: name) behind) :
    ∃ t after, readAll ('<' :: (c :: name ++ behind)) = .start t :: after ∧
      readAll ('<' :: markedTag (c :: name) k behind) =
        .start { t with attributes := Tag.override rootAttribute (String.ofList k) t.attributes } ::
          after := by
  obtain ⟨⟨t, rest⟩, hread⟩ := Option.isSome_iff_exists.mp hwhole.finished
  have hmarked := read?_markedTag_of_ends (inTagName_tag hc hname) hwhole.ends hk
  rw [hread, Option.map_some] at hmarked
  refine ⟨t, _, readAll_start hc hread, ?_⟩
  rw [markedTag] at hmarked ⊢
  exact (readAll_start hc hmarked).trans (by rw [withContent_attributes]; rfl)

end Piece

namespace Document

variable {d d' : Document} {stack : List OpenElement} {id x p : NodeId} {e e' : Element}

/-! ## Documents that differ in one element -/

/-- Which slot is taken does not depend on what is put there. -/
theorem alloc_congr (hfree : d'.free = d.free) (hsize : d'.slots.size = d.slots.size)
    (kind kind' : NodeKind) :
    (d'.alloc kind').1 = (d.alloc kind).1 ∧ (d'.alloc kind').2.free = (d.alloc kind).2.free ∧
      (d'.alloc kind').2.slots.size = (d.alloc kind).2.slots.size := by
  unfold alloc
  rw [hfree]
  cases d.free with
  | nil => simp [hsize]
  | cons first rest => simp [hsize]

theorem addPiece_start (d : Document) (stack : List OpenElement) (t : Tag) :
    addPiece (d, stack) (.start t) =
      ((d.alloc (.element (.ofTag t.name t.attributes))).2.attach
          ((stack.head?.map OpenElement.id).getD root)
          (d.alloc (.element (.ofTag t.name t.attributes))).1,
        if t.selfClosing || isVoid t.name then stack
        else ⟨t.name, (d.alloc (.element (.ofTag t.name t.attributes))).1⟩ :: stack) := rfl

/-- New nodes of two kinds make documents that differ in them. -/
theorem SlotsAccounted.touches_alloc (h : d.SlotsAccounted) (kind : NodeKind) (e' : Element) :
    Touches (d.alloc kind).2 (d.alloc (.element e')).2 (d.alloc kind).1 e' := by
  obtain ⟨hid, hfree, hsize⟩ := alloc_congr rfl rfl kind (.element e')
  refine ⟨fun y => ?_, hfree, hsize⟩
  rw [(node?_alloc h kind).2, (node?_alloc h (.element e')).2, hid]
  split <;> rfl

namespace Touches

theorem live (he : d.element? x = some e) : (d.node? x).isSome := by
  obtain ⟨n, hn, -⟩ := exists_node_of_element? he
  simp [hn]

theorem children (h : Touches d d' x e') (p : NodeId) : d'.children p = d.children p := by
  rw [Document.children, Document.children, h.node]
  split
  · rw [Option.map_map]
    rfl
  · rfl

theorem kind? (h : Touches d d' x e') (he : d.element? x = some e) (y : NodeId) :
    d'.kind? y = if y = x then some (.element e') else d.kind? y := by
  rw [Document.kind?, h.node]
  split
  · next heq =>
      obtain ⟨n, hn⟩ := Option.isSome_iff_exists.mp (live he)
      rw [heq, hn]
      rfl
  · rfl

theorem text? (h : Touches d d' x e') (he : d.element? x = some e) : d'.text? = d.text? := by
  funext y
  rw [Document.text?, Document.text?, h.kind? he]
  by_cases hy : y = x
  · rw [if_pos hy, hy, element?_eq_some_iff.mp he]
  · rw [if_neg hy]

theorem firstElementChild? (h : Touches d d' x e') (he : d.element? x = some e) (p : NodeId) :
    d'.firstElementChild? p = d.firstElementChild? p := by
  have hsame : ∀ y, (d'.element? y).isSome = (d.element? y).isSome := by
    intro y
    rw [Document.element?, Document.element?, h.kind? he]
    by_cases hy : y = x
    · rw [if_pos hy, hy, element?_eq_some_iff.mp he]
      rfl
    · rw [if_neg hy]
  simp only [Document.firstElementChild?, h.children, hsame]

theorem modify {f : NodeData → NodeData} (h : Touches d d' x e')
    (hf : id = x → ∀ n, f { n with kind := .element e' } = { f n with kind := .element e' }) :
    Touches (d.modify id f) (d'.modify id f) x e' := by
  refine ⟨fun y => ?_, h.free, by rw [size_modify, size_modify, h.size]⟩
  rw [node?_modify, node?_modify, h.node]
  by_cases hy : y = id
  · subst hy
    by_cases hx : y = x
    · rw [if_pos rfl, if_pos hx, if_pos rfl, if_pos hx, Option.map_map, Option.map_map]
      exact congrArg (Option.map · _) (funext fun n => hf hx n)
    · rw [if_pos rfl, if_neg hx, if_pos rfl, if_neg hx]
  · rw [if_neg hy, if_neg hy]

theorem attach (h : Touches d d' x e') (parent child : NodeId) :
    Touches (d.attach parent child) (d'.attach parent child) x e' :=
  (h.modify fun _ _ => rfl).modify fun _ _ => rfl

theorem alloc (h : Touches d d' x e') (hd : d.SlotsAccounted) (he : d.element? x = some e)
    (kind : NodeKind) : (d'.alloc kind).1 = (d.alloc kind).1 ∧
      Touches (d.alloc kind).2 (d'.alloc kind).2 x e' := by
  have hd' : d'.SlotsAccounted := hd.congr h.free h.size fun y => by
    rw [h.node]
    split <;> simp
  obtain ⟨hvacant, hnode⟩ := node?_alloc hd kind
  obtain ⟨hid, hfree, hsize⟩ := alloc_congr h.free h.size kind kind
  have hne : x ≠ (d.alloc kind).1 := by
    rintro rfl
    simpa [hvacant] using live he
  refine ⟨hid, fun y => ?_, hfree, hsize⟩
  rw [(node?_alloc hd' kind).2, hnode, hid, h.node]
  by_cases hy : y = (d.alloc kind).1
  · rw [if_pos hy, if_pos hy, if_neg (hy ▸ hne.symm)]
  · rw [if_neg hy, if_neg hy]

theorem addText (h : Touches d d' x e') (hd : d.SlotsAccounted) (he : d.element? x = some e)
    (parent : NodeId) (s : String) :
    Touches (d.addText parent s) (d'.addText parent s) x e' := by
  unfold Document.addText
  dsimp only
  rw [h.children, h.text? he]
  split
  · next id before hlast hbefore =>
      have hid : d.text? id = some before := by simpa [hlast] using hbefore
      refine h.modify fun heq => ?_
      rw [heq, text?_eq_some_iff, element?_eq_some_iff.mp he] at hid
      cases hid
  · obtain ⟨hid, htouches⟩ := h.alloc hd he (.text s)
    show Touches _ ((d'.alloc (.text s)).2.attach parent (d'.alloc (.text s)).1) x e'
    rw [hid]
    exact htouches.attach parent _

/-- A piece is added to both documents in the same way. -/
theorem addPiece (h : Touches d d' x e') (hd : d.SlotsAccounted) (he : d.element? x = some e)
    (stack : List OpenElement) (piece : Piece) :
    ∃ d₁ d₁' stack₁, Document.addPiece (d, stack) piece = (d₁, stack₁) ∧
      Document.addPiece (d', stack) piece = (d₁', stack₁) ∧ Touches d₁ d₁' x e' := by
  cases piece with
  | text s => exact ⟨_, _, _, rfl, rfl, h.addText hd he _ s⟩
  | close name => exact ⟨_, _, _, rfl, rfl, h⟩
  | start t =>
      obtain ⟨hid, htouches⟩ := h.alloc hd he (.element (.ofTag t.name t.attributes))
      refine ⟨_, _, _, addPiece_start .., ?_, htouches.attach _ _⟩
      rw [addPiece_start, hid]

/-- What is read behind an element at the top leaves two documents that differ in it alone. -/
theorem foldl (h : Touches d d' x e') (hd : Growing d stack) (hx : x ∈ d.children root)
    (he : d.element? x = some e) {pieces : List Piece} (hpieces : ∀ p ∈ pieces, p.Sound) :
    Touches (pieces.foldl Document.addPiece (d, stack)).1
      (pieces.foldl Document.addPiece (d', stack)).1 x e' := by
  induction pieces generalizing d d' stack with
  | nil => exact h
  | cons first rest ih =>
      have hfirst := hpieces first List.mem_cons_self
      obtain ⟨d₁, d₁', stack₁, hstep, hstep', htouches⟩ :=
        h.addPiece hd.wellFormed.accounted he stack first
      have hleads := hd.addPiece_leads hfirst
      have hgrowing := hd.addPiece hfirst
      rw [hstep] at hleads hgrowing
      rw [List.foldl_cons, List.foldl_cons, hstep, hstep']
      exact ih htouches hgrowing (hleads.top.subset hx) ((hleads.same x hx).trans he)
        fun p hp => hpieces p (List.mem_cons_of_mem _ hp)

end Touches

/-! ## The first element -/

/-- A document as it is but for its first element, which has an attribute in the place of any that it
had of that name. -/
def MarkedFirst (name value : String) (d d' : Document) : Prop :=
  ∃ x e, d.firstElementChild? root = some x ∧ d.element? x = some e ∧
    Touches d d' x { e with attributes := Tag.override name value e.attributes }

theorem MarkedFirst.exists_tag {name value : String} (h : MarkedFirst name value d d') :
    ∃ x e e', d.firstElementChild? root = some x ∧ d.element? x = some e ∧
      d'.firstElementChild? root = some x ∧ d'.element? x = some e' ∧ e'.tag = e.tag := by
  obtain ⟨x, e, hx, he, htouches⟩ := h
  exact ⟨x, e, _, hx, he, (htouches.firstElementChild? he root).trans hx,
    htouches.element? (Touches.live he), rfl⟩

/-- Other attributes of the first start tag are other attributes of the first element. -/
theorem touches_foldl_start (h : Growing d []) {t : Tag} {after : List Piece}
    (hsound : ∀ p ∈ .start t :: after, p.Sound) (attributes : List (String × String)) :
    Touches ((.start t :: after).foldl Document.addPiece (d, [])).1
      ((.start { t with attributes } :: after).foldl Document.addPiece (d, [])).1
      (d.alloc (.element (.ofTag t.name t.attributes))).1 (.ofTag t.name attributes) := by
  have ht : Piece.Sound (.start t) := hsound _ List.mem_cons_self
  have hnames : ∀ e, NodeKind.element (.ofTag t.name t.attributes) = .element e →
      NamesUnique e.attributes := by
    rintro _ ⟨⟩
    exact ht
  have hid := (alloc_congr (d := d) rfl rfl (.element (.ofTag t.name t.attributes))
    (.element (.ofTag t.name attributes))).1
  obtain ⟨-, hnew, -⟩ := h.wellFormed.grow h.root_bare hnames
  have htop := (h.addNode_top h.root_bare hnames).2
  rw [if_pos rfl] at htop
  have hgrowing := h.addPiece ht
  have hstarts := (h.wellFormed.accounted.touches_alloc
    (.element (.ofTag t.name t.attributes)) (.ofTag t.name attributes)).attach root
      (d.alloc (.element (.ofTag t.name t.attributes))).1
  rw [addPiece_start] at hgrowing
  rw [List.foldl_cons, List.foldl_cons, addPiece_start, addPiece_start, hid]
  exact hstarts.foldl hgrowing (htop ▸ List.mem_append_right _ (List.mem_singleton.mpr rfl))
    (element?_eq_some_iff.mpr hnew) fun p hp => hsound p (List.mem_cons_of_mem _ hp)

/-- Behind text that is read without a start tag, the first element is made by the first tag. -/
theorem tag_of_firstElementChild?_parse {markup : String} {pieces : List Piece}
    (hfree : Piece.StartFree pieces) {c : Char} (hc : isAsciiLetter c = true) {s : List Char}
    (hread : Piece.ofMarkup markup = pieces ++ Piece.readAll ('<' :: c :: s))
    (hx : (parse markup).firstElementChild? root = some x)
    (he : (parse markup).element? x = some e) :
    (Tag.read? (c :: s)).isSome ∧ e.tag = Tag.nameOf ((c :: s).takeWhile Tag.inTagName) := by
  have hparse : parse markup = ((Piece.ofMarkup markup).foldl addPiece (empty, [])).1 := rfl
  rcases Piece.readAll_letter hc s with ⟨-, hnone⟩ | ⟨t, rest, after, hsome, hafter⟩
  · rw [hparse, hread, hnone, List.append_nil, firstElementChild?_startFree hfree] at hx
    cases hx
  · rw [hafter] at hread
    have hsound : ∀ p ∈ pieces ++ .start t :: after, p.Sound := by
      rw [← hread]
      exact fun p hp => Piece.sound_of_mem_readAll hp
    obtain ⟨y, hy, helement⟩ := exists_firstElementChild? hsound hfree
    rw [← hread, ← hparse] at hy helement
    obtain rfl := Option.some.inj (hy.symm.trans hx)
    obtain rfl := Option.some.inj (helement.symm.trans he)
    exact ⟨by rw [hsome]; rfl, Tag.name_of_read? hsome⟩

/-- A tag with one more attribute in front makes a first element that has it. -/
theorem markedFirst_foldl {pieces after : List Piece} {t : Tag} (hfree : Piece.StartFree pieces)
    (hsound : ∀ p ∈ pieces ++ .start t :: after, p.Sound) (name value : String) :
    MarkedFirst name value ((pieces ++ .start t :: after).foldl addPiece (empty, [])).1
      ((pieces ++ .start { t with attributes := Tag.override name value t.attributes } ::
        after).foldl addPiece (empty, [])).1 := by
  obtain ⟨d, hd, hgrowing, hnone⟩ := foldl_startFree growing_empty hfree (by decide +kernel)
  have hsound' : ∀ p ∈ .start t :: after, p.Sound :=
    fun p hp => hsound p (List.mem_append_right _ hp)
  obtain ⟨hfirst, helement⟩ := firstElementChild?_foldl_start hgrowing hnone hsound'
  rw [List.foldl_append, List.foldl_append, hd]
  exact ⟨_, _, hfirst, helement, touches_foldl_start hgrowing hsound' _⟩

variable {before behind k name : List Char} {c : Char} {markup marked : String}

/-- Behind settled text, the mark of a tag changes nothing but an attribute of the first element
just if the tag is finished and its name ends at the mark. -/
theorem markedFirst_parse_iff (hbefore : Piece.Settled (Piece.unifyLineEnds before))
    (hc : isAsciiLetter c = true) (hname : ∀ d ∈ name, ComponentSource.isTagNameChar d = true)
    (hnull : '\x00' ∉ k) (hreturn : '\r' ∉ k)
    (hmarkup : markup.toList = before ++ '<' :: (c :: name ++ behind))
    (hmarked : marked.toList = before ++ '<' :: Piece.markedTag (c :: name) k behind) :
    MarkedFirst rootAttribute (String.ofList k) (parse markup) (parse marked) ↔
      Tag.Whole (c :: name) (Piece.unifyLineEnds behind) := by
  obtain ⟨pieces, hfree, hread⟩ := hbefore.exists_ofMarkup
  have htag : '\r' ∉ c :: name := Piece.not_mem_tag hc hname (by decide)
  have hin := Piece.inTagName_tag hc hname
  have hread' : Piece.ofMarkup marked = pieces ++
      Piece.readAll ('<' :: Piece.markedTag (c :: name) k (Piece.unifyLineEnds behind)) := by
    rw [Piece.markedTag_append] at hmarked ⊢
    exact hread _ _ _ _ hc (Piece.return_not_mem_markedTag htag hreturn) hmarked
  replace hread := hread _ _ _ _ hc htag hmarkup
  constructor
  · intro hmarks
    obtain ⟨x, e, e', hx, he, hx', he', hsame⟩ := hmarks.exists_tag
    obtain ⟨hfinished, hnamed⟩ := tag_of_firstElementChild?_parse hfree hc hread hx he
    have hnamed' := (tag_of_firstElementChild?_parse hfree hc hread' hx' he').2
    refine Tag.whole_of_finished hin hfinished ?_
    -- both elements have the name of the tag, which is as long as what stands before the mark
    have hlength := congrArg String.length ((hnamed'.symm.trans hsame).trans hnamed)
    rw [Tag.length_nameOf, Tag.length_nameOf] at hlength
    replace hlength : ((Piece.markedTag (c :: name) k (Piece.unifyLineEnds behind)).takeWhile
        Tag.inTagName).length =
      ((c :: name ++ Piece.unifyLineEnds behind).takeWhile Tag.inTagName).length := hlength
    rw [Piece.markedTag, List.takeWhile_append_of_pos hin, List.takeWhile_append_of_pos hin,
      List.takeWhile_cons_of_neg (by decide), List.append_nil, List.length_append] at hlength
    exact List.eq_nil_of_length_eq_zero (by omega)
  · intro hwhole
    obtain ⟨t, after, hpieces, hpieces'⟩ := Piece.readAll_markedTag_of_whole hc hname hnull hwhole
    have hsound : ∀ p ∈ pieces ++ .start t :: after, p.Sound := by
      rw [← hpieces, ← hread]
      exact fun p hp => Piece.sound_of_mem_readAll hp
    rw [parse, parse, hread, hread', hpieces, hpieces']
    exact markedFirst_foldl hfree hsound _ _

end Document

end LiveMarkup
