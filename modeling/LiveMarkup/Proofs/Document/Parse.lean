import LiveMarkup.Document.Parse
import LiveMarkup.Proofs.Document.Copy
import Mathlib.Data.String.Basic
set_option autoImplicit false

/-! # Documents from markup are well formed

The attributes of a tag are kept in the strict order of their names, so no name comes twice. Reading
adds nodes at the end of the innermost open element and never changes an element that is there
(`Growing`). -/

namespace LiveMarkup

/-! ## Attributes of tags -/

namespace Tag

/-- Attributes in the strict order of their names. -/
def Sorted (attributes : List (String × String)) : Prop :=
  attributes.Pairwise fun a b => a.1 < b.1

theorem mem_place {name value : String} {attributes : List (String × String)} {e : String × String}
    (he : e ∈ place name value attributes) : e.1 = name ∨ e ∈ attributes := by
  induction attributes with
  | nil =>
      obtain rfl : e = (name, value) := by simpa [place] using he
      exact .inl rfl
  | cons first rest ih =>
      unfold place at he
      split at he
      · exact .inr he
      · split at he
        · rcases List.mem_cons.mp he with rfl | he
          · exact .inl rfl
          · exact .inr he
        · rcases List.mem_cons.mp he with rfl | he
          · exact .inr List.mem_cons_self
          · exact (ih he).imp id (List.mem_cons_of_mem _)

theorem Sorted.place {attributes : List (String × String)} (h : Sorted attributes)
    (name value : String) : Sorted (place name value attributes) := by
  induction attributes with
  | nil => exact List.pairwise_singleton _ _
  | cons first rest ih =>
      obtain ⟨hfirst, hrest⟩ := List.pairwise_cons.mp h
      unfold Tag.place
      split
      · exact h
      · next hne =>
          split
          · next hlt =>
              refine List.pairwise_cons.mpr ⟨fun e he => ?_, h⟩
              rcases List.mem_cons.mp he with rfl | he
              · exact hlt
              · exact hlt.trans (hfirst e he)
          · next hnlt =>
              refine List.pairwise_cons.mpr ⟨fun e he => ?_, ih hrest⟩
              rcases mem_place he with hname | he
              · rw [hname]
                exact lt_of_le_of_ne (not_lt.mp hnlt) hne
              · exact hfirst e he

theorem Sorted.namesUnique {attributes : List (String × String)} (h : Sorted attributes) :
    Document.NamesUnique attributes :=
  List.pairwise_map.mpr (h.imp fun hlt => ne_of_lt hlt)

theorem sorted_readFrom? {name : String} {attributes : List (String × String)} {s rest : List Char}
    {t : Tag} (h : Sorted attributes) (ht : readFrom? name attributes s = some (t, rest)) :
    Sorted t.attributes := by
  fun_induction readFrom? name attributes s with
  | case1 => simp at ht
  | case2 =>
      simp only [Option.some.injEq, Prod.mk.injEq] at ht
      rwa [← ht.1]
  | case3 =>
      simp only [Option.some.injEq, Prod.mk.injEq] at ht
      rwa [← ht.1]
  | case4 _ _ _ _ ih => exact ih h ht
  | case5 _ _ _ _ _ _ ih => exact ih h ht
  | case6 => simp at ht
  | case7 attributes _ _ _ _ _ a _ _ _ ih => exact ih (h.place a.1 a.2) ht

end Tag

namespace Piece

/-- The attributes of a start tag have different names. -/
def Sound : Piece → Prop
  | .start t => Document.NamesUnique t.attributes
  | _ => True

theorem sound_read {s rest : List Char} {t : Tag} (h : Tag.read? s = some (t, rest)) :
    Sound (.start t) :=
  (Tag.sorted_readFrom? List.Pairwise.nil h).namesUnique

theorem sound_of_mem_ofText {s : List Char} {p : Piece} (hp : p ∈ ofText s) : p.Sound := by
  unfold ofText at hp
  split at hp
  · simp at hp
  · obtain rfl := List.mem_singleton.mp hp
    trivial

theorem sound_of_mem_withContent {t : Tag} {s : List Char} (ht : Sound (.start t)) {p : Piece}
    (hp : p ∈ (withContent t s).1) : p.Sound := by
  unfold withContent at hp
  split at hp
  · obtain rfl := List.mem_singleton.mp hp
    exact ht
  · split at hp
    · rcases List.mem_cons.mp hp with rfl | hp
      · exact ht
      · exact sound_of_mem_ofText hp
    · split at hp
      · rcases List.mem_cons.mp hp with rfl | hp
        · exact ht
        · exact sound_of_mem_ofText hp
      · obtain rfl := List.mem_singleton.mp hp
        exact ht

theorem sound_of_mem_readMarkup? {s rest : List Char} {found : List Piece}
    (h : readMarkup? s = some (found, rest)) {p : Piece} (hp : p ∈ found) : p.Sound := by
  unfold readMarkup? at h
  split at h
  · simp only [Option.some.injEq, Prod.mk.injEq] at h
    simp [← h.1] at hp
  · split at h
    · obtain ⟨⟨t, r⟩, -, hfound⟩ := Option.map_eq_some_iff.mp h
      obtain rfl : [.close t.name] = found := congrArg Prod.fst hfound
      obtain rfl := List.mem_singleton.mp hp
      trivial
    · simp only [Option.some.injEq, Prod.mk.injEq] at h
      simp [← h.1] at hp
  · split at h
    · obtain ⟨⟨t, r⟩, ht, hfound⟩ := Option.map_eq_some_iff.mp h
      obtain rfl : (withContent t r).1 = found := congrArg Prod.fst hfound
      exact sound_of_mem_withContent (sound_read ht) hp
    · simp only [Option.some.injEq, Prod.mk.injEq] at h
      simp [← h.1] at hp
  · simp only [Option.some.injEq, Prod.mk.injEq] at h
    simp [← h.1] at hp

theorem sound_of_mem_readAll {s : List Char} {p : Piece} (hp : p ∈ readAll s) : p.Sound := by
  fun_induction readAll s with
  | case1 => exact sound_of_mem_ofText hp
  | case2 => exact sound_of_mem_ofText hp
  | case3 s before c markup h found rest hm hlt ih =>
      rcases List.mem_append.mp hp with hp | hp
      · rcases List.mem_append.mp hp with hp | hp
        · exact sound_of_mem_ofText hp
        · exact sound_of_mem_readMarkup? hm hp
      · exact ih hp

end Piece

namespace Document

variable {d : Document} {p : NodeId} {e : Element} {kind : NodeKind}

/-! ## Adding nodes -/

/-- A new node at the end of an element's children. -/
theorem WellFormed.grow (h : d.WellFormed) (hp : d.element? p = some e)
    (hnames : ∀ e, kind = .element e → NamesUnique e.attributes) :
    ((d.alloc kind).2.attach p (d.alloc kind).1).WellFormed ∧
      ((d.alloc kind).2.attach p (d.alloc kind).1).kind? (d.alloc kind).1 = some kind ∧
      ∀ x, (d.node? x).isSome →
        ((d.alloc kind).2.attach p (d.alloc kind).1).kind? x = d.kind? x := by
  obtain ⟨n, hn, -⟩ := exists_node_of_kind? (element?_eq_some_iff.mp hp)
  have hplaced := h.accounted.placed_end hn
    fun c hc => h.treelike.live_of_mem_children ((children_eq hn).symm ▸ hc)
  have hedit := hplaced.replaces_attach hnames
  refine ⟨hedit.wellFormed hplaced h (by simp [Forest.ids]) ?_, kind?_eq hedit.placed.holds.1, ?_⟩
  · rintro _ ⟨⟩
    rw [text?, element?_eq_some_iff.mp hp]
  · intro x hx
    exact (hedit.outside (by simp [Forest.ids]) (hedit.not_mem_of_live (by simp [Forest.ids]) hx)).1

/-- A text that is there is given another content. -/
theorem WellFormed.retext (h : d.WellFormed) {id : NodeId} {s : String} (hid : d.text? id = some s)
    (hroot : id ≠ root) (s' : String) :
    (d.modify id fun n => { n with kind := .text s' }).WellFormed := by
  obtain ⟨n, hn, hkind⟩ := exists_node_of_kind? (text?_eq_some_iff.mp hid)
  obtain ⟨before, after, hsome, hnone⟩ := h.exists_beside id
  obtain ⟨below, hplaced⟩ := h.exists_placed hn hsome hnone
  rw [hkind] at hplaced
  obtain rfl : below = .nil := hplaced.sound.1 s rfl
  refine (hplaced.retext s').wellFormed hplaced h ?_ fun p hp => h.text?_of_child hp
  simpa [Forest.ids] using hroot.symm

/-! ## Reading pieces -/

/-- What holds of a document that is being read: it is well formed, what is open are elements, and
its root has no attributes. -/
structure Growing (d : Document) (stack : List OpenElement) : Prop where
  wellFormed : d.WellFormed
  opened : ∀ o ∈ stack, ∃ e, d.element? o.id = some e
  root_bare : d.element? root = some (.ofTag rootTag [])

namespace Growing

variable {stack : List OpenElement}

theorem current (h : Growing d stack) :
    ∃ e, d.element? ((stack.head?.map OpenElement.id).getD root) = some e := by
  cases stack with
  | nil => exact ⟨_, h.root_bare⟩
  | cons first rest => exact h.opened first List.mem_cons_self

/-- Elements that stay as they are keep what holds. -/
theorem of_kind (h : Growing d stack) {d' : Document} (hd' : d'.WellFormed)
    (hsame : ∀ x e, d.element? x = some e → d'.element? x = some e) : Growing d' stack where
  wellFormed := hd'
  opened := fun o ho =>
    let ⟨e, he⟩ := h.opened o ho
    ⟨e, hsame _ _ he⟩
  root_bare := hsame _ _ h.root_bare

theorem addNode (h : Growing d stack) (hp : d.element? p = some e)
    (hnames : ∀ e, kind = .element e → NamesUnique e.attributes) :
    Growing ((d.alloc kind).2.attach p (d.alloc kind).1) stack := by
  obtain ⟨hd', -, hsame⟩ := h.wellFormed.grow hp hnames
  refine h.of_kind hd' fun x e he => ?_
  obtain ⟨n, hn, -⟩ := exists_node_of_kind? (element?_eq_some_iff.mp he)
  rw [element?_eq_some_iff, hsame x (by simp [hn])]
  exact element?_eq_some_iff.mp he

theorem addText (h : Growing d stack) (hp : d.element? p = some e) (s : String) :
    Growing (d.addText p s) stack := by
  unfold Document.addText
  dsimp only
  -- text goes to a text that stands last
  split
  · next id before hlast hbefore =>
      have hid : d.text? id = some before := by simpa [hlast] using hbefore
      have helement : ∀ x e, d.element? x = some e → id ≠ x := by
        rintro _ e he rfl
        rw [text?_eq_some_iff, element?_eq_some_iff.mp he] at hid
        simp at hid
      have hroot := helement root _ h.root_bare
      refine h.of_kind (h.wellFormed.retext hid hroot (before ++ s)) fun x e he => ?_
      rw [element?, kind?, node?_modify, if_neg (helement x e he).symm]
      exact he
  · exact h.addNode hp fun _ he => by simp at he

theorem close (h : Growing d stack) (name : String) : Growing d (closeElement name stack) := by
  refine ⟨h.wellFormed, fun o ho => h.opened o ?_, h.root_bare⟩
  unfold closeElement at ho
  split at ho
  · exact ho
  · next hsuffix =>
      refine (List.dropWhile_suffix fun o : OpenElement => o.name != name).subset ?_
      rw [hsuffix]
      exact List.mem_cons_of_mem _ ho

theorem addPiece (h : Growing d stack) {piece : Piece} (hpiece : piece.Sound) :
    Growing (Document.addPiece (d, stack) piece).1 (Document.addPiece (d, stack) piece).2 := by
  obtain ⟨e, hcurrent⟩ := h.current
  cases piece with
  | text s => exact h.addText hcurrent s
  | close name => exact h.close name
  | start t =>
      have hnames : ∀ e, NodeKind.element (.ofTag t.name t.attributes) = .element e →
          NamesUnique e.attributes := by
        rintro _ ⟨⟩
        exact hpiece
      have hadded := h.addNode hcurrent hnames
      obtain ⟨-, hnew, -⟩ := h.wellFormed.grow hcurrent hnames
      -- an element that closes itself is not opened
      show Growing _ (if t.selfClosing || isVoid t.name then stack else _ :: stack)
      split
      · exact hadded
      · refine ⟨hadded.wellFormed, ?_, hadded.root_bare⟩
        intro o ho
        rcases List.mem_cons.mp ho with rfl | ho
        · exact ⟨_, element?_eq_some_iff.mpr hnew⟩
        · exact hadded.opened o ho

end Growing

theorem growing_empty : Growing Document.empty [] :=
  ⟨wellFormed_of_isOrdered (by decide +kernel), by simp, by decide +kernel⟩

theorem growing_parse (markup : String) :
    ∃ stack, Growing (Document.parse markup) stack := by
  have hfold : ∀ (pieces : List Piece) (d : Document) (stack : List OpenElement),
      Growing d stack → (∀ p ∈ pieces, p.Sound) →
        Growing (pieces.foldl Document.addPiece (d, stack)).1
          (pieces.foldl Document.addPiece (d, stack)).2 := by
    intro pieces
    induction pieces with
    | nil => exact fun _ _ h _ => h
    | cons first rest ih =>
        intro d stack h hsound
        have hfirst := h.addPiece (hsound first List.mem_cons_self)
        exact ih _ _ hfirst fun p hp => hsound p (List.mem_cons_of_mem _ hp)
  exact ⟨_, hfold _ _ _ growing_empty fun p hp => Piece.sound_of_mem_readAll hp⟩

theorem wellFormed_parse (markup : String) : (Document.parse markup).WellFormed :=
  let ⟨_, h⟩ := growing_parse markup
  h.wellFormed

theorem element?_root_parse (markup : String) :
    (Document.parse markup).element? root = some (.ofTag rootTag []) :=
  let ⟨_, h⟩ := growing_parse markup
  h.root_bare

end Document

end LiveMarkup
