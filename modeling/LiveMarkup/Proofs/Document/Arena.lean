import LiveMarkup.Proofs.Document.Links
import LiveMarkup.Proofs.Document.Parse
set_option autoImplicit false

/-! # What every edit of a document keeps

Documents come from parsing, and from edits of documents (`Built`). Edits are asked for by ids;
which ids may be passed is stated once, per edit (`Edit.Allowed`). All documents that come about in
this way are forests with exact books about their slots (`Arena`): every edit keeps this, and so
does every sequence of edits. An `Arena` asks less than a well-formed document does, since an element
may be made with the same attribute twice. -/

namespace LiveMarkup.Document

variable {d d' source : Document} {id p c x old new : NodeId}

structure Arena (d : Document) : Prop where
  root_live : (d.node? root).isSome
  root_parent : d.parent? root = none
  treelike : d.Treelike
  text_childless : ∀ id s, d.text? id = some s → d.children id = []
  accounted : d.SlotsAccounted

theorem WellFormed.arena (h : d.WellFormed) : d.Arena :=
  ⟨h.root_live, h.root_parent, h.treelike, h.text_childless, h.accounted⟩

/-! ## Edits -/

inductive Edit where
  | createElement (tag : String) (attributes : List (String × String))
  | createText (s : String)
  | copyIn (source : Document) (id : NodeId)
  | appendChild (parent child : NodeId)
  | remove (id : NodeId)
  | replace (old new : NodeId)
  | setAttribute (id : NodeId) (name value : String)
  | removeAttribute (id : NodeId) (name : String)
  | setText (id : NodeId) (s : String)
  | setValue (id : NodeId) (value : String)
  | setProperty (id : NodeId) (name : String) (value : Bool)

namespace Edit

def apply (d : Document) : Edit → Document
  | createElement tag attributes => (d.createElement tag attributes).2
  | createText s => (d.createText s).2
  | copyIn source id => ((d.import? source id).map Prod.snd).getD d
  | appendChild parent child => d.appendChild parent child
  | remove id => d.remove id
  | replace old new => (d.replace old new).2
  | setAttribute id name value => d.setAttribute id name value
  | removeAttribute id name => d.removeAttribute id name
  | setText id s => d.setText id s
  | setValue id value => d.setValue id value
  | setProperty id name value => d.setProperty id name value

/-- All ids are of nodes that are there. What is appended to a node, or put in the place of one, is
not the root and stands neither above it; what is appended is not the node itself either. -/
def Allowed (d : Document) : Edit → Prop
  | createElement _ _ | createText _ => True
  | copyIn source id => (source.node? id).isSome
  | appendChild parent child =>
    (d.element? parent).isSome ∧ (d.node? child).isSome ∧ child ≠ root ∧ ¬d.Under parent child
  | replace old new =>
    (d.node? old).isSome ∧ (d.node? new).isSome ∧ new ≠ root ∧ ¬Relation.TransGen d.ChildOf old new
  | remove id | setAttribute id _ _ | removeAttribute id _ | setText id _ | setValue id _
  | setProperty id _ _ => (d.node? id).isSome

/-- The document that an edit copies from. -/
def source? : Edit → Option Document
  | copyIn source _ => some source
  | _ => none

end Edit

/-- The documents that come about by parsing and by edits. -/
inductive Built : Document → Prop
  | parse (markup : String) : Built (Document.parse markup)
  | edit {d : Document} (e : Edit) (hd : Built d) (hsource : ∀ s, e.source? = some s → Built s)
      (hallowed : e.Allowed d) : Built (e.apply d)

/-! ## Walking upwards -/

theorem not_under_of_top (htop : d.parent? x = none) (hne : x ≠ id) : ¬d.Under x id := by
  intro hunder
  rcases hunder.cases_head with heq | ⟨q, hq, -⟩
  · exact hne heq
  · rw [ChildOf, htop] at hq
    cases hq

theorem not_under_of_parent (hp : d.ChildOf x p) (hne : x ≠ id) (h : ¬d.Under p id) :
    ¬d.Under x id := by
  intro hunder
  rcases hunder.cases_head with heq | ⟨q, hq, hqid⟩
  · exact hne heq
  · exact h (childOf_rightUnique d hq hp ▸ hqid)

/-! ## Edits that leave all links as they are -/

theorem Arena.congr (h : d.Arena) (hroot : (d'.node? root).isSome)
    (hparent : ∀ x, d'.parent? x = d.parent? x) (hchildren : ∀ x, d'.children x = d.children x)
    (htext : ∀ x s, d'.text? x = some s → d.children x = []) (haccounted : d'.SlotsAccounted) :
    d'.Arena := by
  refine ⟨hroot, ?_, h.treelike.congr hparent hchildren, ?_, haccounted⟩
  · rw [hparent]
    exact h.root_parent
  · intro x s hs
    rw [hchildren]
    exact htext x s hs

theorem Arena.record (h : d.Arena) (m : Mutation) : (d.record m).Arena :=
  ⟨h.root_live, h.root_parent, h.treelike.congr (fun _ => rfl) fun _ => rfl, h.text_childless,
    h.accounted.record m⟩

/-- Changing the kind of a node is nothing to the links, unless a text is made of an element. -/
theorem Arena.modify {f : NodeData → NodeData} (h : d.Arena)
    (hparent : ∀ n, (f n).parent = n.parent) (hchildren : ∀ n, (f n).children = n.children)
    (htext : ∀ n s, d.node? id = some n → (f n).kind = .text s → ∃ s', n.kind = .text s') :
    (d.modify id f).Arena := by
  refine h.congr ?_ (fun _ => parent?_modify hparent) (fun _ => children_modify hchildren) ?_
    (h.accounted.modify id f)
  · rw [isSome_node?_modify]
    exact h.root_live
  · intro x s hs
    obtain ⟨n, hn, hkind⟩ := exists_node_of_kind? (text?_eq_some_iff.mp hs)
    rw [node?_modify] at hn
    split at hn
    · next hx =>
        subst hx
        obtain ⟨m, hm, rfl⟩ := Option.map_eq_some_iff.mp hn
        obtain ⟨s', hs'⟩ := htext m s hm hkind
        exact h.text_childless x s' (text?_eq_some_iff.mpr (by rw [kind?_eq hm, hs']))
    · exact h.text_childless x s (text?_eq_some_iff.mpr (by rw [kind?_eq hn, hkind]))

theorem Arena.modifyElement (h : d.Arena) (id : NodeId) (f : Element → Element) :
    (d.modifyElement id f).Arena := by
  refine h.modify ?_ ?_ ?_
  · intro n
    split <;> rfl
  · intro n
    split <;> rfl
  · intro n s _ hkind
    cases hn : n.kind with
    | text s' => exact ⟨s', rfl⟩
    | element e => simp [hn] at hkind

theorem Arena.setText (h : d.Arena) (id : NodeId) (s : String) : (d.setText id s).Arena := by
  unfold Document.setText
  split
  · next htext =>
      obtain ⟨t, ht⟩ := Option.isSome_iff_exists.mp htext
      refine Arena.record (h.modify ?_ ?_ ?_) _
      · exact fun _ => rfl
      · exact fun _ => rfl
      · intro n _ hn _
        have hkind := text?_eq_some_iff.mp ht
        rw [kind?_eq hn] at hkind
        exact ⟨t, Option.some.inj hkind⟩
  · exact h

/-! ## New nodes -/

/-- A node has come into a slot that was vacant, and all nodes that were there are as before. -/
structure Creates (d : Document) (id : NodeId) (d' : Document) : Prop where
  vacant : d.node? id = none
  live : (d'.node? id).isSome
  kept : ∀ x, (d.node? x).isSome → d'.node? x = d.node? x

theorem Arena.creates_alloc (h : d.Arena) (kind : NodeKind) :
    (d.alloc kind).2.Arena ∧ d.Creates (d.alloc kind).1 (d.alloc kind).2 := by
  obtain ⟨hvacant, hnode⟩ := node?_alloc h.accounted kind
  have hkept : ∀ x, (d.node? x).isSome → (d.alloc kind).2.node? x = d.node? x := by
    intro x hx
    rw [hnode, if_neg]
    rintro rfl
    simp [hvacant] at hx
  refine ⟨?_, hvacant, by simp [hnode], hkept⟩
  refine h.congr ?_ (parent?_alloc h.accounted kind) (children_alloc h.accounted kind) ?_
    (h.accounted.alloc kind)
  · rw [hkept root h.root_live]
    exact h.root_live
  · intro x s hs
    by_cases hx : x = (d.alloc kind).1
    · rw [hx]
      exact children_of_vacant hvacant
    · refine h.text_childless x s ?_
      rw [text?_eq_some_iff, kind?, hnode, if_neg hx] at hs
      exact text?_eq_some_iff.mpr hs

/-- Nothing that was there has come to stand under the new node. -/
theorem Creates.not_under (h : d.Creates id d') (htree : d.Treelike) (hx : (d.node? x).isSome) :
    ¬d'.Under x id := by
  intro hunder
  induction hunder using Relation.ReflTransGen.head_induction_on with
  | refl => simp [h.vacant] at hx
  | @head x p hp _ ih =>
      have hpd : d.ChildOf x p := by
        rw [ChildOf, parent?, ← h.kept x hx]
        exact hp
      exact ih (htree.live_of_childOf hpd)

theorem Arena.detach (h : d.Arena) (id : NodeId) : (d.detach id).Arena := by
  refine ⟨?_, ?_, h.treelike.detach id, ?_, h.accounted.detach id⟩
  · rw [← Option.isSome_map (f := NodeData.kind), ← kind?, kind?_detach, kind?, Option.isSome_map]
    exact h.root_live
  · rw [parent?_detach, h.root_parent, ite_self]
  · intro x s hs
    rw [text?_eq_some_iff, kind?_detach, ← text?_eq_some_iff] at hs
    rw [children_detach h.treelike, h.text_childless x s hs, List.filter_nil]

theorem Arena.attach (h : d.Arena) (hp : (d.node? p).isSome) (helement : d.text? p = none)
    (hc : (d.node? c).isSome) (hroot : c ≠ root) (hfree : d.parent? c = none)
    (hno : ¬d.Under p c) : (d.attach p c).Arena := by
  refine ⟨?_, ?_, h.treelike.attach hp hc hfree hno, ?_, h.accounted.attach p c⟩
  · rw [← Option.isSome_map (f := NodeData.kind), ← kind?, kind?_attach, kind?, Option.isSome_map]
    exact h.root_live
  · rw [parent?_attach hc, if_neg hroot.symm]
    exact h.root_parent
  · intro x s hs
    rw [text?_eq_some_iff, kind?_attach, ← text?_eq_some_iff] at hs
    have hxp : x ≠ p := by
      rintro rfl
      simp [helement] at hs
    rw [children_attach hp, if_neg hxp]
    exact h.text_childless x s hs

theorem Arena.appendChild (h : d.Arena) (hp : (d.element? p).isSome) (hc : (d.node? c).isSome)
    (hroot : c ≠ root) (hno : ¬d.Under p c) : (d.appendChild p c).Arena := by
  have hkind := kind?_detach d c
  have hlive : ∀ x, ((d.detach c).node? x).isSome = (d.node? x).isSome := by
    intro x
    rw [← Option.isSome_map (f := NodeData.kind), ← kind?, hkind, kind?, Option.isSome_map]
  obtain ⟨e, he⟩ := Option.isSome_iff_exists.mp hp
  obtain ⟨n, hn, -⟩ := exists_node_of_kind? (element?_eq_some_iff.mp he)
  refine Arena.record ((h.detach c).attach ?_ ?_ ?_ hroot ?_ ?_) _
  · rw [hlive, hn]
    rfl
  · rw [text?, hkind, element?_eq_some_iff.mp he]
  · rwa [hlive]
  · rw [parent?_detach, if_pos rfl]
  · intro hunder
    refine hno (Relation.ReflTransGen.mono ?_ p c hunder)
    intro a b hab
    rw [ChildOf, parent?_detach] at hab
    split at hab
    · cases hab
    · exact hab

/-! ## Copies -/

theorem Creates.keeps_live (h : d.Creates id d') (hx : (d.node? x).isSome) :
    (d'.node? x).isSome := by
  rw [h.kept x hx]
  exact hx

/-- What copying a node does, whatever is copied below it. -/
def Copies (copy : Document → NodeId → Option (NodeId × Document)) : Prop :=
  ∀ d id new d', d.Arena → copy d id = some (new, d') →
    d'.Arena ∧ d.Creates new d' ∧ d'.parent? new = none

/-- Attaching copies to a node that is no text changes this one node and the copies. -/
theorem Arena.importAll {copy : Document → NodeId → Option (NodeId × Document)}
    (hcopy : Copies copy) (h : d.Arena) (l : List NodeId) (hp : (d.node? p).isSome) (htext : d.text? p = none) :
    (importAll copy p d l).Arena ∧
      (∀ x, (d.node? x).isSome → x ≠ p → (importAll copy p d l).node? x = d.node? x) ∧
      ((importAll copy p d l).node? p).isSome ∧
      (importAll copy p d l).parent? p = d.parent? p := by
  induction l generalizing d with
  | nil => exact ⟨h, fun _ _ _ => rfl, hp, rfl⟩
  | cons child rest ih =>
      rw [Document.importAll]
      cases hnew : copy d child with
      | none => exact ih h hp htext
      | some r =>
          obtain ⟨new, d₁⟩ := r
          obtain ⟨h₁, hcreates, hfree⟩ := hcopy d child new d₁ h hnew
          have hp₁ := hcreates.keeps_live hp
          have htext₁ : d₁.text? p = none := by
            rw [text?, kind?, hcreates.kept p hp]
            exact htext
          have hroot : new ≠ root := by
            rintro rfl
            have hlive := h.root_live
            simp [hcreates.vacant] at hlive
          have hpnew : p ≠ new := by
            rintro rfl
            simp [hcreates.vacant] at hp
          have h₂ := h₁.attach hp₁ htext₁ hcreates.live hroot hfree
            (hcreates.not_under h.treelike hp)
          have hnode : ∀ x, x ≠ p → x ≠ new → (d₁.attach p new).node? x = d₁.node? x := by
            intro x hxp hxn
            simp [Document.attach, hxp, hxn]
          have hp₂ : ((d₁.attach p new).node? p).isSome := by
            simp only [Document.attach, isSome_node?_modify]
            exact hp₁
          have htext₂ : (d₁.attach p new).text? p = none := by
            rw [text?, kind?_attach]
            exact htext₁
          obtain ⟨h₃, hkept, hlive, hparent⟩ := ih h₂ hp₂ htext₂
          refine ⟨h₃, ?_, hlive, ?_⟩
          · intro x hx hxp
            have hxn : x ≠ new := by
              rintro rfl
              simp [hcreates.vacant] at hx
            have hx₂ : (d₁.attach p new).node? x = d.node? x := by
              rw [hnode x hxp hxn, hcreates.kept x hx]
            rw [hkept x (by rwa [hx₂]) hxp, hx₂]
          · rw [hparent, parent?_attach hcreates.live, if_neg hpnew, parent?, hcreates.kept p hp,
              parent?]

theorem importFrom_eq {n : NodeData} (bound : Nat) (d : Document) (hn : source.node? id = some n) :
    importFrom source (bound + 1) d id = some ((d.alloc n.kind).1,
      Document.importAll (importFrom source bound) (d.alloc n.kind).1 (d.alloc n.kind).2
        n.children) := by
  rw [importFrom, hn]

theorem copies_importFrom (hsource : source.Arena) (bound : Nat) :
    Copies (importFrom source bound) := by
  induction bound with
  | zero =>
      intro d id new d' _ hcopy
      cases hcopy
  | succ bound ih =>
      intro d id new d' h hcopy
      cases hn : source.node? id with
      | none =>
          rw [importFrom, hn] at hcopy
          cases hcopy
      | some n =>
          rw [importFrom_eq bound d hn] at hcopy
          obtain ⟨rfl, rfl⟩ := Prod.mk.inj (Option.some.inj hcopy)
          obtain ⟨h₁, hcreates⟩ := h.creates_alloc n.kind
          have hfree : (d.alloc n.kind).2.parent? (d.alloc n.kind).1 = none := by
            rw [parent?_alloc h.accounted, parent?_of_vacant hcreates.vacant]
          cases hkind : n.kind with
          | text s =>
              -- a text has nothing below it to copy
              have hnil : n.children = [] := by
                have htext : source.text? id = some s :=
                  text?_eq_some_iff.mpr (by rw [kind?_eq hn, hkind])
                rw [← children_eq hn]
                exact hsource.text_childless id s htext
              rw [hkind] at h₁ hcreates hfree
              rw [hnil, Document.importAll]
              exact ⟨h₁, hcreates, hfree⟩
          | element e =>
              rw [hkind] at h₁ hcreates hfree
              have htext : (d.alloc (.element e)).2.text? (d.alloc (.element e)).1 = none := by
                rw [text?, kind?, (node?_alloc h.accounted _).2, if_pos rfl]
                rfl
              obtain ⟨h₂, hkept, hlive, hparent⟩ :=
                h₁.importAll ih n.children hcreates.live htext
              refine ⟨h₂, ⟨hcreates.vacant, hlive, fun x hx => ?_⟩, hparent.trans hfree⟩
              have hne : x ≠ (d.alloc (.element e)).1 := by
                intro he
                simp [he, hcreates.vacant] at hx
              rw [hkept x (hcreates.keeps_live hx) hne, hcreates.kept x hx]

/-- Importing a node that is there makes a copy, in a slot that was vacant. -/
theorem Arena.import? (h : d.Arena) (hsource : source.Arena) (hid : (source.node? id).isSome) :
    ∃ new d', d.import? source id = some (new, d') ∧ d'.Arena ∧ d.Creates new d' := by
  obtain ⟨n, hn⟩ := Option.isSome_iff_exists.mp hid
  obtain ⟨⟨new, d'⟩, hcopy⟩ : ∃ r, d.import? source id = some r :=
    ⟨_, importFrom_eq source.slots.size d hn⟩
  obtain ⟨h', hcreates, -⟩ := copies_importFrom hsource source.depthBound d id new d' h hcopy
  exact ⟨new, d', hcopy, h', hcreates⟩

/-! ## Removing -/

theorem Vacated.arena (hfreed : d.Vacated id d') (h : d.Arena) (hid : id ≠ root)
    (hparent : d.parent? id = none) (haccounted : d'.SlotsAccounted) : d'.Arena := by
  have hroot := (hfreed root).2 (not_under_of_top h.root_parent hid.symm)
  refine ⟨?_, ?_, hfreed.treelike h.treelike hparent, ?_, haccounted⟩
  · rw [hroot]
    exact h.root_live
  · rw [parent?, hroot, ← parent?]
    exact h.root_parent
  · intro x s hs
    by_cases hx : d.Under x id
    · exact children_of_vacant ((hfreed x).1 hx)
    · have hsame := (hfreed x).2 hx
      rw [text?, kind?, hsame] at hs
      rw [children, hsame]
      exact h.text_childless x s hs

theorem Vacated.live_iff (hfreed : d.Vacated id d') (x : NodeId) :
    (d'.node? x).isSome ↔ (d.node? x).isSome ∧ ¬d.Under x id := by
  by_cases hx : d.Under x id
  · simp [(hfreed x).1 hx, hx]
  · simp [(hfreed x).2 hx, hx]

theorem isSome_node?_of_kind? (hkind : d'.kind? x = d.kind? x) :
    (d'.node? x).isSome = (d.node? x).isSome := by
  rw [← Option.isSome_map (f := NodeData.kind), ← kind?, hkind, kind?, Option.isSome_map]

/-- What stands under a node stands there still when the node is taken out of its parent. -/
theorem under_detach_iff (d : Document) (id x : NodeId) :
    (d.detach id).Under x id ↔ d.Under x id := by
  constructor
  · refine Relation.ReflTransGen.mono (fun a b hab => ?_) x id
    rw [ChildOf, parent?_detach] at hab
    split at hab
    · cases hab
    · exact hab
  · intro hunder
    induction hunder using Relation.ReflTransGen.head_induction_on with
    | refl => exact .refl
    | @head x p hp _ ih =>
        by_cases hx : x = id
        · exact hx ▸ .refl
        · refine .head ?_ ih
          rw [ChildOf, parent?_detach, if_neg hx]
          exact hp

/-- Removing a node frees it and what is below it, and nothing else. -/
theorem Arena.remove (h : d.Arena) (hid : (d.node? id).isSome) (hroot : id ≠ root) :
    (d.remove id).Arena ∧
      ∀ x, ((d.remove id).node? x).isSome ↔ (d.node? x).isSome ∧ ¬d.Under x id := by
  have h₁ := h.detach id
  have hlive : ∀ x, ((d.detach id).node? x).isSome = (d.node? x).isSome :=
    fun x => isSome_node?_of_kind? (kind?_detach d id x)
  obtain ⟨hfreed, haccounted⟩ := h₁.treelike.freeSubtree h₁.accounted (by rwa [hlive])
  rw [Document.remove, if_neg hroot]
  refine ⟨(hfreed.arena h₁ hroot ?_ haccounted).record _, fun x => ?_⟩
  · rw [parent?_detach, if_pos rfl]
  · rw [node?_record, hfreed.live_iff, hlive, under_detach_iff]

/-! ## Replacing -/

theorem Arena.link (h : d.Arena) (hold : (d.node? old).isSome) (hnew : (d.node? new).isSome)
    (holdRoot : old ≠ root) (hnewRoot : new ≠ root) (hfree : d.parent? new = none)
    (hno : ¬d.Under old new) : (d.link old new).Arena := by
  refine ⟨?_, ?_, h.treelike.link hold hnew hfree hno, ?_, h.accounted.link old new⟩
  · rw [isSome_node?_of_kind? (kind?_link d old new root)]
    exact h.root_live
  · rw [parent?_link hold hnew hfree, if_neg holdRoot.symm, if_neg hnewRoot.symm]
    exact h.root_parent
  · intro x s hs
    rw [text?_eq_some_iff, kind?_link, ← text?_eq_some_iff] at hs
    have hnil := h.text_childless x s hs
    rw [children_link, hnil]
    split <;> rfl

/-- What is still below the old node once the new one has its place: all that was, apart from the
new node and what is below it. -/
theorem Arena.under_link_iff (h : d.Arena) (hold : (d.node? old).isSome)
    (hnew : (d.node? new).isSome) (hfree : (d.detach new).parent? new = none)
    (hno : ¬d.Under old new) (x : NodeId) :
    ((d.detach new).link old new).Under x old ↔ d.Under x old ∧ ¬d.Under x new := by
  have hlive : ∀ x, ((d.detach new).node? x).isSome = (d.node? x).isSome :=
    fun x => isSome_node?_of_kind? (kind?_detach d new x)
  have hne : new ≠ old := fun he => hno (he ▸ .refl)
  have hparent : ∀ x, ((d.detach new).link old new).parent? x =
      if x = old then none else if x = new then d.parent? old else d.parent? x := by
    intro x
    rw [parent?_link (by rwa [hlive]) (by rwa [hlive]) hfree, parent?_detach, if_neg hne.symm]
    split
    · rfl
    · split
      · rfl
      · next hx => rw [parent?_detach, if_neg hx]
  constructor
  · intro hunder
    induction hunder using Relation.ReflTransGen.head_induction_on with
    | refl => exact ⟨.refl, hno⟩
    | @head x p hp _ ih =>
        rw [ChildOf, hparent] at hp
        split at hp
        · cases hp
        · split at hp
          · -- the parent of the old node is not under it
            exact absurd ih.1 (h.treelike.not_under_child hp)
          · next hx =>
              exact ⟨.head hp ih.1, not_under_of_parent hp hx ih.2⟩
  · rintro ⟨hunder, hnot⟩
    induction hunder using Relation.ReflTransGen.head_induction_on with
    | refl => exact .refl
    | @head x p hp _ ih =>
        by_cases hxo : x = old
        · exact hxo ▸ .refl
        · have hxn : x ≠ new := fun he => hnot (he ▸ .refl)
          refine .head ?_ (ih fun hpn => hnot (.head hp hpn))
          rw [ChildOf, hparent, if_neg hxo, if_neg hxn]
          exact hp

/-- Replacing a node frees it and what is below it, apart from the new node and what is below
that. -/
theorem Arena.replace (h : d.Arena) (hold : (d.node? old).isSome) (hnew : (d.node? new).isSome)
    (holdRoot : old ≠ root) (hnewRoot : new ≠ root) (hno : ¬d.Under old new) :
    (d.replace old new).2.Arena ∧
      ∀ x, ((d.replace old new).2.node? x).isSome ↔
        (d.node? x).isSome ∧ (d.Under x old → d.Under x new) := by
  have hne : old ≠ new := fun he => hno (he ▸ .refl)
  have h₁ := h.detach new
  have hlive : ∀ x, ((d.detach new).node? x).isSome = (d.node? x).isSome :=
    fun x => isSome_node?_of_kind? (kind?_detach d new x)
  have hfree : (d.detach new).parent? new = none := by rw [parent?_detach, if_pos rfl]
  have hno₁ : ¬(d.detach new).Under old new := by rwa [under_detach_iff]
  have hold₁ : ((d.detach new).node? old).isSome := by rwa [hlive]
  have hnew₁ : ((d.detach new).node? new).isSome := by rwa [hlive]
  have h₂ := h₁.link hold₁ hnew₁ holdRoot hnewRoot hfree hno₁
  have hlive₂ : ∀ x, (((d.detach new).link old new).node? x).isSome = (d.node? x).isSome :=
    fun x => (isSome_node?_of_kind? (kind?_link _ old new x)).trans (hlive x)
  have hold₂ : (((d.detach new).link old new).node? old).isSome := by rwa [hlive₂]
  obtain ⟨hfreed, haccounted⟩ := h₂.treelike.freeSubtree h₂.accounted hold₂
  rw [replace_eq_link holdRoot hne]
  refine ⟨(hfreed.arena h₂ holdRoot ?_ haccounted).record _, fun x => ?_⟩
  · rw [parent?_link hold₁ hnew₁ hfree, if_pos rfl]
  · rw [node?_record, hfreed.live_iff, hlive₂, h.under_link_iff hold hnew hfree hno, not_and,
      not_not]

/-! ## Every sequence of edits -/

theorem Arena.apply (h : d.Arena) (e : Edit) (hsource : ∀ s, e.source? = some s → s.Arena)
    (hallowed : e.Allowed d) : (e.apply d).Arena := by
  cases e with
  | createElement tag attributes => exact (h.creates_alloc _).1
  | createText s => exact (h.creates_alloc _).1
  | copyIn source id =>
      obtain ⟨new, d', hcopy, h', -⟩ := h.import? (hsource source rfl) hallowed
      rw [Edit.apply, hcopy]
      exact h'
  | appendChild parent child =>
      obtain ⟨hp, hc, hroot, hno⟩ := hallowed
      exact h.appendChild hp hc hroot hno
  | remove id =>
      by_cases hroot : id = root
      · rw [Edit.apply, Document.remove, if_pos hroot]
        exact h
      · exact (h.remove hallowed hroot).1
  | replace old new =>
      obtain ⟨hold, hnew, hnewRoot, hno⟩ := hallowed
      by_cases hsame : old = root ∨ old = new
      · rw [Edit.apply, Document.replace, if_pos hsame]
        exact h
      · obtain ⟨holdRoot, hne⟩ := not_or.mp hsame
        refine (h.replace hold hnew holdRoot hnewRoot fun hunder => ?_).1
        rcases Relation.reflTransGen_iff_eq_or_transGen.mp hunder with heq | habove
        · exact hne heq.symm
        · exact hno habove
  | setAttribute id name value =>
      rw [Edit.apply, Document.setAttribute]
      split
      · exact (h.modifyElement id _).record _
      · exact h
  | removeAttribute id name =>
      rw [Edit.apply, Document.removeAttribute]
      split
      · exact (h.modifyElement id _).record _
      · exact h
  | setText id s => exact h.setText id s
  | setValue id value =>
      rw [Edit.apply, Document.setValue]
      split
      · exact (h.modifyElement id _).record _
      · exact h
  | setProperty id name value =>
      rw [Edit.apply, Document.setProperty]
      split
      · exact (h.modifyElement id _).record _
      · exact h

theorem Built.arena (h : Built d) : d.Arena := by
  induction h with
  | parse markup => exact (wellFormed_parse markup).arena
  | edit e hd hsource hallowed ih ihsource => exact ih.apply e ihsource hallowed

theorem parents_end (h : d.Treelike) (id : NodeId) :
    ∃ n, (fun o : Option NodeId => o.bind d.parent?)^[n] (some id) = none := by
  induction h.acc_parent id with
  | intro id _ ih =>
      cases hp : d.parent? id with
      | none => exact ⟨1, hp⟩
      | some p =>
          obtain ⟨n, hn⟩ := ih p hp
          refine ⟨n + 1, ?_⟩
          rw [Function.iterate_succ_apply]
          show _^[n] (d.parent? id) = none
          rw [hp, hn]

/-- Every document that comes about is a forest with exact books about its slots. Removing and
replacing free what they are told to and nothing else, the root apart, which stays as it is with all
below it; and new nodes never take the slot of one that is there. -/
theorem forest_of_built (h : Built d) :
    d.Arena ∧ (∀ p q c, c ∈ d.children p → c ∈ d.children q → p = q) ∧
      (∀ id, ∃ n, (fun o : Option NodeId => o.bind d.parent?)^[n] (some id) = none) ∧
      (∀ id, (Edit.remove id).Allowed d → ∀ x, ((d.remove id).node? x).isSome ↔
        (d.node? x).isSome ∧ (id = root ∨ ¬d.Under x id)) ∧
      (∀ old new, (Edit.replace old new).Allowed d → ∀ x,
        ((d.replace old new).2.node? x).isSome ↔
          (d.node? x).isSome ∧ (old = root ∨ (d.Under x old → d.Under x new))) ∧
      (∀ tag attributes,
        d.Creates (d.createElement tag attributes).1 (d.createElement tag attributes).2) ∧
      (∀ s, d.Creates (d.createText s).1 (d.createText s).2) ∧
      ∀ source id, Built source → (source.node? id).isSome →
        ∃ new d', d.import? source id = some (new, d') ∧ d.Creates new d' := by
  have harena := h.arena
  refine ⟨harena, ?_, parents_end harena.treelike, ?_, ?_, ?_, ?_, ?_⟩
  · intro p q c hp hq
    have hpc := (harena.treelike.linked p c).mp hp
    have hqc := (harena.treelike.linked q c).mp hq
    exact childOf_rightUnique d hpc hqc
  · intro id hallowed x
    by_cases hroot : id = root
    · rw [Document.remove, if_pos hroot]
      simp [hroot]
    · rw [(harena.remove hallowed hroot).2]
      simp [hroot]
  · rintro old new ⟨hold, hnew, hnewRoot, hno⟩ x
    by_cases hsame : old = root ∨ old = new
    · rw [Document.replace, if_pos hsame]
      rcases hsame with hroot | rfl
      · simp [hroot]
      · simp
    · obtain ⟨holdRoot, hne⟩ := not_or.mp hsame
      have hunder : ¬d.Under old new := by
        rw [Under, Relation.reflTransGen_iff_eq_or_transGen]
        exact not_or.mpr ⟨fun he => hne he.symm, hno⟩
      rw [(harena.replace hold hnew holdRoot hnewRoot hunder).2]
      simp [holdRoot]
  · intro tag attributes
    exact (harena.creates_alloc _).2
  · intro s
    exact (harena.creates_alloc _).2
  · intro source id hsource hid
    obtain ⟨new, d', hcopy, -, hcreates⟩ := harena.import? hsource.arena hid
    exact ⟨new, d', hcopy, hcreates⟩

/-- A node gives way to one that stood below it; an element that is made then takes a slot this has
vacated, and is moved below the node that took the place. -/
def patched : Document :=
  [Edit.replace 1 3, .createElement "u" [], .appendChild 3 1, .remove 5].foldl Edit.apply
    (Document.parse "<p>a<b>c</b></p><i>e</i>")

theorem built_patched : Built patched := by
  have h₀ := Built.parse "<p>a<b>c</b></p><i>e</i>"
  have h₁ := h₀.edit (.replace 1 3) (by simp [Edit.source?]) <| by
    refine ⟨by decide +kernel, by decide +kernel, by decide, fun habove => ?_⟩
    refine not_under_of_parent (x := 1) (p := root) ?_ (by decide) ?_ habove.to_reflTransGen
    · decide +kernel
    · exact not_under_of_top (by decide +kernel) (by decide)
  have h₂ := h₁.edit (.createElement "u" []) (by simp [Edit.source?]) trivial
  have h₃ := h₂.edit (.appendChild 3 1) (by simp [Edit.source?]) <| by
    refine ⟨by decide +kernel, by decide +kernel, by decide, ?_⟩
    refine not_under_of_parent (x := 3) (p := root) ?_ (by decide) ?_
    · decide +kernel
    · exact not_under_of_top (by decide +kernel) (by decide)
  refine h₃.edit (.remove 5) (by simp [Edit.source?]) ?_
  show (Document.node? _ 5).isSome
  decide +kernel

theorem patched_accounted :
    patched.Arena ∧ patched.free = [5, 6, 2] ∧ patched.children 3 = [4, 1] :=
  ⟨(forest_of_built built_patched).1, by decide +kernel, by decide +kernel⟩

/-- The root is the exception: asked to be removed, it stays with what is below it. -/
theorem remove_root_frees_nothing :
    Built (Document.parse "<p>x</p>") ∧ (Edit.remove root).Allowed (Document.parse "<p>x</p>") ∧
      (Document.parse "<p>x</p>").Under 1 root ∧
      (((Document.parse "<p>x</p>").remove root).node? 1).isSome := by
  refine ⟨.parse _, ?_, .single ?_, ?_⟩
  · show (Document.node? _ root).isSome
    decide +kernel
  · show Document.parent? _ 1 = some root
    decide +kernel
  · decide +kernel

end LiveMarkup.Document
