import LiveMarkup.Document.Reconcile
import LiveMarkup.Proofs.Document.Edit
set_option autoImplicit false

/-! # Removing trees and copying them in

What the operations on whole trees do to a document that holds these trees: freeing vacates exactly
their slots, importing adds a tree of the same kinds in slots that were vacant, and moving a copy
changes the children of one parent. -/

namespace LiveMarkup.Document

variable {d d₁ source : Document} {parent q : Option NodeId} {before after : List NodeId}
  {f g : Forest} {id : NodeId} {kind : NodeKind} {below : Forest} {bound : Nat}

/-! ## Freeing and removing -/

theorem node?_foldl_freeIn (haccounted : d.SlotsAccounted) (h : d.Holds parent f)
    (hnodup : f.ids.Nodup) (hbound : f.height ≤ bound) :
    (∀ x, (f.roots.foldl (freeIn bound) d).node? x = if x ∈ f.ids then none else d.node? x) ∧
      (f.roots.foldl (freeIn bound) d).SlotsAccounted := by
  induction f generalizing d parent bound with
  | nil => exact ⟨fun x => by simp [Forest.roots, Forest.ids], haccounted⟩
  | cons id kind below next ihb ihn =>
      obtain ⟨bound, rfl, hlow, hlevel⟩ := Forest.exists_bound_of_height_le hbound
      obtain ⟨hid, hrest⟩ := List.nodup_cons.mp hnodup
      obtain ⟨hbn, hnn, hdisjoint⟩ := List.nodup_append'.mp hrest
      obtain ⟨hbelow, hacc⟩ := ihb haccounted h.2.1 hbn hlow
      -- the first tree goes before the others, which it leaves as they are
      have hfirst : ∀ x, (freeIn (bound + 1) d id).node? x =
          if x = id ∨ x ∈ below.ids then none else d.node? x := by
        intro x
        rw [freeIn, children_eq h.1, node?_release, hbelow]
        by_cases hx : x = id <;> simp [hx]
      have hfirstAcc : (freeIn (bound + 1) d id).SlotsAccounted := by
        rw [freeIn, children_eq h.1]
        exact hacc.release id
      have hnextHolds : (freeIn (bound + 1) d id).Holds parent next := by
        refine h.2.2.congr ?_
        intro x hx
        rw [hfirst, if_neg]
        rintro (rfl | hxb)
        · exact hid (List.mem_append_right _ hx)
        · exact hdisjoint hxb hx
      obtain ⟨hnext, hnextAcc⟩ := ihn hfirstAcc hnextHolds hnn hlevel
      refine ⟨?_, hnextAcc⟩
      intro x
      rw [Forest.roots, List.foldl_cons, hnext, hfirst]
      by_cases hx : x ∈ next.ids <;> simp [Forest.ids, hx]

/-- Freeing a tree vacates its slots and no others. -/
theorem node?_freeSubtree (haccounted : d.SlotsAccounted)
    (h : d.Holds parent (.tree id kind below)) (hnodup : (Forest.tree id kind below).ids.Nodup) :
    (∀ x, (d.freeSubtree id).node? x =
      if x ∈ (Forest.tree id kind below).ids then none else d.node? x) ∧
      (d.freeSubtree id).SlotsAccounted := by
  have hbound : (Forest.tree id kind below).height ≤ d.depthBound :=
    Nat.le_succ_of_le (h.height_le hnodup)
  have hfree := node?_foldl_freeIn haccounted h hnodup hbound
  exact hfree

theorem Placed.not_mem_beside (h : d.Placed parent before after (.tree id kind below)) :
    id ∉ before ∧ id ∉ after := by
  have hno : ∀ x ∈ before ++ after, x ≠ id := by
    rintro x hx rfl
    exact (h.beside x hx).1 List.mem_cons_self
  exact ⟨fun hm => hno id (List.mem_append_left _ hm) rfl,
    fun hm => hno id (List.mem_append_right _ hm) rfl⟩

/-- Taking a placed tree out of its parent. -/
theorem Placed.node?_detach (h : d.Placed parent before after (.tree id kind below)) (x : NodeId) :
    (d.detach id).node? x =
      if x = id then some ⟨kind, none, below.roots⟩
      else if parent = some x then (d.node? x).map fun n => { n with children := before ++ after }
      else d.node? x := by
  unfold detach
  rw [parent?_eq h.holds.1]
  cases parent with
  | none =>
      by_cases hx : x = id
      · simp [hx, h.holds.1]
      · simp [hx]
  | some p =>
      obtain ⟨hp, n, hn, hchildren⟩ := h.above p rfl
      obtain ⟨hbefore, hafter⟩ := h.not_mem_beside
      have hpid : p ≠ id := fun he => hp (he ▸ List.mem_cons_self)
      have hfilter : n.children.filter (· != id) = before ++ after := by
        have hkeep : ∀ l : List NodeId, id ∉ l → l.filter (· != id) = l := by
          intro l hl
          refine List.filter_eq_self.mpr ?_
          intro y hy
          simpa using fun he : y = id => hl (he ▸ hy)
        rw [hchildren]
        simp [Forest.roots, hkeep _ hbefore, hkeep _ hafter]
      by_cases hx : x = id
      · subst hx
        simp [hpid.symm, h.holds.1]
      · by_cases hxp : x = p
        · subst hxp
          simp [hx, hn, hfilter]
        · have hpx : ¬p = x := fun he => hxp he.symm
          simp [hx, hxp, hpx]

theorem Placed.accounted_detach (h : d.Placed parent before after (.tree id kind below)) :
    (d.detach id).SlotsAccounted := by
  unfold detach
  split
  · exact h.accounted
  · exact (h.accounted.modify _ _).modify _ _

theorem Placed.holds_detach (h : d.Placed parent before after (.tree id kind below)) :
    (d.detach id).Holds none (.tree id kind below) := by
  have hid := (h.descend.above id rfl).1
  refine ⟨by simp [h.node?_detach], h.holds.2.1.congr ?_, trivial⟩
  intro x hx
  have hxid : x ≠ id := fun he => hid (he ▸ hx)
  have hxp : parent ≠ some x := h.parent_ne (by simp [Forest.ids, hx])
  simp [h.node?_detach, hxid, hxp]

/-- Removing a placed tree leaves nothing in its place. -/
theorem Placed.remove (h : d.Placed parent before after (.tree id kind below)) (hroot : id ≠ root) :
    Replaces d (d.remove id) parent before after (.tree id kind below) .nil := by
  obtain ⟨hfree, hacc⟩ := node?_freeSubtree h.accounted_detach h.holds_detach h.nodup
  have hmem : id ∈ (Forest.tree id kind below).ids := List.mem_cons_self
  have hnode : ∀ x, ((d.detach id).freeSubtree id).node? x =
      if x ∈ (Forest.tree id kind below).ids then none
      else if parent = some x then (d.node? x).map fun n => { n with children := before ++ after }
      else d.node? x := by
    intro x
    rw [hfree, h.node?_detach]
    by_cases hx : x ∈ (Forest.tree id kind below).ids
    · rw [if_pos hx, if_pos hx]
    · rw [if_neg hx, if_neg hx, if_neg fun he => hx (by rw [he]; exact hmem)]
  rw [Document.remove, if_neg hroot]
  refine Replaces.record ?_ _
  refine h.replaces trivial List.nodup_nil trivial (by simp [Forest.ids]) ?_ ?_ ?_ hacc
  · intro x hx _
    rw [hnode, if_pos hx]
  · intro x hx _ hp
    rw [hnode, if_neg hx, if_neg hp]
  · intro p n hp hn _
    rw [hnode, if_neg (h.above p hp).1, if_pos hp, hn]
    rfl

/-! ## Importing -/

/-- A place for trees that have no parent. -/
theorem SlotsAccounted.placed_nil (h : d.SlotsAccounted) : d.Placed none [] [] .nil :=
  ⟨trivial, List.nodup_nil, trivial, by simp, by simp, h⟩

/-- A place at the end of a node's children. -/
theorem SlotsAccounted.placed_end {p : NodeId} {n : NodeData} (h : d.SlotsAccounted)
    (hp : d.node? p = some n) (hlive : ∀ c ∈ n.children, (d.node? c).isSome) :
    d.Placed (some p) n.children [] .nil := by
  refine ⟨trivial, List.nodup_nil, trivial, ?_, ?_, h⟩
  · intro x hx
    exact ⟨by simp [Forest.ids], hlive x (by simpa using hx)⟩
  · rintro _ ⟨⟩
    exact ⟨by simp [Forest.ids], n, hp, by simp [Forest.roots]⟩

/-- A new node without children. -/
theorem SlotsAccounted.replaces_alloc (h : d.SlotsAccounted)
    (hnames : ∀ e, kind = .element e → NamesUnique e.attributes) :
    Replaces d (d.alloc kind).2 none [] [] .nil (.tree (d.alloc kind).1 kind .nil) := by
  obtain ⟨hvacant, hnode⟩ := node?_alloc h kind
  refine h.placed_nil.replaces ⟨by simp [hnode, Forest.roots], trivial, trivial⟩ (by simp [Forest.ids])
    ⟨fun _ _ => rfl, hnames, trivial, trivial⟩ ?_ (by simp [Forest.ids]) ?_ (by simp)
    (h.alloc kind)
  · intro x hx
    obtain rfl : x = (d.alloc kind).1 := by simpa [Forest.ids] using hx
    exact Or.inr hvacant
  · intro x _ hx _
    rw [hnode, if_neg fun he => hx (by simp [Forest.ids, he])]

/-- Making a new tree the last child of a node. -/
theorem Replaces.attach {p : NodeId} (h : d.Placed (some p) before [] .nil)
    (hnew : Replaces d d₁ none [] [] .nil (.tree id kind below)) :
    Replaces d (d₁.attach p id) (some p) before [] .nil (.tree id kind below) := by
  obtain ⟨-, n, hn, hchildren⟩ := h.above p rfl
  have hvacant : ∀ x ∈ (Forest.tree id kind below).ids, d.node? x = none := by
    intro x hx
    exact (hnew.fresh x hx).resolve_left (by simp [Forest.ids])
  have hp : p ∉ (Forest.tree id kind below).ids := by
    intro hm
    simp [hvacant p hm] at hn
  have hpid : p ≠ id := fun he => hp (he ▸ List.mem_cons_self)
  have hsame : ∀ x, x ∉ (Forest.tree id kind below).ids → d₁.node? x = d.node? x := by
    intro x hx
    exact hnew.elsewhere x (by simp [Forest.ids]) hx (by simp)
  -- attaching writes two slots: that of `p` and that of the new root
  have hnode : ∀ x, (d₁.attach p id).node? x =
      if x = p then some { n with children := n.children ++ [id] }
      else if x = id then some ⟨kind, some p, below.roots⟩ else d₁.node? x := by
    intro x
    unfold Document.attach
    by_cases hx : x = p
    · subst hx
      simp [hpid, hsame x hp, hn]
    · by_cases hxid : x = id
      · subst hxid
        simp [hx, hnew.placed.holds.1]
      · simp [hx, hxid]
  have hid := (hnew.placed.descend.above id rfl).1
  refine h.replaces ⟨by simp [hnode, hpid.symm], ?_, trivial⟩ hnew.placed.nodup hnew.placed.sound
    (fun x hx => Or.inr (hvacant x hx)) (by simp [Forest.ids]) ?_ ?_
    ((hnew.placed.accounted.modify _ _).modify _ _)
  · refine hnew.placed.holds.2.1.congr ?_
    intro x hx
    rw [hnode, if_neg, if_neg]
    · exact fun he => hid (he ▸ hx)
    · exact fun he => hp (by simp [← he, Forest.ids, hx])
  · intro x _ hx hxp
    rw [hnode, if_neg, if_neg, hsame x hx]
    · exact fun he => hx (by simp [he, Forest.ids])
    · exact fun he => hxp (by rw [he])
  · rintro _ m ⟨⟩ hm _
    rw [hn] at hm
    cases hm
    simp only [hnode, if_true, hchildren, Forest.roots, List.append_nil]

/-- A new node behind the children of another. -/
theorem Placed.replaces_attach {p : NodeId} (h : d.Placed (some p) before [] .nil)
    (hnames : ∀ e, kind = .element e → NamesUnique e.attributes) :
    Replaces d ((d.alloc kind).2.attach p (d.alloc kind).1) (some p) before [] .nil
      (.tree (d.alloc kind).1 kind .nil) :=
  Replaces.attach h (h.accounted.replaces_alloc hnames)

/-- The place behind a tree that was added. -/
theorem Placed.behind {p : NodeId} (h : d.Placed (some p) before [] .nil)
    (hfirst : Replaces d d₁ (some p) before [] .nil (.tree id kind below)) :
    d₁.Placed (some p) (before ++ [id]) [] .nil := by
  have hplaced : d.Placed (some p) before [] (Forest.nil.append .nil) := h
  exact hplaced.right hfirst

/-- Trees that are added one after the other. -/
theorem Placed.replaces_cons {p : NodeId} {d₂ : Document} (h : d.Placed (some p) before [] .nil)
    (hfirst : Replaces d d₁ (some p) before [] .nil (.tree id kind below))
    (hnext : Replaces d₁ d₂ (some p) (before ++ [id]) [] .nil f) :
    Replaces d d₂ (some p) before [] .nil (.cons id kind below f) := by
  have hplaced : d.Placed (some p) before [] (Forest.nil.append .nil) := h
  exact Replaces.beside hplaced hfirst hnext

/-- Copying a node, when copying what is below it works. -/
theorem importFrom_of_below (haccounted : d.SlotsAccounted)
    (hnode : source.node? id = some ⟨kind, q, below.roots⟩)
    (hsound : (Forest.tree id kind below).Sound)
    (hbelow : ∀ (d : Document) (p : NodeId), d.Placed (some p) [] [] .nil →
      ∃ f, Replaces d (importAll (importFrom source bound) p d below.roots) (some p) [] [] .nil f ∧
        f.Rel Eq below) :
    ∃ copy d' f, importFrom source (bound + 1) d id = some (copy, d') ∧
      Replaces d d' none [] [] .nil (.tree copy kind f) ∧ f.Rel Eq below := by
  have halloc := haccounted.replaces_alloc hsound.2.1
  obtain ⟨f, hcopy, hrel⟩ := hbelow _ _ halloc.placed.descend
  refine ⟨(d.alloc kind).1, _, f, by rw [importFrom, hnode], ?_, hrel⟩
  refine halloc.trans haccounted.placed_nil (hcopy.inside halloc.placed ?_)
  intro s hs
  have hnil := hsound.1 s hs
  subst hnil
  cases f with
  | nil => rfl
  | cons => exact hrel.elim

/-- Copying the trees of a forest adds trees of the same kinds to a node's children. -/
theorem importAll_spec {p : NodeId} (h : d.Placed (some p) before [] .nil) (hg : source.Holds q g)
    (hsound : g.Sound) (hbound : g.height ≤ bound) :
    ∃ f, Replaces d (importAll (importFrom source bound) p d g.roots) (some p) before [] .nil f ∧
      f.Rel Eq g := by
  induction g generalizing d p before q bound with
  | nil => exact ⟨.nil, Replaces.refl h, trivial⟩
  | cons id kind below next ihb ihn =>
      obtain ⟨bound, rfl, hlow, hlevel⟩ := Forest.exists_bound_of_height_le hbound
      obtain ⟨htext, hnames, hbs, hns⟩ := hsound
      have hbelow : ∀ (d : Document) (p : NodeId), d.Placed (some p) [] [] .nil →
          ∃ f, Replaces d (importAll (importFrom source bound) p d below.roots) (some p) [] [] .nil f ∧
            f.Rel Eq below :=
        fun d p hp => ihb hp hg.2.1 hbs hlow
      obtain ⟨copy, d₁, f, hcopy, hnew, hrel⟩ :=
        importFrom_of_below h.accounted hg.1 ⟨htext, hnames, hbs, trivial⟩ hbelow
      have hfirst := Replaces.attach h hnew
      obtain ⟨rest, hrest, hrestRel⟩ := ihn (h.behind hfirst) hg.2.2 hns hlevel
      refine ⟨.cons copy kind f rest, ?_, rfl, hrel, hrestRel⟩
      rw [Forest.roots, importAll, hcopy]
      exact h.replaces_cons hfirst hrest

/-- Importing a node adds a tree of the same kinds that has no parent. -/
theorem import?_spec (haccounted : d.SlotsAccounted) (h : source.Holds q (.tree id kind below))
    (hnodup : (Forest.tree id kind below).ids.Nodup) (hsound : (Forest.tree id kind below).Sound) :
    ∃ copy d' f, d.import? source id = some (copy, d') ∧
      Replaces d d' none [] [] .nil (.tree copy kind f) ∧ f.Rel Eq below := by
  have hbound : below.height ≤ source.slots.size := by
    have := h.height_le hnodup
    simp only [Forest.height] at this
    omega
  exact importFrom_of_below haccounted h.1 hsound
    fun d p hp => importAll_spec hp h.2.1 hsound.2.2.1 hbound

/-! ## Putting copies into the tree -/

theorem Placed.congr (h : d.Placed parent before after f)
    (hsame : ∀ x, (d.node? x).isSome → d₁.node? x = d.node? x) (haccounted : d₁.SlotsAccounted) :
    d₁.Placed parent before after f := by
  refine ⟨h.holds.congr ?_, h.nodup, h.sound, ?_, ?_, haccounted⟩
  · intro x hx
    obtain ⟨n, hn⟩ := h.holds.live hx
    exact hsame x (by simp [hn])
  · intro x hx
    obtain ⟨hxf, hlive⟩ := h.beside x hx
    exact ⟨hxf, by rwa [hsame x hlive]⟩
  · intro p hp
    obtain ⟨hpf, n, hn, hchildren⟩ := h.above p hp
    exact ⟨hpf, n, by rw [hsame p (by simp [hn]), hn], hchildren⟩

theorem Replaces.same_of_live (hnew : Replaces d d₁ none [] [] .nil f) {x : NodeId}
    (hx : (d.node? x).isSome) : d₁.node? x = d.node? x := by
  refine hnew.elsewhere x (by simp [Forest.ids]) ?_ (by simp)
  intro hm
  have hnone := (hnew.fresh x hm).resolve_left (by simp [Forest.ids])
  simp [hnone] at hx

/-- Links a node in the place of another, which is left without a parent. -/
def link (d : Document) (old new : NodeId) : Document :=
  let d' : Document :=
    match d.parent? old with
    | some p =>
      (d.modify p fun n => { n with children := n.children.replace old new }).modify new fun n =>
        { n with parent := some p }
    | none => d
  d'.modify old fun n => { n with parent := none }

/-- Replacing is linking the new node in and freeing the old tree. -/
theorem replace_eq_link {old new : NodeId} (hroot : old ≠ root) (hne : old ≠ new) :
    d.replace old new =
      (new, (((d.detach new).link old new).freeSubtree old).record (.replace old new)) := by
  rw [replace, if_neg (not_or.mpr ⟨hroot, hne⟩)]
  rfl

theorem Placed.node?_link {old new : NodeId} {kind' : NodeKind} {below' : Forest}
    (h : d.Placed parent before after (.tree old kind below))
    (hnew : d.node? new = some ⟨kind', none, below'.roots⟩) (hne : new ≠ old)
    (hparent : parent ≠ some new) (x : NodeId) :
    (d.link old new).node? x =
      if x = old then some ⟨kind, none, below.roots⟩
      else if x = new then some ⟨kind', parent, below'.roots⟩
      else if parent = some x then
        (d.node? x).map fun n => { n with children := before ++ new :: after }
      else d.node? x := by
  rw [link, parent?_eq h.holds.1]
  have hold := h.holds.1
  cases parent with
  | none =>
      by_cases hx : x = old
      · simp [hx, hold]
      · by_cases hxn : x = new
        · simp [hxn, hne, hnew]
        · simp [hx, hxn]
  | some p =>
      obtain ⟨hp, n, hn, hchildren⟩ := h.above p rfl
      have hpold : p ≠ old := fun he => hp (he ▸ List.mem_cons_self)
      have hpnew : p ≠ new := fun he => hparent (by rw [he])
      have hreplace : n.children.replace old new = before ++ new :: after := by
        rw [hchildren, List.replace_append_right h.not_mem_beside.1]
        simp [Forest.roots]
      by_cases hx : x = old
      · subst hx
        simp [hne.symm, hpold.symm, hold]
      · by_cases hxn : x = new
        · subst hxn
          simp [hne, hpnew.symm, hnew]
        · by_cases hxp : x = p
          · subst hxp
            simp [hx, hxn, hn, hreplace]
          · have hpx : ¬p = x := fun he => hxp he.symm
            simp [hx, hxn, hxp, hpx]

theorem SlotsAccounted.link (h : d.SlotsAccounted) (old new : NodeId) :
    (d.link old new).SlotsAccounted := by
  unfold Document.link
  refine SlotsAccounted.modify ?_ _ _
  split
  · exact (h.modify _ _).modify _ _
  · exact h

/-- A new tree takes the place of an old one. -/
theorem Replaces.replace {old new : NodeId} {kind' : NodeKind} {below' : Forest}
    (h : d.Placed parent before after (.tree old kind below)) (hroot : old ≠ root)
    (hnew : Replaces d d₁ none [] [] .nil (.tree new kind' below')) :
    (d₁.replace old new).1 = new ∧
      Replaces d (d₁.replace old new).2 parent before after (.tree old kind below)
        (.tree new kind' below') := by
  have hvacant : ∀ x ∈ (Forest.tree new kind' below').ids, d.node? x = none := by
    intro x hx
    exact (hnew.fresh x hx).resolve_left (by simp [Forest.ids])
  -- the new nodes are neither in the old tree nor above it
  have hapart : ∀ x ∈ (Forest.tree new kind' below').ids,
      x ∉ (Forest.tree old kind below).ids ∧ parent ≠ some x := by
    intro x hx
    refine ⟨fun hm => ?_, fun hp => ?_⟩
    · obtain ⟨n, hn⟩ := h.holds.live hm
      simp [hvacant x hx] at hn
    · obtain ⟨-, n, hn, -⟩ := h.above x hp
      simp [hvacant x hx] at hn
  have hnewMem : new ∈ (Forest.tree new kind' below').ids := List.mem_cons_self
  have holdMem : old ∈ (Forest.tree old kind below).ids := List.mem_cons_self
  have hne : new ≠ old := fun he => (hapart new hnewMem).1 (he ▸ holdMem)
  have h₁ : d₁.Placed parent before after (.tree old kind below) :=
    h.congr (fun x hx => hnew.same_of_live hx) hnew.placed.accounted
  have hdetach : d₁.detach new = d₁ := by
    rw [Document.detach, parent?_eq hnew.placed.holds.1]
  rw [replace_eq_link hroot hne.symm, hdetach]
  refine ⟨rfl, Replaces.record ?_ _⟩
  have hlink := h₁.node?_link hnew.placed.holds.1 hne (hapart new hnewMem).2
  have hacc₂ := h₁.accounted.link old new
  have holdBelow := (h.descend.above old rfl).1
  have hnewBelow := (hnew.placed.descend.above new rfl).1
  have hinner : ∀ x, x ≠ old → x ≠ new → parent ≠ some x → (d₁.link old new).node? x = d₁.node? x := by
    intro x hx hxn hxp
    rw [hlink, if_neg hx, if_neg hxn, if_neg hxp]
  have hold₂ : (d₁.link old new).Holds none (.tree old kind below) := by
    refine ⟨by simp [hlink], h₁.holds.2.1.congr ?_, trivial⟩
    intro x hx
    have hxm : x ∈ (Forest.tree old kind below).ids := by simp [Forest.ids, hx]
    exact hinner x (fun he => holdBelow (he ▸ hx)) (fun he => (hapart new hnewMem).1 (he ▸ hxm))
      (h.parent_ne hxm)
  obtain ⟨hfree, hacc₃⟩ := node?_freeSubtree hacc₂ hold₂ h.nodup
  have hstay : ∀ x, x ∉ (Forest.tree old kind below).ids →
      ((d₁.link old new).freeSubtree old).node? x = (d₁.link old new).node? x :=
    fun x hx => by rw [hfree, if_neg hx]
  refine h.replaces ⟨?_, ?_, trivial⟩ hnew.placed.nodup hnew.placed.sound
    (fun x hx => Or.inr (hvacant x hx)) ?_ ?_ ?_ hacc₃
  · rw [hstay new (hapart new hnewMem).1, hlink, if_neg hne, if_pos rfl]
  · refine hnew.placed.holds.2.1.congr ?_
    intro x hx
    have hxm : x ∈ (Forest.tree new kind' below').ids := by simp [Forest.ids, hx]
    rw [hstay x (hapart x hxm).1]
    exact hinner x (fun he => (hapart x hxm).1 (he ▸ holdMem)) (fun he => hnewBelow (he ▸ hx))
      (hapart x hxm).2
  · intro x hx _
    rw [hfree, if_pos hx]
  · intro x hx hxn hxp
    rw [hstay x hx, hinner x (fun he => hx (he ▸ holdMem)) (fun he => hxn (he ▸ hnewMem)) hxp]
    exact hnew.elsewhere x (by simp [Forest.ids]) hxn (by simp)
  · intro p n hp hn _
    have hpold := (h.above p hp).1
    rw [hstay p hpold, hlink, if_neg fun he : p = old => hpold (he ▸ holdMem),
      if_neg fun he : p = new => (hapart new hnewMem).2 (he ▸ hp), if_pos hp,
      hnew.same_of_live (by simp [hn]), hn]
    rfl

/-- A copy of a source node takes the place of a placed tree. -/
theorem Placed.replaceByCopy {old new : NodeId} {kind' : NodeKind} {below' : Forest}
    (h : d.Placed parent before after (.tree old kind below)) (hroot : old ≠ root)
    (hsource : source.Holds q (.tree new kind' below'))
    (hnodup : (Forest.tree new kind' below').ids.Nodup)
    (hsound : (Forest.tree new kind' below').Sound) :
    ∃ copy d₁ f, d.import? source new = some (copy, d₁) ∧ d.node? copy = none ∧
      (d.replaceByCopy old source new).1 = copy ∧ f.Rel Eq below' ∧
      Replaces d (d.replaceByCopy old source new).2 parent before after (.tree old kind below)
        (.tree copy kind' f) := by
  obtain ⟨copy, d₁, f, himport, hnew, hrel⟩ := import?_spec h.accounted hsource hnodup hsound
  have hvacant : d.node? copy = none :=
    (hnew.fresh copy List.mem_cons_self).resolve_left (by simp [Forest.ids])
  obtain ⟨hfst, hreplaces⟩ := Replaces.replace h hroot hnew
  refine ⟨copy, d₁, f, himport, hvacant, ?_, hrel, ?_⟩
  · rw [Document.replaceByCopy, himport]
    exact hfst
  · rw [Document.replaceByCopy, himport]
    exact hreplaces

/-- Appending a copy of a source node to a node's children. -/
theorem Replaces.appendChild {p : NodeId} (h : d.Placed (some p) before [] .nil)
    (hnew : Replaces d d₁ none [] [] .nil (.tree id kind below)) :
    Replaces d (d₁.appendChild p id) (some p) before [] .nil (.tree id kind below) := by
  have hdetach : d₁.detach id = d₁ := by
    rw [Document.detach, parent?_eq hnew.placed.holds.1]
  rw [Document.appendChild, hdetach]
  exact (Replaces.attach h hnew).record _

end LiveMarkup.Document
