import LiveMarkup.Proofs.Document.Copy
set_option autoImplicit false

/-! # Links of a document under single steps

What taking a node, linking it, taking it out and freeing what is below it do to parents and
children, node by node. Every step is described by the two functions `parent?` and `children` alone,
and keeps documents treelike: a new link can close a circle only if its upper end stood below its
lower one (`acyclic_of_link`). -/

namespace LiveMarkup.Document

variable {d d' : Document} {id p c x old new : NodeId}

/-! ## Circles -/

/-- One more link closes no circle, unless its upper end was below its lower one. -/
theorem acyclic_of_link {r s : NodeId → NodeId → Prop} (h : ∀ x, ¬Relation.TransGen r x x)
    (hlink : ∀ a b, s a b → r a b ∨ a = c ∧ b = p) (hno : ¬Relation.ReflTransGen r p c)
    (x : NodeId) :
    ¬Relation.TransGen s x x := by
  -- a way along the links goes through the new one at most once
  have hway : ∀ {a b}, Relation.TransGen s a b →
      Relation.TransGen r a b ∨ Relation.ReflTransGen r a c ∧ Relation.ReflTransGen r p b := by
    intro a b hab
    induction hab with
    | single hs =>
        rcases hlink _ _ hs with hr | ⟨rfl, rfl⟩
        · exact Or.inl (.single hr)
        · exact Or.inr ⟨.refl, .refl⟩
    | tail _ hs ih =>
        rcases hlink _ _ hs with hr | ⟨rfl, rfl⟩
        · exact ih.imp (fun h => h.tail hr) fun h => ⟨h.1, h.2.tail hr⟩
        · rcases ih with hold | ⟨-, hcircle⟩
          · exact Or.inr ⟨hold.to_reflTransGen, .refl⟩
          · exact absurd hcircle hno
  intro hcircle
  rcases hway hcircle with hold | ⟨hxc, hpx⟩
  · exact h x hold
  · exact hno (hpx.trans hxc)

/-! ## Documents with the same links -/

namespace Treelike

variable (h : d.Treelike)

include h

theorem congr (hparent : ∀ x, d'.parent? x = d.parent? x)
    (hchildren : ∀ x, d'.children x = d.children x) : d'.Treelike := by
  have hsame : d'.ChildOf = d.ChildOf := by
    funext a b
    rw [ChildOf, ChildOf, hparent]
  refine ⟨?_, ?_, ?_⟩
  · intro p c
    rw [hchildren, hsame]
    exact h.linked p c
  · intro p
    rw [hchildren]
    exact h.children_nodup p
  · rw [hsame]
    exact h.acyclic

theorem not_mem_children (hid : d.parent? id = none) (p : NodeId) : id ∉ d.children p := by
  intro hmem
  have hp : d.parent? id = some p := (h.linked p id).mp hmem
  simp [hid] at hp

theorem live_of_childOf (hc : d.ChildOf c p) : (d.node? p).isSome := by
  obtain ⟨n, hn, -⟩ := exists_node_of_mem_children ((h.linked p c).mpr hc)
  simp [hn]

/-- From a node upwards the parents end. -/
theorem acc_parent (id : NodeId) : Acc (flip d.ChildOf) id := by
  let above : Fin d.slots.size → Fin d.slots.size → Prop :=
    fun a b => Relation.TransGen d.ChildOf b a
  have : IsTrans (Fin d.slots.size) above := ⟨fun _ _ _ hab hbc => hbc.trans hab⟩
  have : Std.Irrefl above := ⟨fun a => h.acyclic a⟩
  have hwf : WellFounded above := Finite.wellFounded_of_trans_of_irrefl above
  have hbound : ∀ {p c : NodeId}, d.ChildOf c p → p < d.slots.size := by
    intro p c hc
    obtain ⟨n, hn⟩ := Option.isSome_iff_exists.mp (h.live_of_childOf hc)
    exact lt_size_of_node? hn
  have hin : ∀ a : Fin d.slots.size, Acc (flip d.ChildOf) a.val := by
    intro a
    induction a using hwf.induction with
    | _ a ih =>
        refine Acc.intro _ fun p hp => ?_
        exact ih ⟨p, hbound hp⟩ (.single hp)
  exact Acc.intro id fun p hp => hin ⟨p, hbound hp⟩

end Treelike

/-! ## Changes of one node -/

theorem parent?_modify {f : NodeData → NodeData} (hf : ∀ n, (f n).parent = n.parent) :
    (d.modify id f).parent? x = d.parent? x := by
  unfold parent?
  rw [node?_modify]
  split
  · cases d.node? x with
    | none => rfl
    | some n => exact hf n
  · rfl

theorem children_modify {f : NodeData → NodeData} (hf : ∀ n, (f n).children = n.children) :
    (d.modify id f).children x = d.children x := by
  unfold children
  rw [node?_modify]
  split
  · cases d.node? x with
    | none => rfl
    | some n => exact hf n
  · rfl

theorem kind?_modify {f : NodeData → NodeData} (hf : ∀ n, (f n).kind = n.kind) :
    (d.modify id f).kind? x = d.kind? x := by
  unfold kind?
  rw [node?_modify]
  split
  · cases d.node? x with
    | none => rfl
    | some n => exact congrArg some (hf n)
  · rfl

@[simp] theorem isSome_node?_modify (f : NodeData → NodeData) :
    ((d.modify id f).node? x).isSome = (d.node? x).isSome := by
  rw [node?_modify]
  split <;> simp

theorem parent?_setParent (hid : (d.node? id).isSome) (q : Option NodeId) :
    (d.modify id fun n => { n with parent := q }).parent? x =
      if x = id then q else d.parent? x := by
  obtain ⟨n, hn⟩ := Option.isSome_iff_exists.mp hid
  unfold parent?
  rw [node?_modify]
  by_cases hx : x = id
  · simp [hx, hn]
  · simp [hx]

theorem children_setChildren {g : List NodeId → List NodeId} (hg : g [] = []) :
    (d.modify id fun n => { n with children := g n.children }).children x =
      if x = id then g (d.children x) else d.children x := by
  unfold children
  rw [node?_modify]
  split
  · cases d.node? x with
    | none => exact hg.symm
    | some n => rfl
  · rfl

/-! ## Taking a slot -/

theorem parent?_alloc (h : d.SlotsAccounted) (kind : NodeKind) (x : NodeId) :
    (d.alloc kind).2.parent? x = d.parent? x := by
  obtain ⟨hvacant, hnode⟩ := node?_alloc h kind
  by_cases hx : x = (d.alloc kind).1
  · have hnew := hnode x
    rw [if_pos hx] at hnew
    rw [parent?_eq hnew, parent?_of_vacant (hx ▸ hvacant)]
  · rw [parent?, hnode, if_neg hx, parent?]

theorem children_alloc (h : d.SlotsAccounted) (kind : NodeKind) (x : NodeId) :
    (d.alloc kind).2.children x = d.children x := by
  obtain ⟨hvacant, hnode⟩ := node?_alloc h kind
  by_cases hx : x = (d.alloc kind).1
  · have hnew := hnode x
    rw [if_pos hx] at hnew
    rw [children_eq hnew, children_of_vacant (hx ▸ hvacant)]
  · rw [children, hnode, if_neg hx, children]

/-! ## Taking a node out of its parent -/

theorem parent?_detach (d : Document) (id x : NodeId) :
    (d.detach id).parent? x = if x = id then none else d.parent? x := by
  unfold detach
  split
  · next hnone =>
      by_cases hx : x = id
      · rw [if_pos hx, hx, hnone]
      · rw [if_neg hx]
  · next p hp =>
      obtain ⟨n, hn, -⟩ := exists_node_of_parent? hp
      have hlive : (d.node? id).isSome := by simp [hn]
      rw [parent?_setParent (by rwa [isSome_node?_modify])]
      split
      · rfl
      · exact parent?_modify fun _ => rfl

theorem children_detach (h : d.Treelike) (id x : NodeId) :
    (d.detach id).children x = (d.children x).filter (· != id) := by
  have hother : d.parent? id ≠ some x → (d.children x).filter (· != id) = d.children x := by
    intro hne
    refine List.filter_eq_self.mpr fun y hy => ?_
    have hyid : y ≠ id := fun he => hne (he ▸ (h.linked x y).mp hy)
    simpa using hyid
  unfold detach
  split
  · next hnone => exact (hother (by simp [hnone])).symm
  · next p hp =>
      refine (children_modify (by intro _; rfl)).trans ?_
      rw [children_setChildren (g := fun l => l.filter (· != id)) rfl]
      split
      · rfl
      · next hx => exact (hother fun he => hx (Option.some.inj (he.symm.trans hp))).symm

theorem kind?_detach (d : Document) (id x : NodeId) : (d.detach id).kind? x = d.kind? x := by
  unfold detach
  split
  · rfl
  · exact (kind?_modify (by intro _; rfl)).trans (kind?_modify (by intro _; rfl))

theorem SlotsAccounted.detach (h : d.SlotsAccounted) (id : NodeId) :
    (d.detach id).SlotsAccounted := by
  unfold Document.detach
  split
  · exact h
  · exact (h.modify _ _).modify _ _

theorem Treelike.detach (h : d.Treelike) (id : NodeId) : (d.detach id).Treelike := by
  have hsub : ∀ a b, (d.detach id).ChildOf a b → d.ChildOf a b := by
    intro a b hab
    rw [ChildOf, parent?_detach] at hab
    split at hab
    · cases hab
    · exact hab
  refine ⟨?_, ?_, ?_⟩
  · intro p c
    rw [children_detach h, ChildOf, parent?_detach, List.mem_filter, h.linked, ChildOf]
    by_cases hc : c = id <;> simp [hc]
  · intro p
    rw [children_detach h]
    exact (h.children_nodup p).filter _
  · intro x hcircle
    exact h.acyclic x (Relation.TransGen.mono hsub x x hcircle)

/-! ## Making a node the last child of another -/

theorem parent?_attach (hc : (d.node? c).isSome) (x : NodeId) :
    (d.attach p c).parent? x = if x = c then some p else d.parent? x := by
  unfold attach
  exact (parent?_modify (by intro _; rfl)).trans (parent?_setParent hc _)

theorem children_attach (hp : (d.node? p).isSome) (c x : NodeId) :
    (d.attach p c).children x = if x = p then d.children p ++ [c] else d.children x := by
  obtain ⟨n, hn⟩ := Option.isSome_iff_exists.mp hp
  unfold attach children
  rw [node?_modify]
  by_cases hx : x = p
  · subst hx
    by_cases hxc : x = c
    · subst hxc
      simp [hn]
    · simp [hn, hxc]
  · rw [if_neg hx, if_neg hx]
    exact children_modify fun _ => rfl

theorem kind?_attach (d : Document) (p c x : NodeId) : (d.attach p c).kind? x = d.kind? x := by
  unfold attach
  exact (kind?_modify (by intro _; rfl)).trans (kind?_modify (by intro _; rfl))

theorem SlotsAccounted.attach (h : d.SlotsAccounted) (p c : NodeId) :
    (d.attach p c).SlotsAccounted :=
  (h.modify _ _).modify _ _

/-- A node that has no parent may be linked to any node that is not below it. -/
theorem Treelike.attach (h : d.Treelike) (hp : (d.node? p).isSome) (hc : (d.node? c).isSome)
    (hfree : d.parent? c = none) (hno : ¬d.Under p c) : (d.attach p c).Treelike := by
  refine ⟨?_, ?_, acyclic_of_link (c := c) (p := p) h.acyclic ?_ hno⟩
  · intro q x
    rw [children_attach hp, ChildOf, parent?_attach hc]
    by_cases hx : x = c
    · subst hx
      have hnot := h.not_mem_children hfree
      by_cases hq : q = p
      · simp [hq]
      · have hpq : ¬p = q := fun he => hq he.symm
        simp [hq, hpq, hnot q]
    · have hold := h.linked q x
      rw [ChildOf] at hold
      by_cases hq : q = p
      · subst hq
        simpa [hx] using hold
      · simpa [hx, hq] using hold
  · intro q
    rw [children_attach hp]
    split
    · refine List.nodup_append'.mpr ⟨h.children_nodup p, List.nodup_singleton c, ?_⟩
      intro x hx hxc
      obtain rfl := List.mem_singleton.mp hxc
      exact h.not_mem_children hfree p hx
    · exact h.children_nodup q
  · intro a b hab
    rw [ChildOf, parent?_attach hc] at hab
    split at hab
    · next ha => exact Or.inr ⟨ha, (Option.some.inj hab).symm⟩
    · exact Or.inl hab

/-! ## Linking a node in the place of another -/

theorem parent?_link (hold : (d.node? old).isSome) (hnew : (d.node? new).isSome)
    (hfree : d.parent? new = none) (x : NodeId) :
    (d.link old new).parent? x =
      if x = old then none else if x = new then d.parent? old else d.parent? x := by
  unfold link
  dsimp only
  cases hp : d.parent? old with
  | none =>
      rw [parent?_setParent hold]
      by_cases hx : x = new
      · rw [if_pos hx, hx, hfree]
      · rw [if_neg hx]
  | some p =>
      dsimp only
      rw [parent?_setParent (by rwa [isSome_node?_modify, isSome_node?_modify]),
        parent?_setParent (by rwa [isSome_node?_modify])]
      split
      · rfl
      · split
        · rfl
        · exact parent?_modify (by intro _; rfl)

theorem children_link (d : Document) (old new x : NodeId) :
    (d.link old new).children x =
      if d.parent? old = some x then (d.children x).replace old new else d.children x := by
  unfold link
  refine (children_modify (by intro _; rfl)).trans ?_
  cases hp : d.parent? old with
  | none => simp
  | some p =>
      refine (children_modify (by intro _; rfl)).trans ?_
      rw [children_setChildren (g := fun l => l.replace old new) rfl]
      by_cases hx : x = p
      · simp [hx]
      · have hpx : ¬p = x := fun he => hx he.symm
        simp [hx, hpx]

theorem kind?_link (d : Document) (old new x : NodeId) : (d.link old new).kind? x = d.kind? x := by
  unfold link
  refine (kind?_modify (by intro _; rfl)).trans ?_
  split
  · exact (kind?_modify (by intro _; rfl)).trans (kind?_modify (by intro _; rfl))
  · rfl

/-- An entry of a list without repetition gives way to another one. -/
theorem exists_replace {l : List NodeId} (hnodup : l.Nodup) (hold : old ∈ l) (new : NodeId) :
    ∃ before after, l = before ++ old :: after ∧ l.replace old new = before ++ new :: after := by
  obtain ⟨before, after, rfl⟩ := List.append_of_mem hold
  have hbefore : old ∉ before := fun hm =>
    (List.nodup_append'.mp hnodup).2.2 hm List.mem_cons_self
  refine ⟨before, after, rfl, ?_⟩
  rw [List.replace_append_right hbefore]
  simp

theorem mem_replace_iff {l : List NodeId} (hnodup : l.Nodup) (hold : old ∈ l) :
    x ∈ l.replace old new ↔ x = new ∨ x ≠ old ∧ x ∈ l := by
  obtain ⟨before, after, rfl, hreplaced⟩ := exists_replace hnodup hold new
  rw [hreplaced]
  simp only [List.nodup_append', List.nodup_cons, List.disjoint_cons_right, List.mem_append,
    List.mem_cons] at hnodup ⊢
  by_cases hx : x = old
  · simp [hx, hnodup]
  · simp only [hx, ne_eq, not_false_eq_true, false_or, true_and]
    tauto

theorem nodup_replace {l : List NodeId} (hnodup : l.Nodup) (hold : old ∈ l) (hnew : new ∉ l) :
    (l.replace old new).Nodup := by
  obtain ⟨before, after, rfl, hreplaced⟩ := exists_replace hnodup hold new
  rw [hreplaced]
  simp only [List.nodup_append', List.nodup_cons, List.disjoint_cons_right, List.mem_append,
    List.mem_cons, not_or] at hnodup hnew ⊢
  exact ⟨hnodup.1, ⟨hnew.2.2, hnodup.2.1.2⟩, hnew.1, hnodup.2.2.2⟩

theorem Treelike.mem_children_link (h : d.Treelike) (old new q x : NodeId) :
    x ∈ (d.link old new).children q ↔
      x = new ∧ d.parent? old = some q ∨ x ≠ old ∧ x ∈ d.children q := by
  rw [children_link]
  split
  · next hq =>
      rw [mem_replace_iff (h.children_nodup q) ((h.linked q old).mpr hq)]
      simp [hq]
  · next hq =>
      have hold : old ∉ d.children q := fun hm => hq ((h.linked q old).mp hm)
      have hx : x ∈ d.children q → x ≠ old := fun hm he => hold (he ▸ hm)
      simpa [hq] using hx

/-- The only link that is new runs from the new node to the parent of the old one. -/
theorem Treelike.acyclic_link (h : d.Treelike) (hold : (d.node? old).isSome)
    (hnew : (d.node? new).isSome) (hfree : d.parent? new = none) (hno : ¬d.Under old new) :
    ∀ x, ¬Relation.TransGen (d.link old new).ChildOf x x := by
  have hlink := parent?_link hold hnew hfree
  cases hp : d.parent? old with
  | none =>
      -- no link is added
      intro x hcircle
      refine h.acyclic x (Relation.TransGen.mono (fun a b hab => ?_) x x hcircle)
      rw [ChildOf, hlink, hp] at hab
      split at hab
      · cases hab
      · split at hab
        · cases hab
        · exact hab
  | some p =>
      refine acyclic_of_link (c := new) (p := p) h.acyclic ?_ fun hpn => hno (.head hp hpn)
      intro a b hab
      rw [ChildOf, hlink, hp] at hab
      split at hab
      · cases hab
      · split at hab
        · next ha => exact Or.inr ⟨ha, (Option.some.inj hab).symm⟩
        · exact Or.inl hab

/-- A node that has no parent may take the place of any node that is not strictly below it. -/
theorem Treelike.link (h : d.Treelike) (hold : (d.node? old).isSome) (hnew : (d.node? new).isSome)
    (hfree : d.parent? new = none) (hno : ¬d.Under old new) : (d.link old new).Treelike := by
  have hne : new ≠ old := fun he => hno (he ▸ .refl)
  refine ⟨?_, ?_, h.acyclic_link hold hnew hfree hno⟩
  · intro q x
    rw [h.mem_children_link, ChildOf, parent?_link hold hnew hfree, h.linked, ChildOf]
    by_cases hxo : x = old
    · simp [hxo, hne.symm]
    · by_cases hxn : x = new
      · simp [hxn, hne, hfree]
      · simp [hxo, hxn]
  · intro q
    rw [children_link]
    split
    · next hq =>
        exact nodup_replace (h.children_nodup q) ((h.linked q old).mpr hq)
          (h.not_mem_children hfree q)
    · exact h.children_nodup q

/-! ## Freeing a node with all below it -/

theorem Holds.mem_ids_of_under {parent : Option NodeId} {f : Forest} (hf : d.Holds parent f)
    (hlinked : ∀ p c, c ∈ d.children p ↔ d.ChildOf c p) (hid : id ∈ f.ids) (hx : d.Under x id) :
    x ∈ f.ids := by
  induction hx using Relation.ReflTransGen.head_induction_on with
  | refl => exact hid
  | head hxy _ ih => exact (hf.children_of_mem_ids ih ((hlinked _ _).mpr hxy)).1

/-- All slots below a node are vacant afterwards, and no other slot has changed. -/
def Vacated (d : Document) (id : NodeId) (d' : Document) : Prop :=
  ∀ x, (d.Under x id → d'.node? x = none) ∧ (¬d.Under x id → d'.node? x = d.node? x)

theorem Treelike.freeSubtree (h : d.Treelike) (haccounted : d.SlotsAccounted)
    (hid : (d.node? id).isSome) :
    d.Vacated id (d.freeSubtree id) ∧ (d.freeSubtree id).SlotsAccounted := by
  obtain ⟨n, hn⟩ := Option.isSome_iff_exists.mp hid
  obtain ⟨below, hholds, hnodup⟩ := h.exists_tree hn
  obtain ⟨hnode, hacc⟩ := node?_freeSubtree haccounted hholds hnodup
  refine ⟨fun x => ⟨fun hx => ?_, fun hx => ?_⟩, hacc⟩
  · have hmem := hholds.mem_ids_of_under h.linked List.mem_cons_self hx
    rw [hnode, if_pos hmem]
  · rw [hnode, if_neg]
    intro hmem
    obtain ⟨r, hr, hu⟩ := hholds.under_root hmem
    obtain rfl : r = id := by simpa [Forest.roots] using hr
    exact hx hu

/-- What is left when a node without a parent was freed with all below it. -/
theorem Vacated.treelike (hfreed : d.Vacated id d') (h : d.Treelike) (hid : d.parent? id = none) :
    d'.Treelike := by
  have hgone : ∀ {x}, d.Under x id → d'.parent? x = none ∧ d'.children x = [] := by
    intro x hx
    have hnone := (hfreed x).1 hx
    exact ⟨parent?_of_vacant hnone, children_of_vacant hnone⟩
  have hstay : ∀ {x}, ¬d.Under x id →
      d'.parent? x = d.parent? x ∧ d'.children x = d.children x := by
    intro x hx
    have hsame := (hfreed x).2 hx
    simp only [parent?, children, hsame, and_self]
  have hsub : ∀ a b, d'.ChildOf a b → d.ChildOf a b := by
    intro a b hab
    by_cases ha : d.Under a id
    · rw [ChildOf, (hgone ha).1] at hab
      cases hab
    · rwa [ChildOf, (hstay ha).1] at hab
  refine ⟨?_, ?_, ?_⟩
  · intro p c
    by_cases hp : d.Under p id
    · -- the children of a freed node are freed with it
      rw [(hgone hp).2]
      refine ⟨fun hm => absurd hm List.not_mem_nil, fun hc => ?_⟩
      have hcid : d.Under c id := .head (hsub c p hc) hp
      rw [ChildOf, (hgone hcid).1] at hc
      cases hc
    · rw [(hstay hp).2, h.linked]
      by_cases hc : d.Under c id
      · have hnot : ¬d.ChildOf c p := by
          intro hcp
          rcases hc.cases_head with rfl | ⟨q, hq, hqid⟩
          · rw [ChildOf, hid] at hcp
            cases hcp
          · exact hp (childOf_rightUnique d hq hcp ▸ hqid)
        refine ⟨fun hcp => absurd hcp hnot, fun hcp => absurd (hsub c p hcp) hnot⟩
      · rw [ChildOf, ChildOf, (hstay hc).1]
  · intro p
    by_cases hp : d.Under p id
    · rw [(hgone hp).2]
      exact List.nodup_nil
    · rw [(hstay hp).2]
      exact h.children_nodup p
  · intro x hcircle
    exact h.acyclic x (Relation.TransGen.mono hsub x x hcircle)

end LiveMarkup.Document
