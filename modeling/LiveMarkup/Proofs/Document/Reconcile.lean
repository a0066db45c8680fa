import LiveMarkup.Proofs.Document.Log
import LiveMarkup.Proofs.Document.Patched
set_option autoImplicit false

/-! # Reconciliation is correct and local

`reconciled_reconcile` says what a reconciliation does to a well-formed document: the node that
stands in the place of the old one afterwards has the markup of the fresh one, it is the old one
itself or a copy, and outside the old subtree nothing but one entry of one list of children is
another. The walk is understood on the forests that the two documents hold: `patches_patchNode`
treats one node when its children can be patched, `exists_replaces_patchChildren` is the induction.
Both say what becomes of every single tree (`Forest.Patched`) and which nodes are touched
(`Forest.Differs`). -/

namespace LiveMarkup.Document

variable {d source : Document} {parent q : Option NodeId} {before after : List NodeId}
  {f g : Forest} {old new : NodeId} {kind kind' : NodeKind} {below below' : Forest} {depth : Nat}

/-! ## One node -/

theorem Placed.setText {current wanted : String}
    (h : d.Placed parent before after (.tree old (.text current) below)) :
    Replaces d (d.setText old wanted) parent before after (.tree old (.text current) below)
      (.tree old (.text wanted) below) := by
  have htext : d.text? old = some current := by rw [text?, kind?_eq h.holds.1]
  rw [Document.setText, htext]
  exact (h.retext wanted).record _

/-- What patching a placed tree does: the patched tree stands in its place, on top of it the old node
if it can be patched and else a copy of the fresh one. What is changed is logged, and nothing but
nodes that differ from the fresh tree is touched. -/
def Patches (d source : Document) (parent : Option NodeId) (before after : List NodeId)
    (old new : NodeId) (kind kind' : NodeKind) (below below' : Forest) (r : NodeId × Document) :
    Prop :=
  Logged (Forest.Differs (.tree old kind below) (.tree new kind' below')) d r.2 ∧ ∃ kind₁ below₁,
    Replaces d r.2 parent before after (.tree old kind below) (.tree r.1 kind₁ below₁) ∧
      Forest.Patched source (.tree old kind below) (.tree new kind' below')
        (.tree r.1 kind₁ below₁) ∧
      (NodeKind.Patchable kind kind' → r.1 = old) ∧
      (¬NodeKind.Patchable kind kind' →
        d.node? r.1 = none ∧ ∃ d₁, d.import? source new = some (r.1, d₁))

theorem patches_replaceByCopy
    (h : d.Placed parent before after (.tree old kind below)) (hroot : old ≠ root)
    (hsource : source.Holds q (.tree new kind' below'))
    (hnodup : (Forest.tree new kind' below').ids.Nodup)
    (hsound : (Forest.tree new kind' below').Sound) (hnot : ¬NodeKind.Patchable kind kind') :
    Patches d source parent before after old new kind kind' below below'
      (d.replaceByCopy old source new) := by
  obtain ⟨copy, d₁, f, himport, hvacant, hfst, hrel, hreplaces⟩ :=
    h.replaceByCopy hroot hsource hnodup hsound
  rw [← hfst] at himport hvacant hreplaces
  have hdiffers : Forest.Differs (.tree old kind below) (.tree new kind' below') old :=
    .markup _ _ fun halike => hnot (NodeKind.Patchable.of_alike halike.1)
  exact ⟨logged_replaceByCopy hdiffers h.accounted (by simp [h.holds.1]) hroot source new, kind', f,
    hreplaces, .replaced hnot hrel (.removed _), fun hp => absurd hp hnot,
    fun _ => ⟨hvacant, d₁, himport⟩⟩

/-- Patching one node, when its children can be patched. -/
theorem patches_patchNode (h : d.Placed parent before after (.tree old kind below))
    (hroot : root ∉ (Forest.tree old kind below).ids)
    (hsource : source.Holds q (.tree new kind' below'))
    (hnodup : (Forest.tree new kind' below').ids.Nodup)
    (hsound : (Forest.tree new kind' below').Sound)
    (hchildren : ∀ {d : Document} {p : NodeId} {f : Forest}, d.Placed (some p) [] [] f →
      root ∉ f.ids →
        Logged (fun x => x = p ∨ Forest.Differs f below' x) d
          (patchChildren (patchNode source depth) p source d f.roots below'.roots) ∧
        ∃ f₁,
          Replaces d (patchChildren (patchNode source depth) p source d f.roots below'.roots)
            (some p) [] [] f f₁ ∧ Forest.Patched source f below' f₁) :
    Patches d source parent before after old new kind kind' below below'
      (patchNode source (depth + 1) d old new) := by
  have hold : old ≠ root := fun he => hroot (he ▸ List.mem_cons_self)
  have hkind := kind?_eq h.holds.1
  have hkind' := kind?_eq hsource.1
  rw [patchNode]
  by_cases hequal : d.deepEqual old source new = true
  · rw [if_pos hequal]
    have halike := (h.holds.deepEqual_iff h.nodup hsource).mp hequal
    exact ⟨Logged.refl _ d, kind, below, Replaces.refl h, .same halike (.removed _), fun _ => rfl,
      fun hnot => absurd (NodeKind.Patchable.of_alike halike.1) hnot⟩
  rw [if_neg hequal, hkind, hkind']
  have hother : ¬(Forest.tree old kind below).Alike (.tree new kind' below') :=
    fun halike => hequal ((h.holds.deepEqual_iff h.nodup hsource).mpr halike)
  have hdiffers : Forest.Differs (.tree old kind below) (.tree new kind' below') old :=
    .markup _ _ hother
  cases kind with
  | text current =>
      cases kind' with
      | element b => exact patches_replaceByCopy h hold hsource hnodup hsound id
      | text wanted =>
          -- texts have nothing below them, so the contents differ
          obtain rfl : below = .nil := h.sound.1 current rfl
          obtain rfl : below' = .nil := hsound.1 wanted rfl
          have hne : current ≠ wanted := by
            rintro rfl
            exact hother ⟨by simp [NodeKind.alike], trivial, trivial⟩
          simp only [if_neg hne]
          exact ⟨logged_setText hdiffers .., .text wanted, .nil, h.setText, .text hne (.removed _),
            fun _ => rfl, fun hnot => absurd trivial hnot⟩
  | element a =>
      cases kind' with
      | text wanted => exact patches_replaceByCopy h hold hsource hnodup hsound id
      | element b =>
          by_cases htag : a.tag = b.tag
          · simp only [if_pos htag]
            have hela : d.element? old = some a := by rw [element?, hkind]
            have helb : source.element? new = some b := by rw [element?, hkind']
            obtain ⟨e, htouch, hpatched⟩ :=
              exists_touches_patched hela helb htag (h.sound.2.1 a rfl) (hsound.2.1 b rfl)
            -- first the attributes of the node itself, then what is below it
            have hfirst := h.touch htouch hpatched.namesUnique
            obtain ⟨hlogged, f₁, hbelow, hinside⟩ := hchildren hfirst.placed.descend
              fun hm => hroot (by simp [Forest.ids, hm])
            have hsecond := hbelow.inside hfirst.placed (by rintro s ⟨⟩)
            have hlog := (logged_patchElement hdiffers d source new).trans <| hlogged.mono <| by
              rintro x (rfl | hx)
              · exact hdiffers
              · exact .inside _ _ _ _ _ _ hx
            rw [children_eq hfirst.placed.holds.1, children_eq hsource.1]
            exact ⟨hlog, .element e, f₁, hfirst.trans h hsecond,
              .element hother htag hpatched hinside (.removed _), fun _ => rfl,
              fun hnot => absurd htag hnot⟩
          · simp only [if_neg htag]
            exact patches_replaceByCopy h hold hsource hnodup hsound htag

/-! ## Children -/

/-- Live children without a counterpart are removed. -/
theorem replaces_surplus {p : NodeId} (patch : Document → NodeId → NodeId → NodeId × Document)
    (h : d.Placed (some p) before [] f) (hroot : root ∉ f.ids) :
    Logged (f.Differs .nil) d (patchChildren patch p source d f.roots []) ∧
      Replaces d (patchChildren patch p source d f.roots []) (some p) before [] f .nil := by
  induction f generalizing d before with
  | nil =>
      rw [Forest.roots, patchChildren]
      exact ⟨Logged.refl _ d, Replaces.refl h⟩
  | cons id kind below next _ ihn =>
      have hplaced : d.Placed (some p) before [] ((Forest.tree id kind below).append next) := h
      have hid : id ≠ root := fun he => hroot (he ▸ List.mem_cons_self)
      have hfirst := hplaced.left.remove hid
      obtain ⟨hlogged, hrest⟩ :=
        ihn (hplaced.right hfirst) fun hm => hroot (by simp [Forest.ids, hm])
      rw [Forest.roots, patchChildren]
      exact ⟨(logged_remove (.surplus ..) d).trans (hlogged.mono fun _ hx => .besideSurplus _ _ _ hx),
        Replaces.beside hplaced hfirst hrest⟩

/-- Patching children by position patches tree by tree. Besides children that differ at most their
parent is touched. -/
theorem exists_replaces_patchChildren {p : NodeId} (h : d.Placed (some p) before [] f)
    (hroot : root ∉ f.ids) (hg : source.Holds q g) (hnodup : g.ids.Nodup) (hsound : g.Sound)
    (hdepth : g.height ≤ depth) :
    Logged (fun x => x = p ∨ f.Differs g x) d
      (patchChildren (patchNode source depth) p source d f.roots g.roots) ∧
    ∃ f₁, Replaces d (patchChildren (patchNode source depth) p source d f.roots g.roots) (some p)
      before [] f f₁ ∧ Forest.Patched source f g f₁ := by
  -- on the fresh forest: what is below its first node serves the patch of that node, what is next
  -- to it the rest of the children
  induction g generalizing d p before f q depth with
  | nil =>
      obtain ⟨hlogged, hsurplus⟩ := replaces_surplus _ h hroot
      exact ⟨hlogged.mono fun _ hx => .inr hx, .nil, hsurplus, .removed f⟩
  | cons new kind' below' next' ihb ihn =>
      obtain ⟨depth, rfl, hlow, hlevel⟩ := Forest.exists_bound_of_height_le hdepth
      obtain ⟨hnew, hrest⟩ := List.nodup_cons.mp hnodup
      obtain ⟨hbn, hnn, -⟩ := List.nodup_append'.mp hrest
      have htree : source.Holds q (.tree new kind' below') := ⟨hg.1, hg.2.1, trivial⟩
      have htreeNodup := Forest.nodup_ids_tree hnodup
      have htreeSound : (Forest.tree new kind' below').Sound :=
        ⟨hsound.1, hsound.2.1, hsound.2.2.1, trivial⟩
      cases f with
      | nil =>
          have hcopied := import?_spec h.accounted htree htreeNodup htreeSound
          obtain ⟨copy, d₁, b₁, himport, hcopy, hrel⟩ := hcopied
          have hfirst := Replaces.appendChild h hcopy
          obtain ⟨hlogged, f₁, hnext, hpatched⟩ :=
            ihn (h.behind hfirst) hroot hg.2.2 hnn hsound.2.2.2 hlevel
          refine ⟨?_, .cons copy kind' b₁ f₁, ?_, .appended hrel hpatched⟩
          · simp only [Forest.roots, patchChildren, himport]
            refine (logged_appendChild (.inl rfl) (log_importFrom himport) copy).trans ?_
            refine hlogged.mono ?_
            rintro x (rfl | hx)
            · exact .inl rfl
            · cases hx
          · simp only [Forest.roots, patchChildren, himport]
            exact h.replaces_cons hfirst hnext
      | cons old kind below next =>
          have hplaced : d.Placed (some p) before [] ((Forest.tree old kind below).append next) := h
          have hheadRoot : root ∉ (Forest.tree old kind below).ids := fun hm =>
            hroot (by simp only [Forest.ids, List.mem_cons, List.mem_append,
              List.append_nil] at hm ⊢; tauto)
          obtain ⟨hheadLogged, kind₁, b₁, hfirst, hheadPatched, -, -⟩ :=
            patches_patchNode hplaced.left hheadRoot
            htree htreeNodup htreeSound
            fun hp hr => ihb hp hr hg.2.1 hbn hsound.2.2.1 hlow
          obtain ⟨hlogged, f₁, hnext, hpatched⟩ := ihn (hplaced.right hfirst)
            (fun hm => hroot (by simp [Forest.ids, hm])) hg.2.2 hnn hsound.2.2.2 hlevel
          let r := (patchNode source (depth + 1) d old new).1
          refine ⟨?_, (Forest.tree r kind₁ b₁).append f₁, ?_, hheadPatched.beside hpatched⟩
          · rw [Forest.roots, Forest.roots, patchChildren]
            refine (hheadLogged.mono fun x hx => .inr (hx.grow _ _)).trans (hlogged.mono ?_)
            rintro x (rfl | hx)
            · exact .inl rfl
            · exact .inr (.beside _ _ _ _ _ _ hx)
          · rw [Forest.roots, Forest.roots, patchChildren]
            exact Replaces.beside hplaced hfirst hnext

/-! ## The whole reconciliation -/

/-- Whether both nodes are texts, or both elements of one tag. -/
def Patchable (d : Document) (old : NodeId) (source : Document) (new : NodeId) : Prop :=
  (d.text? old).isSome ∧ (source.text? new).isSome ∨
    ∃ tag, d.tag? old = some tag ∧ source.tag? new = some tag

theorem patchable_iff (hold : d.kind? old = some kind) (hnew : source.kind? new = some kind') :
    d.Patchable old source new ↔ NodeKind.Patchable kind kind' := by
  unfold Patchable tag? element? text?
  rw [hold, hnew]
  cases kind <;> cases kind' <;> simp [NodeKind.Patchable, eq_comm]

/-- What it means that `old` was made like `new`: the node `r` stands in its place, and the document
has become `d'`. -/
structure Reconciled (d : Document) (old : NodeId) (source : Document) (new : NodeId) (r : NodeId)
    (d' : Document) : Prop where
  equal : d'.deepEqual r source new = true
  parent_same : d'.parent? r = d.parent? old
  /-- The place of `old` among its siblings is the place of `r`. -/
  slot : ∀ p before after, d.children p = before ++ old :: after →
    d'.children p = before ++ r :: after
  kept : d.Patchable old source new → r = old
  /-- A node that cannot be patched is replaced by a copy in a slot that was vacant. -/
  copied : ¬d.Patchable old source new →
    d.node? r = none ∧ ∃ d₁, d.import? source new = some (r, d₁)
  /-- Nodes outside the subtree of `old` keep their kind (with attributes, live value and
  properties), their parent and, but for the one slot, their children. -/
  outside : ∀ x, (d.node? x).isSome → ¬d.Under x old →
    d'.kind? x = d.kind? x ∧ d'.parent? x = d.parent? x ∧
      (d.parent? old ≠ some x → d'.children x = d.children x)
  wellFormed : d'.WellFormed

/-- A reconciliation patches the tree under `old` at any place where it stands. -/
theorem exists_patches_reconcile {n m : NodeData} (h : d.WellFormed) (hsource : source.WellFormed)
    (before after : List NodeId) (hold : d.node? old = some n) (hroot : old ≠ root)
    (hnew : source.node? new = some m)
    (hsome : ∀ p, d.parent? old = some p → d.children p = before ++ old :: after)
    (hnone : d.parent? old = none → before = [] ∧ after = []) :
    ∃ below below', d.Placed (d.parent? old) before after (.tree old n.kind below) ∧
      source.Holds (source.parent? new) (.tree new m.kind below') ∧
      root ∉ (Forest.tree old n.kind below).ids ∧
      Patches d source (d.parent? old) before after old new n.kind m.kind below below'
        (d.reconcile old source new) := by
  obtain ⟨below, hplaced⟩ := h.exists_placed hold hsome hnone
  obtain ⟨below', hholds, hnodup, hsound⟩ := hsource.exists_tree hnew
  have hrootOut : root ∉ (Forest.tree old n.kind below).ids := by
    intro hm
    obtain ⟨r, hr, hu⟩ := hplaced.holds.under_root hm
    obtain rfl : r = old := by simpa [Forest.roots] using hr
    exact h.root_not_under hroot hu
  have hheight : below'.height ≤ source.slots.size := by
    have := hholds.height_le hnodup
    simp only [Forest.height] at this
    omega
  refine ⟨below, below', hplaced, hholds, hrootOut, ?_⟩
  refine patches_patchNode hplaced hrootOut hholds hnodup hsound ?_
  intro d p f hp hr
  refine exists_replaces_patchChildren hp hr hholds.2.1 ?_ hsound.2.2.1 hheight
  exact ((List.nodup_cons.mp hnodup).2).of_append_left

section

variable (h : d.WellFormed) (hsource : source.WellFormed) (hold : (d.node? old).isSome)
  (hroot : old ≠ root) (hnew : (source.node? new).isSome)

include h hsource hold hroot hnew

theorem deepEqual_reconcile :
    (d.reconcile old source new).2.deepEqual (d.reconcile old source new).1 source new = true := by
  obtain ⟨n, hn⟩ := Option.isSome_iff_exists.mp hold
  obtain ⟨m, hm⟩ := Option.isSome_iff_exists.mp hnew
  obtain ⟨before, after, hsome, hnone⟩ := h.exists_beside old
  obtain ⟨below, below', -, hholds, -, -, kind₁, below₁, hedit, hpatched, -⟩ :=
    exists_patches_reconcile h hsource before after hn hroot hm hsome hnone
  exact (hedit.placed.holds.deepEqual_iff hedit.placed.nodup hholds).mpr
    (hpatched.alike (hsource.sound_of_holds hholds))

theorem wellFormed_reconcile : (d.reconcile old source new).2.WellFormed := by
  obtain ⟨n, hn⟩ := Option.isSome_iff_exists.mp hold
  obtain ⟨m, hm⟩ := Option.isSome_iff_exists.mp hnew
  obtain ⟨before, after, hsome, hnone⟩ := h.exists_beside old
  obtain ⟨below, below', hplaced, -, hrootOut, -, kind₁, below₁, hedit, -⟩ :=
    exists_patches_reconcile h hsource before after hn hroot hm hsome hnone
  exact hedit.wellFormed hplaced h hrootOut fun p hp => h.text?_of_child hp

/-- A node that can be patched stays; any other is replaced by a copy in a slot that was vacant. -/
theorem kept_or_copied_reconcile :
    (d.Patchable old source new → (d.reconcile old source new).1 = old) ∧
      (¬d.Patchable old source new → d.node? (d.reconcile old source new).1 = none ∧
        ∃ d₁, d.import? source new = some ((d.reconcile old source new).1, d₁)) := by
  obtain ⟨n, hn⟩ := Option.isSome_iff_exists.mp hold
  obtain ⟨m, hm⟩ := Option.isSome_iff_exists.mp hnew
  obtain ⟨before, after, hsome, hnone⟩ := h.exists_beside old
  obtain ⟨below, below', -, -, -, -, kind₁, below₁, -, -, hkept, hcopied⟩ :=
    exists_patches_reconcile h hsource before after hn hroot hm hsome hnone
  have hpatchable := patchable_iff (kind?_eq hn) (kind?_eq hm)
  exact ⟨fun hp => hkept (hpatchable.mp hp), fun hnot => hcopied (mt hpatchable.mpr hnot)⟩

/-- Nodes outside the subtree of `old` stay as they are, but for the one slot. -/
theorem outside_reconcile {x : NodeId} (hx : (d.node? x).isSome) (hunder : ¬d.Under x old) :
    (d.reconcile old source new).2.kind? x = d.kind? x ∧
      (d.reconcile old source new).2.parent? x = d.parent? x ∧
      (d.parent? old ≠ some x → (d.reconcile old source new).2.children x = d.children x) := by
  obtain ⟨n, hn⟩ := Option.isSome_iff_exists.mp hold
  obtain ⟨m, hm⟩ := Option.isSome_iff_exists.mp hnew
  obtain ⟨before, after, hsome, hnone⟩ := h.exists_beside old
  obtain ⟨below, below', hplaced, -, -, -, kind₁, below₁, hedit, -⟩ :=
    exists_patches_reconcile h hsource before after hn hroot hm hsome hnone
  have hxold : x ∉ (Forest.tree old n.kind below).ids := by
    intro hmem
    obtain ⟨r, hr, hu⟩ := hplaced.holds.under_root hmem
    obtain rfl : r = old := by simpa [Forest.roots] using hr
    exact hunder hu
  exact hedit.outside hxold (hedit.not_mem_of_live hxold hx)

end

theorem reconciled_reconcile (h : d.WellFormed) (hsource : source.WellFormed)
    (hold : (d.node? old).isSome) (hroot : old ≠ root) (hnew : (source.node? new).isSome) :
    Reconciled d old source new (d.reconcile old source new).1 (d.reconcile old source new).2 := by
  obtain ⟨n, hn⟩ := Option.isSome_iff_exists.mp hold
  obtain ⟨m, hm⟩ := Option.isSome_iff_exists.mp hnew
  obtain ⟨hkept, hcopied⟩ := kept_or_copied_reconcile h hsource hold hroot hnew
  refine ⟨?_, ?_, ?_, hkept, hcopied, ?_, ?_⟩
  · exact deepEqual_reconcile h hsource hold hroot hnew
  · obtain ⟨before, after, hsome, hnone⟩ := h.exists_beside old
    obtain ⟨below, below', -, -, -, -, kind₁, below₁, hedit, -⟩ :=
      exists_patches_reconcile h hsource before after hn hroot hm hsome hnone
    exact parent?_eq hedit.placed.holds.1
  · intro p before after hsplit
    have hp : d.parent? old = some p := by
      rw [← ChildOf, ← h.linked, hsplit]
      exact List.mem_append_right _ List.mem_cons_self
    obtain ⟨below, below', -, -, -, -, kind₁, below₁, hedit, -⟩ :=
      exists_patches_reconcile h hsource before after hn hroot hm
        (fun p' hp' => by rw [← hsplit, Option.some.inj (hp.symm.trans hp')])
        (fun hnone => by simp [hp] at hnone)
    obtain ⟨-, k, hk, hchildren⟩ := hedit.placed.above p hp
    rw [children_eq hk, hchildren]
    rfl
  · exact fun x hx hunder => outside_reconcile h hsource hold hroot hnew hx hunder
  · exact wellFormed_reconcile h hsource hold hroot hnew

/-- A list of two items, with a text in the first, and a fresh list of one other item and a
paragraph: the first item is patched, the second one replaced. -/
theorem reconciled_reconcile_list :
    let live : Document :=
      ⟨#[some ⟨.element (.ofTag rootTag []), none, [1]⟩,
        some ⟨.element (.ofTag "ul" [("class", "old"), ("id", "l")]), some 0, [2, 4]⟩,
        some ⟨.element (.ofTag "li" []), some 1, [3]⟩, some ⟨.text "one", some 2, []⟩,
        some ⟨.element (.ofTag "li" []), some 1, []⟩], [], #[]⟩
    let source : Document :=
      ⟨#[some ⟨.element (.ofTag rootTag []), none, [1]⟩,
        some ⟨.element (.ofTag "ul" [("id", "l"), ("class", "new")]), some 0, [2, 4]⟩,
        some ⟨.element (.ofTag "li" []), some 1, [3]⟩, some ⟨.text "two", some 2, []⟩,
        some ⟨.element (.ofTag "p" []), some 1, []⟩], [], #[]⟩
    live.WellFormed ∧ source.WellFormed ∧
      Reconciled live 1 source 1 (live.reconcile 1 source 1).1 (live.reconcile 1 source 1).2 := by
  intro live source
  have hlive : live.WellFormed := wellFormed_of_isOrdered (by decide +kernel)
  have hsource : source.WellFormed := wellFormed_of_isOrdered (by decide +kernel)
  exact ⟨hlive, hsource, reconciled_reconcile hlive hsource rfl (by decide) rfl⟩

/-! ## Nothing to reconcile -/

theorem live_of_deepEqual {a b : NodeId} (h : d.deepEqual a source b = true) :
    (d.node? a).isSome := by
  unfold deepEqual depthBound at h
  rw [equalTrees] at h
  cases hn : d.node? a with
  | none => simp [hn] at h
  | some n => rfl

/-- A reconciliation logs no change of the tree exactly when the trees are the same already. -/
theorem treeLog_reconcile (h : d.WellFormed) (hsource : source.WellFormed)
    (hold : (d.node? old).isSome) (hroot : old ≠ root) (hnew : (source.node? new).isSome) :
    (d.reconcile old source new).2.treeLog = d.treeLog ↔ d.deepEqual old source new = true := by
  obtain ⟨n, hn⟩ := Option.isSome_iff_exists.mp hold
  obtain ⟨m, hm⟩ := Option.isSome_iff_exists.mp hnew
  constructor
  · intro hquiet
    obtain ⟨before, after, hsome, hnone⟩ := h.exists_beside old
    obtain ⟨below, below', -, -, -, hlogged, -⟩ :=
      exists_patches_reconcile h hsource before after hn hroot hm hsome hnone
    have hsame := hlogged.sameTree hquiet
    have hequal := deepEqual_reconcile h hsource hold hroot hnew
    obtain ⟨hpatched, hcopied⟩ := kept_or_copied_reconcile h hsource hold hroot hnew
    rw [hsame.deepEqual] at hequal
    -- a copy would stand in a slot that is still vacant
    have hkept : (d.reconcile old source new).1 = old := by
      by_contra hne
      have hvacant := (hcopied (mt hpatched hne)).1
      have hlive := live_of_deepEqual hequal
      simp [hvacant] at hlive
    rwa [hkept] at hequal
  · intro hequal
    rw [reconcile, depthBound, patchNode, if_pos hequal]

end LiveMarkup.Document
