import LiveMarkup.Document.Parse
import LiveMarkup.Proofs.Document.InPlace
import LiveMarkup.Proofs.Document.Links
import LiveMarkup.Proofs.Document.Parse
import LiveMarkup.Proofs.Document.Paths
import Mathlib
set_option autoImplicit false

/-! # Values of form controls after a reconciliation

A live value is compared and set before the markup of a control is patched, and the markup gives
inputs, text areas and selects their values in different ways: by an attribute, by the texts below,
by an option at any depth. `controls_show_markup` says that in the end they show what the fresh
markup says, unless they lie in a tree that was not patched at all. It rests on two facts: trees with
one markup give one value, where no option has a live one (`markupValue?_eq`), and a patched control
has no live value other than that of its counterpart (`Patched.shows_at`). -/

namespace LiveMarkup.Document

variable {d d' source : Document} {p q : Option NodeId} {x y old new : NodeId} {a b e e' : Element}
  {kind kind' : NodeKind} {below below' : Forest} {f g f₁ t : Forest}

/-! ## Live values -/

/-- No element of the document has a live value. -/
def Pristine (d : Document) : Prop := ∀ x e, d.element? x = some e → e.value = none

/-- No option of the forest has a live value. -/
def Forest.OptionsUnset : Forest → Prop
  | nil => True
  | cons _ kind below next =>
    (∀ e, kind = .element e → e.tag = "option" → e.value = none) ∧ below.OptionsUnset ∧
      next.OptionsUnset

theorem Holds.optionsUnset (h : d.Holds p f)
    (hd : ∀ x e, d.element? x = some e → e.tag = "option" → e.value = none) : f.OptionsUnset := by
  induction f generalizing p with
  | nil => trivial
  | cons id kind below next ihb ihn =>
      refine ⟨fun e he => hd id e ?_, ihb h.2.1, ihn h.2.2⟩
      rw [element?, kind?_eq h.1, he]

theorem Forest.OptionsUnset.at? {i : Nat} {path : List Nat} (h : f.OptionsUnset)
    (hat : f.at? i path = some t) : t.OptionsUnset := by
  induction f generalizing i path with
  | nil => nomatch hat
  | cons id kind below next ihb ihn =>
      match i, path with
      | 0, [] =>
          obtain rfl := Option.some.inj hat
          exact ⟨h.1, h.2.1, trivial⟩
      | 0, j :: path => exact ihb h.2.1 hat
      | i + 1, path => exact ihn h.2.2 hat

theorem Forest.Rel.optionsUnset (h : Rel Eq f g) (hg : g.OptionsUnset) : f.OptionsUnset := by
  induction f generalizing g with
  | nil => trivial
  | cons id kind below next ihb ihn => cases g with
    | nil => exact h.elim
    | cons id' kind' below' next' =>
        obtain ⟨rfl, hbelow, hnext⟩ := h
        exact ⟨hg.1, ihb (g := below') hbelow hg.2.1, ihn (g := next') hnext hg.2.2⟩

/-- A patch sets the live values of form controls only, and options are none. -/
theorem Forest.Patched.optionsUnset (h : Patched source f g f₁) (hf : f.OptionsUnset)
    (hg : g.OptionsUnset) : f₁.OptionsUnset := by
  induction h with
  | removed f => trivial
  | appended hcopies _ ih => exact ⟨hg.1, hcopies.optionsUnset hg.2.1, ih hf hg.2.2⟩
  | same _ _ ih => exact ⟨hf.1, hf.2.1, ih hf.2.2 hg.2.2⟩
  | text _ _ ih => exact ⟨fun e he => (nomatch he), trivial, ih hf.2.2 hg.2.2⟩
  | @element _ _ a b e _ _ _ _ _ _ _ htag hpatched _ _ ihb ihn =>
      refine ⟨?_, ihb hf.2.1 hg.2.1, ihn hf.2.2 hg.2.2⟩
      rintro _ ⟨⟩ hoption
      have hb : b.tag = "option" := hpatched.tag.symm.trans hoption
      have hfollows := hpatched.follows
      rw [Follows, if_neg (by simp [hb, formControls])] at hfollows
      rw [hfollows]
      exact hf.1 a rfl (htag.trans hb)
  | replaced _ hcopies _ ih => exact ⟨hg.1, hcopies.optionsUnset hg.2.1, ih hf.2.2 hg.2.2⟩

/-! ## Values from markup -/

/-- What a select looks at in an option: whether it is marked as selected, and its value. -/
def choice (d : Document) (id : NodeId) : Bool × String :=
  ((d.attribute? id "selected").isSome, d.optionValue id)

theorem selectedValue_eq (d : Document) (id : NodeId) :
    d.selectedValue id =
      let choices := (d.tagged "option" id).map d.choice
      (((choices.find? Prod.fst).or choices.head?).map Prod.snd).getD "" := by
  unfold selectedValue
  simp only [List.find?_map, List.head?_map]
  have hfst : Prod.fst ∘ d.choice = fun o => (d.attribute? o "selected").isSome := rfl
  have hsnd : Prod.snd ∘ d.choice = d.optionValue := rfl
  rw [hfst, ← Option.map_or, Option.map_map, hsnd]

theorem optionValue_of_unset (h : d.element? x = some e) (hunset : e.value = none) :
    d.optionValue x = (Table.get? "value" e.attributes).getD (d.textContent x) := by
  simp [optionValue, attribute?, h, hunset]

/-- The texts in forests with one markup are the same. -/
theorem Holds.textIn_eq {bound bound' : Nat} (hf : d.Holds p f) (hg : d'.Holds q g)
    (halike : f.Alike g) (hbound : f.height ≤ bound) (hbound' : g.height ≤ bound') :
    f.roots.map (d.textIn bound) = g.roots.map (d'.textIn bound') := by
  induction f generalizing p q g bound bound' with
  | nil => cases g with
    | nil => rfl
    | cons => exact halike.elim
  | cons id kind below next ihb ihn => cases g with
    | nil => exact halike.elim
    | cons id' kind' below' next' =>
        obtain ⟨hkind, hbelow, hnext⟩ := halike
        obtain ⟨bound, rfl, hlow, hlevel⟩ := Forest.exists_bound_of_height_le hbound
        obtain ⟨bound', rfl, hlow', hlevel'⟩ := Forest.exists_bound_of_height_le hbound'
        have htop : d.textIn (bound + 1) id = d'.textIn (bound' + 1) id' := by
          rw [textIn, textIn, kind?_eq hf.1, kind?_eq hg.1, children_eq hf.1, children_eq hg.1,
            ihb hf.2.1 hg.2.1 hbelow hlow hlow']
          cases kind <;> cases kind' <;> simp_all [NodeKind.alike]
        rw [Forest.roots, Forest.roots, List.map_cons, List.map_cons, htop,
          ihn hf.2.2 hg.2.2 hnext hlevel hlevel']

theorem NodeKind.tag_eq_of_alike (h : NodeKind.alike (.element e) (.element e') = true) :
    e.tag = e'.tag := by
  simp only [NodeKind.alike, Bool.and_eq_true, decide_eq_true_eq] at h
  exact h.1.1

section

variable (hf : d.Holds p (.tree x (.element e) below))
  (hg : d'.Holds q (.tree y (.element e') below'))
  (hnodup : (Forest.tree x (.element e) below).ids.Nodup)
  (hnodup' : (Forest.tree y (.element e') below').ids.Nodup)
  (halike : (Forest.tree x (.element e) below).Alike (.tree y (.element e') below'))

include hf hg hnodup hnodup' halike

theorem Holds.textContent_eq : d.textContent x = d'.textContent y := by
  have htexts := hf.textIn_eq hg halike (Nat.le_succ_of_le (hf.height_le hnodup))
    (Nat.le_succ_of_le (hg.height_le hnodup'))
  exact (List.cons.inj htexts).1

theorem Holds.optionValue_eq (hnames : NamesUnique e.attributes) (hunset : e.value = none)
    (hunset' : e'.value = none) : d.optionValue x = d'.optionValue y := by
  have hx : d.element? x = some e := by rw [element?, kind?_eq hf.1]
  have hy : d'.element? y = some e' := by rw [element?, kind?_eq hg.1]
  rw [optionValue_of_unset hx hunset, optionValue_of_unset hy hunset',
    get?_eq_of_alike hnames halike.1, hf.textContent_eq hg hnodup hnodup' halike]

theorem Holds.choice_eq (hnames : NamesUnique e.attributes) (hunset : e.value = none)
    (hunset' : e'.value = none) : d.choice x = d'.choice y := by
  have hx : d.element? x = some e := by rw [element?, kind?_eq hf.1]
  have hy : d'.element? y = some e' := by rw [element?, kind?_eq hg.1]
  have hvalue := hf.optionValue_eq hg hnodup hnodup' halike hnames hunset hunset'
  unfold choice attribute?
  rw [hvalue, hx, hy, Option.bind_some, Option.bind_some, get?_eq_of_alike hnames halike.1]

end

/-- On top of trees with one markup there is the same choice, if any. -/
theorem Holds.topChoice_eq (hf : d.Holds p (.tree x kind below))
    (hg : d'.Holds q (.tree y kind' below')) (hnodup : (Forest.tree x kind below).ids.Nodup)
    (hnodup' : (Forest.tree y kind' below').ids.Nodup)
    (halike : (Forest.tree x kind below).Alike (.tree y kind' below'))
    (hnames : ∀ e, kind = .element e → NamesUnique e.attributes)
    (hunset : ∀ e, kind = .element e → e.tag = "option" → e.value = none)
    (hunset' : ∀ e, kind' = .element e → e.tag = "option" → e.value = none) :
    (if d.tag? x = some "option" then [x] else []).map d.choice =
      (if d'.tag? y = some "option" then [y] else []).map d'.choice := by
  have hkind := halike.1
  unfold tag? element?
  rw [kind?_eq hf.1, kind?_eq hg.1]
  cases kind with
  | text s => cases kind' with
    | text s' => rfl
    | element e' => simp [NodeKind.alike] at hkind
  | element e => cases kind' with
    | text s' => simp [NodeKind.alike] at hkind
    | element e' =>
        have htag := NodeKind.tag_eq_of_alike hkind
        simp only [Option.map_some, Option.some.injEq, ← htag]
        split
        · next hoption =>
            have hchoice := hf.choice_eq hg hnodup hnodup' halike (hnames e rfl)
              (hunset e rfl hoption) (hunset' e' rfl (htag.symm.trans hoption))
            rw [List.map_singleton, List.map_singleton, hchoice]
        · rfl

/-- The options in forests with one markup offer the same choices. -/
theorem Holds.choices_eq {bound bound' : Nat} (hf : d.Holds p f) (hg : d'.Holds q g)
    (hnodup : f.ids.Nodup) (hnodup' : g.ids.Nodup) (hsound : f.Sound) (halike : f.Alike g)
    (hunset : f.OptionsUnset) (hunset' : g.OptionsUnset) (hbound : f.height ≤ bound)
    (hbound' : g.height ≤ bound') :
    (f.roots.flatMap fun c => (if d.tag? c = some "option" then [c] else []) ++
        d.taggedIn "option" bound c).map d.choice =
      (g.roots.flatMap fun c => (if d'.tag? c = some "option" then [c] else []) ++
        d'.taggedIn "option" bound' c).map d'.choice := by
  induction f generalizing p q g bound bound' with
  | nil => cases g with
    | nil => rfl
    | cons => exact halike.elim
  | cons id kind below next ihb ihn => cases g with
    | nil => exact halike.elim
    | cons id' kind' below' next' =>
        obtain ⟨bound, rfl, hlow, hlevel⟩ := Forest.exists_bound_of_height_le hbound
        obtain ⟨bound', rfl, hlow', hlevel'⟩ := Forest.exists_bound_of_height_le hbound'
        obtain ⟨hid, hrest⟩ := List.nodup_cons.mp hnodup
        obtain ⟨hid', hrest'⟩ := List.nodup_cons.mp hnodup'
        have hnext := ihn hf.2.2 hg.2.2 hrest.of_append_right hrest'.of_append_right hsound.2.2.2
          halike.2.2 hunset.2.2 hunset'.2.2 hlevel hlevel'
        have hbelow := ihb hf.2.1 hg.2.1 hrest.of_append_left hrest'.of_append_left hsound.2.2.1
          halike.2.1 hunset.2.1 hunset'.2.1 hlow hlow'
        have htop := Holds.topChoice_eq ⟨hf.1, hf.2.1, trivial⟩ ⟨hg.1, hg.2.1, trivial⟩
          (Forest.nodup_ids_tree hnodup) (Forest.nodup_ids_tree hnodup')
          ⟨halike.1, halike.2.1, trivial⟩ hsound.2.1 hunset.1 hunset'.1
        rw [Forest.roots, Forest.roots, List.flatMap_cons, List.flatMap_cons, List.map_append,
          List.map_append, List.map_append, List.map_append, hnext, htop, taggedIn, taggedIn,
          children_eq hf.1, children_eq hg.1, hbelow]

/-- Elements with one markup have one value from it, where no option has a live value. -/
theorem Holds.markupValue?_eq (hf : d.Holds p (.tree x (.element e) below))
    (hg : d'.Holds q (.tree y (.element e') below'))
    (hnodup : (Forest.tree x (.element e) below).ids.Nodup)
    (hnodup' : (Forest.tree y (.element e') below').ids.Nodup)
    (hsound : (Forest.tree x (.element e) below).Sound)
    (halike : (Forest.tree x (.element e) below).Alike (.tree y (.element e') below'))
    (hunset : (Forest.tree x (.element e) below).OptionsUnset)
    (hunset' : (Forest.tree y (.element e') below').OptionsUnset) :
    d.markupValue? x e = d'.markupValue? y e' := by
  have htag := NodeKind.tag_eq_of_alike halike.1
  have hnames := hsound.2.1 e rfl
  have hselected : d.selectedValue x = d'.selectedValue y := by
    have hbound := hf.height_le hnodup
    have hbound' := hg.height_le hnodup'
    simp only [Forest.height, Nat.max_zero] at hbound hbound'
    have hchoices := hf.2.1.choices_eq hg.2.1 (List.nodup_cons.mp hnodup).2.of_append_left
      (List.nodup_cons.mp hnodup').2.of_append_left hsound.2.2.1 halike.2.1 hunset.2.1 hunset'.2.1
      (Nat.le_of_succ_le hbound) (Nat.le_of_succ_le hbound')
    rw [selectedValue_eq, selectedValue_eq, tagged, tagged, depthBound, depthBound, taggedIn,
      taggedIn, children_eq hf.1, children_eq hg.1, hchoices]
  unfold markupValue?
  rw [← htag, get?_eq_of_alike hnames halike.1, hf.textContent_eq hg hnodup hnodup' halike,
    hselected]
  by_cases hoption : e.tag = "option"
  · rw [hf.optionValue_eq hg hnodup hnodup' halike hnames (hunset.1 e rfl hoption)
      (hunset'.1 e' rfl (htag.symm.trans hoption))]
  · simp [hoption]

/-! ## Patched controls -/

/-- An element of a copy has the live value of the fresh element, that is none. -/
theorem Forest.Rel.shows_at {copy new : NodeId} {kind : NodeKind} {b b' rest next : Forest}
    {path : List Nat} (hrel : b.Rel Eq b') (hg : source.Holds q (cons new kind b' next))
    (hpristine : source.Pristine)
    (hat : (cons copy kind b rest).at? 0 path = some (tree x (.element e) below)) :
    ∃ y e' below', (cons new kind b' next).at? 0 path = some (tree y (.element e') below') ∧
      (e'.tag ∈ formControls → e.value = none ∨ e.value = source.value? y) := by
  have hrelTree : Rel Eq (tree copy kind b) (tree new kind b') := ⟨rfl, hrel, trivial⟩
  rw [at?_cons_zero] at hat
  obtain ⟨y, _, below', hy, rfl, -⟩ := hrelTree.exists_at? hat
  rw [← at?_cons_zero new kind b' next] at hy
  obtain ⟨_, hheld⟩ := hg.exists_at? hy
  refine ⟨y, e, below', hy, fun _ => .inl (hpristine y e ?_)⟩
  rw [element?, kind?_eq hheld.1]

/-- An element of the patched trees lies in a tree that was like its counterpart and has stayed, or
its live value, if it is a form control, is not set or is the value of its counterpart. -/
theorem Forest.Patched.shows_at {i : Nat} {path : List Nat} (h : Patched source f g f₁)
    (hg : source.Holds q g) (hpristine : source.Pristine)
    (hat : f₁.at? i path = some (tree x (.element e) below)) :
    (∃ front back t t', path = front ++ back ∧ f.at? i front = some t ∧ g.at? i front = some t' ∧
      t.Alike t' ∧ f₁.at? i front = some t) ∨
    ∃ y e' below', g.at? i path = some (tree y (.element e') below') ∧
      (e'.tag ∈ formControls → e.value = none ∨ e.value = source.value? y) := by
  induction h generalizing i path q with
  | removed f => nomatch hat
  | appended hcopies _ ih =>
      match i with
      | 0 => exact .inr (hcopies.shows_at hg hpristine hat)
      | i + 1 => exact ih hg.2.2 hat
  | @same old new kind kind' below below' _ _ _ halike _ ih =>
      match i with
      | 0 => exact .inl ⟨[], path, _, _, rfl, rfl, rfl, halike, rfl⟩
      | i + 1 => exact ih hg.2.2 hat
  | text _ _ ih =>
      match i, path with
      | 0, [] => nomatch hat
      | 0, j :: path => nomatch hat
      | i + 1, path => exact ih hg.2.2 hat
  | @element _ new _ b _ _ below' _ _ _ _ hother htag hpatched _ _ ihb ihn =>
      match i, path with
      | 0, [] =>
          obtain ⟨-, hkind, -⟩ := cons.inj (Option.some.inj hat)
          obtain rfl := NodeKind.element.inj hkind
          exact .inr ⟨new, b, below', rfl, hpatched.follows.of_mem_formControls⟩
      | 0, j :: path =>
          obtain ⟨front, back, t, t', rfl, hrest⟩ | hvalue := ihb hg.2.1 hat
          · exact .inl ⟨j :: front, back, t, t', rfl, hrest⟩
          · exact .inr hvalue
      | i + 1, path => exact ihn hg.2.2 hat
  | replaced _ hcopies _ ih =>
      match i with
      | 0 => exact .inr (hcopies.shows_at hg hpristine hat)
      | i + 1 => exact ih hg.2.2 hat

/-! ## Documents read from markup -/

/-- A new node under another, with no live value. -/
theorem Pristine.grow (h : d.Pristine) (haccounted : d.SlotsAccounted)
    (hkind : ∀ e, kind = .element e → e.value = none) (parent : NodeId) :
    ((d.alloc kind).2.attach parent (d.alloc kind).1).SlotsAccounted ∧
      ((d.alloc kind).2.attach parent (d.alloc kind).1).Pristine := by
  refine ⟨((haccounted.alloc kind).modify _ _).modify _ _, fun x e he => ?_⟩
  obtain ⟨-, hnode⟩ := node?_alloc haccounted kind
  rw [element?_eq_some_iff, kind?_attach, kind?, hnode] at he
  split at he
  · exact hkind e (Option.some.inj he)
  · exact h x e (element?_eq_some_iff.mpr he)

theorem Pristine.addText (h : d.Pristine) (haccounted : d.SlotsAccounted) (parent : NodeId)
    (s : String) : (d.addText parent s).SlotsAccounted ∧ (d.addText parent s).Pristine := by
  unfold Document.addText
  dsimp only
  split
  · next id before _ _ =>
      refine ⟨haccounted.modify _ _, fun x e he => h x e ?_⟩
      rw [element?_eq_some_iff, kind?, node?_modify] at he
      split at he
      · -- that node is a text
        cases hn : d.node? x <;> simp [hn] at he
      · exact element?_eq_some_iff.mpr he
  · have hkind : ∀ e, NodeKind.text s = .element e → e.value = none := fun e he => by cases he
    exact h.grow haccounted hkind parent

/-- Reading markup sets no live value. -/
theorem pristine_parse (markup : String) : (Document.parse markup).Pristine := by
  have hfold : ∀ (pieces : List Piece) (d : Document) (stack : List OpenElement),
      d.SlotsAccounted → d.Pristine → (pieces.foldl addPiece (d, stack)).1.Pristine := by
    intro pieces
    induction pieces with
    | nil => exact fun _ _ _ h => h
    | cons piece rest ih =>
        intro d stack haccounted h
        rw [List.foldl_cons]
        cases piece with
        | text s =>
            obtain ⟨haccounted', h'⟩ :=
              h.addText haccounted ((stack.head?.map OpenElement.id).getD root) s
            exact ih _ _ haccounted' h'
        | close name => exact ih _ _ haccounted h
        | start t =>
            have hkind : ∀ e, NodeKind.element (.ofTag t.name t.attributes) = .element e →
                e.value = none := by
              rintro _ ⟨⟩
              rfl
            obtain ⟨haccounted', h'⟩ :=
              h.grow haccounted hkind ((stack.head?.map OpenElement.id).getD root)
            exact ih _ _ haccounted' h'
  refine hfold _ _ _ growing_empty.wellFormed.accounted fun x e he => ?_
  have hroot : (Document.empty.element? x).all (·.value.isNone) = true := by
    match x with
    | 0 => rfl
    | x + 1 => rfl
  simpa [he] using hroot

/-! ## The whole reconciliation -/

/-- After a reconciliation with fresh markup a form control lies in a tree that had its markup before
and has stayed, live values included, or it shows the value of its counterpart. -/
theorem controls_show_markup (h : d.WellFormed)
    (hoptions : ∀ x e, d.element? x = some e → e.tag = "option" → e.value = none)
    (hold : (d.node? old).isSome) (hroot : old ≠ root) (markup : String)
    (hnew : ((Document.parse markup).node? new).isSome) :
    let source := Document.parse markup
    let r := (d.reconcile old source new).1
    let d' := (d.reconcile old source new).2
    ∀ path c tag, d'.descend? r path = some c → d'.tag? c = some tag → tag ∈ formControls →
      (∃ front back x y, path = front ++ back ∧ d.descend? old front = some x ∧
        source.descend? new front = some y ∧ d.deepEqual x source y = true ∧
        d.descend? x back = some c ∧ d'.kind? c = d.kind? c) ∨
      ∃ y, source.descend? new path = some y ∧ d'.value? c = source.value? y := by
  intro source r d' path c tag hc htag hcontrol
  have hsource : source.WellFormed := wellFormed_parse markup
  have hpristine : source.Pristine := pristine_parse markup
  obtain ⟨n, hn⟩ := Option.isSome_iff_exists.mp hold
  obtain ⟨m, hm⟩ := Option.isSome_iff_exists.mp hnew
  obtain ⟨before, after, hsome, hnone⟩ := h.exists_beside old
  obtain ⟨below, below', hplaced, hholds, -, -, kind₁, below₁, hedit, hpatched, -⟩ :=
    exists_patches_reconcile h hsource before after hn hroot hm hsome hnone
  have hholds' := hedit.placed.holds
  obtain ⟨k, b, hat⟩ := hholds'.descend?_iff.mp hc
  obtain ⟨_, htree⟩ := hholds'.exists_at? hat
  obtain ⟨e, rfl, rfl⟩ : ∃ e, k = .element e ∧ e.tag = tag := by
    rw [tag?, element?, kind?_eq htree.1] at htag
    cases k with
    | text s => simp at htag
    | element e => exact ⟨e, rfl, by simpa using htag⟩
  have hsound := hedit.placed.sound.at? hat
  have hnodup := hedit.placed.nodup.sublist (Forest.sublist_ids_of_at? hat)
  obtain ⟨front, back, t, t', rfl, ht, ht', halike, hstays⟩ | ⟨y, e', b', hy, hvalue⟩ :=
    hpatched.shows_at hholds hpristine hat
  · -- the node was there before, in the same tree
    obtain ⟨x, kx, bx, rfl⟩ := Forest.exists_tree_of_at? ht
    obtain ⟨y, ky, by', rfl⟩ := Forest.exists_tree_of_at? ht'
    obtain ⟨_, hx⟩ := hplaced.holds.exists_at? ht
    obtain ⟨_, hy⟩ := hholds.exists_at? ht'
    have hnodupX := hplaced.nodup.sublist (Forest.sublist_ids_of_at? ht)
    have hback : (Forest.tree x kx bx).at? 0 back = some (.tree c (.element e) b) :=
      (Forest.at?_append hstays back).symm.trans hat
    obtain ⟨_, hbefore⟩ := hx.exists_at? hback
    refine .inl ⟨front, back, x, y, rfl, hplaced.holds.descend?_iff.mpr ⟨kx, bx, ht⟩,
      hholds.descend?_iff.mpr ⟨ky, by', ht'⟩, (hx.deepEqual_iff hnodupX hy).mpr halike,
      hx.descend?_iff.mpr ⟨_, b, hback⟩, ?_⟩
    rw [kind?_eq htree.1, kind?_eq hbefore.1]
  · -- the live value is that of the counterpart, or the markup decides on both sides
    obtain ⟨y', k', b'', hy', halikeTop, halikeBelow⟩ :=
      (hpatched.alike (hsource.sound_of_holds hholds)).exists_at? hat
    obtain ⟨rfl, rfl, rfl⟩ : y = y' ∧ .element e' = k' ∧ b' = b'' := by
      simpa using hy.symm.trans hy'
    obtain ⟨_, hfresh⟩ := hholds.exists_at? hy
    refine .inr ⟨y, hholds.descend?_iff.mpr ⟨_, b', hy⟩, ?_⟩
    have hcelement : d'.element? c = some e := by rw [element?, kind?_eq htree.1]
    have hyelement : source.element? y = some e' := by rw [element?, kind?_eq hfresh.1]
    have hcontrol' : e'.tag ∈ formControls := NodeKind.tag_eq_of_alike halikeTop ▸ hcontrol
    have hunset := hplaced.holds.optionsUnset hoptions
    have hunset' := hholds.optionsUnset fun x e he _ => hpristine x e he
    have hmarkup := htree.markupValue?_eq hfresh hnodup (hsource.nodup_of_holds hfresh) hsound
      ⟨halikeTop, halikeBelow, trivial⟩ ((hpatched.optionsUnset hunset hunset').at? hat)
      (hunset'.at? hy)
    have hshown : source.value? y = source.markupValue? y e' := by
      rw [value?_eq hyelement, hpristine y e' hyelement, Option.none_or]
    rw [value?_eq hcelement, hmarkup, ← hshown]
    rcases hvalue hcontrol' with hnone | hsame
    · rw [hnone, Option.none_or]
    · rw [hsame, Option.or_self]

/-- A form with a select whose first option is marked. -/
def menuMarkup : String :=
  "<form><select><option value=\"a\" selected></option><option value=\"b\"></option></select></form>"

def menu : Document :=
  ⟨#[some ⟨.element (.ofTag rootTag []), none, [1]⟩, some ⟨.element (.ofTag "form" []), some 0, [2]⟩,
    some ⟨.element (.ofTag "select" []), some 1, [3, 4]⟩,
    some ⟨.element (.ofTag "option" [("selected", ""), ("value", "a")]), some 2, []⟩,
    some ⟨.element (.ofTag "option" [("value", "b")]), some 2, []⟩], [], #[]⟩

theorem parse_menuMarkup : Document.parse menuMarkup = menu := by
  have hparts : ((Document.parse menuMarkup).slots, (Document.parse menuMarkup).free,
      (Document.parse menuMarkup).log) = (menu.slots, menu.free, menu.log) := by decide +kernel
  cases hparse : Document.parse menuMarkup
  rw [hparse] at hparts
  simpa [menu] using hparts

/-- The menu as the user left it, without a marked option: the second one has been chosen. -/
def chosenMenu : Document :=
  ⟨#[some ⟨.element (.ofTag rootTag []), none, [1]⟩, some ⟨.element (.ofTag "form" []), some 0, [2]⟩,
    some ⟨.element ⟨"select", [], some "b", []⟩, some 1, [3, 4]⟩,
    some ⟨.element (.ofTag "option" [("value", "a")]), some 2, []⟩,
    some ⟨.element (.ofTag "option" [("value", "b")]), some 2, []⟩], [], #[]⟩

/-- The select shows the option that the fresh markup has marked. -/
theorem controls_show_markup_menu :
    let r := (chosenMenu.reconcile 1 (Document.parse menuMarkup) 1).1
    let d' := (chosenMenu.reconcile 1 (Document.parse menuMarkup) 1).2
    chosenMenu.WellFormed ∧ chosenMenu.value? 2 = some "b" ∧ d'.descend? r [0] = some 2 ∧
      d'.value? 2 = some "a" := by
  have hlive : chosenMenu.WellFormed := wellFormed_of_isOrdered (by decide +kernel)
  have hoptions : ∀ x e, chosenMenu.element? x = some e → e.tag = "option" → e.value = none := by
    intro x e he htag
    match x with
    | 0 | 1 | 3 | 4 =>
        obtain rfl := Option.some.inj he
        rfl
    | 2 =>
        obtain rfl := Option.some.inj he
        exact absurd htag (by decide)
    | x + 5 => nomatch he
  obtain ⟨hdescend, htag⟩ :
      (chosenMenu.reconcile 1 (Document.parse menuMarkup) 1).2.descend?
        (chosenMenu.reconcile 1 (Document.parse menuMarkup) 1).1 [0] = some 2 ∧
      (chosenMenu.reconcile 1 (Document.parse menuMarkup) 1).2.tag? 2 = some "select" := by
    rw [parse_menuMarkup]
    cbv
  have hnew : ((Document.parse menuMarkup).node? 1).isSome := by
    rw [parse_menuMarkup]
    rfl
  have hother : ∀ path ∈ [[], [0]], ∀ x y, chosenMenu.descend? 1 path = some x →
      (Document.parse menuMarkup).descend? 1 path = some y →
      chosenMenu.deepEqual x (Document.parse menuMarkup) y = false := by
    rw [parse_menuMarkup]
    simp only [List.forall_mem_cons]
    refine ⟨?_, ?_, ?_⟩
    · rintro x y ⟨⟩ ⟨⟩
      decide +kernel
    · rintro x y ⟨⟩ ⟨⟩
      decide +kernel
    · simp
  refine ⟨hlive, by decide +kernel, hdescend, ?_⟩
  obtain ⟨front, back, x, y, hpath, hx, hy, hequal, -⟩ | ⟨y, hy, hvalue⟩ :=
    controls_show_markup hlive hoptions rfl (by decide) menuMarkup hnew [0] 2 "select" hdescend htag
      (by decide)
  · -- neither the form nor the select had the fresh markup
    have hfront : front ∈ [[], [0]] := by
      cases front with
      | nil => exact List.mem_cons_self
      | cons j front =>
          obtain ⟨rfl, hrest⟩ := List.cons.inj hpath
          obtain ⟨rfl, -⟩ := List.append_eq_nil_iff.mp hrest.symm
          simp
    simp [hother front hfront x y hx hy] at hequal
  · refine hvalue.trans ?_
    rw [parse_menuMarkup] at hy ⊢
    obtain rfl := Option.some.inj hy
    decide +kernel

end LiveMarkup.Document
