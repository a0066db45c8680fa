import LiveMarkup.Document.Reconcile
import LiveMarkup.Proofs.Document.Edit
set_option autoImplicit false

/-! # Patching an element

Patching the value and the attributes of a live element touches no other node and leaves its tag,
its properties, its parent and its children alone (`Touches`); afterwards its attributes are those
of the fresh element, in some order, and a form control does not show another value than the fresh
one on its own account (`exists_touches_patched`). -/

namespace LiveMarkup.Document

variable {d d₁ d₂ source : Document} {id old new : NodeId} {e e₁ e₂ : Element}

/-! ## Changes of one element -/

/-- The element of a node has become `e`, and nothing else has changed. -/
structure Touches (d d' : Document) (id : NodeId) (e : Element) : Prop where
  node : ∀ x, d'.node? x =
    if x = id then (d.node? x).map fun n => { n with kind := .element e } else d.node? x
  free : d'.free = d.free
  size : d'.slots.size = d.slots.size

theorem exists_node_of_element? (h : d.element? id = some e) :
    ∃ n, d.node? id = some n ∧ n.kind = .element e :=
  exists_node_of_kind? (element?_eq_some_iff.mp h)

namespace Touches

theorem refl (h : d.element? id = some e) : Touches d d id e := by
  obtain ⟨n, hn, hkind⟩ := exists_node_of_element? h
  refine ⟨fun x => ?_, rfl, rfl⟩
  split
  · next hx => rw [hx, hn, Option.map_some, ← hkind]
  · rfl

theorem trans (h₁ : Touches d d₁ id e₁) (h₂ : Touches d₁ d₂ id e₂) : Touches d d₂ id e₂ := by
  refine ⟨fun x => ?_, h₂.free.trans h₁.free, h₂.size.trans h₁.size⟩
  rw [h₂.node, h₁.node]
  by_cases hx : x = id
  · simp [hx, Function.comp_def]
  · simp [hx]

theorem element? (h : Touches d d₁ id e) (hlive : (d.node? id).isSome) :
    d₁.element? id = some e := by
  obtain ⟨n, hn⟩ := Option.isSome_iff_exists.mp hlive
  have hnode : d₁.node? id = some { n with kind := .element e } := by simp [h.node, hn]
  rw [Document.element?, kind?_eq hnode]

theorem modifyElement (h : d.element? id = some e) (f : Element → Element) :
    Touches d (d.modifyElement id f) id (f e) := by
  obtain ⟨n, hn, hkind⟩ := exists_node_of_element? h
  refine ⟨fun x => ?_, rfl, size_modify ..⟩
  rw [Document.modifyElement, node?_modify]
  split
  · next hx => simp [hx, hn, hkind]
  · rfl

theorem record (h : Touches d d₁ id e) (m : Mutation) : Touches d (d₁.record m) id e :=
  ⟨h.node, h.free, h.size⟩

theorem setValue (h : d.element? id = some e) (value : String) :
    Touches d (d.setValue id value) id { e with value := some value } := by
  rw [Document.setValue, h]
  exact (modifyElement h _).record _

theorem setAttribute (h : d.element? id = some e) (name value : String) :
    Touches d (d.setAttribute id name value) id
      { e with attributes := Table.insert name value e.attributes } := by
  rw [Document.setAttribute, h]
  exact (modifyElement h _).record _

theorem removeAttribute (h : d.element? id = some e) (name : String) :
    Touches d (d.removeAttribute id name) id
      { e with attributes := e.attributes.filter fun a => a.1 != name } := by
  unfold Document.removeAttribute
  split
  · exact (modifyElement h _).record _
  · next hnone =>
      -- there is no such attribute to filter out
      have hsame : (e.attributes.filter fun a => a.1 != name) = e.attributes := by
        refine List.filter_eq_self.mpr ?_
        intro a ha
        rw [Document.attribute?, h, Option.bind_some, Table.get?_isSome_iff] at hnone
        simpa using fun he : a.1 = name => hnone (he ▸ List.mem_map.mpr ⟨a, ha, rfl⟩)
      rw [hsame]
      exact refl h

end Touches

/-! ## The steps of a patch -/

/-- How the live value of a patched element follows the fresh one: that of a form control is not set
or is the value of the fresh control, that of any other element is as before. -/
def Follows (source : Document) (new : NodeId) (a b e : Element) : Prop :=
  if b.tag ∈ formControls then e.value = none ∨ e.value = source.value? new else e.value = a.value

theorem Follows.of_mem_formControls {source : Document} {new : NodeId} {a b e : Element}
    (h : Follows source new a b e) (hb : b.tag ∈ formControls) :
    e.value = none ∨ e.value = source.value? new := by
  rwa [Follows, if_pos hb] at h

/-- The value that its markup gives an element. -/
def markupValue? (d : Document) (id : NodeId) (e : Element) : Option String :=
  if e.tag = "input" then some ((Table.get? "value" e.attributes).getD "")
  else if e.tag = "textarea" then some (d.textContent id)
  else if e.tag = "select" then some (d.selectedValue id)
  else if e.tag = "option" then some (d.optionValue id)
  else none

/-- A live value counts before any markup. -/
theorem value?_eq (h : d.element? id = some e) :
    d.value? id = e.value.or (d.markupValue? id e) := by
  rw [value?, h]
  dsimp only
  cases e.value <;> rfl

theorem isSome_value? (h : d.element? id = some e) (hcontrol : e.tag ∈ formControls) :
    (d.value? id).isSome := by
  have hmarkup : (d.markupValue? id e).isSome := by
    simp only [formControls, List.mem_cons, List.not_mem_nil, or_false] at hcontrol
    unfold markupValue?
    rcases hcontrol with htag | htag | htag <;> simp [htag]
  rw [value?_eq h, Option.isSome_or, hmarkup, Bool.or_true]

theorem exists_touches_patchValue {a b : Element} (hold : d.element? old = some a)
    (hnew : source.element? new = some b) :
    ∃ value, Touches d (d.patchValue old source new) old { a with value } ∧
      Follows source new a b { a with value } := by
  have htag : source.tag? new = some b.tag := by rw [tag?, hnew, Option.map_some]
  unfold patchValue Follows
  rw [htag]
  by_cases hcontrol : b.tag ∈ formControls
  · simp only [if_pos hcontrol]
    obtain ⟨wanted, hwanted⟩ := Option.isSome_iff_exists.mp (isSome_value? hnew hcontrol)
    rw [hwanted]
    by_cases hshown : d.value? old = some wanted
    · refine ⟨a.value, ?_, ?_⟩
      · simpa [hshown] using Touches.refl hold
      · cases hvalue : a.value with
        | none => exact .inl rfl
        | some v =>
            rw [value?_eq hold, hvalue, Option.some_or] at hshown
            exact .inr hshown
    · refine ⟨some wanted, ?_, .inr rfl⟩
      simpa [hshown, hcontrol] using Touches.setValue hold wanted
  · simp only [if_neg hcontrol]
    refine ⟨a.value, ?_, rfl⟩
    split
    · rw [if_neg (by simp_all)]
      exact Touches.refl hold
    · exact Touches.refl hold

theorem touches_removeAll (h : d.element? id = some e) (stale : List (String × String)) :
    Touches d (stale.foldl (fun d a => d.removeAttribute id a.1) d) id
      { e with attributes := e.attributes.filter fun a => stale.all fun s => a.1 != s.1 } := by
  induction stale generalizing d e with
  | nil => simpa using Touches.refl h
  | cons first rest ih =>
      have hfirst := Touches.removeAttribute h first.1
      obtain ⟨n, hn, -⟩ := exists_node_of_element? h
      have hrest := ih (hfirst.element? (by simp [hn]))
      simpa [List.filter_filter, Bool.and_comm] using hfirst.trans hrest

/-- Dropping what is stale keeps the attributes that the fresh element has too. -/
theorem touches_dropStale (h : d.element? id = some e) (source : Document) (new : NodeId) :
    Touches d (d.dropStale id source new) id
      { e with attributes := e.attributes.filter fun a => (source.attribute? new a.1).isSome } := by
  have hkeep : (e.attributes.filter fun a => (source.attribute? new a.1).isSome) =
      e.attributes.filter fun a =>
        (e.attributes.filter fun s => (source.attribute? new s.1).isNone).all fun s =>
          a.1 != s.1 := by
    refine List.filter_congr ?_
    intro a ha
    rw [Bool.eq_iff_iff]
    simp only [List.all_filter, List.all_eq_true, Bool.or_eq_true, Bool.not_eq_true', bne_iff_ne]
    constructor
    · intro hsome s _
      by_cases hs : a.1 = s.1
      · exact Or.inl (by simpa [← hs] using hsome)
      · exact Or.inr hs
    · intro hall
      rcases hall a ha with hsome | hne
      · simpa using hsome
      · exact absurd rfl hne
  rw [hkeep, dropStale, h]
  exact touches_removeAll h _

theorem touches_setAll (h : d.element? id = some e) (fresh : List (String × String)) :
    Touches d (fresh.foldl (fun d (name, value) =>
      if d.attribute? id name != some value then d.setAttribute id name value else d) d) id
      { e with attributes := Table.extend e.attributes fresh } := by
  induction fresh generalizing d e with
  | nil => exact Touches.refl h
  | cons first rest ih =>
      obtain ⟨name, value⟩ := first
      have hfirst : Touches d
          (if d.attribute? id name != some value then d.setAttribute id name value else d) id
          { e with attributes := Table.insert name value e.attributes } := by
        split
        · exact Touches.setAttribute h name value
        · next hsame =>
            have hget : Table.get? name e.attributes = some value := by
              simpa [attribute?, h] using hsame
            rw [Table.insert_of_get? hget]
            exact Touches.refl h
      obtain ⟨n, hn, -⟩ := exists_node_of_element? h
      exact hfirst.trans (ih (hfirst.element? (by simp [hn])))

/-! ## Alike elements -/

/-- Two tables with unique keys that answer alike have as many entries. -/
theorem length_eq_of_get? {s t : Table String} (hs : (Table.keys s).Nodup)
    (ht : (Table.keys t).Nodup) (h : ∀ key, Table.get? key s = Table.get? key t) :
    s.length = t.length := by
  have hperm : (Table.keys s).Perm (Table.keys t) := by
    refine (List.perm_ext_iff_of_nodup hs ht).mpr ?_
    intro key
    rw [← Table.get?_isSome_iff, ← Table.get?_isSome_iff, h key]
  simpa [Table.keys] using hperm.length_eq

/-- Elements of one tag whose attributes answer alike are alike. -/
theorem alike_of_get? {a b : Element} (htag : a.tag = b.tag) (ha : NamesUnique a.attributes)
    (hb : NamesUnique b.attributes)
    (h : ∀ name, Table.get? name a.attributes = Table.get? name b.attributes) :
    NodeKind.alike (.element a) (.element b) = true := by
  simp only [NodeKind.alike, Bool.and_eq_true, decide_eq_true_eq, List.all_eq_true]
  refine ⟨⟨htag, length_eq_of_get? ha hb h⟩, ?_⟩
  intro entry hentry
  rw [← h]
  exact Table.get?_of_mem ha hentry

theorem alike_refl {kind : NodeKind} (h : ∀ e, kind = .element e → NamesUnique e.attributes) :
    NodeKind.alike kind kind = true := by
  cases kind with
  | element e => exact alike_of_get? rfl (h e rfl) (h e rfl) fun _ => rfl
  | text s => simp [NodeKind.alike]

theorem Forest.Rel.alike {f g : Forest} (h : Rel Eq f g) (hg : g.Sound) : f.Alike g := by
  induction f generalizing g with
  | nil => cases g with
    | nil => trivial
    | cons => exact h
  | cons id kind below next ihb ihn => cases g with
    | nil => exact h
    | cons id' kind' below' next' =>
        obtain ⟨rfl, hbelow, hnext⟩ := h
        exact ⟨alike_refl hg.2.1, ihb hbelow hg.2.2.1, ihn hnext hg.2.2.2⟩

/-! ## The patch of an element -/

/-- What patching makes of a live element `a` beside a fresh one `b`: its tag and attributes are those
of `b`, and its live value follows. -/
structure PatchedElement (source : Document) (new : NodeId) (a b e : Element) : Prop where
  tag : e.tag = b.tag
  namesUnique : NamesUnique e.attributes
  attributes : ∀ name, Table.get? name e.attributes = Table.get? name b.attributes
  follows : Follows source new a b e

/-- Patching value and attributes gives a live element the attributes of the fresh one. -/
theorem exists_touches_patched {a b : Element} (hold : d.element? old = some a)
    (hnew : source.element? new = some b) (htag : a.tag = b.tag) (ha : NamesUnique a.attributes)
    (hb : NamesUnique b.attributes) :
    ∃ e, Touches d (((d.patchValue old source new).dropStale old source new).setFresh old source new)
        old e ∧ PatchedElement source new a b e := by
  obtain ⟨n, hn, -⟩ := exists_node_of_element? hold
  have hlive : (d.node? old).isSome := by simp [hn]
  obtain ⟨value, h₁, hfollows⟩ := exists_touches_patchValue hold hnew
  have h₂ := h₁.trans (touches_dropStale (h₁.element? hlive) source new)
  have h₃ := h₂.trans (touches_setAll (h₂.element? hlive) b.attributes)
  let kept := a.attributes.filter fun entry => (source.attribute? new entry.1).isSome
  have hkept : NamesUnique kept := ha.sublist (List.filter_sublist.map Prod.fst)
  refine ⟨⟨a.tag, Table.extend kept b.attributes, value, a.properties⟩, ?_, htag,
    Table.nodup_keys_extend hkept _, ?_, hfollows⟩
  · rw [setFresh, hnew]
    exact h₃
  intro name
  rw [Table.get?_extend hb]
  cases hget : Table.get? name b.attributes with
  | some v => rfl
  | none =>
      -- what was kept has the names of the fresh element
      rw [Option.none_or]
      by_contra hsome
      obtain ⟨v, hv⟩ := Option.ne_none_iff_exists'.mp hsome
      have hmem := (List.mem_filter.mp (Table.mem_of_get? hv)).2
      simp [attribute?, hnew, hget] at hmem

theorem PatchedElement.alike {a b : Element} (h : PatchedElement source new a b e)
    (hb : NamesUnique b.attributes) : NodeKind.alike (.element e) (.element b) = true :=
  alike_of_get? h.tag h.namesUnique hb h.attributes

/-- A touched node stands in a placed tree as before. -/
theorem Placed.touch {parent : Option NodeId} {before after : List NodeId} {below : Forest}
    {a : Element} (h : d.Placed parent before after (.tree old (.element a) below))
    (ht : Touches d d₁ old e) (hnames : NamesUnique e.attributes) :
    Replaces d d₁ parent before after (.tree old (.element a) below)
      (.tree old (.element e) below) := by
  refine h.retouch ?_ ht.free ht.size ?_ ?_
  · intro x
    rw [ht.node]
    split
    · next hx => simp [hx, h.holds.1]
    · rfl
  · rintro s ⟨⟩
  · rintro _ ⟨⟩
    exact hnames

end LiveMarkup.Document
