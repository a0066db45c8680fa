import LiveMarkup.Proofs.Client.Hydration
import LiveMarkup.Proofs.Client.Lifecycle
import LiveMarkup.Proofs.Client.StableKeys
import LiveMarkup.Proofs.Document.BooleanProperties
set_option autoImplicit false

/-! # Hydrating again

A page that was hydrated can be hydrated again from the same props, and nothing comes of it
(`hydrate_again`). Every store of a client has a reason of its own to stay as it is. An instance that
is there is not set up again; one that is shown is not shown anew, and the properties below its root
follow their attributes (`Alive`). Props that are recorded are written over themselves, and a key that
the registry knows is not added (`Registry.seed_seed`). What the first hydration does for one instance
must not undo what it did for another: setups touch neither the document nor how instances are armed
(`Unstirred`), and a property that follows its attribute is not set for the sake of another root.

To tell that no setup and no hook runs, the second hydration is made with any others in their place
(`rewire`). -/

namespace LiveMarkup

/-! ## Steps that are not undone -/

/-- Every step brings about a fact of its own, leaves the facts of other steps as they are, and does
nothing where its fact is there. -/
structure Settling {α β : Type} (step : β → α → β) (Fact : β → α → Prop) : Prop where
  settles : ∀ b a, Fact (step b a) a
  keeps : ∀ {b a} a', Fact b a → Fact (step b a') a
  rests : ∀ {b a}, Fact b a → step b a = b

namespace Settling

variable {α β : Type} {step : β → α → β} {Fact : β → α → Prop} {a : α} {b : β} {l : List α}

theorem keeps_foldl (h : Settling step Fact) (ha : Fact b a) (l : List α) :
    Fact (l.foldl step b) a := by
  induction l generalizing b with
  | nil => exact ha
  | cons first rest ih => exact ih (h.keeps first ha)

theorem settles_foldl (h : Settling step Fact) (ha : a ∈ l) (b : β) : Fact (l.foldl step b) a := by
  induction l generalizing b with
  | nil => cases ha
  | cons first rest ih =>
      rcases List.mem_cons.mp ha with rfl | ha
      · exact h.keeps_foldl (h.settles b a) rest
      · exact ih ha (step b first)

theorem rests_foldl (h : Settling step Fact) (hl : ∀ a ∈ l, Fact b a) : l.foldl step b = b := by
  induction l with
  | nil => rfl
  | cons first rest ih =>
      obtain ⟨hfirst, hrest⟩ := List.forall_mem_cons.mp hl
      rw [List.foldl_cons, h.rests hfirst]
      exact ih hrest

theorem foldl_foldl (h : Settling step Fact) (l : List α) (b : β) :
    l.foldl step (l.foldl step b) = l.foldl step b :=
  h.rests_foldl fun _ ha => h.settles_foldl ha b

end Settling

/-! ## Seeding again -/

namespace Registry

variable {l : KeyList} {r : Registry} {key name : String} {props : Value}

/-- A key is on the list that it belongs to. -/
def Knows (l : KeyList) (e : String × Value) : Prop :=
  e.1 ∈ if (explicitKey? e.2).isSome then l.explicit else l.keys

theorem settling_keyList :
    Settling (fun l (e : String × Value) => KeyList.seed l e.1 e.2) Knows where
  settles l e := by
    unfold Knows KeyList.seed
    by_cases hown : (explicitKey? e.2).isSome
    · rw [if_pos hown, if_pos hown]
      by_cases hmem : e.1 ∈ l.explicit <;> simp [hmem]
    · rw [if_neg hown, if_neg hown]
      by_cases hmem : e.1 ∈ l.keys <;> simp [hmem]
  keeps {l e} e' h := by
    -- both lists only grow
    have hexplicit : e.1 ∈ l.explicit → e.1 ∈ (KeyList.seed l e'.1 e'.2).explicit := by
      unfold KeyList.seed
      intro hmem
      split
      · show e.1 ∈ if l.explicit.contains e'.1 then l.explicit else l.explicit ++ [e'.1]
        split
        · exact hmem
        · exact List.mem_append_left _ hmem
      · exact hmem
    have hkeys : e.1 ∈ l.keys → e.1 ∈ (KeyList.seed l e'.1 e'.2).keys :=
      fun hmem => (isPrefix_keys_foldl_seed [e']).mem hmem
    unfold Knows at h ⊢
    by_cases hown : (explicitKey? e.2).isSome
    · rw [if_pos hown] at h ⊢
      exact hexplicit h
    · rw [if_neg hown] at h ⊢
      exact hkeys h
  rests {l e} h := by
    unfold Knows at h
    unfold KeyList.seed
    by_cases hown : (explicitKey? e.2).isSome
    · rw [if_pos hown] at h
      simp [hown, h]
    · rw [if_neg hown] at h
      simp [hown, h]

/-- The list of a component has every key that is recorded of it. -/
def Stocked (r : Registry) (component : String × Table Value) : Prop :=
  ∃ l, Table.get? component.1 r = some l ∧ ∀ e ∈ component.2, Knows l e

theorem settling_registry : Settling (fun r (component : String × Table Value) =>
    Table.insert component.1
      (component.2.foldl (fun l e => KeyList.seed l e.1 e.2) (list r component.1)) r) Stocked where
  settles r component :=
    ⟨_, Table.get?_insert_self .., fun _ he => settling_keyList.settles_foldl he _⟩
  keeps {r component} other h := by
    obtain ⟨l, hl, hknows⟩ := h
    by_cases heq : component.1 = other.1
    · rw [Stocked, heq, Table.get?_insert_self]
      refine ⟨_, rfl, fun e he => settling_keyList.keeps_foldl ?_ _⟩
      rw [list, ← heq, hl]
      exact hknows e he
    · rw [Stocked, Table.get?_insert_of_ne heq]
      exact ⟨l, hl, hknows⟩
  rests {r component} h := by
    obtain ⟨l, hl, hknows⟩ := h
    have hlist : list r component.1 = l := by rw [list, hl, Option.getD_some]
    rw [hlist, settling_keyList.rests_foldl hknows]
    exact Table.insert_of_get? hl

theorem seed_seed (r : Registry) (host : HostProps) : (r.seed host).seed host = r.seed host :=
  settling_registry.foldl_foldl host.entries r

end Registry

/-! ## Recording again -/

namespace HostProps

variable {h : HostProps} {name key : String} {props : Value}

theorem record_of_get? (hget : h.get? name key = some props) : h.record name key props = h := by
  unfold get? instances at hget
  unfold record instances
  cases ht : Table.get? name h.entries with
  | none =>
      rw [ht] at hget
      cases hget
  | some t =>
      rw [ht, Option.getD_some] at hget
      rw [Option.getD_some, Table.insert_of_get? hget, Table.insert_of_get? ht]

theorem nodup_keys_recordAll (tables : Table (Table Value))
    (hnodup : ∀ name, (Table.keys (h.instances name)).Nodup) (name : String) :
    (Table.keys ((h.recordAll tables).instances name)).Nodup := by
  have hinner : ∀ (other : String) (t : Table Value) (h : HostProps),
      (∀ name, (Table.keys (h.instances name)).Nodup) → ∀ name,
        (Table.keys ((t.foldl (fun h e => h.record other e.1 e.2) h).instances name)).Nodup := by
    intro other t h hnodup name
    rw [instances_foldl_record]
    split
    · exact Table.nodup_keys_extend (hnodup other) t
    · exact hnodup name
  induction tables generalizing h with
  | nil => exact hnodup name
  | cons first rest ih => exact ih (hinner first.1 first.2 h hnodup)

/-- A value names every component once. -/
theorem nodup_names_ofValue (v : Value) : (Table.keys (ofValue v).entries).Nodup := by
  rw [ofValue_eq_recordAll]
  exact names_nodup_recordAll _ List.nodup_nil

/-- Of one component, a value has every key once. -/
theorem nodup_keys_of_mem_ofValue {v : Value} {t : Table Value}
    (ht : (name, t) ∈ (ofValue v).entries) : (Table.keys t).Nodup := by
  have hinstances : (ofValue v).instances name = t := by
    rw [instances, Table.get?_of_mem (nodup_names_ofValue v) ht, Option.getD_some]
  rw [← hinstances, ofValue_eq_recordAll]
  apply nodup_keys_recordAll
  exact fun _ => List.nodup_nil

/-- What a value holds is found after it was recorded. -/
theorem get?_recordAll_ofValue {v : Value} {t : Table Value}
    (ht : (name, t) ∈ (ofValue v).entries) (he : (key, props) ∈ t) (h : HostProps) :
    (h.recordAll (ofValue v).entries).get? name key = some props := by
  have hkeys := nodup_keys_of_mem_ofValue ht
  rw [get?, instances_recordAll (nodup_names_ofValue v), Table.get?_of_mem (nodup_names_ofValue v) ht,
    Option.getD_some, Table.get?_extend hkeys, Table.get?_of_mem hkeys he, Option.some_or]

end HostProps

/-! ## Where nodes stand -/

namespace Document

variable {d d' : Document}

theorem SameTree.contains (h : SameTree d d') (x : NodeId) : d'.contains x = d.contains x := by
  have hreaches : ∀ bound x, d'.reachesRoot bound x = d.reachesRoot bound x := by
    intro bound
    induction bound with
    | zero => exact fun _ => rfl
    | succ bound ih =>
        intro x
        have hlive : (d'.node? x).isSome = (d.node? x).isSome := by
          have hmarkup := congrArg Option.isSome (h.node x)
          rwa [Option.isSome_map, Option.isSome_map] at hmarkup
        simp only [reachesRoot, h.parent?, hlive, ih]
  rw [Document.contains, Document.contains, depthBound, depthBound, h.size, hreaches]

theorem SameTree.find? (h : SameTree d d') (scope : NodeId) (name value : String) :
    d'.find? scope name value = d.find? scope name value := by
  have hfind : ∀ bound, d'.findIn name value bound = d.findIn name value bound := by
    intro bound
    induction bound with
    | zero => rfl
    | succ bound ih =>
        funext x
        rw [findIn, findIn, h.attribute?, h.children, ih]
  rw [Document.find?, Document.find?, depthBound, depthBound, h.size, hfind]

end Document

namespace Client

open Document (booleanAttributes SameTree)

variable {c c' c₁ c₂ : Client} {i : Instance} {key name : String} {props : Value} {budget : Nat}
  {component : Component}

theorem modifyInstance_of_eq {f : Instance → Instance} (hi : c.instance? key = some i)
    (hf : f i = i) : c.modifyInstance key f = c := by
  rw [modifyInstance, hi]
  dsimp only
  rw [hf, Table.insert_of_get? hi]

theorem findRoot_of_sameTree (h : SameTree c.document c'.document) (i : Instance) :
    c'.findRoot i = c.findRoot i := by
  unfold findRoot
  simp only [h.contains, h.attribute?, h.find?]

/-- Where an instance was found, it is found again. -/
theorem findRoot_findRoot (c : Client) (i : Instance) :
    c.findRoot { i with root := c.findRoot i } = c.findRoot i := by
  cases h : c.findRoot i with
  | some root => exact findRoot_seen h
  | none =>
      unfold findRoot at h ⊢
      rw [Option.or_eq_none_iff] at h
      rw [Option.filter_none, Option.none_or, h.2]

/-! ## What setups leave alone -/

/-- Nothing but the store and what instances declare has changed: those that were there are armed as
they were and stand where they stood. -/
structure Unstirred (c c' : Client) : Prop where
  document : c'.document = c.document
  components : c'.components = c.components
  host : c'.host = c.host
  instances : ∀ key i, c.instance? key = some i → ∃ i', c'.instance? key = some i' ∧
    i'.key = i.key ∧ i'.armed = i.armed ∧ i'.root = i.root

theorem closedUnderSetups_unstirred : ClosedUnderSetups Unstirred where
  refl _ := ⟨rfl, rfl, rfl, fun _ i hi => ⟨i, hi, rfl, rfl, rfl⟩⟩
  trans {c₁ c₂ c₃} h₁ h₂ := by
    refine ⟨h₂.document.trans h₁.document, h₂.components.trans h₁.components,
      h₂.host.trans h₁.host, fun key i hi => ?_⟩
    obtain ⟨i₁, hi₁, hkey₁, harmed₁, hroot₁⟩ := h₁.instances key i hi
    obtain ⟨i₂, hi₂, hkey₂, harmed₂, hroot₂⟩ := h₂.instances key i₁ hi₁
    exact ⟨i₂, hi₂, hkey₂.trans hkey₁, harmed₂.trans harmed₁, hroot₂.trans hroot₁⟩
  store _ _ := ⟨rfl, rfl, rfl, fun _ i hi => ⟨i, hi, rfl, rfl, rfl⟩⟩
  modifyInstance c key f hf := by
    have hsame := sameButInstances_modifyInstance c key f
    refine ⟨hsame.document, hsame.components, hsame.host, fun other i hi => ?_⟩
    rw [instance?_modifyInstance]
    by_cases heq : other = key
    · subst heq
      exact ⟨f i, by rw [if_pos rfl, hi]; rfl, hf i⟩
    · exact ⟨i, by rw [if_neg heq, hi], rfl, rfl, rfl⟩
  create {c key} hnew component props := by
    refine ⟨rfl, rfl, rfl, fun other i hi => ⟨i, ?_, rfl, rfl, rfl⟩⟩
    have hne : other ≠ key := by
      rintro rfl
      exact nomatch hnew.symm.trans hi
    exact (Table.get?_insert_of_ne hne ..).trans hi

theorem unstirred_ensureInstance (hrun : ensureInstance budget component key props c = some ((), c')) :
    Unstirred c c' :=
  closedUnderSetups_unstirred.ensureInstance budget component key props c () c' hrun

theorem exists_of_ensureInstance (hrun : ensureInstance budget component key props c = some ((), c')) :
    ∃ i, c'.instance? key = some i := by
  cases hi : c.instance? key with
  | some i =>
      obtain ⟨i', hi', -⟩ := (unstirred_ensureInstance hrun).instances key i hi
      exact ⟨i', hi'⟩
  | none =>
      unfold ensureInstance at hrun
      rw [act_bind, act_get] at hrun
      dsimp only [Option.bind_some] at hrun
      rw [hi, Option.isNone_none, if_pos rfl, act_bind, act_modify] at hrun
      dsimp only [Option.bind_some] at hrun
      have hnew : ({ c with
          instances := Table.insert key (.create component key props) c.instances } : Client).instance?
            key = some (.create component key props) := Table.get?_insert_self ..
      cases hsetup : component.setup with
      | none =>
          rw [hsetup] at hrun
          cases hrun
          exact ⟨_, hnew⟩
      | some setup =>
          rw [hsetup] at hrun
          have hstill := closedUnderSetups_unstirred.runSetup budget key setup [] _ _ _ hrun
          obtain ⟨i', hi', -⟩ := hstill.instances key _ hnew
          exact ⟨i', hi'⟩

/-! ## Instances that were brought to life -/

/-- The instance under a key was brought to life: it is known where it stands, and if it stands
somewhere, it counts as shown and the boolean properties there follow their attributes. -/
def Alive (c : Client) (key : String) : Prop :=
  ∃ i, c.instance? key = some i ∧ c.findRoot i = i.root ∧ ∀ root, i.root = some root →
    i.armed.Stands true ∧
      ∀ p ∈ c.document.subtree root ×ˢ booleanAttributes, c.document.lags p = false

theorem Alive.congr (h : c.Alive key) (hdocument : c'.document = c.document)
    (hinstance : c'.instance? key = c.instance? key) : c'.Alive key := by
  obtain ⟨i, hi, hroot, hshown⟩ := h
  refine ⟨i, hinstance.trans hi, ?_, ?_⟩
  · rw [findRoot_congr hdocument rfl rfl, hroot]
  · rw [hdocument]
    exact hshown

theorem Alive.unstirred (h : c.Alive key) (hstill : Unstirred c c') : c'.Alive key := by
  obtain ⟨i, hi, hroot, hshown⟩ := h
  obtain ⟨i', hi', hkey', harmed', hroot'⟩ := hstill.instances key i hi
  refine ⟨i', hi', ?_, fun root hr => ?_⟩
  · rw [findRoot_congr hstill.document hkey' hroot', hroot, hroot']
  · rw [harmed', hstill.document]
    exact hshown root (hroot' ▸ hr)

/-- A property that follows its attribute still does after more was synced. -/
theorem Alive.synced {root : NodeId} (h : c.Alive key)
    (hdocument : c'.document = c.document.syncProperties root)
    (hinstance : c'.instance? key = c.instance? key) : c'.Alive key := by
  have hsame : SameTree c.document c'.document :=
    hdocument ▸ (Document.synced_syncProperties c.document root).sameTree
  obtain ⟨i, hi, hroot, hshown⟩ := h
  refine ⟨i, hinstance.trans hi, ?_, fun r hr => ?_⟩
  · rw [findRoot_of_sameTree hsame, hroot]
  · obtain ⟨harmed, hfollow⟩ := hshown r hr
    refine ⟨harmed, fun p hp => ?_⟩
    rw [hsame.subtree] at hp
    rw [hdocument, Document.lags_syncProperties, hfollow p hp, Bool.false_and]

/-! ## The first hydration -/

/-- Some instances of a component were recorded and brought to life, and others are alive if they
were. -/
structure Wakes (c c' : Client) (name : String) (instances : Table Value) : Prop where
  components : c'.components = c.components
  host : c'.host = instances.foldl (fun host e => host.record name e.1 e.2) c.host
  awake : ∀ e ∈ instances, c'.Alive e.1
  alive : ∀ key, c.Alive key → c'.Alive key

/-- Showing an instance at a root changes the properties there, how the instance is armed, and the
store. -/
theorem mount_spec {root : NodeId} (hi : c.instance? key = some i)
    (hrun : mount budget key (some root) c = some ((), c')) :
    c'.components = c.components ∧ c'.host = c.host ∧
      c'.document = c.document.syncProperties root ∧
      c'.instance? key = some { i with armed := (i.armed.transition true).2 } ∧
      ∀ other, other ≠ key → c'.instance? other = c.instance? other := by
  rw [mount, act_bind, act_modify] at hrun
  dsimp only [Option.bind_some] at hrun
  generalize c.document.syncProperties root = d at hrun ⊢
  have hi' : ({ c with document := d } : Client).instance? key = some i := hi
  have hother' : ∀ other, ({ c with document := d } : Client).instance? other = c.instance? other :=
    fun _ => rfl
  obtain ⟨armed, s, harmed, -, rfl⟩ := transition_spec hrun
  obtain rfl := harmed i hi'
  have hsame := sameButInstances_modifyInstance { c with document := d } key
    fun j => { j with armed := (i.armed.transition true).2 }
  refine ⟨hsame.components, hsame.host, hsame.document, ?_, fun other hne => ?_⟩
  · exact (instance?_modifyInstance ..).trans (by rw [if_pos rfl, hi', Option.map_some])
  · exact (instance?_modifyInstance ..).trans (by rw [if_neg hne, hother'])

/-- An instance that was looked for is alive if it stands nowhere, and else after it was shown. -/
theorem alive_mount {found : Option NodeId} (hi : c.instance? key = some i) (hroot : i.root = found)
    (hfound : c.findRoot i = found) (hrun : mount budget key found c = some ((), c')) :
    c'.components = c.components ∧ c'.host = c.host ∧ c'.Alive key ∧
      ∀ other, other ≠ key → c.Alive other → c'.Alive other := by
  cases found with
  | none =>
      obtain ⟨-, rfl⟩ := Prod.mk.inj (Option.some.inj hrun)
      refine ⟨rfl, rfl, ⟨i, hi, hfound.trans hroot.symm, ?_⟩, fun _ _ h => h⟩
      rw [hroot]
      exact nofun
  | some root =>
      obtain ⟨hcomponents, hhost, hdocument, hshown, hothers⟩ := mount_spec hi hrun
      have hsame : SameTree c.document c'.document :=
        hdocument ▸ (Document.synced_syncProperties c.document root).sameTree
      have harmed : (i.armed.transition true).2.Stands true := ⟨rfl, rfl, fun _ => ⟨rfl, rfl⟩⟩
      refine ⟨hcomponents, hhost, ⟨_, hshown, ?_, fun r hr => ⟨harmed, fun p hp => ?_⟩⟩,
        fun other hne h => h.synced hdocument (hothers other hne)⟩
      · calc c'.findRoot { i with armed := (i.armed.transition true).2 }
            = c.findRoot { i with armed := (i.armed.transition true).2 } :=
              findRoot_of_sameTree hsame _
          _ = c.findRoot i := findRoot_congr rfl rfl rfl
          _ = i.root := hfound.trans hroot.symm
      · obtain rfl : root = r := Option.some.inj (hroot.symm.trans hr)
        rw [hsame.subtree] at hp
        rw [hdocument, Document.lags_syncProperties]
        simp [hp]

/-- Looking for the root of an instance changes nothing if the instance is alive already. -/
theorem Alive.seen {other : String} (h : c.Alive other) (hi : c.instance? key = some i) :
    (c.modifyInstance key fun j => { j with root := c.findRoot i }).Alive other := by
  by_cases heq : other = key
  · subst heq
    obtain ⟨j, hj, hroot, hshown⟩ := h
    obtain rfl : i = j := Option.some.inj (hi.symm.trans hj)
    rw [hroot, modifyInstance_of_eq hi rfl]
    exact ⟨i, hj, hroot, hshown⟩
  · refine h.congr (sameButInstances_modifyInstance c key _).document ?_
    rw [instance?_modifyInstance, if_neg heq]

theorem wakes_hydrateInstance
    (hrun : hydrateInstance budget component name key props c = some ((), c')) :
    Wakes c c' name [(key, props)] := by
  rw [run_hydrateInstance_eq] at hrun
  obtain ⟨⟨⟨⟩, c₁⟩, hensure, hmount⟩ := Option.bind_eq_some_iff.mp hrun
  have hstill := unstirred_ensureInstance hensure
  obtain ⟨i, hi⟩ := exists_of_ensureInstance hensure
  have hsame := sameButInstances_modifyInstance c₁ key fun j => { j with root := c₁.findRoot i }
  have hseen : (c₁.modifyInstance key fun j => { j with root := c₁.findRoot i }).instance? key =
      some { i with root := c₁.findRoot i } := by
    rw [instance?_modifyInstance, if_pos rfl, hi, Option.map_some]
  rw [mountedRoot_of_instance? hi] at hmount
  obtain ⟨hcomponents, hhost, hawake, halive⟩ := alive_mount hseen rfl
    ((findRoot_congr hsame.document rfl rfl).trans (findRoot_findRoot c₁ i)) hmount
  refine ⟨?_, ?_, by simpa using hawake, fun other h => ?_⟩
  · exact (hcomponents.trans hsame.components).trans hstill.components
  · exact (hhost.trans hsame.host).trans hstill.host
  · by_cases heq : other = key
    · exact heq ▸ hawake
    · have hrecorded : ({ c with host := c.host.record name key props } : Client).Alive other :=
        h.congr rfl rfl
      exact halive other heq ((hrecorded.unstirred hstill).seen hi)

theorem wakes_hydrateInstances {instances : Table Value}
    (hrun : hydrateInstances budget component name instances c = some ((), c')) :
    Wakes c c' name instances := by
  induction instances generalizing c with
  | nil =>
      obtain ⟨-, rfl⟩ := Prod.mk.inj (Option.some.inj hrun)
      exact ⟨rfl, rfl, nofun, fun _ => id⟩
  | cons first rest ih =>
      rw [hydrateInstances, act_bind] at hrun
      obtain ⟨⟨⟨⟩, c₁⟩, hfirst, hrest⟩ := Option.bind_eq_some_iff.mp hrun
      have h₁ := wakes_hydrateInstance hfirst
      have h₂ := ih hrest
      refine ⟨h₂.components.trans h₁.components, ?_, ?_, fun key h => h₂.alive key (h₁.alive key h)⟩
      · rw [h₂.host, h₁.host]
        rfl
      · intro e he
        rcases List.mem_cons.mp he with rfl | he
        · exact h₂.alive e.1 (h₁.awake e List.mem_cons_self)
        · exact h₂.awake e he

/-- The first hydration went through all components: they are registered, and all that is recorded of
them is alive. -/
theorem awake_hydrateComponents {recorded : Table (Table Value)}
    (hrun : ExceptT.run (hydrateComponents budget recorded) c = some (.ok (), c')) :
    c'.components = c.components ∧ c'.host = c.host.recordAll recorded ∧
      (∀ key, c.Alive key → c'.Alive key) ∧
      ∀ t ∈ recorded, (c.component? t.1).isSome ∧ ∀ e ∈ t.2, c'.Alive e.1 := by
  induction recorded generalizing c with
  | nil =>
      obtain ⟨-, rfl⟩ := Prod.mk.inj (Option.some.inj hrun)
      exact ⟨rfl, rfl, fun _ => id, nofun⟩
  | cons first rest ih =>
      rw [hydrateComponents, attempt_get_bind] at hrun
      cases hcomponent : c.component? first.1 with
      | none =>
          rw [hcomponent] at hrun
          cases hrun
      | some component =>
          rw [hcomponent] at hrun
          obtain ⟨⟨⟩, c₁, hfirst, hrest⟩ := run_bind_eq_ok_iff.mp hrun
          rw [run_lift] at hfirst
          obtain ⟨⟨⟨⟩, c₂⟩, hinstances, heq⟩ := Option.map_eq_some_iff.mp hfirst
          obtain ⟨-, rfl⟩ := Prod.mk.inj heq
          have h₁ := wakes_hydrateInstances hinstances
          obtain ⟨hcomponents, hhost, halive, hawake⟩ := ih hrest
          refine ⟨hcomponents.trans h₁.components, ?_, fun key h => halive key (h₁.alive key h), ?_⟩
          · rw [hhost, h₁.host]
            rfl
          · intro t ht
            rcases List.mem_cons.mp ht with rfl | ht
            · exact ⟨by rw [hcomponent]; rfl, fun e he => halive e.1 (h₁.awake e he)⟩
            · obtain ⟨hregistered, hrest⟩ := hawake t ht
              rw [component?, h₁.components] at hregistered
              exact ⟨hregistered, hrest⟩

/-! ## The second hydration -/

/-- Where all is alive and recorded there is nothing to do. -/
theorem run_hydrateInstance_of_alive (h : c.Alive key) (hhost : c.host.get? name key = some props)
    (budget : Nat) (component : Component) :
    hydrateInstance budget component name key props c = some ((), c) := by
  obtain ⟨i, hi, hroot, hshown⟩ := h
  have hensure : ensureInstance budget component key props c = some ((), c) := by
    rw [ensureInstance, act_bind, act_get]
    dsimp only [Option.bind_some]
    rw [hi]
    rfl
  have hmounted : c.mountedRoot key = (i.root, c) := by
    rw [mountedRoot_of_instance? hi, hroot, modifyInstance_of_eq hi rfl]
  rw [run_hydrateInstance_eq, HostProps.record_of_get? hhost, hensure, Option.bind_some, hmounted]
  cases hr : i.root with
  | none => rfl
  | some root =>
      obtain ⟨harmed, hfollow⟩ := hshown root hr
      rw [mount, act_bind, act_modify]
      dsimp only [Option.bind_some]
      rw [Document.syncProperties_of_not_lags hfollow, transition, act_bind, act_get]
      dsimp only [Option.bind_some]
      rw [hi]
      dsimp only
      rw [harmed.transition_self]
      show some ((), c.modifyInstance key fun j => { j with armed := i.armed }) = some ((), c)
      rw [modifyInstance_of_eq hi rfl]

theorem run_hydrateInstances_of_alive {instances : Table Value}
    (h : ∀ e ∈ instances, c.Alive e.1 ∧ c.host.get? name e.1 = some e.2) (budget : Nat)
    (component : Component) : hydrateInstances budget component name instances c = some ((), c) := by
  induction instances with
  | nil => rfl
  | cons first rest ih =>
      obtain ⟨⟨halive, hhost⟩, hrest⟩ := List.forall_mem_cons.mp h
      rw [hydrateInstances, act_bind, run_hydrateInstance_of_alive halive hhost, Option.bind_some]
      exact ih hrest

theorem run_hydrateComponents_of_alive {recorded : Table (Table Value)}
    (h : ∀ t ∈ recorded, (c.component? t.1).isSome ∧
      ∀ e ∈ t.2, c.Alive e.1 ∧ c.host.get? t.1 e.1 = some e.2) (budget : Nat) :
    ExceptT.run (hydrateComponents budget recorded) c = some (.ok (), c) := by
  induction recorded with
  | nil => rfl
  | cons first rest ih =>
      obtain ⟨⟨hregistered, hfirst⟩, hrest⟩ := List.forall_mem_cons.mp h
      obtain ⟨component, hcomponent⟩ := Option.isSome_iff_exists.mp hregistered
      have hstart : ExceptT.run (hydrateComponents budget (first :: rest)) c =
          ExceptT.run (liftM (hydrateInstances budget component first.1 first.2) >>= fun _ =>
            hydrateComponents budget rest) c := by
        rw [hydrateComponents, attempt_get_bind, hcomponent]
      rw [hstart, run_bind, run_lift, run_hydrateInstances_of_alive hfirst]
      exact ih hrest

/-- A client that has nothing to do when it is hydrated from some page props. -/
structure Hydrated (c : Client) (pageProps : Value) : Prop where
  registered : ∀ t ∈ (HostProps.ofValue pageProps).entries, (c.component? t.1).isSome
  alive : ∀ t ∈ (HostProps.ofValue pageProps).entries, ∀ e ∈ t.2, c.Alive e.1
  recorded : ∀ t ∈ (HostProps.ofValue pageProps).entries, ∀ e ∈ t.2,
    c.host.get? t.1 e.1 = some e.2
  seeded : c.registry.seed c.host = c.registry

theorem Hydrated.run_hydrate {pageProps : Value} (h : c.Hydrated pageProps) (budget : Nat) :
    ExceptT.run (hydrate budget pageProps) c = some (.ok (), c) := by
  have hcomponents : ExceptT.run
      (hydrateComponents budget (HostProps.ofValue pageProps).entries) c = some (.ok (), c) :=
    run_hydrateComponents_of_alive (fun t ht =>
      ⟨h.registered t ht, fun e he => ⟨h.alive t ht e he, h.recorded t ht e he⟩⟩) budget
  rw [hydrate, run_bind, hcomponents]
  show some (Except.ok (), { c with registry := c.registry.seed c.host }) = some (.ok (), c)
  rw [h.seeded]

theorem hydrated_of_hydrate {pageProps : Value}
    (hrun : ExceptT.run (hydrate budget pageProps) c = some (.ok (), c')) :
    c'.Hydrated pageProps := by
  rw [hydrate] at hrun
  obtain ⟨⟨⟩, c₁, hfirst, hseed⟩ := run_bind_eq_ok_iff.mp hrun
  obtain ⟨-, rfl⟩ := Prod.mk.inj (Option.some.inj hseed)
  obtain ⟨hcomponents, hhost, -, hawake⟩ := awake_hydrateComponents hfirst
  constructor
  · intro t ht
    show (Table.get? t.1 c₁.components).isSome
    rw [hcomponents]
    exact (hawake t ht).1
  · intro t ht e he
    exact ((hawake t ht).2 e he).congr rfl rfl
  · intro t ht e he
    show c₁.host.get? t.1 e.1 = some e.2
    rw [hhost]
    exact HostProps.get?_recordAll_ofValue ht he c.host
  · exact Registry.seed_seed ..

/-! ## Other setups and hooks -/

/-- The client with other setups of its components and other hooks of its instances. -/
def rewire (setup : Component → Option Setup) (hooks : Instance → List (Stage × Effect))
    (c : Client) : Client :=
  { c with
    components := Table.mapValues (fun d => { d with setup := setup d }) c.components
    instances := Table.mapValues (fun i => { i with hooks := hooks i }) c.instances }

theorem Alive.rewire (h : c.Alive key) (setup : Component → Option Setup)
    (hooks : Instance → List (Stage × Effect)) : (c.rewire setup hooks).Alive key := by
  obtain ⟨i, hi, hroot, hshown⟩ := h
  refine ⟨{ i with hooks := hooks i }, ?_, ?_, hshown⟩
  · unfold instance? at hi ⊢
    unfold Client.rewire
    dsimp only
    rw [Table.get?_mapValues, hi, Option.map_some]
  · exact (findRoot_congr rfl rfl rfl).trans hroot

theorem Hydrated.rewire {pageProps : Value} (h : c.Hydrated pageProps)
    (setup : Component → Option Setup) (hooks : Instance → List (Stage × Effect)) :
    (c.rewire setup hooks).Hydrated pageProps := by
  refine ⟨fun t ht => ?_, fun t ht e he => (h.alive t ht e he).rewire setup hooks, h.recorded,
    h.seeded⟩
  unfold component? Client.rewire
  dsimp only
  rw [Table.get?_mapValues, Option.isSome_map]
  exact h.registered t ht

/-- Whatever a client is hydrated from, to hydrate it again from the same page props leaves it just as
it is: its document with the log, its instances with their props, its store with the queue, the keys
in its registry and the recorded props. This is so with any setups and hooks in the place of its own,
since none of them runs. -/
theorem hydrate_again {pageProps : Value}
    (hrun : ExceptT.run (hydrate budget pageProps) c = some (.ok (), c')) (budget' : Nat) :
    ExceptT.run (hydrate budget' pageProps) c' = some (.ok (), c') ∧
      ∀ setup hooks, ExceptT.run (hydrate budget' pageProps) (c'.rewire setup hooks) =
        some (.ok (), c'.rewire setup hooks) := by
  have hhydrated := hydrated_of_hydrate hrun
  refine ⟨hhydrated.run_hydrate budget', fun setup hooks => ?_⟩
  exact (hhydrated.rewire setup hooks).run_hydrate budget'

namespace Rehydration

open Lifecycle (noting)

/-- A card with state and with hooks for being shown. -/
def card : Component where
  name := "card"
  template := ⟨"card", "<li></li>", ⟨[.text "<li></li>"]⟩⟩
  setup := some <| .proxy [("stars", .int 0)] fun _ _ =>
    .on .beforeMount (noting .beforeMount).2 <| .on .mounted (noting .mounted).2 .done

/-- A list of two cards, the first of which is to be enabled. -/
def client : Client :=
  { create ⟨#[some ⟨.element (.ofTag Document.rootTag []), none, [1, 2]⟩,
      some ⟨.element (.ofTag "li" [("element", "card"), ("disabled", "false")]), some 0, []⟩,
      some ⟨.element (.ofTag "li" [("element", "card:top")]), some 0, []⟩], [], #[]⟩ .braces with
    components := [("card", card)] }

/-- Two cards by position and two by key; of each kind one is in the document. -/
def pageProps : Value :=
  .object (.made 0) [("card", .object (.made 1) [("card", .object (.made 2) []),
    ("card:top", .object (.made 3) [("$key", .str "top")]), ("card_1", .object (.made 4) []),
    ("card:end", .object (.made 5) [("$key", .str "end")])])]

/-- The cards are set up and shown once. The second time nothing is noted in the journal, though there
are hooks for every stage now. -/
theorem hydrate_again_cards :
    ∃ c', ExceptT.run (hydrate 1 pageProps) client = some (.ok (), c') ∧
      c'.store.journal = #[[.str "BeforeMount"], [.str "BeforeMount"]] ∧
      c'.store.queue.deferred.length = 2 ∧ c'.store.signals.size = 4 ∧
      c'.document.log = #[.setProperty 1 "disabled" false] ∧
      c'.registry.keys "card" = ["card", "card_1"] ∧
      ExceptT.run (hydrate 0 pageProps) c' = some (.ok (), c') ∧
      (let wired := c'.rewire (fun _ => some (.act (noting .mounted).2 .done))
        fun _ => Stage.all.map noting
      ExceptT.run (hydrate 1 pageProps) wired = some (.ok (), wired) ∧
        wired.store.journal.size = 2) := by
  have hrun : ∃ c', ExceptT.run (hydrate 1 pageProps) client = some (.ok (), c') ∧
      c'.store.journal = #[[.str "BeforeMount"], [.str "BeforeMount"]] ∧
      c'.store.queue.deferred.length = 2 ∧ c'.store.signals.size = 4 ∧
      c'.document.log = #[.setProperty 1 "disabled" false] ∧
      c'.registry.keys "card" = ["card", "card_1"] := ⟨_, by cbv, rfl, rfl, rfl, rfl, rfl⟩
  obtain ⟨c', hrun, hjournal, hdeferred, hsignals, hlog, hkeys⟩ := hrun
  refine ⟨c', hrun, hjournal, hdeferred, hsignals, hlog, hkeys, (hydrate_again hrun 0).1,
    (hydrate_again hrun 1).2 _ _, ?_⟩
  show c'.store.journal.size = 2
  rw [hjournal]
  rfl

end Rehydration

end Client

end LiveMarkup
