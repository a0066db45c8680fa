import LiveMarkup.Proofs.InstanceKeys
import LiveMarkup.Proofs.Render.Hereditary
set_option autoImplicit false

/-! # Values that JSON carries

The values that a page computes with from JSON data hold neither markup nor functions (`Plain`), and
evaluation does not leave them. Written as JSON and read again such values keep their fields in
order, and props keep the key that they carry; identities are new, and numbers that are not finite
are lost. -/

namespace LiveMarkup

/-! ## Aligned tables -/

/-- Tables with the same keys in the same order and related values. -/
inductive Table.Aligned {α β : Type} (R : α → β → Prop) : Table α → Table β → Prop
  | nil : Aligned R [] []
  | cons {key : String} {a : α} {b : β} {t : Table α} {t' : Table β} :
      R a b → Aligned R t t' → Aligned R ((key, a) :: t) ((key, b) :: t')

namespace Table.Aligned

variable {α β : Type} {R : α → β → Prop} {t : Table α} {t' : Table β}

theorem keys (h : Aligned R t t') : Table.keys t' = Table.keys t := by
  induction h with
  | nil => rfl
  | cons _ _ ih => exact congrArg _ ih

theorem get? (h : Aligned R t t') (key : String) :
    (Table.get? key t = none ∧ Table.get? key t' = none) ∨
      ∃ a b, Table.get? key t = some a ∧ Table.get? key t' = some b ∧ R a b := by
  induction h with
  | nil => exact .inl ⟨rfl, rfl⟩
  | @cons _ a b _ _ hab _ ih =>
      rw [Table.get?, Table.get?]
      split
      · exact .inr ⟨a, b, rfl, rfl, hab⟩
      · exact ih

theorem exists_of_mem (h : Aligned R t t') {e : String × β} (he : e ∈ t') :
    ∃ a, (e.1, a) ∈ t ∧ R a e.2 := by
  induction h with
  | nil => simp at he
  | cons hab _ ih =>
      rcases List.mem_cons.mp he with rfl | he
      · exact ⟨_, List.mem_cons_self, hab⟩
      · obtain ⟨a, ha, hr⟩ := ih he
        exact ⟨a, List.mem_cons_of_mem _ ha, hr⟩

theorem imp {S : α → β → Prop} (h : Aligned R t t') (hRS : ∀ e ∈ t, ∀ b, R e.2 b → S e.2 b) :
    Aligned S t t' := by
  induction h with
  | nil => exact .nil
  | cons hab _ ih =>
      refine .cons (hRS _ List.mem_cons_self _ hab) (ih fun e he => ?_)
      exact hRS e (List.mem_cons_of_mem _ he)

end Table.Aligned

namespace Value

/-! ## Plain values -/

/-- A value without markup and functions, whose objects have no field twice. -/
inductive Plain : Value → Prop
  | null : Plain .null
  | bool (b : Bool) : Plain (.bool b)
  | int (n : Int64) : Plain (.int n)
  | float (x : Float) : Plain (.float x)
  | str (s : String) : Plain (.str s)
  | array {i : Ident} {items : List Value} : (∀ v ∈ items, Plain v) → Plain (.array i items)
  | object {i : Ident} {fields : Table Value} : (Table.keys fields).Nodup →
      (∀ e ∈ fields, Plain e.2) → Plain (.object i fields)

theorem hereditary_plain : Hereditary Plain where
  null := .null
  bool := .bool
  int := .int
  float := .float
  str := .str
  array := fun i items => ⟨fun h => by cases h; assumption, .array⟩
  object := by
    intro i fields h
    have hnil : (Table.keys ([] : Table Value)).Nodup := List.nodup_nil
    refine .object (Table.nodup_keys_extend hnil fields) fun e he => ?_
    rcases Table.mem_extend he with he | he
    · exact h e he
    · simp at he
  fields := fun i fields h => by cases h; assumption

theorem Plain.nodup {i : Ident} {fields : Table Value} (h : Plain (.object i fields)) :
    (Table.keys fields).Nodup := by
  cases h
  assumption

theorem Plain.of_mem {i : Ident} {fields : Table Value} (h : Plain (.object i fields))
    {e : String × Value} (he : e ∈ fields) : Plain e.2 :=
  hereditary_plain.fields i fields h e he

theorem Plain.notFunction {v : Value} (h : Plain v) : v.isFunction = false := by
  cases h <;> rfl

/-- The fields of a plain value make a plain object. -/
theorem Plain.ofFields {v : Value} (h : Plain v) (i : Ident) : Plain (.object i v.fields) := by
  cases h with
  | object hnodup hfields => exact .object hnodup hfields
  | _ => exact .object List.nodup_nil (by simp [fields])

/-! ## Reading what was written -/

/-- What a value becomes when it is written as JSON and read again. -/
def Reread (v w : Value) : Prop := ∃ n, w = (ofJson .made n v.toJson).1

theorem aligned_fieldsOfJson (fields : Table Value) (h : ∀ e ∈ fields, Plain e.2) (n : Nat) :
    Table.Aligned Reread fields (fieldsOfJson .made n (fieldsToJson fields)).1 := by
  induction fields generalizing n with
  | nil => exact .nil
  | cons first rest ih =>
      obtain ⟨key, v⟩ := first
      have hv := (h _ List.mem_cons_self).notFunction
      have hwritten : fieldsToJson ((key, v) :: rest) = (key, v.toJson) :: fieldsToJson rest := by
        rw [fieldsToJson, hv, if_neg Bool.false_ne_true]
      rw [hwritten]
      exact .cons ⟨n, rfl⟩ (ih (fun e he => h e (List.mem_cons_of_mem _ he)) _)

theorem Reread.object {i : Ident} {fields : Table Value} {w : Value}
    (h : Reread (.object i fields) w) (hplain : Plain (.object i fields)) :
    ∃ j fields', w = .object j fields' ∧ Table.Aligned Reread fields fields' := by
  obtain ⟨n, rfl⟩ := h
  have hentries := aligned_fieldsOfJson fields (hereditary_plain.fields i fields hplain) (n + 1)
  refine ⟨.made n, _, rfl, ?_⟩
  rw [Table.ofList_of_nodup (hentries.keys ▸ hplain.nodup)]
  exact hentries

/-- Texts are kept, and nothing else becomes a text. -/
theorem Reread.str_iff {v w : Value} (h : Reread v w) (hplain : Plain v) (s : String) :
    w = .str s ↔ v = .str s := by
  obtain ⟨n, rfl⟩ := h
  cases hplain with
  | float x =>
      unfold toJson
      split <;> simp [ofJson]
  | int m =>
      simp only [toJson, ofJson, ofWhole]
      split <;> simp
  | _ => simp [toJson, ofJson]

theorem explicitKey?_congr {v w : Value} (h : ∀ s,
    v.field? explicitKeyProp = some (.str s) ↔ w.field? explicitKeyProp = some (.str s)) :
    LiveMarkup.explicitKey? v = LiveMarkup.explicitKey? w := by
  by_cases hstr : ∃ s, v.field? explicitKeyProp = some (.str s)
  · obtain ⟨s, hs⟩ := hstr
    unfold LiveMarkup.explicitKey?
    rw [hs, (h s).mp hs]
  · have hnone : ∀ u : Value, (¬∃ s, u.field? explicitKeyProp = some (.str s)) →
        LiveMarkup.explicitKey? u = none := by
      intro u hu
      unfold LiveMarkup.explicitKey?
      split
      · next s hs => exact absurd ⟨s, hs⟩ hu
      · rfl
    rw [hnone v hstr, hnone w fun ⟨s, hs⟩ => hstr ⟨s, (h s).mpr hs⟩]

/-- Props keep the key that they carry. -/
theorem Reread.explicitKey? {v w : Value} (h : Reread v w) (hplain : Plain v) :
    LiveMarkup.explicitKey? w = LiveMarkup.explicitKey? v := by
  cases hplain with
  | object hnodup hfields =>
      obtain ⟨j, fields', rfl, hentries⟩ := h.object (.object hnodup hfields)
      refine explicitKey?_congr fun s => ?_
      simp only [field?, fields]
      obtain ⟨hv, hw⟩ | ⟨v, w, hv, hw, hread⟩ := hentries.get? explicitKeyProp
      · simp [hv, hw]
      · have hstr := hread.str_iff (hfields _ (Table.mem_of_get? hv)) s
        simp only [hv, hw, Option.some.injEq, hstr]
  | float x =>
      obtain ⟨n, rfl⟩ := h
      unfold toJson
      split <;> rfl
  | int m =>
      obtain ⟨n, rfl⟩ := h
      simp only [toJson, ofJson, ofWhole]
      split <;> rfl
  | null | bool | str | array =>
      obtain ⟨n, rfl⟩ := h
      rfl

end Value

/-! ## Recorded props -/

namespace HostProps

variable {h : HostProps}

/-- What a page records from plain data: numbered instances with plain props. -/
structure Recorded (h : HostProps) : Prop extends h.Orderly where
  plain : ∀ name, ∀ e ∈ h.instances name, e.2.Plain

theorem recorded_empty : Recorded empty := ⟨orderly_empty, by simp [empty, instances, Table.get?]⟩

theorem Recorded.register (hh : h.Recorded) (name : String) {props : Value} (hprops : props.Plain) :
    (h.register name props).2.Recorded := by
  refine ⟨hh.toOrderly.register name props, fun other e he => ?_⟩
  rw [HostProps.register, instances_record] at he
  split at he
  · rcases Table.mem_insert he with rfl | he
    · exact hprops
    · exact hh.plain name e he
  · exact hh.plain other e he

theorem Orderly.instances_of_mem (hh : h.Orderly) {name : String} {t : Table Value}
    (ht : (name, t) ∈ h.entries) : h.instances name = t := by
  rw [instances, Table.get?_of_mem hh.names_nodup ht, Option.getD_some]

/-! ### The record as a value -/

theorem aligned_toValue (h : HostProps) (n : Nat) :
    ∃ i members, (h.toValue .made n).1 = .object i members ∧
      Table.Aligned (fun t v => ∃ j, v = Value.object j t) h.entries members := by
  have hzip : ∀ (l : Table (Table Value)) (k : Nat),
      Table.Aligned (fun t v => ∃ j, v = Value.object j t) l
        ((l.zipIdx k).map fun c => (c.1.1, Value.object (.made (n + 1 + c.2)) c.1.2)) := by
    intro l
    induction l with
    | nil => exact fun _ => .nil
    | cons first rest ih =>
        intro k
        rw [List.zipIdx_cons, List.map_cons]
        exact .cons ⟨_, rfl⟩ (ih (k + 1))
  exact ⟨_, _, rfl, hzip h.entries 0⟩

theorem Recorded.plain_toValue (hh : h.Recorded) (n : Nat) : (h.toValue .made n).1.Plain := by
  obtain ⟨i, members, hvalue, hmembers⟩ := aligned_toValue h n
  rw [hvalue]
  refine .object (hmembers.keys ▸ hh.names_nodup) fun c hc => ?_
  obtain ⟨t, ht, j, hobject⟩ := hmembers.exists_of_mem hc
  rw [hobject, ← hh.instances_of_mem ht]
  exact .object (hh.numbered c.1).nodup (hh.plain c.1)

/-! ### Reading the record back -/

/-- Recording the entries of tables one after the other. -/
def recordAll (h : HostProps) (tables : Table (Table Value)) : HostProps :=
  tables.foldl (fun h c => c.2.foldl (fun h e => h.record c.1 e.1 e.2) h) h

theorem instances_foldl_record (name : String) (t : Table Value) (h : HostProps) (other : String) :
    (t.foldl (fun h e => h.record name e.1 e.2) h).instances other =
      if other = name then Table.extend (h.instances name) t else h.instances other := by
  induction t generalizing h with
  | nil =>
      split
      · next heq => rw [heq]; rfl
      · rfl
  | cons first rest ih =>
      rw [List.foldl_cons, ih, instances_record, instances_record, if_pos rfl]
      split
      · rfl
      · rfl

theorem instances_recordAll {tables : Table (Table Value)} (hnodup : (Table.keys tables).Nodup)
    (h : HostProps) (name : String) :
    (h.recordAll tables).instances name =
      Table.extend (h.instances name) ((Table.get? name tables).getD []) := by
  induction tables generalizing h with
  | nil => rfl
  | cons first rest ih =>
      obtain ⟨hfirst, hrest⟩ := List.nodup_cons.mp hnodup
      rw [recordAll, List.foldl_cons]
      refine (ih hrest _).trans ?_
      rw [instances_foldl_record, Table.get?]
      by_cases heq : first.1 = name
      · subst heq
        have hnone : Table.get? first.1 rest = none := by
          rw [← Option.not_isSome_iff_eq_none, Table.get?_isSome_iff]
          exact hfirst
        rw [hnone, if_pos rfl, if_pos rfl]
        rfl
      · rw [if_neg heq, if_neg fun he => heq he.symm]

theorem names_nodup_recordAll (tables : Table (Table Value)) {h : HostProps}
    (hnodup : (Table.keys h.entries).Nodup) : (Table.keys (h.recordAll tables).entries).Nodup := by
  have hinner : ∀ (name : String) (t : Table Value) (h : HostProps), (Table.keys h.entries).Nodup →
      (Table.keys (t.foldl (fun h e => h.record name e.1 e.2) h).entries).Nodup := by
    intro name t
    induction t with
    | nil => exact fun _ h => h
    | cons first rest ih => exact fun h hn => ih _ (Table.nodup_keys_insert hn _ _)
  induction tables generalizing h with
  | nil => exact hnodup
  | cons first rest ih => exact ih (hinner first.1 first.2 h hnodup)

theorem mem_names_recordAll {tables : Table (Table Value)} {h : HostProps} {name : String}
    (hname : name ∈ Table.keys (h.recordAll tables).entries) :
    name ∈ Table.keys h.entries ∨ name ∈ Table.keys tables := by
  have hinner : ∀ (other : String) (t : Table Value) (h : HostProps),
      name ∈ Table.keys (t.foldl (fun h e => h.record other e.1 e.2) h).entries →
        name ∈ Table.keys h.entries ∨ name = other := by
    intro other t
    induction t with
    | nil => exact fun _ => .inl
    | cons first rest ih =>
        intro h hname
        rcases ih _ hname with hname | hname
        · unfold record at hname
          dsimp only at hname
          rw [Table.keys_insert] at hname
          split at hname
          · exact .inl hname
          · simpa using hname
        · exact .inr hname
  induction tables generalizing h with
  | nil => exact .inl hname
  | cons first rest ih =>
      rcases ih hname with hname | hname
      · rcases hinner first.1 first.2 h hname with hname | rfl
        · exact .inl hname
        · exact .inr List.mem_cons_self
      · exact .inr (List.mem_cons_of_mem _ hname)

/-- Recording again what is recorded in an orderly way gives the same instances. -/
theorem Orderly.recordAll (hh : h.Orderly) : (empty.recordAll h.entries).Orderly := by
  refine ⟨names_nodup_recordAll _ List.nodup_nil, fun name => ?_⟩
  have hinstances := instances_recordAll hh.names_nodup empty name
  have hnodup := (hh.numbered name).nodup
  have hsame : (empty.recordAll h.entries).instances name = h.instances name :=
    hinstances.trans (Table.ofList_of_nodup hnodup)
  rw [hsame]
  exact hh.numbered name

theorem ofValue_eq_recordAll (v : Value) :
    ofValue v = empty.recordAll (v.fields.map fun c => (c.1, c.2.fields)) := by
  rw [recordAll, List.foldl_map]
  rfl

/-- The instances of a record that JSON carried are those of the record, with their props read
again. -/
theorem Recorded.reread (hh : h.Recorded) {v : Value} {n : Nat}
    (hv : Value.Reread (h.toValue .made n).1 v) (name : String) :
    Table.Aligned Value.Reread (h.instances name) ((ofValue v).instances name) := by
  obtain ⟨i, members, hvalue, hmembers⟩ := aligned_toValue h n
  have hplain := hh.plain_toValue n
  rw [hvalue] at hv hplain
  obtain ⟨j, fields, rfl, hfields⟩ := hv.object hplain
  have hkeys : Table.keys (fields.map fun c => (c.1, c.2.fields)) = Table.keys h.entries := by
    rw [← hmembers.keys, ← hfields.keys, Table.keys, Table.keys, List.map_map]
    rfl
  have hget : Table.get? name (fields.map fun c => (c.1, c.2.fields)) =
      (Table.get? name fields).map Value.fields := by
    clear hkeys hfields hv
    induction fields with
    | nil => rfl
    | cons first rest ih =>
        rw [List.map_cons, Table.get?, Table.get?]
        split
        · rfl
        · exact ih
  -- both levels of the record were read in order, so recording them again changes nothing
  rw [ofValue_eq_recordAll, instances_recordAll (hkeys ▸ hh.names_nodup)]
  show Table.Aligned _ _ (Table.ofList ((Table.get? name (fields.map _)).getD []))
  rw [hget]
  unfold instances
  obtain ⟨ht, hm⟩ | ⟨t, m, ht, hm, k, rfl⟩ := hmembers.get? name
  · obtain ⟨-, hf⟩ | ⟨m', w, hm', -⟩ := hfields.get? name
    · rw [ht, hf]
      exact .nil
    · simp [hm] at hm'
  · obtain ⟨hm', -⟩ | ⟨m', w, hm', hw, hread⟩ := hfields.get? name
    · simp [hm] at hm'
    · obtain rfl := Option.some.inj (hm.symm.trans hm')
      have hinstances := hplain.of_mem (Table.mem_of_get? hm)
      obtain ⟨k', t', rfl, haligned⟩ := hread.object hinstances
      rw [ht, hw]
      show Table.Aligned _ t (Table.ofList t')
      rw [Table.ofList_of_nodup (haligned.keys ▸ hinstances.nodup)]
      exact haligned

theorem positions_of_aligned {t t' : Table Value}
    (h : Table.Aligned (fun v w => explicitKey? w = explicitKey? v) t t') :
    positions t' = positions t := by
  induction h with
  | nil => rfl
  | cons hfirst _ ih =>
      unfold positions at ih ⊢
      rw [List.filter_cons, List.filter_cons, hfirst]
      split
      · rw [List.map_cons, List.map_cons, ih]
      · exact ih

theorem Numbered.of_aligned {name : String} {t t' : Table Value} (hn : Numbered name t)
    (h : Table.Aligned (fun v w => explicitKey? w = explicitKey? v) t t') : Numbered name t' := by
  have hpositions := positions_of_aligned h
  refine ⟨h.keys ▸ hn.nodup, hpositions ▸ hn.positional, fun e he key hkey => ?_⟩
  obtain ⟨v, hv, heq⟩ := h.exists_of_mem he
  exact hn.explicit (e.1, v) hv key (heq ▸ hkey)

theorem mem_names_ofValue {v : Value} {name : String} (hname : name ∈ (ofValue v).names) :
    name ∈ Table.keys v.fields := by
  rw [ofValue_eq_recordAll] at hname
  rcases mem_names_recordAll hname with hname | hname
  · simp [empty, Table.keys] at hname
  · simpa [Table.keys, List.map_map, Function.comp_def] using hname

/-- JSON adds no component to a record. -/
theorem Recorded.mem_names_reread (hh : h.Recorded) {v : Value} {n : Nat}
    (hv : Value.Reread (h.toValue .made n).1 v) {name : String} (hname : name ∈ (ofValue v).names) :
    name ∈ Table.keys (h.toValue .made n).1.fields := by
  have hfields := mem_names_ofValue hname
  obtain ⟨i, members, hvalue, -⟩ := aligned_toValue h n
  have hplain := hh.plain_toValue n
  rw [hvalue] at hv hplain ⊢
  obtain ⟨j, fields, rfl, haligned⟩ := hv.object hplain
  exact haligned.keys ▸ hfields

/-- A record that JSON carried is as orderly as it was. -/
theorem Recorded.orderly_reread (hh : h.Recorded) {v : Value} {n : Nat}
    (hv : Value.Reread (h.toValue .made n).1 v) : (ofValue v).Orderly where
  names_nodup := by
    rw [ofValue_eq_recordAll]
    exact names_nodup_recordAll _ List.nodup_nil
  numbered := by
    intro name
    refine Numbered.of_aligned (hh.numbered name) ((hh.reread hv name).imp ?_)
    exact fun e he w hw => hw.explicitKey? (hh.plain name e he)

end HostProps

end LiveMarkup
