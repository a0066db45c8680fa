import LiveMarkup.Engine.Page
import LiveMarkup.Proofs.Json.RoundTrip
import LiveMarkup.Proofs.Setup.Declared
import LiveMarkup.Proofs.Text.Occurrence
import LiveMarkup.Proofs.Value.Plain
set_option autoImplicit false

/-! # Values that a page hands to its script

The props of a page stand in a script as JSON. The text holds none of the characters that could end
the script, so the script ends where it is meant to, and reading the text gives back the values:
nulls, booleans, whole numbers, texts, lists and objects, each field in its place
(`Carried.reread`). Identities are new, so values are compared without them (`bare`). -/

namespace LiveMarkup

namespace Value

/-- A value that JSON carries as it is: no field of an object comes twice, and at most `depth`
containers stand around one another. -/
inductive Carried : Nat → Value → Prop
  | null {depth : Nat} : Carried depth .null
  | bool {depth : Nat} (b : Bool) : Carried depth (.bool b)
  | int {depth : Nat} (n : Int64) : Carried depth (.int n)
  | str {depth : Nat} (s : String) : Carried depth (.str s)
  | array {depth : Nat} {i : Ident} {items : List Value} : (∀ v ∈ items, Carried depth v) →
      Carried (depth + 1) (.array i items)
  | object {depth : Nat} {i : Ident} {fields : Table Value} : (Table.keys fields).Nodup →
      (∀ e ∈ fields, Carried depth e.2) → Carried (depth + 1) (.object i fields)

theorem Carried.notFunction {depth : Nat} {v : Value} (h : Carried depth v) :
    v.isFunction = false := by
  cases h <;> rfl

/-! ## The document of a value -/

theorem itemsToJson_eq_map (items : List Value) : itemsToJson items = items.map toJson := by
  induction items with
  | nil => rfl
  | cons v rest ih => rw [itemsToJson, List.map_cons, ih]

theorem fieldsToJson_eq_map {fields : Table Value} (h : ∀ e ∈ fields, e.2.isFunction = false) :
    fieldsToJson fields = fields.map fun e => (e.1, e.2.toJson) := by
  induction fields with
  | nil => rfl
  | cons first rest ih =>
      obtain ⟨key, v⟩ := first
      obtain ⟨hv, hrest⟩ := List.forall_mem_cons.mp h
      rw [fieldsToJson, show v.isFunction = false from hv, if_neg Bool.false_ne_true, ih hrest,
        List.map_cons]

theorem wordOf?_toInt (n : Int64) : wordOf? n.toInt = some n := by
  have hmin : Int64.minValue.toInt = -2 ^ 63 := by decide
  have hmax : Int64.maxValue.toInt = 2 ^ 63 - 1 := by decide
  have hle := n.le_toInt
  have hlt := n.toInt_lt
  rw [wordOf?, if_pos (by omega), Int64.ofInt_toInt]

theorem fitsWord_toInt (n : Int64) : Json.FitsWord n.toInt := by
  have hmin := n.le_toInt
  have hmax := n.toInt_lt
  have hword : (2 : Int) ^ 63 ≤ Json.wordLimit := by decide
  refine ⟨?_, ?_⟩
  · simpa using hmin
  · omega

theorem Carried.exact {depth : Nat} {v : Value} (h : Carried depth v) :
    Json.Exact depth v.toJson := by
  induction h with
  | null => exact .null
  | bool b => exact .bool b
  | int n => exact .int (fitsWord_toInt n)
  | str s => exact .str s
  | array _ ih =>
      rw [toJson, itemsToJson_eq_map]
      refine .array fun j hj => ?_
      obtain ⟨v, hv, rfl⟩ := List.mem_map.mp hj
      exact ih v hv
  | object _ hfields ih =>
      rw [toJson, fieldsToJson_eq_map fun e he => (hfields e he).notFunction]
      refine .object fun m hm => ?_
      obtain ⟨e, he, rfl⟩ := List.mem_map.mp hm
      exact ih e he

/-! ## The value of the document -/

theorem bareItems_itemsOfJson {ident : Nat → Ident} {items : List Value}
    (h : ∀ v ∈ items, ∀ n, (ofJson ident n v.toJson).1.bare = v.bare) (n : Nat) :
    bareItems (itemsOfJson ident n (items.map toJson)).1 = bareItems items := by
  induction items generalizing n with
  | nil => rfl
  | cons v rest ih =>
      obtain ⟨hv, hrest⟩ := List.forall_mem_cons.mp h
      rw [List.map_cons, itemsOfJson]
      dsimp only
      rw [bareItems, bareItems, hv, ih hrest]

theorem bareFields_fieldsOfJson {ident : Nat → Ident} {fields : Table Value}
    (h : ∀ e ∈ fields, ∀ n, (ofJson ident n e.2.toJson).1.bare = e.2.bare) (n : Nat) :
    bareFields (fieldsOfJson ident n (fields.map fun e => (e.1, e.2.toJson))).1 =
      bareFields fields := by
  induction fields generalizing n with
  | nil => rfl
  | cons first rest ih =>
      obtain ⟨key, v⟩ := first
      obtain ⟨hv, hrest⟩ := List.forall_mem_cons.mp h
      have hvalue : (ofJson ident n v.toJson).1.bare = v.bare := hv n
      rw [List.map_cons, fieldsOfJson]
      dsimp only
      rw [bareFields, bareFields, hvalue, ih hrest]

theorem keys_bareFields (t : Table Value) : Table.keys (bareFields t) = Table.keys t := by
  induction t with
  | nil => rfl
  | cons first rest ih => exact congrArg (first.1 :: ·) ih

/-- The document of a value gives back the value, with new identities. -/
theorem Carried.reread {depth : Nat} {v : Value} (h : Carried depth v) (ident : Nat → Ident)
    (n : Nat) : (ofJson ident n v.toJson).1.bare = v.bare := by
  induction h generalizing n with
  | null => rfl
  | bool b => rfl
  | str s => rfl
  | int m =>
      rw [toJson, ofJson, ofWhole, wordOf?_toInt]
  | array _ ih =>
      rw [toJson, itemsToJson_eq_map, ofJson]
      dsimp only
      rw [bare, bare, bareItems_itemsOfJson fun v hv n => ih v hv n]
  | @object depth i fields hnodup hfields ih =>
      rw [toJson, fieldsToJson_eq_map fun e he => (hfields e he).notFunction, ofJson]
      dsimp only
      have hbare := bareFields_fieldsOfJson (fun e he n => ih e he n) (n + 1)
      have hkeys : Table.keys (fieldsOfJson ident (n + 1)
          (fields.map fun e => (e.1, e.2.toJson))).1 = Table.keys fields := by
        rw [← keys_bareFields, hbare, keys_bareFields]
      rw [Table.ofList_of_nodup (hkeys ▸ hnodup), bare, bare, hbare]

/-! ## The text in the script -/

theorem mem_scriptText {v : Value} {c : Char} (h : c ∈ v.scriptText.toList) :
    c ≠ '<' ∧ c ≠ '>' ∧ c ≠ '/' := by
  rw [scriptText, String.toList_ofList] at h
  obtain ⟨d, -, hc⟩ := List.mem_flatMap.mp h
  have hescapes : ∀ escape ∈ ["\\u003c", "\\u003e", "\\u002f"], ∀ c ∈ escape.toList,
      c ≠ '<' ∧ c ≠ '>' ∧ c ≠ '/' := by simp
  unfold scriptSafeChar at hc
  split at hc
  · exact hescapes "\\u003c" (by simp) c hc
  split at hc
  · exact hescapes "\\u003e" (by simp) c hc
  split at hc
  · exact hescapes "\\u002f" (by simp) c hc
  · next hlt hgt hslash =>
      obtain rfl := List.mem_singleton.mp hc
      exact ⟨hlt, hgt, hslash⟩

/-- An end tag that begins like the start tag, and like nothing between the two. -/
theorem cut?_element {c d e : Char} {pat body : List Char} (hne : e ≠ d) (hbody : c ∉ d :: body)
    (after : List Char) :
    Text.cut? (c :: e :: pat) (c :: ((d :: body) ++ (c :: e :: pat) ++ after)) =
      some (c :: d :: body, after) := by
  have hleftmost : Text.Leftmost (c :: e :: pat) _ (d :: body) after :=
    Text.leftmost_of_not_mem hbody after
  have hcut := Text.cut?_eq_some_iff.mpr hleftmost
  rw [Text.cut?, Text.after?, if_pos rfl, List.cons_append, List.cons_append, Text.after?,
    if_neg hne]
  exact congrArg (Option.map _) hcut

/-- The script ends where it is meant to: at its own end tag. -/
theorem cut?_bootstrapScript (v : Value) (after : List Char) :
    Text.cut? "</script>".toList ((Page.bootstrapScript v).toList ++ after) =
      some ("<script>Satur.pageProps = ".toList ++ v.scriptText.toList, after) := by
  have hopen : "<script>Satur.pageProps = ".toList =
      '<' :: 's' :: "cript>Satur.pageProps = ".toList := by simp
  have hclose : "</script>".toList = '<' :: '/' :: "script>".toList := by simp
  have hbody : '<' ∉ 's' :: ("cript>Satur.pageProps = ".toList ++ v.scriptText.toList) := by
    rw [List.mem_cons, List.mem_append, not_or, not_or]
    exact ⟨by decide, by decide, fun hmem => (mem_scriptText hmem).1 rfl⟩
  have htext : (Page.bootstrapScript v).toList ++ after =
      '<' :: (('s' :: ("cript>Satur.pageProps = ".toList ++ v.scriptText.toList)) ++
        ('<' :: '/' :: "script>".toList) ++ after) := by
    unfold Page.bootstrapScript
    simp only [String.toList_append, hopen, hclose, List.cons_append, List.append_assoc]
  rw [htext, hopen, hclose]
  exact cut?_element (by decide) hbody after

end Value

/-! ## Recorded props -/

namespace Table

variable {α : Type} {key : String} {t : Table α}

theorem get?_append_singleton (h : key ∉ keys t) (value : α) :
    get? key (t ++ [(key, value)]) = some value := by
  rw [← insert_of_not_mem h]
  exact get?_insert_self key value t

theorem insert_append_singleton (h : key ∉ keys t) (old value : α) :
    insert key value (t ++ [(key, old)]) = t ++ [(key, value)] := by
  induction t with
  | nil => simp [insert]
  | cons first rest ih =>
      have hfirst : first.1 ≠ key := fun he => h (he ▸ List.mem_cons_self)
      have hrest : key ∉ keys rest := fun hmem => h (List.mem_cons_of_mem _ hmem)
      rw [List.cons_append, insert, if_neg hfirst, ih hrest, List.cons_append]

end Table

namespace HostProps

/-- The props of a page, recorded one after the other. -/
def ofRecords (records : List (String × String × Value)) : HostProps :=
  records.foldl (fun h r => h.record r.1 r.2.1 r.2.2) empty

/-- Recorded props without identities. -/
def bare (h : HostProps) : Table (Table Value) :=
  h.entries.map fun c => (c.1, Value.bareFields c.2)

/-- Names and keys come once, and every component that is named has an instance. -/
structure Tidy (h : HostProps) : Prop where
  names_nodup : (Table.keys h.entries).Nodup
  keys_nodup : ∀ c ∈ h.entries, (Table.keys c.2).Nodup
  inhabited : ∀ c ∈ h.entries, c.2 ≠ []

theorem Tidy.record {h : HostProps} (hh : h.Tidy) (name key : String) (props : Value) :
    (h.record name key props).Tidy := by
  have hinstances : (Table.keys (h.instances name)).Nodup := by
    unfold instances
    cases hget : Table.get? name h.entries with
    | none => exact List.nodup_nil
    | some t => exact hh.keys_nodup _ (Table.mem_of_get? hget)
  have hinsert : Table.insert key props (h.instances name) ≠ [] := by
    intro hnil
    have hget := Table.get?_insert_self key props (h.instances name)
    rw [hnil] at hget
    cases hget
  refine ⟨Table.nodup_keys_insert hh.names_nodup _ _, fun c hc => ?_, fun c hc => ?_⟩
  · rcases Table.mem_insert hc with rfl | hc
    · exact Table.nodup_keys_insert hinstances _ _
    · exact hh.keys_nodup c hc
  · rcases Table.mem_insert hc with rfl | hc
    · exact hinsert
    · exact hh.inhabited c hc

theorem tidy_ofRecords (records : List (String × String × Value)) : (ofRecords records).Tidy := by
  have hfold : ∀ h : HostProps, h.Tidy →
      (records.foldl (fun h r => h.record r.1 r.2.1 r.2.2) h).Tidy := by
    induction records with
    | nil => exact fun h hh => hh
    | cons r rest ih => exact fun h hh => ih _ (hh.record _ _ _)
  exact hfold empty ⟨List.nodup_nil, by simp [empty], by simp [empty]⟩

/-- Recording the instances of a component that is new. -/
theorem entries_foldl_record {name : String} {t : Table Value} {h : HostProps}
    {base : Table (Table Value)} {t₀ : Table Value} (hentries : h.entries = base ++ [(name, t₀)])
    (hname : name ∉ Table.keys base) (hnodup : (Table.keys t₀ ++ Table.keys t).Nodup) :
    (t.foldl (fun h e => h.record name e.1 e.2) h).entries = base ++ [(name, t₀ ++ t)] := by
  induction t generalizing h t₀ with
  | nil => simpa using hentries
  | cons e rest ih =>
      have hget : h.instances name = t₀ := by
        rw [instances, hentries, Table.get?_append_singleton hname, Option.getD_some]
      have hkey : e.1 ∉ Table.keys t₀ := by
        intro hmem
        exact (List.nodup_append.mp hnodup).2.2 _ hmem _ List.mem_cons_self rfl
      have hstep : (h.record name e.1 e.2).entries = base ++ [(name, t₀ ++ [e])] := by
        rw [record, hget, Table.insert_of_not_mem hkey, hentries,
          Table.insert_append_singleton hname]
      have hmoved : Table.keys (t₀ ++ [e]) ++ Table.keys rest =
          Table.keys t₀ ++ Table.keys (e :: rest) := by
        simp [Table.keys]
      rw [List.foldl_cons, ih hstep (hmoved ▸ hnodup), List.append_assoc, List.singleton_append]

theorem entries_recordAll {tables : Table (Table Value)} {h : HostProps}
    (hnames : (Table.keys h.entries ++ Table.keys tables).Nodup)
    (hkeys : ∀ c ∈ tables, (Table.keys c.2).Nodup) (hne : ∀ c ∈ tables, c.2 ≠ []) :
    (h.recordAll tables).entries = h.entries ++ tables := by
  induction tables generalizing h with
  | nil => simp [recordAll]
  | cons first rest ih =>
      obtain ⟨name, t⟩ := first
      obtain ⟨hkeysFirst, hkeysRest⟩ := List.forall_mem_cons.mp hkeys
      obtain ⟨hneFirst, hneRest⟩ := List.forall_mem_cons.mp hne
      obtain ⟨e, more, rfl⟩ := List.exists_cons_of_ne_nil hneFirst
      have hname : name ∉ Table.keys h.entries := fun hmem =>
        (List.nodup_append.mp hnames).2.2 _ hmem _ List.mem_cons_self rfl
      have hfresh : h.instances name = [] := by
        have hnone : Table.get? name h.entries = none :=
          Option.not_isSome_iff_eq_none.mp fun hs => hname (Table.get?_isSome_iff.mp hs)
        rw [instances, hnone, Option.getD_none]
      have hstart : (h.record name e.1 e.2).entries = h.entries ++ [(name, [e])] := by
        rw [record, hfresh]
        exact Table.insert_of_not_mem hname _
      have hfirst : (List.foldl (fun h e => h.record name e.1 e.2) h (e :: more)).entries =
          h.entries ++ [(name, e :: more)] :=
        entries_foldl_record hstart hname hkeysFirst
      have hmoved : Table.keys (h.entries ++ [(name, e :: more)]) ++ Table.keys rest =
          Table.keys h.entries ++ Table.keys ((name, e :: more) :: rest) := by
        simp [Table.keys]
      rw [recordAll, List.foldl_cons]
      refine (ih (hfirst ▸ hmoved ▸ hnames) hkeysRest hneRest).trans ?_
      rw [hfirst, List.append_assoc, List.singleton_append]

/-- The tables of an object of objects, without identities. -/
def bareTables (fields : Table Value) : Table (Table Value) :=
  fields.map fun c => (c.1, Value.bareFields c.2.fields)

theorem bareTables_congr {fields fields' : Table Value}
    (h : Value.bareFields fields = Value.bareFields fields') :
    bareTables fields = bareTables fields' := by
  have hbare : ∀ t : Table Value,
      bareTables t = (Value.bareFields t).map fun c => (c.1, c.2.fields) := by
    intro t
    induction t with
    | nil => rfl
    | cons first rest ih =>
        show (first.1, Value.bareFields first.2.fields) :: bareTables rest =
          (first.1, first.2.bare.fields) :: List.map _ (Value.bareFields rest)
        rw [ih, Value.fields_bare]
  rw [hbare, hbare, h]

theorem bareTables_toValue (h : HostProps) (n : Nat) :
    bareTables (h.toValue .made n).1.fields = h.bare := by
  have hall : ∀ {entries : Table (Table Value)} {members : Table Value},
      Table.Aligned (fun t v => ∃ j, v = Value.object j t) entries members →
      bareTables members = entries.map fun c => (c.1, Value.bareFields c.2) := by
    intro entries members haligned
    induction haligned with
    | nil => rfl
    | cons hfirst _ ih =>
        obtain ⟨j, rfl⟩ := hfirst
        exact congrArg (_ :: ·) ih
  obtain ⟨i, members, hvalue, hmembers⟩ := aligned_toValue h n
  rw [hvalue]
  exact hall hmembers

/-- A record that comes back as a value, whatever the identities are, is the record. -/
theorem Tidy.bare_ofValue {h : HostProps} (hh : h.Tidy) {n : Nat} {w : Value}
    (hw : w.bare = (h.toValue .made n).1.bare) : (ofValue w).bare = h.bare := by
  have htables : bareTables w.fields = h.bare := by
    rw [← bareTables_toValue h n]
    refine bareTables_congr ?_
    rw [← Value.fields_bare, ← Value.fields_bare, hw]
  let tables := w.fields.map fun c => (c.1, c.2.fields)
  have hsame : tables.map (fun c => (c.1, Value.bareFields c.2)) = h.bare := by
    rw [← htables, List.map_map]
    rfl
  have hnames : Table.keys tables = Table.keys h.entries := by
    have hkeys := congrArg Table.keys hsame
    simpa [Table.keys, bare, List.map_map, Function.comp_def] using hkeys
  have hback : ∀ c ∈ tables, ∃ c' ∈ h.entries, Table.keys c.2 = Table.keys c'.2 := by
    intro c hc
    have hmem : (c.1, Value.bareFields c.2) ∈ h.bare := hsame ▸ List.mem_map.mpr ⟨c, hc, rfl⟩
    obtain ⟨c', hc', heq⟩ := List.mem_map.mp hmem
    refine ⟨c', hc', ?_⟩
    rw [← Value.keys_bareFields c.2, ← Value.keys_bareFields c'.2, (Prod.mk.inj heq).2]
  have hentries : (ofValue w).entries = tables := by
    rw [ofValue_eq_recordAll]
    refine entries_recordAll ?_ ?_ ?_
    · rw [hnames]
      exact hh.names_nodup
    · intro c hc
      obtain ⟨c', hc', hkeys⟩ := hback c hc
      exact hkeys ▸ hh.keys_nodup c' hc'
    · intro c hc hnil
      obtain ⟨c', hc', hkeys⟩ := hback c hc
      rw [hnil] at hkeys
      exact hh.inhabited c' hc' (List.map_eq_nil_iff.mp hkeys.symm)
  rw [bare, hentries]
  exact hsame

end HostProps

/-- The text of a value in a script cannot end the script, is read as the document of the value, and
the document gives back the value; so the client has the props that the page recorded. -/
theorem Value.Carried.in_script {v : Value} (h : v.Carried Json.depthLimit) :
    (∀ c ∈ v.scriptText.toList, c ≠ '<' ∧ c ≠ '>' ∧ c ≠ '/') ∧
      (∀ after, Text.cut? "</script>".toList ((Page.bootstrapScript v).toList ++ after) =
        some ("<script>Satur.pageProps = ".toList ++ v.scriptText.toList, after)) ∧
      Json.parse? Json.depthLimit v.scriptText = some v.toJson ∧
      (∀ ident n, (ofJson ident n v.toJson).1.bare = v.bare) ∧
      ∀ records n m, v = ((HostProps.ofRecords records).toValue .made n).1 →
        (HostProps.ofValue (ofJson .made m v.toJson).1).bare =
          (HostProps.ofRecords records).bare := by
  refine ⟨fun c hc => mem_scriptText hc, cut?_bootstrapScript v, Json.parse?_spelled h.exact,
    fun ident n => h.reread ident n, ?_⟩
  rintro records n m rfl
  exact (HostProps.tidy_ofRecords records).bare_ofValue (h.reread .made m)

/-- Props whose name and text look like the end of a script. -/
def hostileRecords : List (String × String × Value) :=
  [("card", "card", .object (.given 0) [("</script>", .str "\\</a\n>"),
    ("sizes", .array (.given 1) [.int (-12), .null, .bool true])])]

theorem carried_hostile :
    ((HostProps.ofRecords hostileRecords).toValue .made 0).1.Carried Json.depthLimit := by
  refine .object (by decide) (List.forall_mem_singleton.mpr ?_)
  refine .object (by decide) (List.forall_mem_singleton.mpr ?_)
  refine .object (by decide) (List.forall_mem_cons.mpr ⟨.str _, List.forall_mem_singleton.mpr ?_⟩)
  refine .array fun v hv => ?_
  simp only [List.mem_cons, List.not_mem_nil, or_false] at hv
  obtain rfl | rfl | rfl := hv
  · exact .int _
  · exact .null
  · exact .bool _

theorem hostile_records_come_back :
    let page := ((HostProps.ofRecords hostileRecords).toValue .made 0).1
    page.scriptText = "\x7b\"card\":\x7b\"card\":\x7b\"\\u003c\\u002fscript\\u003e\":" ++
      "\"\\\\\\u003c\\u002fa\\n\\u003e\",\"sizes\":[-12,null,true]\x7d\x7d\x7d" ∧
      Json.parse? Json.depthLimit page.scriptText = some page.toJson ∧
      (HostProps.ofValue (Value.ofJson .made 0 page.toJson).1).bare =
        (HostProps.ofRecords hostileRecords).bare := by
  intro page
  have hcarried := carried_hostile
  exact ⟨by decide +kernel, (Value.Carried.in_script hcarried).2.2.1,
    (Value.Carried.in_script hcarried).2.2.2.2 hostileRecords 0 0 rfl⟩

end LiveMarkup
