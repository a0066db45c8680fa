set_option autoImplicit false

/-! # Insertion-ordered tables

Objects, recorded props and registries keep their entries in the order in which the keys first came;
writing to a key that is there leaves it where it is. -/

namespace LiveMarkup

/-- A list of keys with their values; keys are unique in every table built by `insert`. -/
abbrev Table (α : Type) := List (String × α)

namespace Table

variable {α : Type}

def get? (key : String) : Table α → Option α
  | [] => none
  | (k, v) :: rest => if k = key then some v else get? key rest

def contains (key : String) (t : Table α) : Bool := (get? key t).isSome

/-- Writes a key: in its place if it is there, else at the end. -/
def insert (key : String) (value : α) : Table α → Table α
  | [] => [(key, value)]
  | (k, v) :: rest => if k = key then (k, value) :: rest else (k, v) :: insert key value rest

def erase (key : String) : Table α → Table α
  | [] => []
  | (k, v) :: rest => if k = key then rest else (k, v) :: erase key rest

def keys (t : Table α) : List String := t.map Prod.fst

/-- Writes the entries of a list one after the other. -/
def extend (t : Table α) (entries : List (String × α)) : Table α :=
  entries.foldl (fun t entry => insert entry.1 entry.2 t) t

def ofList (entries : List (String × α)) : Table α := extend [] entries

@[simp] theorem get?_insert_self (key : String) (value : α) (t : Table α) :
    get? key (insert key value t) = some value := by
  induction t with
  | nil => simp [insert, get?]
  | cons entry rest ih =>
    by_cases h : entry.1 = key <;> simp [insert, get?, h, ih]

theorem get?_insert_of_ne {key other : String} (h : other ≠ key) (value : α) (t : Table α) :
    get? other (insert key value t) = get? other t := by
  induction t with
  | nil => simp [insert, get?, h.symm]
  | cons entry rest ih =>
    by_cases hk : entry.1 = key
    · simp [insert, get?, hk, h.symm]
    · by_cases ho : entry.1 = other
      · simp [insert, get?, ho, h]
      · simp [insert, get?, hk, ho, ih]

/-- A new key goes to the end, an old one changes no order. -/
theorem keys_insert (key : String) (value : α) (t : Table α) :
    keys (insert key value t) = if key ∈ keys t then keys t else keys t ++ [key] := by
  induction t with
  | nil => simp [insert, keys]
  | cons entry rest ih =>
    by_cases h : entry.1 = key
    · simp [insert, keys, h]
    · have h' : ¬key = entry.1 := fun e => h e.symm
      simp only [keys] at ih
      simp only [insert, if_neg h, keys, List.map_cons, ih, List.mem_cons, h', false_or]
      split <;> simp_all

/-- Writing what is there already changes nothing. -/
theorem insert_of_get? {key : String} {value : α} {t : Table α} (h : get? key t = some value) :
    insert key value t = t := by
  induction t with
  | nil => simp [get?] at h
  | cons entry rest ih =>
    by_cases hk : entry.1 = key
    · have hv : entry.2 = value := by simpa [get?, hk] using h
      simp only [insert, if_pos hk]
      rw [← hv]
    · simp only [get?, if_neg hk] at h
      simp only [insert, if_neg hk, ih h]

theorem mem_of_get? {key : String} {value : α} {t : Table α} (h : get? key t = some value) :
    (key, value) ∈ t := by
  induction t with
  | nil => simp [get?] at h
  | cons entry rest ih =>
    by_cases hk : entry.1 = key
    · have hv : entry.2 = value := by simpa [get?, hk] using h
      rw [← hk, ← hv]
      exact List.mem_cons_self
    · exact List.mem_cons_of_mem _ (ih (by simpa [get?, hk] using h))

theorem get?_isSome_iff {key : String} {t : Table α} : (get? key t).isSome ↔ key ∈ keys t := by
  induction t with
  | nil => simp [get?, keys]
  | cons entry rest ih =>
    by_cases hk : entry.1 = key
    · simp [get?, keys, hk]
    · have hk' : ¬key = entry.1 := fun e => hk e.symm
      simpa [get?, keys, hk, hk'] using ih

/-- With unique keys, an entry is found under its key. -/
theorem get?_of_mem {key : String} {value : α} {t : Table α} (hnodup : (keys t).Nodup)
    (h : (key, value) ∈ t) : get? key t = some value := by
  induction t with
  | nil => simp at h
  | cons entry rest ih =>
    obtain ⟨hentry, hrest⟩ := List.nodup_cons.mp hnodup
    rcases List.mem_cons.mp h with rfl | h
    · simp [get?]
    · have hk : entry.1 ≠ key := by
        intro hk
        exact hentry (hk ▸ List.mem_map.mpr ⟨_, h, rfl⟩)
      rw [get?, if_neg hk, ih hrest h]

theorem mem_insert {key : String} {value : α} {t : Table α} {entry : String × α}
    (h : entry ∈ insert key value t) : entry = (key, value) ∨ entry ∈ t := by
  induction t with
  | nil => exact Or.inl (by simpa [insert] using h)
  | cons first rest ih =>
    unfold insert at h
    split at h
    · next hk =>
      rcases List.mem_cons.mp h with rfl | h
      · exact Or.inl (by rw [hk])
      · exact Or.inr (List.mem_cons_of_mem _ h)
    · rcases List.mem_cons.mp h with rfl | h
      · exact Or.inr List.mem_cons_self
      · exact (ih h).imp id (List.mem_cons_of_mem _)

theorem mem_extend {t : Table α} {entries : List (String × α)} {entry : String × α}
    (h : entry ∈ extend t entries) : entry ∈ entries ∨ entry ∈ t := by
  induction entries generalizing t with
  | nil => exact Or.inr h
  | cons first rest ih =>
    rcases ih h with h | h
    · exact Or.inl (List.mem_cons_of_mem _ h)
    · rcases mem_insert h with rfl | h
      · exact Or.inl List.mem_cons_self
      · exact Or.inr h

theorem insert_of_not_mem {key : String} {t : Table α} (h : key ∉ keys t) (value : α) :
    insert key value t = t ++ [(key, value)] := by
  induction t with
  | nil => rfl
  | cons entry rest ih =>
    have hentry : entry.1 ≠ key := fun e => h (e ▸ List.mem_cons_self)
    have hrest : key ∉ keys rest := fun hmem => h (List.mem_cons_of_mem _ hmem)
    rw [insert, if_neg hentry, ih hrest, List.cons_append]

theorem nodup_keys_insert {t : Table α} (h : (keys t).Nodup) (key : String) (value : α) :
    (keys (insert key value t)).Nodup := by
  rw [keys_insert]
  split
  · exact h
  · next hk =>
    refine List.nodup_append.mpr ⟨h, by simp, ?_⟩
    intro k hmem k' hk' heq
    exact hk (List.mem_singleton.mp hk' ▸ heq ▸ hmem)

theorem nodup_keys_extend {t : Table α} (h : (keys t).Nodup) (entries : List (String × α)) :
    (keys (extend t entries)).Nodup := by
  induction entries generalizing t with
  | nil => exact h
  | cons entry rest ih => exact ih (nodup_keys_insert h entry.1 entry.2)

/-- Entries with new, unique keys come behind what is there. -/
theorem extend_of_nodup {t : Table α} {entries : List (String × α)}
    (h : (keys t ++ keys entries).Nodup) : extend t entries = t ++ entries := by
  induction entries generalizing t with
  | nil => simp [extend]
  | cons entry rest ih =>
    have hmoved : keys (t ++ [entry]) ++ keys rest = keys t ++ keys (entry :: rest) := by
      simp [keys]
    have hentry : entry.1 ∉ keys t := fun hmem =>
      (List.nodup_append.mp h).2.2 _ hmem _ List.mem_cons_self rfl
    rw [extend, List.foldl_cons, insert_of_not_mem hentry]
    refine (ih (hmoved ▸ h)).trans ?_
    rw [List.append_assoc, List.singleton_append]

/-- Entries with unique keys are a table. -/
theorem ofList_of_nodup {entries : List (String × α)} (h : (keys entries).Nodup) :
    ofList entries = entries :=
  extend_of_nodup (by simpa [keys] using h)

/-- Entries with unique keys are found after they were written, and else what was there before. -/
theorem get?_extend {entries : List (String × α)} (h : (keys entries).Nodup) (t : Table α)
    (key : String) : get? key (extend t entries) = (get? key entries).or (get? key t) := by
  induction entries generalizing t with
  | nil => simp [extend, get?]
  | cons entry rest ih =>
    obtain ⟨hentry, hrest⟩ := List.nodup_cons.mp h
    rw [extend, List.foldl_cons]
    refine (ih hrest _).trans ?_
    by_cases hk : entry.1 = key
    · subst hk
      have hnone : get? entry.1 rest = none := by
        rw [← Option.not_isSome_iff_eq_none, get?_isSome_iff]
        exact hentry
      simp [get?, hnone]
    · rw [get?_insert_of_ne (fun e => hk e.symm), get?, if_neg hk]

end Table

end LiveMarkup
