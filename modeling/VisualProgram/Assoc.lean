/-!
# Association lists keyed by strings

Two disciplines over the same lists:

* `put`     keeps the order in which keys first came; a repeated key keeps its place and takes the
            new value (members of an object, fields of a block, properties of a node);
* `insert`  keeps the keys in increasing order (sockets of a block).

`get?`, `erase`, `keys` serve both.
-/

namespace VisualProgram.Assoc

universe u v
variable {α : Type u} {β : Type v}

def keys (entries : List (String × α)) : List String := entries.map Prod.fst

@[simp] theorem keys_nil : keys ([] : List (String × α)) = [] := rfl
@[simp] theorem keys_cons (k : String) (v : α) (rest : List (String × α)) :
    keys ((k, v) :: rest) = k :: keys rest := rfl

@[simp] theorem keys_append (a b : List (String × α)) : keys (a ++ b) = keys a ++ keys b :=
  List.map_append

@[simp] theorem keys_map (f : α → β) (entries : List (String × α)) :
    keys (entries.map fun e => (e.1, f e.2)) = keys entries := by
  simp [keys, Function.comp_def]

/-! ## looking up -/

/-- the value stored first under a key -/
def get? (key : String) : List (String × α) → Option α
  | [] => none
  | (k, v) :: rest => if k = key then some v else get? key rest

def contains (key : String) (entries : List (String × α)) : Bool := (get? key entries).isSome

@[simp] theorem get?_nil (key : String) : get? key ([] : List (String × α)) = none := rfl

theorem get?_cons (key k : String) (v : α) (rest : List (String × α)) :
    get? key ((k, v) :: rest) = if k = key then some v else get? key rest := rfl

theorem get?_eq_none_iff (key : String) (entries : List (String × α)) :
    get? key entries = none ↔ key ∉ keys entries := by
  induction entries with
  | nil => simp [get?, keys]
  | cons entry rest ih =>
    obtain ⟨k, v⟩ := entry
    rw [get?_cons, keys_cons]
    by_cases h : k = key
    · simp [h]
    · have h' : ¬ key = k := fun e => h e.symm
      simp [h, h', ih]

@[simp] theorem get?_map (f : α → β) (key : String) (entries : List (String × α)) :
    get? key (entries.map fun e => (e.1, f e.2)) = (get? key entries).map f := by
  induction entries with
  | nil => rfl
  | cons entry rest ih =>
    rw [List.map_cons, get?_cons, get?, ih]
    split <;> rfl

@[simp] theorem get?_append (key : String) (a b : List (String × α)) :
    get? key (a ++ b) = (get? key a).or (get? key b) := by
  induction a with
  | nil => rfl
  | cons entry rest ih =>
    rw [List.cons_append, get?_cons, get?_cons, ih]
    split <;> rfl

theorem mem_of_get? {key : String} {v : α} {entries : List (String × α)}
    (h : get? key entries = some v) : (key, v) ∈ entries := by
  induction entries with
  | nil => cases h
  | cons entry rest ih =>
    obtain ⟨k, w⟩ := entry
    rw [get?_cons] at h
    split at h
    next hk =>
      cases h
      rw [hk]
      exact List.mem_cons_self
    next => exact List.mem_cons_of_mem _ (ih h)

/-- if no key repeats, every entry is the first under its key -/
theorem get?_of_nodup {entries : List (String × α)} (h : (keys entries).Nodup) {key : String} {v : α}
    (hm : (key, v) ∈ entries) : get? key entries = some v := by
  induction entries with
  | nil => cases hm
  | cons entry rest ih =>
    obtain ⟨k, w⟩ := entry
    obtain ⟨hnew, hrest⟩ := List.nodup_cons.mp h
    rw [get?_cons]
    rcases List.mem_cons.mp hm with e | hm'
    · cases e
      rw [if_pos rfl]
    · have hk : key ∈ keys rest := List.mem_map_of_mem hm'
      have hne : k ≠ key := by
        rintro rfl
        exact hnew hk
      rw [if_neg hne, ih hrest hm']

/-! ## in order of arrival -/

/-- a key already there keeps its place and takes the new value, a new key goes last -/
def put (key : String) (value : α) : List (String × α) → List (String × α)
  | [] => [(key, value)]
  | (k, v) :: rest => if k = key then (key, value) :: rest else (k, v) :: put key value rest

theorem get?_put (key other : String) (value : α) (entries : List (String × α)) :
    get? other (put key value entries) = if key = other then some value else get? other entries := by
  induction entries with
  | nil => simp [put, get?]
  | cons entry rest ih =>
    obtain ⟨k, v⟩ := entry
    by_cases h : k = key
    · subst h
      by_cases ho : k = other <;> simp [put, get?, ho]
    · by_cases ho : key = other
      · subst ho
        simp [put, get?, h, ih]
      · simp [put, get?, h, ih, ho]

/-! ## in increasing order of keys -/

/-- a key already there takes the new value, a new key goes before the first greater one -/
def insert (key : String) (value : α) : List (String × α) → List (String × α)
  | [] => [(key, value)]
  | (k, v) :: rest =>
    if k = key then (key, value) :: rest
    else if key < k then (key, value) :: (k, v) :: rest
    else (k, v) :: insert key value rest

theorem get?_insert (key other : String) (value : α) (entries : List (String × α)) :
    get? other (insert key value entries)
      = if key = other then some value else get? other entries := by
  induction entries with
  | nil => simp [insert, get?]
  | cons entry rest ih =>
    obtain ⟨k, v⟩ := entry
    by_cases h : k = key
    · subst h
      by_cases ho : k = other <;> simp [insert, get?, ho]
    · by_cases hl : key < k
      · simp [insert, h, hl, get?]
      · by_cases ho : key = other
        · subst ho
          simp [insert, get?, h, hl, ih]
        · simp [insert, get?, h, hl, ih, ho]

/-! ## taking out -/

/-- drops the first entry under a key -/
def erase (key : String) : List (String × α) → List (String × α)
  | [] => []
  | (k, v) :: rest => if k = key then rest else (k, v) :: erase key rest

end VisualProgram.Assoc
