import VisualProgram.Assoc
import Mathlib.Data.List.Forall2
import Mathlib.Data.List.Nodup
import Mathlib.Data.List.Perm.Subperm
import Mathlib.Data.String.Basic

/-!
# Association lists

What lookups and changes of an association list say about its keys and entries.  Lists kept with `put`
have no key twice (`nodup_keys_put`), those kept with `insert` have their keys in order (`Increasing`).
-/

namespace VisualProgram.Assoc

universe u v
variable {α : Type u} {β : Type v}

/-! ## looking up -/

@[simp] theorem contains_iff (key : String) (entries : List (String × α)) :
    contains key entries = true ↔ key ∈ keys entries := by
  rw [contains, Option.isSome_iff_ne_none, ne_eq, get?_eq_none_iff, not_not]

/-- an entry in the middle is not found if another is, or if it has another key -/
theorem get?_middle {left : List (String × α)} {key socket : String}
    (h : ¬(key = socket ∧ get? key left = none)) (v : α) (right : List (String × α)) :
    get? key (left ++ (socket, v) :: right) = get? key (left ++ right) := by
  rw [get?_append, get?_append, get?_cons]
  cases hleft : get? key left with
  | some found => rfl
  | none => rw [if_neg fun heq => h ⟨heq.symm, hleft⟩]

theorem get?_middle_self {left : List (String × α)} {socket : String}
    (h : get? socket left = none) (v : α) (right : List (String × α)) :
    get? socket (left ++ (socket, v) :: right) = some v := by
  rw [get?_append, h, get?_cons, if_pos rfl]
  rfl

/-- the entries under other keys -/
theorem get?_filter_ne (key other : String) (entries : List (String × α)) :
    get? other (entries.filter fun entry => entry.1 ≠ key)
      = if other = key then none else get? other entries := by
  induction entries with
  | nil => exact (ite_self none).symm
  | cons entry rest ih =>
    obtain ⟨k, x⟩ := entry
    rw [List.filter_cons, get?_cons]
    by_cases hk : k = key
    · rw [if_neg (by simp [hk]), ih]
      by_cases ho : other = key
      · rw [if_pos ho, if_pos ho]
      · rw [if_neg ho, if_neg ho, if_neg fun he => ho (he.symm.trans hk)]
    · rw [if_pos (by simp [hk]), get?_cons, ih]
      by_cases ho : k = other
      · rw [if_pos ho, if_pos ho, if_neg fun he => hk (ho.trans he)]
      · rw [if_neg ho, if_neg ho]

theorem keys_filter_ne (key : String) (entries : List (String × α)) :
    keys (entries.filter fun entry => entry.1 ≠ key) = (keys entries).filter (· ≠ key) := by
  rw [keys, keys, List.filter_map]
  rfl

/-- what is found under keys of which none repeats is found in different entries -/
theorem subperm_get? (f : α → List β) {keys : List String} (h : keys.Nodup)
    (entries : List (String × α)) :
    (keys.flatMap fun key => ((get? key entries).map f).getD []).Subperm (entries.flatMap fun e => f e.2) := by
  induction entries generalizing keys with
  | nil => simp [get?]
  | cons entry rest ih =>
    obtain ⟨k, x⟩ := entry
    have hother : ∀ {others : List String}, k ∉ others →
        (others.flatMap fun key => ((get? key ((k, x) :: rest)).map f).getD [])
          = others.flatMap fun key => ((get? key rest).map f).getD [] := by
      intro others hk
      refine List.flatMap_congr fun key hkey => ?_
      rw [get?_cons, if_neg]
      rintro rfl
      exact hk hkey
    rw [List.flatMap_cons]
    by_cases hk : k ∈ keys
    · have hfirst : ((get? k ((k, x) :: rest)).map f).getD [] = f x := by
        rw [get?_cons, if_pos rfl]
        rfl
      refine ((List.perm_cons_erase hk).flatMap_right _).subperm.trans ?_
      rw [List.flatMap_cons, hfirst, hother (h.not_mem_erase)]
      exact (List.Subperm.refl _).append (ih (h.erase k))
    · rw [hother hk]
      exact (ih h).trans (List.sublist_append_right _ _).subperm

/-! ## two lists entry by entry -/

/-- what is in a socket, if anything, is related -/
theorem get?_forall₂ {R : α → β → Prop} {xs : List (String × α)} {ys : List (String × β)}
    (h : List.Forall₂ (fun e f => e.1 = f.1 ∧ R e.2 f.2) xs ys) (key : String) :
    (get? key xs = none ∧ get? key ys = none)
      ∨ ∃ x y, get? key xs = some x ∧ get? key ys = some y ∧ R x y := by
  induction h with
  | nil => exact .inl ⟨rfl, rfl⟩
  | @cons e f xs ys hhead _ ih =>
    obtain ⟨k, x⟩ := e
    obtain ⟨k', y⟩ := f
    obtain ⟨rfl, hxy⟩ : k = k' ∧ R x y := hhead
    rw [get?_cons, get?_cons]
    split
    · exact .inr ⟨x, y, rfl, rfl, hxy⟩
    · exact ih

theorem keys_forall₂ {R : α → β → Prop} {xs : List (String × α)} {ys : List (String × β)}
    (h : List.Forall₂ (fun e f => e.1 = f.1 ∧ R e.2 f.2) xs ys) : keys xs = keys ys := by
  induction h with
  | nil => rfl
  | cons hhead _ ih => exact congrArg₂ List.cons hhead.1 ih

theorem contains_of_keys {xs : List (String × α)} {ys : List (String × β)}
    (h : keys xs = keys ys) (key : String) : contains key xs = contains key ys := by
  rw [Bool.eq_iff_iff, contains_iff, contains_iff, h]

/-! ## in order of arrival -/

theorem put_of_not_mem {key : String} {entries : List (String × α)} (h : key ∉ keys entries)
    (value : α) : put key value entries = entries ++ [(key, value)] := by
  induction entries with
  | nil => rfl
  | cons entry rest ih =>
    obtain ⟨k, x⟩ := entry
    rw [keys_cons, List.mem_cons, not_or] at h
    rw [put, if_neg (Ne.symm h.1), ih h.2]
    rfl

theorem mem_put {key : String} {value : α} {entries : List (String × α)} {entry : String × α}
    (h : entry ∈ put key value entries) : entry = (key, value) ∨ entry ∈ entries := by
  induction entries with
  | nil => exact Or.inl (List.mem_singleton.mp h)
  | cons first rest ih =>
    obtain ⟨k, x⟩ := first
    rw [put] at h
    split at h
    · exact (List.mem_cons.mp h).imp_right (List.mem_cons_of_mem _)
    · rcases List.mem_cons.mp h with rfl | h
      · exact Or.inr List.mem_cons_self
      · exact (ih h).imp_right (List.mem_cons_of_mem _)

theorem keys_put (key : String) (value : α) (entries : List (String × α)) :
    keys (put key value entries) = keys entries ++ if key ∈ keys entries then [] else [key] := by
  induction entries with
  | nil => rfl
  | cons entry rest ih =>
    obtain ⟨k, x⟩ := entry
    rw [put, keys_cons]
    by_cases hk : k = key
    · rw [if_pos hk, if_pos (hk ▸ List.mem_cons_self), List.append_nil, keys_cons, hk]
    · have hmem : key ∈ k :: keys rest ↔ key ∈ keys rest := by
        rw [List.mem_cons]
        exact or_iff_right fun he => hk he.symm
      rw [if_neg hk, keys_cons, ih, if_congr hmem rfl rfl, List.cons_append]

theorem nodup_keys_put {entries : List (String × α)} (h : (keys entries).Nodup) (key : String)
    (value : α) : (keys (put key value entries)).Nodup := by
  rw [keys_put]
  split
  next => rwa [List.append_nil]
  next hnew =>
    rw [← List.concat_eq_append]
    exact h.concat hnew

theorem filter_put (key : String) (value : α) (entries : List (String × α)) :
    (put key value entries).filter (fun entry => entry.1 ≠ key)
      = entries.filter (fun entry => entry.1 ≠ key) := by
  induction entries with
  | nil => simp [put]
  | cons entry rest ih =>
    obtain ⟨k, x⟩ := entry
    rw [put]
    split
    next hk => simp [hk]
    next => rw [List.filter_cons, List.filter_cons, ih]

/-! ## in increasing order of keys -/

def Increasing (entries : List (String × α)) : Prop := (keys entries).Pairwise (· < ·)

@[simp] theorem increasing_nil : Increasing ([] : List (String × α)) := List.Pairwise.nil

@[simp] theorem increasing_cons {k : String} {v : α} {rest : List (String × α)} :
    Increasing ((k, v) :: rest) ↔ (∀ l ∈ keys rest, k < l) ∧ Increasing rest := by
  simp [Increasing, keys]

theorem Increasing.nodup_keys {entries : List (String × α)} (h : Increasing entries) :
    (keys entries).Nodup := h.imp fun hlt => ne_of_lt hlt

theorem get?_of_mem {entries : List (String × α)} (h : Increasing entries) {k : String} {v : α}
    (hm : (k, v) ∈ entries) : get? k entries = some v := get?_of_nodup h.nodup_keys hm

theorem get?_eq_none_of_lt {entries : List (String × α)} {k : String}
    (h : ∀ l ∈ keys entries, k < l) : get? k entries = none := by
  rw [get?_eq_none_iff]
  exact fun hk => lt_irrefl k (h k hk)

theorem mem_keys_erase {key l : String} {entries : List (String × α)}
    (h : l ∈ keys (erase key entries)) : l ∈ keys entries := by
  induction entries with
  | nil => exact h
  | cons entry rest ih =>
    obtain ⟨k, v⟩ := entry
    rw [erase] at h
    rw [keys_cons]
    split at h
    · exact List.mem_cons_of_mem _ h
    · rw [keys_cons] at h
      rcases List.mem_cons.mp h with rfl | h'
      · exact List.mem_cons_self
      · exact List.mem_cons_of_mem _ (ih h')

theorem increasing_erase {key : String} {entries : List (String × α)} (h : Increasing entries) :
    Increasing (erase key entries) := by
  induction entries with
  | nil => exact h
  | cons entry rest ih =>
    obtain ⟨k, v⟩ := entry
    obtain ⟨hlt, hrest⟩ := increasing_cons.mp h
    rw [erase]
    split
    · exact hrest
    · exact increasing_cons.mpr ⟨fun l hl => hlt l (mem_keys_erase hl), ih hrest⟩

theorem get?_erase_self {key : String} {entries : List (String × α)} (h : Increasing entries) :
    get? key (erase key entries) = none := by
  induction entries with
  | nil => rfl
  | cons entry rest ih =>
    obtain ⟨k, v⟩ := entry
    obtain ⟨hlt, hrest⟩ := increasing_cons.mp h
    rw [erase]
    by_cases hk : k = key
    · rw [if_pos hk]
      exact get?_eq_none_of_lt (fun l hl => hk ▸ hlt l hl)
    · rw [if_neg hk, get?_cons, if_neg hk, ih hrest]

theorem mem_keys_insert {key l : String} {value : α} {entries : List (String × α)}
    (h : l ∈ keys (insert key value entries)) : l = key ∨ l ∈ keys entries := by
  induction entries with
  | nil => simpa [insert, keys] using h
  | cons entry rest ih =>
    obtain ⟨k, v⟩ := entry
    rw [insert] at h
    rw [keys_cons, List.mem_cons]
    split at h
    · rw [keys_cons, List.mem_cons] at h
      tauto
    · split at h
      · rw [keys_cons, List.mem_cons, keys_cons, List.mem_cons] at h
        tauto
      · rw [keys_cons, List.mem_cons] at h
        rcases h with h | h
        · exact .inr (.inl h)
        · rcases ih h with h' | h'
          · exact .inl h'
          · exact .inr (.inr h')

theorem increasing_insert {key : String} {value : α} {entries : List (String × α)}
    (h : Increasing entries) : Increasing (insert key value entries) := by
  induction entries with
  | nil => exact increasing_cons.mpr ⟨by simp [keys], increasing_nil⟩
  | cons entry rest ih =>
    obtain ⟨k, v⟩ := entry
    obtain ⟨hlt, hrest⟩ := increasing_cons.mp h
    rw [insert]
    by_cases hk : k = key
    · rw [if_pos hk]
      exact increasing_cons.mpr ⟨fun l hl => hk ▸ hlt l hl, hrest⟩
    rw [if_neg hk]
    by_cases hl : key < k
    · rw [if_pos hl]
      refine increasing_cons.mpr ⟨fun l hm => ?_, h⟩
      rw [keys_cons, List.mem_cons] at hm
      rcases hm with rfl | hm
      · exact hl
      · exact lt_trans hl (hlt l hm)
    · rw [if_neg hl]
      refine increasing_cons.mpr ⟨fun l hm => ?_, ih hrest⟩
      rcases mem_keys_insert hm with rfl | hm'
      · exact lt_of_le_of_ne (not_lt.mp hl) hk
      · exact hlt l hm'

/-- what was taken out comes back to its place in the order -/
theorem insert_erase {key : String} {value : α} {entries : List (String × α)}
    (h : Increasing entries) (hg : get? key entries = some value) :
    insert key value (erase key entries) = entries := by
  induction entries with
  | nil => cases hg
  | cons entry rest ih =>
    obtain ⟨k, v⟩ := entry
    obtain ⟨hlt, hrest⟩ := increasing_cons.mp h
    rw [get?_cons] at hg
    rw [erase]
    by_cases hk : k = key
    · subst hk
      rw [if_pos rfl] at hg ⊢
      cases hg
      cases rest with
      | nil => rfl
      | cons entry rest =>
        have hlt' : k < entry.1 := hlt _ (by simp [keys])
        rw [insert, if_neg (ne_of_gt hlt'), if_pos hlt']
    · rw [if_neg hk] at hg ⊢
      have hkey : key ∈ keys rest := List.mem_map_of_mem (mem_of_get? hg)
      rw [insert, if_neg hk, if_neg (lt_asymm (hlt key hkey)), ih hrest hg]

/-- in increasing order the entries tell the list -/
theorem eq_of_mem_iff {a b : List (String × α)} (ha : Increasing a) (hb : Increasing b)
    (h : ∀ e, e ∈ a ↔ e ∈ b) : a = b := by
  have hperm : a.Perm b :=
    (List.perm_ext_iff_of_nodup (ha.nodup_keys.of_map _) (hb.nodup_keys.of_map _)).mpr h
  exact hperm.eq_of_pairwise (fun _ _ _ _ hef hfe => absurd hfe (lt_asymm hef))
    (List.pairwise_map.mp ha) (List.pairwise_map.mp hb)

theorem insert_last {key : String} {entries : List (String × α)}
    (h : ∀ l ∈ keys entries, l < key) (value : α) :
    insert key value entries = entries ++ [(key, value)] := by
  induction entries with
  | nil => rfl
  | cons entry rest ih =>
    obtain ⟨k, x⟩ := entry
    rw [keys_cons, List.forall_mem_cons] at h
    rw [insert, if_neg h.1.ne, if_neg h.1.asymm, ih h.2]
    rfl

end VisualProgram.Assoc
