import Mathlib.Data.List.Forall2
import Mathlib.Data.List.Induction
import Mathlib.Data.List.Nodup
import Mathlib.Data.List.Perm.Subperm

/-!
# Lists

`eraseDups` keeps the first of equal entries, so a new entry at the end is kept if it is not there yet.
A list is part of another in some order if it is `Subperm`.
-/

namespace VisualProgram

variable {α β : Type}

/-! ## first occurrences -/

section
variable [DecidableEq α] [DecidableEq β]

theorem eraseDups_concat (l : List α) (a : α) :
    (l ++ [a]).eraseDups = l.eraseDups ++ if a ∈ l then [] else [a] := by
  rw [List.eraseDups_append]
  by_cases h : a ∈ l
  · simp [List.removeAll, h]
  · simp [List.removeAll, h, List.eraseDups_cons]

theorem nodup_eraseDups (l : List α) : l.eraseDups.Nodup := by
  induction l using List.reverseRecOn with
  | nil => exact List.nodup_nil
  | append_singleton l a ih =>
    rw [eraseDups_concat]
    split
    next => rwa [List.append_nil]
    next hnew =>
      rw [← List.concat_eq_append]
      exact ih.concat fun ha => hnew (List.mem_eraseDups.mp ha)

theorem eraseDups_map {f : α → β} {l : List α} (h : ∀ a ∈ l, ∀ b ∈ l, f a = f b → a = b) :
    (l.map f).eraseDups = l.eraseDups.map f := by
  induction l using List.reverseRecOn with
  | nil => rfl
  | append_singleton l a ih =>
    have hmem : f a ∈ l.map f ↔ a ∈ l := by
      refine ⟨fun hm => ?_, List.mem_map_of_mem⟩
      obtain ⟨b, hb, he⟩ := List.mem_map.mp hm
      rw [← h b (List.mem_append_left _ hb) a (List.mem_append_right _ (List.mem_singleton_self a)) he]
      exact hb
    have hl := ih fun b hb c hc => h b (List.mem_append_left _ hb) c (List.mem_append_left _ hc)
    rw [List.map_append, List.map_singleton, eraseDups_concat, eraseDups_concat, List.map_append, hl]
    by_cases ha : a ∈ l
    · rw [if_pos ha, if_pos (hmem.mpr ha), List.map_nil]
    · rw [if_neg ha, if_neg fun hf => ha (hmem.mp hf), List.map_singleton]

theorem length_eraseDups_le (l : List α) : l.eraseDups.length ≤ l.length := by
  induction l using List.reverseRecOn with
  | nil => exact Nat.le_refl _
  | append_singleton l a ih =>
    rw [eraseDups_concat, List.length_append, List.length_append]
    split
    next => exact Nat.le_trans ih (Nat.le_add_right _ _)
    next => exact Nat.add_le_add_right ih _

end

/-! ## parts in any order -/

theorem subperm_map (f : α → β) {a b : List α} (h : a.Subperm b) : (a.map f).Subperm (b.map f) := by
  obtain ⟨l, hperm, hsub⟩ := h
  exact ⟨l.map f, hperm.map f, hsub.map f⟩

theorem nodup_of_subperm {a b : List α} (h : a.Subperm b) (hb : b.Nodup) : a.Nodup := by
  obtain ⟨l, hperm, hsub⟩ := h
  exact hperm.nodup_iff.mp (hb.sublist hsub)

theorem subperm_flatMap {xs : List α} {f g : α → List β} (h : ∀ x ∈ xs, (f x).Subperm (g x)) :
    (xs.flatMap f).Subperm (xs.flatMap g) := by
  induction xs with
  | nil => exact List.nil_subperm
  | cons x xs ih =>
    obtain ⟨hx, hxs⟩ := List.forall_mem_cons.mp h
    rw [List.flatMap_cons, List.flatMap_cons]
    exact hx.append (ih hxs)

end VisualProgram
