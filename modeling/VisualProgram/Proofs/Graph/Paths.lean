import VisualProgram.Graph
import Mathlib.Logic.Relation

/-!
# Paths along wires

`Feeds wires a b` says that a wire goes from a node to another.  `reachable` decides whether there is a
path, although it uses a node's wires up when it visits the node: a path that comes by a visited node
can be cut short to one that leaves the node for the last time (`path_leaving`).

A wire closes a cycle exactly if there is a path from its target to its source (`acyclic_append`).
-/

namespace VisualProgram.Graph
open Relation

/-- a wire of the list goes from a node to another -/
def Feeds (wires : List Wire) (a b : String) : Prop :=
  ∃ w ∈ wires, w.source.node = a ∧ w.target.node = b

/-- following wires never leads back to where one has started -/
def Acyclic (wires : List Wire) : Prop := ∀ a, ¬TransGen (Feeds wires) a a

theorem Feeds.mono {wires wires' : List Wire} (h : wires ⊆ wires') {a b : String}
    (hf : Feeds wires a b) : Feeds wires' a b := by
  obtain ⟨w, hw, hends⟩ := hf
  exact ⟨w, h hw, hends⟩

theorem Acyclic.mono {wires wires' : List Wire} (h : wires ⊆ wires') (ha : Acyclic wires') :
    Acyclic wires :=
  fun a hc => ha a (TransGen.mono (fun _ _ => Feeds.mono h) a a hc)

@[simp] theorem acyclic_nil : Acyclic [] := by
  intro a h
  obtain ⟨b, ⟨w, hw, -⟩, -⟩ := TransGen.head'_iff.mp h
  cases hw

/-! ## search -/

theorem mem_targetsFrom {id t : String} {wires : List Wire} :
    t ∈ targetsFrom id wires ↔ Feeds wires id t := by
  induction wires with
  | nil => simp [targetsFrom, Feeds]
  | cons w rest ih =>
    by_cases h : w.source.node = id
    · rw [targetsFrom, if_pos h, List.mem_cons, ih]
      simp [Feeds, h, eq_comm]
    · rw [targetsFrom, if_neg h, ih]
      simp [Feeds, h]

theorem mem_wiresNotFrom {id : String} {w : Wire} {wires : List Wire} :
    w ∈ wiresNotFrom id wires ↔ w ∈ wires ∧ w.source.node ≠ id := by
  induction wires with
  | nil => simp [wiresNotFrom]
  | cons v rest ih =>
    by_cases h : v.source.node = id
    · rw [wiresNotFrom, if_pos h, ih, List.mem_cons]
      constructor
      · rintro ⟨hw, hne⟩
        exact ⟨Or.inr hw, hne⟩
      · rintro ⟨rfl | hw, hne⟩
        · exact absurd h hne
        · exact ⟨hw, hne⟩
    · rw [wiresNotFrom, if_neg h, List.mem_cons, ih, List.mem_cons]
      constructor
      · rintro (rfl | ⟨hw, hne⟩)
        · exact ⟨Or.inl rfl, h⟩
        · exact ⟨Or.inr hw, hne⟩
      · rintro ⟨rfl | hw, hne⟩
        · exact Or.inl rfl
        · exact Or.inr ⟨hw, hne⟩

theorem wiresNotFrom_subset (id : String) (wires : List Wire) : wiresNotFrom id wires ⊆ wires :=
  fun _ hw => (mem_wiresNotFrom.mp hw).1

theorem not_feeds_wiresNotFrom {id b : String} {wires : List Wire} :
    ¬Feeds (wiresNotFrom id wires) id b := by
  rintro ⟨w, hw, hs, -⟩
  exact (mem_wiresNotFrom.mp hw).2 hs

/-- a path avoids the wires from a node, or leaves that node for the last time and avoids them then -/
theorem path_leaving (id : String) {a goal : String} {wires : List Wire}
    (h : ReflTransGen (Feeds wires) a goal) :
    ReflTransGen (Feeds (wiresNotFrom id wires)) a goal
    ∨ ∃ t ∈ targetsFrom id wires, ReflTransGen (Feeds (wiresNotFrom id wires)) t goal := by
  induction h using ReflTransGen.head_induction_on with
  | refl => exact Or.inl .refl
  | @head a b hab hb ih =>
    rcases ih with hpath | hleaving
    · by_cases ha : a = id
      · subst ha
        exact Or.inr ⟨b, mem_targetsFrom.mpr hab, hpath⟩
      · obtain ⟨w, hw, rfl, rfl⟩ := hab
        have hfeeds : Feeds (wiresNotFrom id wires) w.source.node w.target.node :=
          ⟨w, mem_wiresNotFrom.mpr ⟨hw, ha⟩, rfl, rfl⟩
        exact Or.inl (hpath.head hfeeds)
    · exact Or.inr hleaving

/-- the search finds a goal exactly if a path leads to it -/
theorem reachable_iff (goal : String) (waiting : List String) (wires : List Wire) :
    reachable goal waiting wires = true ↔ ∃ s ∈ waiting, ReflTransGen (Feeds wires) s goal := by
  fun_induction reachable goal waiting wires with
  | case1 wires => simp
  | case2 waiting wires =>
    exact ⟨fun _ => ⟨goal, List.mem_cons_self, .refl⟩, fun _ => rfl⟩
  | case3 current waiting wires hne ih =>
    rw [ih]
    have hmono : Feeds (wiresNotFrom current wires) ≤ Feeds wires :=
      fun _ _ => Feeds.mono (wiresNotFrom_subset current wires)
    constructor
    · rintro ⟨s, hs, hpath⟩
      have hwide := ReflTransGen.mono hmono s goal hpath
      rcases List.mem_append.mp hs with hs | hs
      · exact ⟨current, List.mem_cons_self, hwide.head (mem_targetsFrom.mp hs)⟩
      · exact ⟨s, List.mem_cons_of_mem _ hs, hwide⟩
    · rintro ⟨s, hs, hpath⟩
      rcases path_leaving current hpath with hpath | ⟨t, ht, hpath⟩
      · rcases List.mem_cons.mp hs with rfl | hs
        · -- no wire that is left leaves the node, so the path would have to end there
          rcases hpath.cases_head with rfl | ⟨b, hb, -⟩
          · exact absurd rfl hne
          · exact absurd hb not_feeds_wiresNotFrom
        · exact ⟨s, List.mem_append_right _ hs, hpath⟩
      · exact ⟨t, List.mem_append_left _ ht, hpath⟩

theorem reaches_iff (g : Graph) (source target : String) :
    g.reaches source target = true ↔ ReflTransGen (Feeds g.wires) source target := by
  rw [reaches, reachable_iff]
  simp

/-! ## a new wire -/

@[simp] theorem feeds_append {wires : List Wire} {w : Wire} {a b : String} :
    Feeds (wires ++ [w]) a b ↔ Feeds wires a b ∨ w.source.node = a ∧ w.target.node = b := by
  simp [Feeds, or_and_right, exists_or]

/-- a path along the wires and a new one does without the new one, or passes over it -/
theorem path_append {wires : List Wire} {w : Wire} {a b : String}
    (h : ReflTransGen (Feeds (wires ++ [w])) a b) :
    ReflTransGen (Feeds wires) a b
    ∨ ReflTransGen (Feeds wires) a w.source.node ∧ ReflTransGen (Feeds wires) w.target.node b := by
  induction h with
  | refl => exact Or.inl .refl
  | @tail b c hab hbc ih =>
    rcases feeds_append.mp hbc with hold | ⟨rfl, rfl⟩
    · rcases ih with ih | ⟨hsource, htarget⟩
      · exact Or.inl (ih.tail hold)
      · exact Or.inr ⟨hsource, htarget.tail hold⟩
    · rcases ih with ih | ⟨hsource, -⟩
      · exact Or.inr ⟨ih, .refl⟩
      · exact Or.inr ⟨hsource, .refl⟩

/-- a wire whose source is not reached from its target closes no cycle -/
theorem acyclic_append {wires : List Wire} {w : Wire} (ha : Acyclic wires)
    (hw : ¬ReflTransGen (Feeds wires) w.target.node w.source.node) : Acyclic (wires ++ [w]) := by
  intro a hcycle
  obtain ⟨b, hab, hba⟩ := TransGen.head'_iff.mp hcycle
  rcases feeds_append.mp hab with hold | ⟨rfl, rfl⟩
  · rcases path_append hba with hpath | ⟨hsource, htarget⟩
    · exact ha a (TransGen.head'_iff.mpr ⟨b, hold, hpath⟩)
    · exact hw ((htarget.tail hold).trans hsource)
  · rcases path_append hba with hpath | ⟨hsource, -⟩
    · exact hw hpath
    · exact hw hsource

end VisualProgram.Graph
