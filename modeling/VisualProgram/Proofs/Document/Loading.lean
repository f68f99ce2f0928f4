import VisualProgram.Proofs.Document.RoundTrip
import Mathlib.Data.List.Perm.Basic

/-!
# Which documents load

A document is loaded by adding its nodes and then its wires one by one, and each wire is checked against
the wires before it only.  All the same, whether a document loads is told by its nodes and wires as a
whole: it does exactly if they make up a sound graph (`toGraph_eq_ok_iff`).

* what is loaded is the document itself, in order (`eq_of_foldlM_addNode`, `eq_of_foldlM_connect`), and it
  is sound since a run leads to it;
* a sound graph is accepted wire by wire, since every part of its wiring is free of cycles.

Being sound does not depend on any order (`Sound.perm`), so neither does loading.
-/

namespace VisualProgram

namespace Graph
open Relation

/-! ## what is loaded -/

/-- a run of edits that each append one item appends them all -/
theorem eq_of_foldlM {α : Type} {edit : Graph → α → Except EditError Graph}
    (grow : Graph → List α → Graph) (hnil : ∀ g, grow g [] = g)
    (hcons : ∀ g g' a items, edit g a = .ok g' → grow g' items = grow g (a :: items))
    {items : List α} {g g' : Graph} (h : items.foldlM edit g = .ok g') : g' = grow g items := by
  induction items generalizing g with
  | nil =>
    cases h
    exact (hnil _).symm
  | cons a rest ih =>
    rw [List.foldlM_cons] at h
    cases ha : edit g a with
    | error e =>
      rw [ha] at h
      cases h
    | ok changed =>
      rw [ha] at h
      rw [ih h, hcons g changed a rest ha]

theorem eq_of_foldlM_addNode {nodes : List Node} {g g' : Graph}
    (h : nodes.foldlM addNode g = .ok g') : g' = { g with nodes := g.nodes ++ nodes } := by
  refine eq_of_foldlM (fun g nodes => { g with nodes := g.nodes ++ nodes })
    (fun g => by rw [List.append_nil]) (fun g g' n rest hadd => ?_) h
  unfold addNode at hadd
  split at hadd
  · cases hadd
  · cases hadd
    rw [List.append_assoc]
    rfl

theorem eq_of_foldlM_connect {wires : List Wire} {g g' : Graph}
    (h : wires.foldlM connect g = .ok g') : g' = { g with wires := g.wires ++ wires } := by
  refine eq_of_foldlM (fun g wires => { g with wires := g.wires ++ wires })
    (fun g => by rw [List.append_nil]) (fun g g' w rest hconnect => ?_) h
  unfold connect at hconnect
  split at hconnect
  · cases hconnect
  · split at hconnect
    · cases hconnect
    · split at hconnect
      · cases hconnect
      · cases hconnect
        rw [List.append_assoc]
        rfl

/-! ## order -/

/-- being sound does not depend on the order of the nodes and of the wires -/
theorem Sound.perm {g g' : Graph} (hn : g.nodes.Perm g'.nodes) (hw : g.wires.Perm g'.wires)
    (h : g.Sound) : g'.Sound := by
  have hids : g.ids.Perm g'.ids := hn.map Node.id
  refine ⟨hids.nodup_iff.mp h.distinct, fun w hmem => ?_, ?_, h.acyclic.mono hw.symm.subset⟩
  · obtain ⟨hs, ht⟩ := h.attached w (hw.mem_iff.mpr hmem)
    exact ⟨hids.subset hs, hids.subset ht⟩
  · exact (hw.pairwise_iff fun {v w} hne => Ne.symm hne).mp h.apart

end Graph

namespace Document
open Relation

/-- a document loads exactly if its nodes and wires are a sound graph, which is then what is loaded -/
theorem toGraph_eq_ok_iff (d : Document) (g : Graph) :
    d.toGraph = .ok g ↔ g = ⟨d.info, d.nodes, d.wires⟩ ∧ g.Sound := by
  constructor
  · intro h
    have hsound : g.Sound := Graph.sound_of_reachable ⟨g, [], .loaded d h, rfl⟩
    obtain ⟨nodesOnly, hn, hw⟩ := Graph.foldlM_of_toGraph h
    refine ⟨?_, hsound⟩
    rw [Graph.eq_of_foldlM_connect hw, Graph.eq_of_foldlM_addNode hn]
    rfl
  · rintro ⟨rfl, hsound⟩
    exact toGraph_ofGraph hsound

theorem exists_toGraph_iff (d : Document) :
    (∃ g, d.toGraph = .ok g) ↔ Graph.Sound ⟨d.info, d.nodes, d.wires⟩ := by
  simp only [toGraph_eq_ok_iff]
  constructor
  · rintro ⟨g, rfl, hsound⟩
    exact hsound
  · intro hsound
    exact ⟨_, rfl, hsound⟩

/-- a document loads exactly if its node ids are distinct, its wires join nodes that are there, no two of
them the same ports, and its wiring has no cycle.  The graph has the document's nodes and wires in their
order.  So it does not matter for loading in which order a document lists its nodes and its wires -/
theorem loaded_in_any_order :
    (∀ d : Document,
      ((∃ g, d.toGraph = .ok g) ↔
        (d.nodes.map Node.id).Nodup
        ∧ (∀ w ∈ d.wires, (∃ n ∈ d.nodes, n.id = w.source.node) ∧ ∃ n ∈ d.nodes, n.id = w.target.node)
        ∧ d.wires.Pairwise (fun v w => (v.source, v.target) ≠ (w.source, w.target))
        ∧ ∀ a, ¬TransGen (Graph.Feeds d.wires) a a)
      ∧ ∀ g, d.toGraph = .ok g → g.info = d.info ∧ g.nodes = d.nodes ∧ g.wires = d.wires)
    ∧ ∀ d d' : Document, d.nodes.Perm d'.nodes → d.wires.Perm d'.wires →
      ((∃ g, d.toGraph = .ok g) ↔ ∃ g, d'.toGraph = .ok g) := by
  refine ⟨fun d => ⟨?_, fun g hg => ?_⟩, fun d d' hn hw => ?_⟩
  · have hends : ∀ id, id ∈ d.nodes.map Node.id ↔ ∃ n ∈ d.nodes, n.id = id := fun _ => List.mem_map
    rw [exists_toGraph_iff]
    constructor
    · rintro ⟨hdistinct, hattached, hapart, hacyclic⟩
      refine ⟨hdistinct, fun w hw => ?_, hapart, hacyclic⟩
      exact ⟨(hends _).mp (hattached w hw).1, (hends _).mp (hattached w hw).2⟩
    · rintro ⟨hdistinct, hattached, hapart, hacyclic⟩
      refine ⟨hdistinct, fun w hw => ?_, hapart, hacyclic⟩
      exact ⟨(hends _).mpr (hattached w hw).1, (hends _).mpr (hattached w hw).2⟩
  · obtain ⟨rfl, -⟩ := (toGraph_eq_ok_iff d g).mp hg
    exact ⟨rfl, rfl, rfl⟩
  · rw [exists_toGraph_iff, exists_toGraph_iff]
    exact ⟨Graph.Sound.perm hn hw, Graph.Sound.perm hn.symm hw.symm⟩

/-- two ways from one node to another -/
def sampleDiamond : Document where
  info := .standard
  devices := []
  nodes := ["a", "b", "c", "d"].map fun id => Graph.sampleNode id "timer"
  wires := [Graph.sampleWire "a" "b", Graph.sampleWire "a" "c", Graph.sampleWire "b" "d", Graph.sampleWire "c" "d"]
  widgets := []

/-- in reverse it loads as well; with a way back, listed before the ways there, it does not -/
theorem loaded_in_any_order_sampleDiamond :
    (∃ g, sampleDiamond.toGraph = .ok g)
    ∧ (∃ g, toGraph { sampleDiamond with
        nodes := sampleDiamond.nodes.reverse, wires := sampleDiamond.wires.reverse } = .ok g)
    ∧ ¬∃ g, toGraph { sampleDiamond with
        wires := Graph.sampleWire "d" "a" :: sampleDiamond.wires } = .ok g := by
  obtain ⟨hvalid, horder⟩ := loaded_in_any_order
  have hloads : ∃ g, sampleDiamond.toGraph = .ok g := by
    have hok : sampleDiamond.toGraph.toOption.isSome = true := by decide +kernel
    cases hg : sampleDiamond.toGraph with
    | error e =>
      rw [hg] at hok
      cases hok
    | ok g => exact ⟨g, rfl⟩
  refine ⟨hloads, (horder _ _ (List.reverse_perm _).symm (List.reverse_perm _).symm).mp hloads, ?_⟩
  intro hback
  obtain ⟨-, -, -, hacyclic⟩ := (hvalid _).1.mp hback
  have hfeeds : ∀ w ∈ Graph.sampleWire "d" "a" :: sampleDiamond.wires,
      Graph.Feeds (Graph.sampleWire "d" "a" :: sampleDiamond.wires) w.source.node w.target.node :=
    fun w hw => ⟨w, hw, rfl, rfl⟩
  have hab := hfeeds (Graph.sampleWire "a" "b") (by decide)
  have hbd := hfeeds (Graph.sampleWire "b" "d") (by decide)
  have hda := hfeeds (Graph.sampleWire "d" "a") (by decide)
  exact hacyclic "a" (((TransGen.single hab).tail hbd).tail hda)

end Document
end VisualProgram
