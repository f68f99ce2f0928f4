import VisualProgram.Proofs.Workspace.Placement

/-!
# Detaching is undone by reconnecting

A block that is detached is cut out of its owner and becomes the last chain.  Connecting it again takes this
chain away, which leaves the workspace with the slot empty (`prune_detached`), and puts the block back into
its owner.  The slot is empty, so nothing is displaced and no chain is put after the block, and sockets keep
their order, so the owner is what it was (`setChild_dropChild`).

`attach_detached` is this for every kind of slot; the three ways to connect are cases of it.
-/

namespace VisualProgram.Workspace
open Block

theorem changeParent_fill {P : Place} {q : Block} (hav : P.Avoids q.id) (change : Block → Block)
    (displaced : Block → List Block) :
    (P.fill q).changeParent q.id change displaced = .ok ⟨(P.fill (change q)).blocks ++ displaced q⟩ := by
  rw [changeParent, P.find?_fill q hav, P.update?_fill change q hav]

section
variable {w : Workspace} {b : Block}

/-- what was taken out is no longer there -/
theorem not_mem_ids_prune (hw : w.Sound) {id : String} (h : w.find? id = some b) {x : String}
    (hx : x ∈ b.ids) : x ∉ (w.prune id).ids := by
  have hids := (ids_nodup_iff w).mp hw.distinct
  rw [(sound_prune hw h).1, Multiset.map_add, Multiset.nodup_add] at hids
  rw [ids_eq_records] at hx
  rw [mem_ids_iff_contents]
  exact Multiset.disjoint_left.mp hids.2.2 hx

/-- the block of an id that is not at the top hangs in a slot of an owner -/
theorem exists_held? (hw : w.Sound) {id : String} (h : id ∈ w.ids) (htop : id ∉ w.heads) :
    ∃ slot b, slot.owner? ≠ none ∧ w.find? id = some b ∧ w.held? slot = some b := by
  obtain ⟨slot, hl⟩ := exists_locate? h
  obtain ⟨b, hb, hheld, -⟩ := take?_of_locate? hw hl
  exact ⟨slot, b, (mem_heads_iff_locate? hl).not.mp htop, hb, hheld⟩

/-! ## the workspace in between -/

/-- the workspace with a block moved to its end -/
def detached (w : Workspace) (b : Block) : Workspace := ⟨(w.prune b.id).blocks ++ [b]⟩

theorem heads_detached (htop : b.id ∉ w.heads) : (w.detached b).heads = w.heads ++ [b.id] := by
  have hall : w.heads.filter (· ≠ b.id) = w.heads :=
    List.filter_eq_self.mpr fun x hx => by simpa using fun e : x = b.id => htop (e ▸ hx)
  rw [detached, heads_append, heads_prune w b.id, hall]
  rfl

theorem prune_detached (hw : w.Sound) (hb : w.find? b.id = some b) :
    (w.detached b).prune b.id = w.prune b.id := by
  have hself : b.id ∈ b.ids := List.mem_map_of_mem (self_mem_walk b)
  have hlast : [b].filterMap (prune? b.id) = [] := by
    rw [List.filterMap_cons_none (prune?_eq_none_iff.mpr rfl), List.filterMap_nil]
  have hrest : (w.prune b.id).blocks.filterMap (prune? b.id) = (w.prune b.id).blocks :=
    filterMap_prune? (not_mem_ids_prune hw hb hself)
  rw [prune, detached, List.filterMap_append, hrest, hlast, List.append_nil]

/-- what is put back finds its slot empty, so the owner and the workspace are what they were -/
theorem attach_detached (hw : w.Sound) (slot : Slot) {owner : String} (howner : slot.owner? = some owner)
    (hb : w.find? b.id = some b) (htop : b.id ∉ w.heads) (hheld : w.held? slot = some b)
    (change : Block → Block → Block) (displaced : Block → List Block)
    (hchange : ∀ q, child? slot q = none → change b q = setChild b slot q ∧ displaced q = []) :
    (do
      let (c, rest) ← (w.detached b).takeForAttach owner b.id
      rest.changeParent owner (change c) displaced) = .ok w := by
  have hdetach : w.detach b.id = .ok (w.detached b) := detach_eq hw hb htop
  have hmoved := detach_contents hw.ordered hdetach
  have hw₁ : (w.detached b).Sound := hw.of_contents hmoved
  rw [held?_of_owner howner] at hheld
  obtain ⟨p, hp, hchild⟩ := Option.bind_eq_some_iff.mp hheld
  obtain ⟨rfl, P, rfl, hav⟩ := exists_place hp
  have hid := id_dropChild slot p
  have htidy : p.Tidy := ((ordered_iff p).mp (Place.ordered_of_fill hw.ordered)).1
  have hprune : (P.fill p).prune b.id = P.fill (dropChild slot p) := prune_of_child hw.distinct howner hchild
  have htake : ((P.fill p).detached b).takeForAttach p.id b.id = .ok (b, P.fill (dropChild slot p)) := by
    refine (takeForAttach_iff hw₁).mpr ⟨?_, ?_, fun hm => not_mem_ids_prune hw hb hm ?_, ?_⟩
    · rw [mem_ids_iff_contents, hmoved.1, ← mem_ids_iff_contents, ids_eq_walk]
      exact List.mem_map_of_mem (mem_walk_place (self_mem_walk p))
    · exact find?_of_mem_walk hw₁.distinct (mem_walk_of_mem (List.mem_append_right _ List.mem_cons_self))
    · rw [hprune, ids_eq_walk, ← hid]
      exact List.mem_map_of_mem (mem_walk_place (self_mem_walk _))
    · rw [prune_detached hw hb, hprune]
  obtain ⟨hset, hnone⟩ := hchange (dropChild slot p) (child?_dropChild htidy slot)
  rw [htake]
  show (P.fill (dropChild slot p)).changeParent p.id (change b) displaced = .ok (P.fill p)
  rw [← hid, changeParent_fill (hid ▸ hav), hset, hnone, setChild_dropChild htidy hchild, List.append_nil]

end

/-! ## there and back -/

/-- on a workspace that a run leads to, a block that is not at the top hangs in a slot of an owner.  Detaching
it puts it at the end of the top level, and connecting it to the same owner again, in the way that the slot
asks for, gives the very workspace there was -/
theorem reconnecting_restores (w : Workspace) (hw : w.Reachable) (id : String) (hid : id ∈ w.ids)
    (htop : id ∉ w.heads) :
    ∃ b w₁, w.find? id = some b ∧ w.detach id = .ok w₁ ∧ w₁.heads = w.heads ++ [id]
      ∧ (∃ slot, slot.owner? ≠ none ∧ w.held? slot = some b)
      ∧ (∀ owner socket, w.held? (.input owner socket) = some b →
        w₁.connectValue owner socket id = .ok w)
      ∧ (∀ owner socket, w.held? (.statement owner socket) = some b →
        w₁.connectStatement owner socket id = .ok w)
      ∧ ∀ owner, w.held? (.after owner) = some b → w₁.connectNext owner id = .ok w := by
  have hs := sound_of_reachable hw
  obtain ⟨slot, b, hslot, hb, hheld⟩ := exists_held? hs hid htop
  obtain rfl : b.id = id := (mem_walk_of_find? hb).2
  refine ⟨b, w.detached b, hb, detach_eq hs hb htop, heads_detached htop, ⟨slot, hslot, hheld⟩,
    fun owner socket h => ?_, fun owner socket h => ?_, fun owner h => ?_⟩
  · refine attach_detached hs (.input owner socket) rfl hb htop h (fun c p => p.setInput socket c)
      (fun p => (p.input? socket).toList) fun q hq => ⟨rfl, ?_⟩
    have hnone : q.input? socket = none := hq
    rw [hnone, Option.toList_none]
  · refine attach_detached hs (.statement owner socket) rfl hb htop h
      (fun c p => p.setStatement socket (c.appendOption (p.statement? socket))) (fun _ => [])
      fun q hq => ⟨?_, rfl⟩
    have hnone : q.statement? socket = none := hq
    rw [hnone]
    rfl
  · refine attach_detached hs (.after owner) rfl hb htop h
      (fun c p => p.setNext (some (c.appendOption p.next))) (fun _ => []) fun q hq => ⟨?_, rfl⟩
    have hnone : q.next = none := hq
    rw [hnone]
    rfl

/-- a value, the head of a body with what follows it, and a block after another -/
theorem reconnecting_restores_sampleRun :
    (∃ w₁, (empty.run sampleRun).detach "y" = .ok w₁ ∧ w₁.heads = ["loop", "x", "y"]
      ∧ w₁.connectValue "a" "VALUE" "y" = .ok (empty.run sampleRun))
    ∧ (∃ w₁, (empty.run sampleRun).detach "a" = .ok w₁ ∧ w₁.heads = ["loop", "x", "a"]
      ∧ w₁.connectStatement "loop" "DO" "a" = .ok (empty.run sampleRun))
    ∧ ∃ w₁, (empty.run sampleRun).detach "b" = .ok w₁ ∧ w₁.heads = ["loop", "x", "b"]
      ∧ w₁.connectNext "a" "b" = .ok (empty.run sampleRun) := by
  have hheads : (empty.run sampleRun).heads = ["loop", "x"] := by decide
  refine ⟨?_, ?_, ?_⟩
  · obtain ⟨b, w₁, hb, hdetach, htop, -, hvalue, -, -⟩ :=
      reconnecting_restores _ reachable_sampleRun "y" (by decide) (by decide)
    have hheld : (empty.run sampleRun).held? (.input "a" "VALUE") = (empty.run sampleRun).find? "y" := by decide
    exact ⟨w₁, hdetach, by rw [htop, hheads]; rfl, hvalue "a" "VALUE" (hheld.trans hb)⟩
  · obtain ⟨b, w₁, hb, hdetach, htop, -, -, hstatement, -⟩ :=
      reconnecting_restores _ reachable_sampleRun "a" (by decide) (by decide)
    have hheld : (empty.run sampleRun).held? (.statement "loop" "DO") = (empty.run sampleRun).find? "a" := by
      decide
    exact ⟨w₁, hdetach, by rw [htop, hheads]; rfl, hstatement "loop" "DO" (hheld.trans hb)⟩
  · obtain ⟨b, w₁, hb, hdetach, htop, -, -, -, hnext⟩ :=
      reconnecting_restores _ reachable_sampleRun "b" (by decide) (by decide)
    have hheld : (empty.run sampleRun).held? (.after "a") = (empty.run sampleRun).find? "b" := by decide
    exact ⟨w₁, hdetach, by rw [htop, hheads]; rfl, hnext "a" (hheld.trans hb)⟩

end VisualProgram.Workspace
