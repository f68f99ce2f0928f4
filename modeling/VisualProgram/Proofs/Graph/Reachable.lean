import VisualProgram.Document
import VisualProgram.Graph.Editor
import VisualProgram.Proofs.Editing
import VisualProgram.Proofs.Graph.Paths
import Mathlib.Data.List.Nodup

/-!
# Graphs that editing leads to

`Sound` is the invariant: node ids distinct, both ends of every wire present, no two wires between the
same ports, no cycle.  The proof has three parts:

* `Moves`           all that one edit can do to a graph, with what the edit has checked before;
* `Moves.sound`     each of these keeps the invariant;
* `step_moves`      an edit, refused or not, is one of these.

A document is loaded by adding its nodes and wires, so a loaded graph is a run as well (`run_of_toGraph`).
The search for cycles enters only where a wire is added (`reaches_iff`).
-/

namespace VisualProgram.Graph
open Editing Relation

def ids (g : Graph) : List String := g.nodes.map Node.id

@[simp] theorem isSome_node? (g : Graph) (id : String) : (g.node? id).isSome = true ↔ id ∈ g.ids := by
  simp [node?, ids]

@[simp] theorem isNone_node? (g : Graph) (id : String) : (g.node? id).isNone = true ↔ id ∉ g.ids := by
  rw [← isSome_node?]
  cases g.node? id <;> simp

/-! ## edits -/

inductive Edit where
  | addNode (n : Node)
  | removeNode (id : String)
  | setLabel (id label : String)
  | setProperty (id name : String) (value : Json)
  | connect (w : Wire)
  | disconnect (source target : Port)

/-- an edit as an editor makes it -/
def Edit.inPlace : Edit → Editing Graph Unit
  | .addNode n => Editor.addNode n
  | .removeNode i => do discard (Editor.removeNode i)
  | .setLabel i label => Editor.setLabel i label
  | .setProperty i name value => Editor.setProperty i name value
  | .connect w => Editor.connect w
  | .disconnect source target => do discard (Editor.disconnect source target)

/-- an edit by value -/
def Edit.apply (g : Graph) : Edit → Except EditError Graph
  | .addNode n => g.addNode n
  | .removeNode i => (g.removeNode i).map Prod.snd
  | .setLabel i label => g.setLabel i label
  | .setProperty i name value => g.setProperty i name value
  | .connect w => g.connect w
  | .disconnect source target => .ok (((g.disconnect source target).map Prod.snd).getD g)

/-- what an editor holds after an edit, refused or not -/
def step (g : Graph) (e : Edit) : Graph := left (e.inPlace.run g)

def run (g : Graph) (edits : List Edit) : Graph := edits.foldl step g

@[simp] theorem run_cons (g : Graph) (e : Edit) (edits : List Edit) :
    g.run (e :: edits) = (g.step e).run edits := rfl

@[simp] theorem run_append (g : Graph) (first second : List Edit) :
    g.run (first ++ second) = (g.run first).run second :=
  List.foldl_append

/-- where a run starts -/
inductive Start : Graph → Prop
  | withMeta (info : Meta) : Start (.withMeta info)
  | loaded (d : Document) {g : Graph} (h : d.toGraph = .ok g) : Start g

def Reachable (g : Graph) : Prop := ∃ start edits, Start start ∧ start.run edits = g

/-! ## what the edits do -/

theorem run_addNode (n : Node) (g : Graph) :
    (Editor.addNode n).run g =
      if n.id ∈ g.ids then .error (.duplicateNode n.id) g
      else .ok () { g with nodes := g.nodes ++ [n] } := by
  rw [Editor.addNode, run_bind_ok (run_get g)]
  simp only [isSome_node?]
  split <;> rfl

theorem run_removeNode (id : String) (g : Graph) :
    (Editor.removeNode id).run g =
      match g.node? id with
      | none => .error (.missingNode id) g
      | some n => .ok n { g with
        nodes := g.nodes.eraseP (·.id = id)
        wires := g.wires.filter fun w => !(w.source.node = id) && !(w.target.node = id) } := by
  rw [Editor.removeNode, run_bind_ok (run_get g)]
  cases g.node? id <;> rfl

theorem run_changeNode (id : String) (change : Node → Node) (g : Graph) :
    (Editor.changeNode id change).run g =
      if id ∈ g.ids then .ok () { g with nodes := changeFirst id change g.nodes }
      else .error (.missingNode id) g := by
  rw [Editor.changeNode, run_bind_ok (run_get g)]
  simp only [← isSome_node?]
  cases g.node? id <;> rfl

theorem run_connect (w : Wire) (g : Graph) :
    (Editor.connect w).run g =
      if w.source.node ∉ g.ids ∨ w.target.node ∉ g.ids then
        .error (.danglingWire w.source w.target) g
      else if ∃ v ∈ g.wires, v.source = w.source ∧ v.target = w.target then
        .error (.duplicateWire w.source w.target) g
      else if g.reaches w.target.node w.source.node then
        .error (.wireCycle w.source.node w.target.node) g
      else .ok () { g with wires := g.wires ++ [w] } := by
  rw [Editor.connect, run_bind_ok (run_get g)]
  simp only [isNone_node?, List.any_eq_true, decide_eq_true_eq]
  split
  · rfl
  · split
    · rfl
    · split <;> rfl

theorem run_disconnect (source target : Port) (g : Graph) :
    (Editor.disconnect source target).run g =
      .ok (g.wires.find? fun w => w.source = source ∧ w.target = target)
        { g with wires := g.wires.eraseP fun w => w.source = source ∧ w.target = target } := by
  rw [Editor.disconnect, run_bind_ok (run_get g)]
  cases hf : g.wires.find? fun w => w.source = source ∧ w.target = target with
  | none =>
    rw [List.eraseP_of_forall_not fun w hw => List.find?_eq_none.mp hf w hw]
    rfl
  | some w => rfl

/-- every edit checks before it changes anything -/
theorem answers_inPlace (e : Edit) (g : Graph) : ∃ cause, Answers e.inPlace g cause := by
  cases e with
  | addNode n =>
    have hrun := run_addNode n g
    split at hrun
    · exact ⟨some _, hrun⟩
    · exact ⟨none, _, _, hrun⟩
  | removeNode id =>
    have hrun := run_removeNode id g
    cases hn : g.node? id with
    | none =>
      rw [hn] at hrun
      exact ⟨some _, run_bind_error hrun⟩
    | some n =>
      rw [hn] at hrun
      exact ⟨none, _, _, run_bind_ok hrun⟩
  | setLabel id label =>
    have hrun := run_changeNode id (fun n => { n with label := label }) g
    split at hrun
    · exact ⟨none, _, _, hrun⟩
    · exact ⟨some _, hrun⟩
  | setProperty id name value =>
    have hrun := run_changeNode id
      (fun n => { n with properties := Assoc.put name value n.properties }) g
    split at hrun
    · exact ⟨none, _, _, hrun⟩
    · exact ⟨some _, hrun⟩
  | connect w =>
    have hrun := run_connect w g
    split at hrun
    · exact ⟨some _, hrun⟩
    · split at hrun
      · exact ⟨some _, hrun⟩
      · split at hrun
        · exact ⟨some _, hrun⟩
        · exact ⟨none, _, _, hrun⟩
  | disconnect source target =>
    exact ⟨none, _, _, run_bind_ok (run_disconnect source target g)⟩

/-! ## in place and by value -/

theorem settle_addNode (n : Node) (g : Graph) :
    settle ((Editor.addNode n).run g) = (g.addNode n).map fun g' => ((), g') := by
  rw [run_addNode, addNode]
  simp only [isSome_node?]
  split <;> rfl

theorem settle_removeNode (id : String) (g : Graph) :
    settle ((Editor.removeNode id).run g) = g.removeNode id := by
  rw [run_removeNode, removeNode]
  cases g.node? id <;> rfl

theorem settle_changeNode (id : String) (change : Node → Node) (g : Graph) :
    settle ((Editor.changeNode id change).run g)
      = (g.changeNode id change).map fun g' => ((), g') := by
  rw [run_changeNode, changeNode]
  simp only [isSome_node?]
  split <;> rfl

theorem settle_connect (w : Wire) (g : Graph) :
    settle ((Editor.connect w).run g) = (g.connect w).map fun g' => ((), g') := by
  rw [run_connect, connect]
  simp only [isNone_node?, List.any_eq_true, decide_eq_true_eq]
  split
  · rfl
  · split
    · rfl
    · split <;> rfl

theorem settle_disconnect (source target : Port) (g : Graph) :
    settle ((Editor.disconnect source target).run g)
      = .ok ((g.disconnect source target).map Prod.fst,
        ((g.disconnect source target).map Prod.snd).getD g) := by
  rw [Editor.disconnect, run_bind_ok (run_get g), disconnect]
  cases g.wires.find? fun w => w.source = source ∧ w.target = target <;> rfl

theorem settle_inPlace (e : Edit) (g : Graph) :
    settle (e.inPlace.run g) = (e.apply g).map fun g' => ((), g') := by
  cases e with
  | addNode n => exact settle_addNode n g
  | removeNode id =>
    show settle ((Editor.removeNode id >>= fun _ => pure ()).run g)
      = ((g.removeNode id).map Prod.snd).map _
    rw [settle_bind, settle_removeNode]
    cases g.removeNode id <;> rfl
  | setLabel id label => exact settle_changeNode id _ g
  | setProperty id name value => exact settle_changeNode id _ g
  | connect w => exact settle_connect w g
  | disconnect source target =>
    show settle ((Editor.disconnect source target >>= fun _ => pure ()).run g) = _
    rw [settle_bind, settle_disconnect]
    rfl

theorem step_of_apply {e : Edit} {g g' : Graph} (h : e.apply g = .ok g') : g.step e = g' := by
  obtain ⟨cause, hcause⟩ := answers_inPlace e g
  rw [step, hcause.left_eq (settle_inPlace e g), h]
  rfl

theorem run_of_foldlM {α : Type} (edit : α → Edit) {items : List α} {g g' : Graph}
    (h : items.foldlM (fun g a => (edit a).apply g) g = .ok g') : g.run (items.map edit) = g' := by
  induction items generalizing g with
  | nil =>
    cases h
    rfl
  | cons a rest ih =>
    rw [List.foldlM_cons] at h
    cases ha : (edit a).apply g with
    | error e =>
      rw [ha] at h
      cases h
    | ok changed =>
      rw [ha] at h
      rw [List.map_cons, run_cons, step_of_apply ha]
      exact ih h

/-- what is loaded comes from adding all nodes and then all wires -/
theorem foldlM_of_toGraph {d : Document} {g : Graph} (h : d.toGraph = .ok g) :
    ∃ nodesOnly, d.nodes.foldlM addNode (withMeta d.info) = .ok nodesOnly
      ∧ d.wires.foldlM connect nodesOnly = .ok g := by
  unfold Document.toGraph at h
  cases hn : d.nodes.foldlM addNode (withMeta d.info) with
  | error e =>
    rw [hn] at h
    cases h
  | ok nodesOnly =>
    rw [hn] at h
    have hmap : (d.wires.foldlM connect nodesOnly).mapError LoadError.invalid = .ok g := h
    cases hw : d.wires.foldlM connect nodesOnly with
    | error e =>
      rw [hw] at hmap
      cases hmap
    | ok loaded =>
      rw [hw] at hmap
      cases hmap
      exact ⟨nodesOnly, rfl, hw⟩

/-- a loaded graph is what adding the nodes and then the wires leads to -/
theorem run_of_toGraph {d : Document} {g : Graph} (h : d.toGraph = .ok g) :
    (withMeta d.info).run (d.nodes.map .addNode ++ d.wires.map .connect) = g := by
  obtain ⟨nodesOnly, hn, hw⟩ := foldlM_of_toGraph h
  simp [run_of_foldlM .addNode hn, run_of_foldlM .connect hw]

/-! ## the invariant -/

structure Sound (g : Graph) : Prop where
  distinct : g.ids.Nodup
  attached : ∀ w ∈ g.wires, w.source.node ∈ g.ids ∧ w.target.node ∈ g.ids
  apart : g.wires.Pairwise fun v w => (v.source, v.target) ≠ (w.source, w.target)
  acyclic : Acyclic g.wires

/-- all that an edit can do to a graph -/
inductive Moves (g : Graph) : Graph → Prop
  | stay : Moves g g
  | add (n : Node) (hn : n.id ∉ g.ids) : Moves g { g with nodes := g.nodes ++ [n] }
  | remove (id : String) : Moves g { g with
      nodes := g.nodes.eraseP (·.id = id)
      wires := g.wires.filter fun w => !(w.source.node = id) && !(w.target.node = id) }
  | change (id : String) (change : Node → Node) (hc : ∀ n, (change n).id = n.id) :
      Moves g { g with nodes := changeFirst id change g.nodes }
  | wire (w : Wire) (hs : w.source.node ∈ g.ids) (ht : w.target.node ∈ g.ids)
      (hnew : ∀ v ∈ g.wires, (v.source, v.target) ≠ (w.source, w.target))
      (hpath : ¬ReflTransGen (Feeds g.wires) w.target.node w.source.node) :
      Moves g { g with wires := g.wires ++ [w] }
  | unwire (p : Wire → Bool) : Moves g { g with wires := g.wires.eraseP p }

theorem ids_changeFirst {change : Node → Node} (hc : ∀ n, (change n).id = n.id) (id : String)
    (nodes : List Node) : (changeFirst id change nodes).map Node.id = nodes.map Node.id := by
  induction nodes with
  | nil => rfl
  | cons n rest ih =>
    rw [changeFirst]
    split
    · rw [List.map_cons, List.map_cons, hc]
    · rw [List.map_cons, List.map_cons, ih]

theorem mem_ids_erase {g : Graph} {id x : String} (hx : x ∈ g.ids) (hne : x ≠ id) :
    x ∈ (g.nodes.eraseP (·.id = id)).map Node.id := by
  obtain ⟨n, hn, rfl⟩ := List.mem_map.mp hx
  refine List.mem_map.mpr ⟨n, ?_, rfl⟩
  rw [List.mem_eraseP_of_neg]
  · exact hn
  · simpa using hne

theorem Moves.sound {g g' : Graph} (h : Moves g g') (hg : g.Sound) : g'.Sound := by
  cases h with
  | stay => exact hg
  | add n hn =>
    have hids : ids { g with nodes := g.nodes ++ [n] } = g.ids ++ [n.id] := List.map_append
    refine ⟨?_, fun w hw => ?_, hg.apart, hg.acyclic⟩
    · rw [hids]
      refine List.nodup_append.mpr ⟨hg.distinct, List.nodup_singleton _, ?_⟩
      rintro a ha b hb rfl
      exact hn (List.mem_singleton.mp hb ▸ ha)
    · rw [hids]
      obtain ⟨hs, ht⟩ := hg.attached w hw
      exact ⟨List.mem_append_left _ hs, List.mem_append_left _ ht⟩
  | remove id =>
    refine ⟨?_, fun w hw => ?_, hg.apart.sublist List.filter_sublist,
      hg.acyclic.mono List.filter_sublist.subset⟩
    · exact hg.distinct.sublist (List.Sublist.map Node.id List.eraseP_sublist)
    · obtain ⟨hw, hkeep⟩ := List.mem_filter.mp hw
      obtain ⟨hs, ht⟩ := hg.attached w hw
      have hne : w.source.node ≠ id ∧ w.target.node ≠ id := by simpa using hkeep
      exact ⟨mem_ids_erase hs hne.1, mem_ids_erase ht hne.2⟩
  | change id change hc =>
    have hids : ids { g with nodes := changeFirst id change g.nodes } = g.ids :=
      ids_changeFirst hc id g.nodes
    exact ⟨hids ▸ hg.distinct, hids ▸ hg.attached, hg.apart, hg.acyclic⟩
  | wire w hs ht hnew hpath =>
    refine ⟨hg.distinct, fun v hv => ?_, ?_, acyclic_append hg.acyclic hpath⟩
    · rcases List.mem_append.mp hv with hv | hv
      · exact hg.attached v hv
      · rw [List.mem_singleton.mp hv]
        exact ⟨hs, ht⟩
    · refine List.pairwise_append.mpr ⟨hg.apart, List.pairwise_singleton _ _, fun v hv u hu => ?_⟩
      rw [List.mem_singleton.mp hu]
      exact hnew v hv
  | unwire p =>
    have hsub : (g.wires.eraseP p).Sublist g.wires := List.eraseP_sublist
    exact ⟨hg.distinct, fun w hw => hg.attached w (hsub.subset hw), hg.apart.sublist hsub,
      hg.acyclic.mono hsub.subset⟩

theorem step_moves (g : Graph) (e : Edit) : Moves g (g.step e) := by
  have hchange : ∀ (id : String) (change : Node → Node), (∀ n, (change n).id = n.id) →
      Moves g (left ((Editor.changeNode id change).run g)) := by
    intro id change hc
    rw [run_changeNode]
    split
    · exact .change id change hc
    · exact .stay
  cases e with
  | addNode n =>
    show Moves g (left ((Editor.addNode n).run g))
    rw [run_addNode]
    split
    next => exact .stay
    next hn => exact .add n hn
  | removeNode id =>
    show Moves g (left ((Editor.removeNode id >>= fun _ => pure ()).run g))
    have hrun := run_removeNode id g
    cases hn : g.node? id with
    | none =>
      rw [hn] at hrun
      rw [run_bind_error hrun]
      exact .stay
    | some n =>
      rw [hn] at hrun
      rw [run_bind_ok hrun]
      exact .remove id
  | setLabel id label => exact hchange id _ fun _ => rfl
  | setProperty id name value => exact hchange id _ fun _ => rfl
  | connect w =>
    show Moves g (left ((Editor.connect w).run g))
    rw [run_connect]
    split
    next => exact .stay
    next hends =>
      rw [not_or, not_not, not_not] at hends
      split
      next => exact .stay
      next hnew =>
        split
        next => exact .stay
        next hreach =>
          rw [reaches_iff] at hreach
          refine .wire w hends.1 hends.2 (fun v hv heq => hnew ⟨v, hv, ?_⟩) hreach
          exact ⟨congrArg Prod.fst heq, congrArg Prod.snd heq⟩
  | disconnect source target =>
    show Moves g (left ((Editor.disconnect source target >>= fun _ => pure ()).run g))
    rw [run_bind_ok (run_disconnect source target g)]
    exact .unwire _

theorem run_sound {g : Graph} (hg : g.Sound) (edits : List Edit) : (g.run edits).Sound := by
  induction edits generalizing g with
  | nil => exact hg
  | cons e edits ih =>
    rw [run_cons]
    exact ih ((step_moves g e).sound hg)

theorem sound_withMeta (info : Meta) : (withMeta info).Sound :=
  ⟨List.nodup_nil, fun _ hw => (List.not_mem_nil hw).elim, List.Pairwise.nil, acyclic_nil⟩

theorem sound_of_reachable {g : Graph} (h : g.Reachable) : g.Sound := by
  obtain ⟨start, edits, hstart, rfl⟩ := h
  refine run_sound ?_ edits
  cases hstart with
  | withMeta info => exact sound_withMeta info
  | loaded d hd =>
    rw [← run_of_toGraph hd]
    exact run_sound (sound_withMeta d.info) _

/-! ## along every run -/

/-- where ids are distinct, taking the first node of an id away takes all of them away -/
theorem eraseP_eq_filter {nodes : List Node} (h : (nodes.map Node.id).Nodup) (id : String) :
    nodes.eraseP (·.id = id) = nodes.filter (·.id ≠ id) := by
  induction nodes with
  | nil => rfl
  | cons n rest ih =>
    obtain ⟨hn, hrest⟩ := List.nodup_cons.mp h
    by_cases hid : n.id = id
    · subst hid
      have hall : rest.filter (·.id ≠ n.id) = rest := by
        refine List.filter_eq_self.mpr fun m hm => decide_eq_true fun heq => ?_
        exact hn (heq ▸ List.mem_map_of_mem hm)
      rw [List.eraseP_cons_of_pos (by simp), List.filter_cons_of_neg (by simp), hall]
    · rw [List.eraseP_cons_of_neg (by simpa using hid), List.filter_cons_of_pos (by simpa using hid),
        ih hrest]

theorem removeNode_eq {g : Graph} (hg : g.ids.Nodup) (id : String) :
    (id ∉ g.ids ∧ g.removeNode id = .error (.missingNode id))
    ∨ ∃ n ∈ g.nodes, n.id = id ∧ g.removeNode id = .ok (n, { g with
        nodes := g.nodes.filter (·.id ≠ id)
        wires := g.wires.filter fun w => w.source.node ≠ id ∧ w.target.node ≠ id }) := by
  unfold removeNode
  cases hn : g.node? id with
  | none =>
    refine Or.inl ⟨?_, rfl⟩
    rw [← isNone_node?, hn]
    rfl
  | some n =>
    have hfound : n.id = id := by simpa using List.find?_some hn
    refine Or.inr ⟨n, List.mem_of_find?_eq_some hn, hfound, ?_⟩
    have hwires : (fun w : Wire => !decide (w.source.node = id) && !decide (w.target.node = id))
        = fun w => decide (w.source.node ≠ id ∧ w.target.node ≠ id) := by
      funext w
      simp
    rw [eraseP_eq_filter hg id, hwires]

/-- a graph that a run leads to has distinct node ids, wires between nodes that are there, no two wires
between the same ports and no cycle.  Removing a node takes away that node and the wires at it and
leaves all else in order; a refused edit leaves the graph as it was, and what an edit gives is what
the edit by value gives -/
theorem wired_soundly (g : Graph) (hg : g.Reachable) :
    (g.nodes.map Node.id).Nodup
    ∧ (∀ w ∈ g.wires, (∃ n ∈ g.nodes, n.id = w.source.node) ∧ ∃ n ∈ g.nodes, n.id = w.target.node)
    ∧ g.wires.Pairwise (fun v w => (v.source, v.target) ≠ (w.source, w.target))
    ∧ (∀ a, ¬TransGen (Feeds g.wires) a a)
    ∧ (∀ id, (id ∉ g.ids ∧ g.removeNode id = .error (.missingNode id))
      ∨ ∃ n ∈ g.nodes, n.id = id ∧ g.removeNode id = .ok (n, { g with
          nodes := g.nodes.filter (·.id ≠ id)
          wires := g.wires.filter fun w => w.source.node ≠ id ∧ w.target.node ≠ id }))
    ∧ (∀ id, settle ((Editor.removeNode id).run g) = g.removeNode id)
    ∧ ∀ e : Edit, settle (e.inPlace.run g) = (e.apply g).map (fun g' => ((), g'))
      ∧ ∀ err g', e.inPlace.run g = .error err g' → g' = g := by
  have hs := sound_of_reachable hg
  refine ⟨hs.distinct, fun w hw => ?_, hs.apart, hs.acyclic, removeNode_eq hs.distinct,
    fun id => settle_removeNode id g, fun e => ⟨settle_inPlace e g, fun err g' hrun => ?_⟩⟩
  · obtain ⟨hsource, htarget⟩ := hs.attached w hw
    exact ⟨List.mem_map.mp hsource, List.mem_map.mp htarget⟩
  · obtain ⟨cause, hcause⟩ := answers_inPlace e g
    exact hcause.eq_of_refused hrun

def sampleNode (id type : String) : Node := ⟨id, type, "", .origin, []⟩

def sampleWire (source target : String) : Wire := ⟨source ++ target, ⟨source, "out"⟩, ⟨target, "in"⟩⟩

/-- a, b and c in a row, the way back refused; then b goes and comes back, and the way back is free -/
def sampleRun : List Edit :=
  [.addNode (sampleNode "a" "timer"), .addNode (sampleNode "b" "math"),
    .addNode (sampleNode "c" "csv"), .connect (sampleWire "a" "b"), .connect (sampleWire "b" "c"),
    .connect (sampleWire "c" "a"), .removeNode "b", .addNode (sampleNode "b" "math"),
    .connect (sampleWire "c" "a"), .connect (sampleWire "b" "c"), .connect (sampleWire "a" "b")]

theorem reachable_sampleRun : (empty.run sampleRun).Reachable :=
  ⟨empty, sampleRun, .withMeta .standard, rfl⟩

theorem wired_soundly_sampleRun :
    (empty.run sampleRun).ids = ["a", "c", "b"]
    ∧ (empty.run sampleRun).wires = [sampleWire "c" "a", sampleWire "b" "c"]
    ∧ (∀ a, ¬TransGen (Feeds (empty.run sampleRun).wires) a a)
    ∧ ∃ n g', (empty.run sampleRun).removeNode "a" = .ok (n, g') ∧ n.id = "a"
      ∧ g'.wires = [sampleWire "b" "c"] := by
  have hids : (empty.run sampleRun).ids = ["a", "c", "b"] := by decide +kernel
  have hwires : (empty.run sampleRun).wires = [sampleWire "c" "a", sampleWire "b" "c"] := by
    decide +kernel
  obtain ⟨-, -, -, hacyclic, hremove, -⟩ := wired_soundly _ reachable_sampleRun
  refine ⟨hids, hwires, hacyclic, ?_⟩
  rcases hremove "a" with ⟨habsent, -⟩ | ⟨n, -, hn, hrun⟩
  · exact absurd (hids ▸ List.mem_cons_self) habsent
  · refine ⟨n, _, hrun, hn, ?_⟩
    show (empty.run sampleRun).wires.filter _ = _
    rw [hwires]
    decide

end VisualProgram.Graph
