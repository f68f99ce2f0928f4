import VisualProgram.Proofs.Graph.Reachable
import VisualProgram.Proofs.Json.RoundTrip

/-!
# Documents and graphs read back

Three ways there and back:

* `ofText_toText`    a document from its text, if all it holds is `Legible`;
* `toGraph_ofGraph`  a graph from its document.  The nodes and wires are added again one by one, and each
                     is accepted because the graph up to there is part of a sound one;
* both in a row      a graph that a run leads to, through its document and the text of that.
-/

namespace VisualProgram
open Json

/-! ## records -/

theorem Position.ofRaw?_toJson {p : Position} (hx : ReadsBack p.x) (hy : ReadsBack p.y) :
    ofRaw? (Raw.ofJson p.toJson) = some p := by
  rw [toJson, ofFloat, ofFloat, Number.ofFloat?, Number.ofFloat?, dif_pos hx.1, dif_pos hy.1]
  rfl

/-- position and properties of a node can be read back from its text -/
def Node.Legible (n : Node) : Prop :=
  ReadsBack n.position.x ∧ ReadsBack n.position.y ∧ (object n.properties).Legible

instance : DecidablePred Node.Legible := fun n => inferInstanceAs
  (Decidable (ReadsBack n.position.x ∧ ReadsBack n.position.y ∧ (object n.properties).Legible))

theorem Node.ofRaw?_toJson {n : Node} (h : n.Legible) : ofRaw? (Raw.ofJson n.toJson) = some n := by
  obtain ⟨hx, hy, hproperties⟩ := h
  have hread : ofRaw? (Raw.ofJson n.toJson) = (do
      let position ← Position.ofRaw? (Raw.ofJson n.position.toJson)
      let properties ← (Raw.ofJson (.object n.properties)).members?
      some ⟨n.id, n.type, n.label, position, properties⟩) := rfl
  rw [hread, Position.ofRaw?_toJson hx hy, members?_ofJson, members?_of_proper hproperties.1]
  rfl

theorem Node.legible_toJson {n : Node} (h : n.Legible) : n.toJson.Legible := by
  obtain ⟨hx, hy, hproperties⟩ := h
  have hposition : n.position.toJson.Legible := by
    refine legible_object.mpr ⟨by simp [Assoc.keys], ?_⟩
    simp [legible_ofFloat hx, legible_ofFloat hy]
  refine legible_object.mpr ⟨by simp [Assoc.keys], ?_⟩
  simp [legible_string, hposition, hproperties]

theorem Meta.legible_toJson (m : Meta) : m.toJson.Legible := by
  refine legible_object.mpr ⟨by simp [Assoc.keys], ?_⟩
  simp [legible_string]

theorem Wire.legible_toJson (w : Wire) : w.toJson.Legible := by
  have hport : ∀ p : Port, p.toJson.Legible := fun p => by
    refine legible_object.mpr ⟨by simp [Assoc.keys], ?_⟩
    simp [legible_string]
  refine legible_object.mpr ⟨by simp [Assoc.keys], ?_⟩
  simp [legible_string, hport]

namespace Document

/-! ## documents and their text -/

/-- all that a document holds can be read back from its text -/
def Legible (d : Document) : Prop :=
  (∀ v ∈ d.devices, v.Legible) ∧ (∀ n ∈ d.nodes, n.Legible) ∧ ∀ v ∈ d.widgets, v.Legible

instance : DecidablePred Legible := fun d => inferInstanceAs
  (Decidable ((∀ v ∈ d.devices, v.Legible) ∧ (∀ n ∈ d.nodes, n.Legible) ∧ ∀ v ∈ d.widgets, v.Legible))

theorem legible_toJson {d : Document} (h : d.Legible) : d.toJson.Legible := by
  obtain ⟨hdevices, hnodes, hwidgets⟩ := h
  have hlogic : (logicToJson d.nodes d.wires).Legible := by
    refine legible_object.mpr ⟨by simp [Assoc.keys], ?_⟩
    simp only [List.forall_mem_cons, legible_array, List.forall_mem_map]
    exact ⟨fun n hn => Node.legible_toJson (hnodes n hn), fun w _ => w.legible_toJson, by simp⟩
  have hui : (object [("widgets", array d.widgets)]).Legible :=
    legible_object.mpr ⟨by simp [Assoc.keys], by simpa using legible_array.mpr hwidgets⟩
  refine legible_object.mpr ⟨by simp [Assoc.keys], ?_⟩
  simp only [List.forall_mem_cons]
  exact ⟨d.info.legible_toJson, legible_array.mpr hdevices, hlogic, hui, by simp⟩

theorem listOf?_toJson {α : Type} {read : Raw → Option α} {write : α → Json} {xs : List α}
    (h : ∀ x ∈ xs, read (Raw.ofJson (write x)) = some x) :
    listOf? read (Raw.ofJson (.array (xs.map write))) = some xs :=
  mapM_ofItems h

theorem listOf?_values {vs : List Json} (h : ∀ v ∈ vs, v.Legible) :
    listOf? Raw.toJson? (Raw.ofJson (.array vs)) = some vs := by
  have hlist : listOf? Raw.toJson? (Raw.ofJson (.array (vs.map id))) = some vs :=
    listOf?_toJson fun v hv => (toJson?_ofJson v).trans (congrArg some (rebuilt_of_proper v (h v hv).1))
  rwa [List.map_id] at hlist

theorem logicOfRaw?_toJson {nodes : List Node} (h : ∀ n ∈ nodes, n.Legible) (wires : List Wire) :
    logicOfRaw? (Raw.ofJson (logicToJson nodes wires)) = some (nodes, wires) := by
  have hread : logicOfRaw? (Raw.ofJson (logicToJson nodes wires)) = (do
      let nodes ← listOf? Node.ofRaw? (Raw.ofJson (.array (nodes.map Node.toJson)))
      let wires ← listOf? Wire.ofRaw? (Raw.ofJson (.array (wires.map Wire.toJson)))
      some (nodes, wires)) := rfl
  rw [hread, listOf?_toJson fun n hn => Node.ofRaw?_toJson (h n hn), listOf?_toJson fun w _ => rfl]
  rfl

theorem ofRaw?_toJson {d : Document} (h : d.Legible) : ofRaw? (Raw.ofJson d.toJson) = some d := by
  obtain ⟨hdevices, hnodes, hwidgets⟩ := h
  have hread : ofRaw? (Raw.ofJson d.toJson) = (do
      let devices ← listOf? Raw.toJson? (Raw.ofJson (.array d.devices))
      let logic ← logicOfRaw? (Raw.ofJson (logicToJson d.nodes d.wires))
      let widgets ← listOf? Raw.toJson? (Raw.ofJson (.array d.widgets))
      some ⟨d.info, devices, logic.1, logic.2, widgets⟩) := rfl
  rw [hread, listOf?_values hdevices, listOf?_values hwidgets, logicOfRaw?_toJson hnodes]
  rfl

theorem ofText_toText {d : Document} (h : d.Legible) : ofText d.toText = .ok d := by
  rw [ofText, toText, ofText?_of_legible (legible_toJson h)]
  show ofJson d.toJson = _
  have hsections : requiredSections.find? (fun name => (d.toJson.member? name).isNone) = none := rfl
  rw [ofJson, hsections, ofRaw?_toJson h]

/-! ## graphs and their documents -/

end Document

namespace Graph
open Relation

theorem foldlM_addNode {nodes : List Node} {g : Graph} (h : ((g.nodes ++ nodes).map Node.id).Nodup) :
    nodes.foldlM addNode g = .ok { g with nodes := g.nodes ++ nodes } := by
  induction nodes generalizing g with
  | nil =>
    rw [List.append_nil]
    rfl
  | cons n rest ih =>
    have hnew : n.id ∉ g.ids := by
      rw [List.map_append, List.nodup_append] at h
      exact fun hn => h.2.2 n.id hn n.id List.mem_cons_self rfl
    have hadd : g.addNode n = .ok { g with nodes := g.nodes ++ [n] } := by
      rw [addNode, if_neg (by rwa [isSome_node?])]
    have hrest := ih (g := { g with nodes := g.nodes ++ [n] }) (by simpa using h)
    rw [List.append_assoc] at hrest
    rw [List.foldlM_cons, hadd]
    exact hrest

theorem connect_ok {g : Graph} {w : Wire} (hs : w.source.node ∈ g.ids) (ht : w.target.node ∈ g.ids)
    (hnew : ∀ v ∈ g.wires, (v.source, v.target) ≠ (w.source, w.target))
    (hpath : ¬ReflTransGen (Feeds g.wires) w.target.node w.source.node) :
    g.connect w = .ok { g with wires := g.wires ++ [w] } := by
  rw [connect, if_neg, if_neg, if_neg]
  · rwa [reaches_iff]
  · simpa using hnew
  · rw [isNone_node?, isNone_node?]
    exact not_or.mpr ⟨not_not.mpr hs, not_not.mpr ht⟩

/-- each wire is accepted, since the wires up to it are some of those of a sound graph -/
theorem foldlM_connect {wires : List Wire} {g : Graph}
    (h : Sound { g with wires := g.wires ++ wires }) :
    wires.foldlM connect g = .ok { g with wires := g.wires ++ wires } := by
  induction wires generalizing g with
  | nil =>
    rw [List.append_nil]
    rfl
  | cons w rest ih =>
    have hw : w ∈ g.wires ++ w :: rest := List.mem_append_right _ List.mem_cons_self
    obtain ⟨hs, ht⟩ : w.source.node ∈ g.ids ∧ w.target.node ∈ g.ids := h.attached w hw
    have hnew : ∀ v ∈ g.wires, (v.source, v.target) ≠ (w.source, w.target) := fun v hv =>
      (List.pairwise_append.mp h.apart).2.2 v hv w List.mem_cons_self
    have hpath : ¬ReflTransGen (Feeds g.wires) w.target.node w.source.node := by
      intro hback
      -- the way back and the wire itself would be a cycle
      refine h.acyclic w.source.node (TransGen.head' ⟨w, hw, rfl, rfl⟩ ?_)
      exact ReflTransGen.mono (fun _ _ => Feeds.mono (List.subset_append_left _ _)) _ _ hback
    have hrest := ih (g := { g with wires := g.wires ++ [w] }) (by simpa using h)
    rw [List.append_assoc] at hrest
    rw [List.foldlM_cons, connect_ok hs ht hnew hpath]
    exact hrest

end Graph

namespace Document

theorem toGraph_ofGraph {g : Graph} (h : g.Sound) : (ofGraph g).toGraph = .ok g := by
  have hnodes : g.nodes.foldlM Graph.addNode (.withMeta g.info) = .ok ⟨g.info, g.nodes, []⟩ :=
    Graph.foldlM_addNode h.distinct
  have hwires : g.wires.foldlM Graph.connect ⟨g.info, g.nodes, []⟩ = .ok g :=
    Graph.foldlM_connect (g := ⟨g.info, g.nodes, []⟩) h
  have hload : (ofGraph g).toGraph
      = ((g.nodes.foldlM Graph.addNode (.withMeta g.info)) >>= fun nodesOnly =>
        g.wires.foldlM Graph.connect nodesOnly).mapError LoadError.invalid := rfl
  rw [hload, hnodes]
  show (g.wires.foldlM Graph.connect ⟨g.info, g.nodes, []⟩).mapError LoadError.invalid = _
  rw [hwires]
  rfl

/-- a document is read back from its text, devices and widgets included, if all it holds can be.  A graph
that a run leads to is what its document describes, and so it survives the text of its document -/
theorem restored_from_document :
    (∀ d : Document, d.Legible → ofText d.toText = .ok d)
    ∧ ∀ g : Graph, g.Reachable →
      (ofGraph g).toGraph = .ok g
      ∧ ((ofGraph g).Legible → (ofText (ofGraph g).toText >>= toGraph) = .ok g) := by
  refine ⟨fun d hd => ofText_toText hd, fun g hg => ?_⟩
  have hgraph := toGraph_ofGraph (Graph.sound_of_reachable hg)
  refine ⟨hgraph, fun hd => ?_⟩
  rw [ofText_toText hd]
  exact hgraph

/-- two nodes off the origin and a wire, a device and a widget with values of every kind -/
def sampleDocument : Document where
  info := ⟨"Bench \"A\"", "1.2.0", "0.1.0", "line\nline"⟩
  devices := [.object [("id", .string "daq"), ("rate", .ofFloat 1e21), ("on", .bool true)]]
  nodes := [⟨"a", "timer", "Tick", ⟨10.5, -3⟩, [("ms", .ofNat 100), ("gain", .ofFloat 0.1)]⟩,
    ⟨"b", "csv", "", .origin, []⟩]
  wires := [Graph.sampleWire "a" "b"]
  widgets := [.array [.null, .object []], .string "\x1f\\"]

theorem restored_from_document_sampleDocument :
    ofText sampleDocument.toText = .ok sampleDocument
    ∧ (Graph.empty.run Graph.sampleRun).wires = [Graph.sampleWire "c" "a", Graph.sampleWire "b" "c"]
    ∧ (ofText (ofGraph (Graph.empty.run Graph.sampleRun)).toText >>= toGraph)
      = .ok (Graph.empty.run Graph.sampleRun) := by
  obtain ⟨hdocument, hgraph⟩ := restored_from_document
  exact ⟨hdocument sampleDocument (by decide), by decide +kernel,
    (hgraph _ Graph.reachable_sampleRun).2 (by decide +kernel)⟩

end Document
end VisualProgram
