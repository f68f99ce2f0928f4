import VisualProgram.Proofs.Block.RoundTrip
import VisualProgram.Proofs.Workspace.Reachable

/-!
# Workspaces restored from their state

The state of a workspace is its JSON.  Reading it gives the blocks back one by one (`ofRaw?_toJson`), and
adding them to an empty workspace succeeds because no id occurs twice (`ofBlocks_eq`), so every workspace
that a run leads to is restored from its state (`restored_from_state`).

The maps of fields hold each key once (`Proper`).  This is so of whatever is loaded, edits bring in such maps
only, and so it stays along every run (`proper_of_reachable`).
-/

namespace VisualProgram.Workspace
open Json Block
open Python (floats)

/-! ## maps of fields along a run -/

/-- the fields of every block hold each key once -/
def Proper (w : Workspace) : Prop := ∀ r ∈ w.records, (object r.2.2).Proper

instance : DecidablePred Proper :=
  fun w => inferInstanceAs (Decidable (∀ r ∈ w.records, (object r.2.2).Proper))

theorem proper_iff_blocks {w : Workspace} : w.Proper ↔ ∀ b ∈ w.blocks, b.Proper := by
  simp only [Proper, records, List.mem_flatMap, Block.Proper]
  constructor
  · exact fun h b hb r hr => h r ⟨b, hb, hr⟩
  · rintro h r ⟨b, hb, hr⟩
    exact h b hb r hr

theorem Proper.of_contents {w w' : Workspace} (h : w.Proper) (hc : w'.contents ≤ w.contents) :
    w'.Proper :=
  fun r hr => h r (Multiset.mem_coe.mp (Multiset.mem_of_le hc (Multiset.mem_coe.mpr hr)))

theorem setField_proper {w w' : Workspace} {id name : String} {value : Json} (hw : w.Proper)
    (hv : value.Proper) (h : w.setField id name value = .ok w') : w'.Proper := by
  obtain ⟨p, P, rfl, rfl⟩ := setField_ok h
  rw [Proper, Place.records_fill] at hw ⊢
  simp only [List.mem_append, or_imp, forall_and] at hw ⊢
  obtain ⟨⟨hbefore, hp⟩, hrest⟩ := hw
  refine ⟨⟨hbefore, ?_⟩, hrest⟩
  obtain ⟨hf, hparts⟩ := (Block.proper_iff p).mp hp
  exact (Block.proper_iff (p.setField name value)).mpr ⟨hf.put name hv, hparts⟩

theorem apply_proper {w w' : Workspace} {e : Edit} (hw : w.Sound) (hp : w.Proper)
    (h : e.apply w = .ok w') : w'.Proper := by
  cases e with
  | addBlock b ho hb =>
    obtain ⟨rfl, -, -⟩ := addBlock_ok h
    refine proper_iff_blocks.mpr fun x hx => ?_
    rcases List.mem_append.mp hx with hx | hx
    · exact proper_iff_blocks.mp hp x hx
    · rw [List.mem_singleton.mp hx]
      exact hb
  | setField id name value hv => exact setField_proper hp hv h
  | connectValue parent socket child => exact hp.of_contents (connectValue_contents hw.ordered h).1.le
  | connectStatement parent socket child =>
    exact hp.of_contents (connectStatement_contents hw.ordered h).1.le
  | connectNext parent child => exact hp.of_contents (connectNext_contents hw.ordered h).1.le
  | detach id => exact hp.of_contents (detach_contents hw.ordered h).1.le
  | delete id =>
    cases hd : w.delete id with
    | error err =>
      rw [Edit.apply, hd] at h
      cases h
    | ok result =>
      obtain ⟨b, rest⟩ := result
      rw [Edit.apply, hd] at h
      cases h
      exact hp.of_contents ((delete_contents hw.ordered hd).1 ▸ Multiset.le_add_left _ _)

theorem step_proper {w : Workspace} (hw : w.Sound) (hp : w.Proper) (e : Edit) : (w.step e).Proper := by
  unfold step
  split
  next w' h => exact apply_proper hw hp h
  next => exact hp

theorem run_proper {w : Workspace} (hw : w.Sound) (hp : w.Proper) (edits : List Edit) : (w.run edits).Proper := by
  induction edits generalizing w with
  | nil => exact hp
  | cons e edits ih => exact ih (step_sound e hw) (step_proper hw hp e)

theorem Start.proper {w : Workspace} (h : Start w) : w.Proper := by
  rcases h.cases with rfl | ⟨raw, hchains, -⟩
  · exact proper_iff_blocks.mpr (List.forall_mem_nil _)
  · exact proper_iff_blocks.mpr (forall_of_chains (fun _ _ => proper_of_ofRaw?) hchains)

theorem proper_of_reachable {w : Workspace} (h : w.Reachable) : w.Proper := by
  obtain ⟨start, edits, hs, rfl⟩ := h
  exact run_proper hs.sound hs.proper edits

/-! ## restoring -/

theorem chainsOfRaw?_toJson {w : Workspace} (hw : w.Sound) (hp : w.Proper) :
    chainsOfRaw? (Raw.ofJson w.toJson) = some w.blocks :=
  mapM_ofItems fun b hb => ofRaw?_toJson b (hw.ordered b hb) (proper_iff_blocks.mp hp b hb)

theorem ofChains_blocks {w : Workspace} (hw : w.ids.Nodup) : ofChains (some w.blocks) = .ok w := by
  rw [ofChains]
  rcases ofBlocks_eq w.blocks with ⟨hall, -⟩ | ⟨id, -, hrepeat⟩
  · rw [hall]
    rfl
  · exact absurd hw hrepeat.not_nodup

/-- a workspace that a run leads to is restored from its state: from the value, and from the text if the numbers
in it are denoted by their text -/
theorem restored_from_state (w : Workspace) (hw : w.Reachable) :
    ofJson w.toJson = .ok w
    ∧ ((∀ x ∈ floats w.toJson, ReadsBack x) → ofText w.toJson.pretty = .ok w) := by
  have hsound := sound_of_reachable hw
  have hchains := chainsOfRaw?_toJson hsound (proper_of_reachable hw)
  constructor
  · rw [ofJson_eq, hchains, ofChains_blocks hsound.distinct]
  · intro hnumbers
    rw [ofText, ofText?_pretty hnumbers, Option.bind_some, hchains, ofChains_blocks hsound.distinct]

/-- a loop around a sum, with numbers of both kinds, a text that needs escapes and a map in a field -/
def sampleState : List Edit :=
  [.addLeaf "loop" "repeat", .addLeaf "sum" "add", .addLeaf "x" "number", .addLeaf "y" "number",
    .addLeaf "end" "stop", .connectStatement "loop" "DO" "sum", .connectValue "sum" "B" "y",
    .connectValue "sum" "A" "x", .connectNext "loop" "end", .setField "x" "VALUE" (.ofFloat 0.1) (by decide),
    .setField "y" "VALUE" (.ofNat 12) (by decide),
    .setField "loop" "NOTE" (.string "a \"b\"\n\x01") (by decide),
    .setField "loop" "AT" (.object [("y", .array [.ofFloat (-2.5e-7), .null]), ("x", .bool true)]) (by decide)]

theorem restored_from_state_sampleState :
    (empty.run sampleState).ids = ["loop", "sum", "x", "y", "end"]
    ∧ ofJson (empty.run sampleState).toJson = .ok (empty.run sampleState)
    ∧ ofText (empty.run sampleState).toJson.pretty = .ok (empty.run sampleState) := by
  have h := restored_from_state (empty.run sampleState) ⟨empty, sampleState, .empty, rfl⟩
  exact ⟨by decide, h.1, h.2 (by decide)⟩

end VisualProgram.Workspace
