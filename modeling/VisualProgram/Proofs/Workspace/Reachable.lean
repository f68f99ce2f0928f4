import VisualProgram.Proofs.Block.RoundTrip
import VisualProgram.Proofs.Workspace.Edits

/-!
# Whole runs of edits

An `Edit` is one call of the editing interface; a run takes edits one after another and goes on with
the workspace as it was where an edit is refused.  A workspace is `Reachable` if a run leads to it
from the empty workspace or from one that was loaded.  Both ways to load one lead to the same workspaces
(`ofJson_eq`).

`Sound` is the invariant: sockets in order and no id twice.  Each edit keeps it (`step_sound`), so
every reachable workspace has it (`sound_of_reachable`), and with it

* `distinct_ids`        no id occurs twice, and a list of chains is loaded exactly if this holds of it;
* `conserved_contents`  edits lose, double and alter no block.
-/

namespace VisualProgram.Workspace
open Block

/-! ## runs -/

/-- one call of the editing interface; what it brings in is a tree with its sockets in order and maps that hold
each key once, as every tree and every value does -/
inductive Edit where
  | addBlock (b : Block) (ordered : b.Ordered) (proper : b.Proper)
  | setField (id name : String) (value : Json) (proper : value.Proper)
  | connectValue (parent socket child : String)
  | connectStatement (parent socket child : String)
  | connectNext (parent child : String)
  | detach (id : String)
  | delete (id : String)

def Edit.apply (w : Workspace) : Edit → Except EditError Workspace
  | .addBlock b _ _ => w.addBlock b
  | .setField i name value _ => w.setField i name value
  | .connectValue parent socket child => w.connectValue parent socket child
  | .connectStatement parent socket child => w.connectStatement parent socket child
  | .connectNext parent child => w.connectNext parent child
  | .detach i => w.detach i
  | .delete i => (w.delete i).map Prod.snd

/-- the workspace after an edit, which is the same if the edit is refused -/
def step (w : Workspace) (e : Edit) : Workspace :=
  match e.apply w with
  | .ok w' => w'
  | .error _ => w

def run (w : Workspace) (edits : List Edit) : Workspace := edits.foldl step w

@[simp] theorem run_cons (w : Workspace) (e : Edit) (edits : List Edit) :
    w.run (e :: edits) = (w.step e).run edits := rfl

/-- where a run may start -/
inductive Start : Workspace → Prop where
  | empty : Start .empty
  | text {w : Workspace} (text : String) (h : ofText text = .ok w) : Start w
  | value {w : Workspace} (v : Json) (h : ofJson v = .ok w) : Start w

def Reachable (w : Workspace) : Prop :=
  ∃ (start : Workspace) (edits : List Edit), Start start ∧ start.run edits = w

/-! ## the invariant -/

structure Sound (w : Workspace) : Prop where
  ordered : w.Ordered
  distinct : w.ids.Nodup

theorem sound_empty : empty.Sound := ⟨by simp [Ordered, empty], by simp [ids, empty]⟩

/-- the ids of a workspace of no more contents are distinct if those of the other one are -/
theorem ids_nodup_of_le {w w' : Workspace} (h : w'.contents ≤ w.contents) (hw : w.ids.Nodup) :
    w'.ids.Nodup :=
  (ids_nodup_iff w').mpr (Multiset.nodup_of_le (Multiset.map_le_map h) ((ids_nodup_iff w).mp hw))

theorem Sound.of_contents {w w' : Workspace} (hw : w.Sound)
    (h : w'.contents = w.contents ∧ w'.Ordered) : w'.Sound :=
  ⟨h.2, ids_nodup_of_le (le_of_eq h.1) hw.distinct⟩

theorem addBlock_ids {w w' : Workspace} {b : Block} (hw : w.ids.Nodup) (h : w.addBlock b = .ok w') :
    w'.ids.Nodup := by
  obtain ⟨rfl, hnd, hnew⟩ := addBlock_ok h
  rw [ids_append, ids_singleton, List.nodup_append]
  refine ⟨hw, hnd, ?_⟩
  rintro x hx y hy rfl
  exact hnew x hy hx

theorem addBlock_sound {w w' : Workspace} {b : Block} (hw : w.Sound) (hb : b.Ordered)
    (h : w.addBlock b = .ok w') : w'.Sound := by
  refine ⟨?_, addBlock_ids hw.distinct h⟩
  obtain ⟨rfl, -, -⟩ := addBlock_ok h
  intro x hx
  rcases List.mem_append.mp hx with hx | hx
  · exact hw.ordered x hx
  · rw [List.mem_singleton.mp hx]
    exact hb

theorem setField_sound {w w' : Workspace} {id name : String} {value : Json} (hw : w.Sound)
    (h : w.setField id name value = .ok w') : w'.Sound := by
  have hids := setField_ids h
  obtain ⟨p, P, rfl, rfl⟩ := setField_ok h
  have hp := Place.ordered_of_fill hw.ordered
  exact ⟨Place.ordered_fill hw.ordered hp.setField, by rw [hids]; exact hw.distinct⟩

theorem delete_sound {w w' : Workspace} {id : String} {b : Block} (hw : w.Sound)
    (h : w.delete id = .ok (b, w')) : w'.Sound := by
  obtain ⟨hc, ho⟩ := delete_contents hw.ordered h
  exact ⟨ho, ids_nodup_of_le (hc ▸ Multiset.le_add_left _ _) hw.distinct⟩

theorem apply_sound {w w' : Workspace} {e : Edit} (hw : w.Sound) (h : e.apply w = .ok w') :
    w'.Sound := by
  cases e with
  | addBlock b hb hp => exact addBlock_sound hw hb h
  | setField id name value hp => exact setField_sound hw h
  | connectValue parent socket child => exact hw.of_contents (connectValue_contents hw.ordered h)
  | connectStatement parent socket child =>
    exact hw.of_contents (connectStatement_contents hw.ordered h)
  | connectNext parent child => exact hw.of_contents (connectNext_contents hw.ordered h)
  | detach id => exact hw.of_contents (detach_contents hw.ordered h)
  | delete id =>
    cases hd : w.delete id with
    | error err =>
      rw [Edit.apply, hd] at h
      cases h
    | ok result =>
      obtain ⟨b, rest⟩ := result
      rw [Edit.apply, hd] at h
      cases h
      exact delete_sound hw hd

theorem step_sound {w : Workspace} (e : Edit) (hw : w.Sound) : (w.step e).Sound := by
  unfold step
  split
  next w' h => exact apply_sound hw h
  next => exact hw

theorem run_sound {w : Workspace} (edits : List Edit) (hw : w.Sound) : (w.run edits).Sound := by
  induction edits generalizing w with
  | nil => exact hw
  | cons e edits ih =>
    rw [run_cons]
    exact ih (step_sound e hw)

/-! ## loading -/

/-- an id is the first that repeats an earlier one -/
def FirstRepeat (ids : List String) (id : String) : Prop :=
  ∃ before after, ids = before ++ id :: after ∧ before.Nodup ∧ id ∈ before

theorem FirstRepeat.not_nodup {ids : List String} {id : String} (h : FirstRepeat ids id) :
    ¬ids.Nodup := by
  obtain ⟨before, after, rfl, -, hm⟩ := h
  intro hn
  exact (List.nodup_append.mp hn).2.2 id hm id List.mem_cons_self rfl

theorem FirstRepeat.append {ids : List String} {id : String} (h : FirstRepeat ids id)
    (more : List String) : FirstRepeat (ids ++ more) id := by
  obtain ⟨before, after, rfl, hn, hm⟩ := h
  exact ⟨before, after ++ more, by simp, hn, hm⟩

theorem addBlock_error {w : Workspace} {b : Block} {e : EditError} (hw : w.ids.Nodup)
    (h : w.addBlock b = .error e) :
    ∃ id, e = .duplicateBlock id ∧ FirstRepeat (w.ids ++ b.ids) id := by
  unfold addBlock at h
  split at h
  next id hr =>
    cases h
    obtain ⟨before, after, hids, hnone, hm⟩ := repeatedId?_eq_some hr
    obtain ⟨hnd, hnew⟩ := (repeatedId?_eq_none_iff w [] before).mp hnone
    refine ⟨id, rfl, w.ids ++ before, after, by rw [hids, List.append_assoc], ?_, ?_⟩
    · rw [List.nodup_append]
      refine ⟨hw, hnd, ?_⟩
      rintro x hx y hy rfl
      exact (hnew x hy).2 hx
    · rcases hm with hm | hm | hm
      · exact List.mem_append_right _ hm
      · cases hm
      · exact List.mem_append_left _ hm
  next => cases h

/-- adding chains one by one gives all of them if no id repeats, and reports the first that does -/
theorem foldlM_addBlock {w : Workspace} (hw : w.ids.Nodup) (blocks : List Block) :
    (blocks.foldlM addBlock w = .ok ⟨w.blocks ++ blocks⟩ ∧ (ids ⟨w.blocks ++ blocks⟩).Nodup)
    ∨ ∃ id, blocks.foldlM addBlock w = .error (.duplicateBlock id)
      ∧ FirstRepeat (ids ⟨w.blocks ++ blocks⟩) id := by
  induction blocks generalizing w with
  | nil =>
    rw [List.append_nil]
    exact Or.inl ⟨rfl, hw⟩
  | cons b rest ih =>
    rw [List.foldlM_cons]
    cases ha : w.addBlock b with
    | error e =>
      obtain ⟨id, rfl, hid⟩ := addBlock_error hw ha
      refine Or.inr ⟨id, rfl, ?_⟩
      have hmore := hid.append (ids ⟨rest⟩)
      rwa [← ids_singleton, ← ids_append, ← ids_append, List.append_assoc] at hmore
    | ok w' =>
      have hrest := ih (addBlock_ids hw ha)
      obtain ⟨rfl, -, -⟩ := addBlock_ok ha
      rw [List.append_assoc] at hrest
      exact hrest

theorem ofBlocks_eq (blocks : List Block) :
    (ofBlocks blocks = .ok ⟨blocks⟩ ∧ (blocks.flatMap Block.ids).Nodup)
    ∨ ∃ id, ofBlocks blocks = .error (.duplicateBlock id)
      ∧ FirstRepeat (blocks.flatMap Block.ids) id :=
  foldlM_addBlock sound_empty.distinct blocks

/-! ## loading -/

theorem chainListOfJson?_eq (v : Json) : chainListOfJson? v = chainListOfRaw? (Json.Raw.ofJson v) := by
  cases v with
  | array items =>
    show items.mapM Block.ofJson? = (Json.Raw.ofItems items).mapM Block.ofRaw?
    induction items with
    | nil => rfl
    | cons v rest ih => rw [List.mapM_cons, Json.Raw.ofItems, List.mapM_cons, Block.ofJson?_eq, ih]
  | _ => rfl

/-- the chains that the members of a state list one after the other are found by name as well -/
theorem foldlM_addMember? (members : List (String × Json)) (found : Option (List Block)) :
    members.foldlM addMember? found
      = (Json.knownMembers? ["blocks"] (Json.Raw.ofMembers members)).bind
        (Json.pick? found "blocks" chainListOfRaw?) := by
  induction members generalizing found with
  | nil => rfl
  | cons member rest ih =>
    obtain ⟨name, v⟩ := member
    rw [List.foldlM_cons, Json.Raw.ofMembers, Json.knownMembers?]
    simp only [bind, ih, Option.bind_some, Option.bind_assoc, addMember?, List.mem_singleton]
    by_cases hname : name = "blocks"
    · subst hname
      simp only [if_true]
      rw [Option.bind_comm]
      congr 1
      funext known
      rw [Json.fill?_bind_pick? (chainListOfJson?_eq v).symm]
      split <;> rfl
    · simp only [if_neg hname, Option.bind_some]

/-- a state is read in the same way from a value and from the text of it -/
theorem chainsOfJson?_eq (v : Json) : chainsOfJson? v = chainsOfRaw? (Json.Raw.ofJson v) := by
  cases v with
  | object members =>
    show (members.foldlM addMember? none).map (·.getD []) = _
    rw [foldlM_addMember?, Option.map_bind]
    refine congrArg _ ?_
    funext known
    exact Json.map_pick? []
  | array items =>
    rcases items with _ | ⟨v, _ | _⟩
    · rfl
    · exact chainListOfJson?_eq v
    · rfl
  | _ => rfl

/-- a state is the same workspace, or refused for the same cause, as a value and as what a text says -/
theorem ofJson_eq (v : Json) : ofJson v = ofChains (chainsOfRaw? (Json.Raw.ofJson v)) := by
  rw [ofJson, chainsOfJson?_eq]

theorem forall_of_mapM {P : Block → Prop} (hP : ∀ raw b, Block.ofRaw? raw = some b → P b)
    {items : List Json.Raw} {blocks : List Block} (h : items.mapM Block.ofRaw? = some blocks) :
    ∀ b ∈ blocks, P b := by
  induction items generalizing blocks with
  | nil =>
    cases h
    exact List.forall_mem_nil P
  | cons raw rest ih =>
    rw [List.mapM_cons] at h
    obtain ⟨b, hb, h⟩ := Option.bind_eq_some_iff.mp h
    obtain ⟨bs, hbs, h⟩ := Option.bind_eq_some_iff.mp h
    cases h
    exact List.forall_mem_cons.mpr ⟨hP raw b hb, ih hbs⟩

theorem forall_of_chains {P : Block → Prop} (hP : ∀ raw b, Block.ofRaw? raw = some b → P b) {raw : Json.Raw}
    {blocks : List Block} (h : chainsOfRaw? raw = some blocks) : ∀ b ∈ blocks, P b := by
  obtain ⟨fields, -, hf⟩ := Option.bind_eq_some_iff.mp h
  unfold Json.optional at hf
  split at hf
  next =>
    cases hf
    exact List.forall_mem_nil P
  next r _ =>
    obtain ⟨items, -, hi⟩ := Option.bind_eq_some_iff.mp hf
    exact forall_of_mapM hP hi

/-- a workspace that is loaded consists of the chains that were read, and no id occurs twice in it -/
theorem ofChains_ok {chains : Option (List Block)} {w : Workspace} (h : ofChains chains = .ok w) :
    chains = some w.blocks ∧ w.ids.Nodup := by
  cases chains with
  | none => cases h
  | some blocks =>
    rw [ofChains] at h
    rcases ofBlocks_eq blocks with ⟨hl, hn⟩ | ⟨id, hl, -⟩
    · rw [hl] at h
      cases h
      exact ⟨rfl, hn⟩
    · rw [hl] at h
      cases h

/-- a start is empty or was read -/
theorem Start.cases {w : Workspace} (h : Start w) :
    w = .empty ∨ ∃ raw, chainsOfRaw? raw = some w.blocks ∧ w.ids.Nodup := by
  cases h with
  | empty => exact Or.inl rfl
  | text text h =>
    obtain ⟨hchains, hids⟩ := ofChains_ok h
    obtain ⟨raw, -, hraw⟩ := Option.bind_eq_some_iff.mp hchains
    exact Or.inr ⟨raw, hraw, hids⟩
  | value v h =>
    rw [ofJson_eq] at h
    exact Or.inr ⟨_, ofChains_ok h⟩

theorem Start.sound {w : Workspace} (h : Start w) : w.Sound := by
  rcases h.cases with rfl | ⟨raw, hchains, hids⟩
  · exact sound_empty
  · exact ⟨forall_of_chains (fun _ _ => ordered_of_ofRaw?) hchains, hids⟩

theorem sound_of_reachable {w : Workspace} (h : w.Reachable) : w.Sound := by
  obtain ⟨start, edits, hs, rfl⟩ := h
  exact run_sound edits hs.sound

/-! ## along every run -/

theorem ordered_leaf (id tag : String) : (leaf id tag).Ordered := by
  rw [ordered_iff]
  simp [leaf, Tidy, Assoc.increasing_nil, orderedSockets_nil, orderedNext_none]

theorem proper_leaf (id tag : String) : (leaf id tag).Proper := by
  rw [Block.proper_iff]
  exact ⟨Json.proper_empty, properSockets_nil, properSockets_nil, properNext_none⟩

/-- a new block with nothing in it -/
def Edit.addLeaf (id tag : String) : Edit := .addBlock (leaf id tag) (ordered_leaf id tag) (proper_leaf id tag)

/-- a loop over a chain of two, with a socket filled twice and an id refused -/
def sampleRun : List Edit :=
  [.addLeaf "loop" "repeat", .addLeaf "a" "print", .addLeaf "b" "print", .addLeaf "x" "number",
    .addLeaf "y" "number", .addLeaf "a" "text", .connectNext "a" "b", .connectStatement "loop" "DO" "a",
    .connectValue "a" "VALUE" "x", .connectValue "a" "VALUE" "y", .setField "x" "VALUE" (.bool true) (by decide)]

theorem reachable_sampleRun : (empty.run sampleRun).Reachable := ⟨empty, sampleRun, .empty, rfl⟩

/-- no id occurs twice in a workspace that a run leads to.  A list of chains is loaded exactly if no
id occurs twice in it, and else the first id that repeats an earlier one is reported -/
theorem distinct_ids :
    (∀ w : Workspace, w.Reachable → w.ids.Nodup)
    ∧ ∀ blocks : List Block,
      ((∃ w, ofBlocks blocks = .ok w) ↔ (blocks.flatMap Block.ids).Nodup)
      ∧ (¬(blocks.flatMap Block.ids).Nodup →
        ∃ id, FirstRepeat (blocks.flatMap Block.ids) id
          ∧ ofBlocks blocks = .error (.duplicateBlock id)) := by
  refine ⟨fun w hw => (sound_of_reachable hw).distinct, fun blocks => ?_⟩
  rcases ofBlocks_eq blocks with ⟨hl, hn⟩ | ⟨id, hl, hr⟩
  · exact ⟨⟨fun _ => hn, fun _ => ⟨_, hl⟩⟩, fun hnot => absurd hn hnot⟩
  · refine ⟨⟨?_, fun hn => absurd hn hr.not_nodup⟩, fun _ => ⟨id, hr, hl⟩⟩
    rintro ⟨w, hw⟩
    rw [hl] at hw
    cases hw

theorem distinct_ids_sampleRun :
    (empty.run sampleRun).ids = ["loop", "a", "y", "b", "x"] ∧ (empty.run sampleRun).ids.Nodup
    ∧ ∃ id, FirstRepeat ["a", "b", "a", "b"] id
      ∧ ofBlocks [(leaf "a" "").append (leaf "b" ""), leaf "a" "", leaf "b" ""]
        = .error (.duplicateBlock id) :=
  ⟨by decide, distinct_ids.1 _ reachable_sampleRun,
    (distinct_ids.2 [(leaf "a" "").append (leaf "b" ""), leaf "a" "", leaf "b" ""]).2 (by decide)⟩

/-- an edit of a workspace that a run leads to moves blocks and loses, doubles and alters none; what
a deletion takes away is the block with all in its sockets, and the rest of its chain stays -/
theorem conserved_contents (w : Workspace) (hw : w.Reachable) :
    (∀ parent socket child w', w.connectValue parent socket child = .ok w' →
      w'.contents = w.contents)
    ∧ (∀ parent socket child w', w.connectStatement parent socket child = .ok w' →
      w'.contents = w.contents)
    ∧ (∀ parent child w', w.connectNext parent child = .ok w' → w'.contents = w.contents)
    ∧ (∀ id w', w.detach id = .ok w' → w'.contents = w.contents)
    ∧ (∀ id b w', w.delete id = .ok (b, w') →
      b.id = id ∧ b.next = none ∧ w.contents = b.contents + w'.contents)
    ∧ ∀ b w', w.addBlock b = .ok w' → w'.contents = w.contents + b.contents := by
  have ho := (sound_of_reachable hw).ordered
  refine ⟨fun _ _ _ _ h => (connectValue_contents ho h).1,
    fun _ _ _ _ h => (connectStatement_contents ho h).1,
    fun _ _ _ h => (connectNext_contents ho h).1, fun _ _ h => (detach_contents ho h).1,
    fun id b w' h => ?_, fun _ _ h => addBlock_contents h⟩
  have hc := (delete_contents ho h).1
  obtain ⟨slot, taken, rest, hl, ht, rfl, -⟩ := delete_ok h
  have hid : taken.id = id := take?_locate ho (sound_of_reachable hw).distinct hl ht
  exact ⟨hid, rfl, hc⟩

theorem conserved_contents_sampleRun :
    ∃ b w', (empty.run sampleRun).delete "a" = .ok (b, w') ∧ b.ids = ["a", "y"]
      ∧ w'.ids = ["loop", "b", "x"] ∧ (empty.run sampleRun).contents = b.contents + w'.contents := by
  obtain ⟨b, w', h, hb, hw'⟩ : ∃ b w', (empty.run sampleRun).delete "a" = .ok (b, w')
      ∧ b.ids = ["a", "y"] ∧ w'.ids = ["loop", "b", "x"] := ⟨_, _, rfl, by decide, by decide⟩
  obtain ⟨-, -, -, -, hdelete, -⟩ := conserved_contents _ reachable_sampleRun
  exact ⟨b, w', h, hb, hw', (hdelete "a" b w' h).2.2⟩

end VisualProgram.Workspace
