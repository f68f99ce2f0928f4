import VisualProgram.Workspace.Editor
import VisualProgram.Proofs.Block.Searching
import VisualProgram.Proofs.Editing
import VisualProgram.Proofs.Workspace.Reachable

/-!
# Refused edits leave no trace

An edit in place could stop after it has taken a block out of its slot, and the block would be gone.
It never does: on every workspace that a run leads to, an edit is refused before its first change or
not at all (`refused_exactly`), and the cause is told by the ids of the workspace alone
(`attachRefusal?`, `missing?`).

Three facts make the late refusals dead branches:

* `exists_locate?`     an id that occurs has a slot, so `find?` and `locate?` agree;
* `exists_take?`       the slot of an id is never empty, and what comes out of it is the block that
                       `find?` finds, since no id occurs twice;
* `mem_ids_of_take?`   a parent outside of the subtree that is cut off is still there afterwards.

`run_inPlace` puts both kinds of editing together: along every run an editor holds the workspace that
the edits by value give.
-/

namespace VisualProgram

namespace Workspace
open Block

/-! ## the blocks of a workspace -/

def walk (w : Workspace) : List Block := w.blocks.flatMap Block.walk

theorem ids_eq_walk (w : Workspace) : w.ids = w.walk.map Block.id := by
  rw [ids, walk, List.map_flatMap]
  rfl

theorem mem_walk_place {P : Place} {q x : Block} (h : x ∈ q.walk) : x ∈ (P.fill q).walk := by
  rw [walk, List.mem_flatMap]
  exact ⟨P.context.fill q, by simp [Place.fill], mem_walk_fill P.context h⟩

theorem mem_walk_of_find? {w : Workspace} {id : String} {b : Block} (h : w.find? id = some b) :
    b ∈ w.walk ∧ b.id = id := by
  obtain ⟨hid, P, rfl, -⟩ := exists_place h
  exact ⟨mem_walk_place (self_mem_walk b), hid⟩

/-- without repeated ids a block is told by its id -/
theorem eq_of_id_eq {w : Workspace} (hw : w.ids.Nodup) {b c : Block} (hb : b ∈ w.walk)
    (hc : c ∈ w.walk) (h : b.id = c.id) : b = c := by
  rw [ids_eq_walk] at hw
  exact List.inj_on_of_nodup_map hw hb hc h

/-! ## slots -/

theorem exists_locate? {w : Workspace} {id : String} (h : id ∈ w.ids) :
    ∃ slot, w.locate? id = some slot := by
  obtain ⟨b, hb, hid⟩ := List.mem_flatMap.mp h
  rw [← recordIds_records, mem_recordIds_records] at hid
  unfold locate?
  split
  next index _ => exact ⟨.top index, rfl⟩
  next htop =>
    -- the id is not at the top level, so it is below the root of its tree
    have hroot : b.id ≠ id := by simpa using List.findIdx?_eq_none_iff.mp htop b hb
    cases hs : w.blocks.findSome? (Block.slotOf? id) with
    | some slot => exact ⟨slot, rfl⟩
    | none =>
      have hnone := List.findSome?_eq_none_iff.mp hs b hb
      exact absurd (hid.resolve_left hroot) ((slotOf?_eq_none_iff id b).mp hnone)

theorem mem_ids_of_locate? {w : Workspace} {id : String} {slot : Slot}
    (h : w.locate? id = some slot) : id ∈ w.ids := by
  rw [ids_eq_walk]
  rcases locate?_eq_some h with ⟨index, b, -, hb, rfl⟩ | ⟨P, parent, child, rfl, hh, rfl⟩
  · exact List.mem_map_of_mem
      (List.mem_flatMap.mpr ⟨b, List.mem_of_getElem? hb, self_mem_walk b⟩)
  · exact List.mem_map_of_mem (mem_walk_place (mem_walk_of_holds hh))

theorem locate?_eq_none {w : Workspace} {id : String} (h : id ∉ w.ids) : w.locate? id = none := by
  cases hl : w.locate? id with
  | none => rfl
  | some slot => exact absurd (mem_ids_of_locate? hl) h

/-- a child of the only block of an id can be taken out of it -/
theorem takeFrom?_fill {P : Place} {parent b : Block} {child : Block → Option Block}
    {without : Block → Block} (hids : (P.fill parent).ids.Nodup) (hb : child parent = some b) :
    (P.fill parent).takeFrom? parent.id child without = some (b, P.fill (without parent)) := by
  have hav := Place.avoids_of_nodup hids
  unfold takeFrom?
  rw [Place.find?_fill P parent hav, Option.bind_eq_bind, Option.bind_some, hb, Option.bind_eq_bind,
    Option.bind_some, Place.update?_fill P without parent hav]
  rfl

theorem exists_take? {w : Workspace} {id : String} {slot : Slot} (hw : w.Sound)
    (h : w.locate? id = some slot) :
    ∃ b rest, w.take? slot = some (b, rest) ∧ b ∈ w.walk ∧ b.id = id := by
  rcases locate?_eq_some h with ⟨index, b, rfl, hb, hid⟩ | ⟨P, parent, child, rfl, hh, hid⟩
  · refine ⟨b, ⟨w.blocks.eraseIdx index⟩, ?_, ?_, hid⟩
    · rw [take?, hb]
      rfl
    · exact List.mem_flatMap.mpr ⟨b, List.mem_of_getElem? hb, self_mem_walk b⟩
  · have hmem : child ∈ (P.fill parent).walk := mem_walk_place (mem_walk_of_holds hh)
    obtain ⟨⟨hti, hts⟩, -⟩ := (ordered_iff parent).mp (Place.ordered_of_fill hw.ordered)
    suffices hs : ∃ rest, (P.fill parent).take? slot = some (child, rest) by
      obtain ⟨rest, hrest⟩ := hs
      exact ⟨child, rest, hrest, hmem, hid⟩
    cases slot with
    | top index => exact hh.elim
    | input owner socket =>
      obtain ⟨rfl, hm⟩ := hh
      exact ⟨_, takeFrom?_fill hw.distinct (Assoc.get?_of_mem hti hm)⟩
    | statement owner socket =>
      obtain ⟨rfl, hm⟩ := hh
      exact ⟨_, takeFrom?_fill hw.distinct (Assoc.get?_of_mem hts hm)⟩
    | after owner =>
      obtain ⟨rfl, hn⟩ := hh
      exact ⟨_, takeFrom?_fill hw.distinct hn⟩

theorem mem_ids_iff_contents (w : Workspace) (id : String) :
    id ∈ w.ids ↔ id ∈ w.contents.map Prod.fst := by
  rw [ids_eq_recordIds, contents, Multiset.map_coe, Multiset.mem_coe]
  rfl

/-- an id outside of the subtree that is taken out stays -/
theorem mem_ids_of_take? {w rest : Workspace} {slot : Slot} {b : Block} {id : String}
    (hw : w.Ordered) (h : w.take? slot = some (b, rest)) (hid : id ∈ w.ids) (hb : id ∉ b.ids) :
    id ∈ rest.ids := by
  rw [mem_ids_iff_contents, (take?_contents hw h).1, Multiset.map_add, Multiset.mem_add] at hid
  rcases hid with hid | hid
  · rw [ids_eq_records] at hb
    exact absurd hid hb
  · exact (mem_ids_iff_contents rest id).mpr hid

/-! ## causes -/

/-- a block of the first id has the second one in its subtree: it is the block's own, or occurs in its
sockets or after it in its chain -/
def Owns (w : Workspace) (upper lower : String) : Prop :=
  ∃ b ∈ w.walk, b.id = upper ∧ lower ∈ b.ids

instance (w : Workspace) (upper lower : String) : Decidable (w.Owns upper lower) :=
  inferInstanceAs (Decidable (∃ b ∈ w.walk, b.id = upper ∧ lower ∈ b.ids))

/-- the cause for which a child may not hang under a parent -/
def attachRefusal? (w : Workspace) (parent child : String) : Option EditError :=
  if parent ∉ w.ids then some (.missingBlock parent)
  else if child ∉ w.ids then some (.missingBlock child)
  else if w.Owns child parent then some (.blockCycle parent child)
  else none

/-- the cause for which a block cannot be changed -/
def missing? (w : Workspace) (id : String) : Option EditError :=
  if id ∈ w.ids then none else some (.missingBlock id)

theorem owns_iff {w : Workspace} (hw : w.ids.Nodup) {upper lower : String} {b : Block}
    (hb : b ∈ w.walk) (hid : b.id = upper) : w.Owns upper lower ↔ lower ∈ b.ids := by
  constructor
  · rintro ⟨c, hc, hcid, hlower⟩
    rw [eq_of_id_eq hw hb hc (hid.trans hcid.symm)]
    exact hlower
  · intro hlower
    exact ⟨b, hb, hid, hlower⟩

/-! ## what the edits answer -/

namespace Editor
open Editing
variable {β : Type} {w w' : Workspace}

theorem run_takeAt (slot : Slot) (w : Workspace) :
    (takeAt slot).run w = match w.take? slot with
      | some (b, rest) => .ok (some b) rest
      | none => .ok none w := by
  show (match w.take? slot with
    | some (b, rest) => (do set rest; pure (some b) : Editing Workspace (Option Block))
    | none => pure none).run w = _
  split <;> rfl

theorem run_takeForAttach (parent child : String) (w : Workspace) :
    (takeForAttach parent child).run w =
      if w.contains parent then
        match w.find? child with
        | none => .error (.missingBlock child) w
        | some c =>
          if c.contains parent then .error (.blockCycle parent child) w
          else match (w.locate? child).bind w.take? with
            | some (b, rest) => .ok b rest
            | none => .error (.missingBlock child) w
      else .error (.missingBlock parent) w := by
  unfold takeForAttach
  rw [run_bind_ok (run_get w)]
  split
  next =>
    cases hc : w.find? child with
    | none => rfl
    | some c =>
      rw [run_bind_ok (run_found_some _ c w)]
      dsimp only
      split
      next => rfl
      next =>
        cases hl : w.locate? child with
        | none => rfl
        | some slot =>
          rw [run_bind_ok (run_found_some _ slot w)]
          cases ht : w.take? slot with
          | none =>
            have hrun := run_takeAt slot w
            rw [ht] at hrun
            rw [run_bind_ok hrun, Option.bind_some, ht]
            rfl
          | some taken =>
            have hrun := run_takeAt slot w
            rw [ht] at hrun
            rw [run_bind_ok hrun, Option.bind_some, ht]
            rfl
  next => rfl

theorem run_changeParent (parent : String) (change : Block → Block) (w : Workspace) :
    (changeParent parent change).run w = match w.find? parent, w.update? parent change with
      | some p, some changed => .ok p changed
      | _, _ => .error (.missingBlock parent) w := by
  show (match w.find? parent, w.update? parent change with
    | some p, some changed => (do set changed; pure p : Editing Workspace Block)
    | _, _ => throw (EditError.missingBlock parent)).run w = _
  split <;> rfl

/-! ## refusals come first -/

theorem answers_takeForAttach (hw : w.Sound) (parent child : String) :
    Answers (takeForAttach parent child) w (w.attachRefusal? parent child) := by
  have hrun := run_takeForAttach parent child w
  unfold attachRefusal?
  by_cases hp : parent ∈ w.ids
  · rw [if_pos ((contains_iff w parent).mpr hp)] at hrun
    rw [if_neg (not_not.mpr hp)]
    cases hf : w.find? child with
    | none =>
      rw [hf] at hrun
      rw [if_pos ((find?_eq_none_iff w child).mp hf)]
      exact hrun
    | some c =>
      obtain ⟨hcw, hcid⟩ := mem_walk_of_find? hf
      have hc : child ∈ w.ids := by
        rw [ids_eq_walk, ← hcid]
        exact List.mem_map_of_mem hcw
      have howns : w.Owns child parent ↔ c.contains parent = true := by
        rw [owns_iff hw.distinct hcw hcid, Block.contains_iff]
      rw [hf] at hrun
      rw [if_neg (not_not.mpr hc)]
      by_cases ho : w.Owns child parent
      · rw [if_pos ho]
        exact hrun.trans (if_pos (howns.mp ho))
      · rw [if_neg ho]
        obtain ⟨slot, hl⟩ := exists_locate? hc
        obtain ⟨b, rest, ht, -, -⟩ := exists_take? hw hl
        have htaken := hrun.trans (if_neg (mt howns.mpr ho))
        rw [hl, Option.bind_some, ht] at htaken
        exact ⟨b, rest, htaken⟩
  · have hnot : ¬w.contains parent = true := fun h => hp ((contains_iff w parent).mp h)
    rw [if_neg hnot] at hrun
    rw [if_pos hp]
    exact hrun

/-- the parent is still there when the child has been taken out -/
theorem mem_ids_of_takeForAttach (hw : w.Sound) {parent child : String} {c : Block}
    (h : (takeForAttach parent child).run w = .ok c w') : parent ∈ w'.ids := by
  rw [run_takeForAttach] at h
  split at h
  next hp =>
    split at h
    next => cases h
    next d hf =>
      split at h
      next => cases h
      next hnot =>
        split at h
        next b rest hbind =>
          cases h
          obtain ⟨slot, hl, ht⟩ := Option.bind_eq_some_iff.mp hbind
          obtain ⟨hdw, hdid⟩ := mem_walk_of_find? hf
          obtain ⟨b, rest, ht', hbw, hbid⟩ := exists_take? hw hl
          rw [ht] at ht'
          cases ht'
          -- what was found is what is taken out, and the parent is not in it
          rw [eq_of_id_eq hw.distinct hdw hbw (hdid.trans hbid.symm), Block.contains_iff] at hnot
          exact mem_ids_of_take? hw.ordered ht ((contains_iff w parent).mp hp) hnot
        next => cases h
  next => cases h

theorem succeeds_changeParent {parent : String} (h : parent ∈ w.ids) (change : Block → Block) :
    Succeeds (changeParent parent change) w := by
  rw [← contains_iff, contains, Option.isSome_iff_exists] at h
  obtain ⟨p, hp⟩ := h
  obtain ⟨rfl, P, rfl, hav⟩ := exists_place hp
  refine ⟨p, P.fill (change p), ?_⟩
  rw [run_changeParent, hp, Place.update?_fill P change p hav]

/-- hanging a block under a parent is refused while nothing has been changed, or goes through -/
theorem answers_attach (hw : w.Sound) (parent child : String) {change : Block → Block → Block}
    {after : Block → Editing Workspace β} (hafter : ∀ p w', Succeeds (after p) w') :
    Answers (do
      let c ← takeForAttach parent child
      let p ← changeParent parent (change c)
      after p) w (w.attachRefusal? parent child) := by
  refine (answers_takeForAttach hw parent child).bind fun c w' hrun => ?_
  exact (succeeds_changeParent (mem_ids_of_takeForAttach hw hrun) (change c)).bind hafter

theorem succeeds_push (b : Block) (w : Workspace) : Succeeds (push b) w := ⟨(), _, rfl⟩

theorem answers_connectValue (hw : w.Sound) (parent socket child : String) :
    Answers (connectValue parent socket child) w (w.attachRefusal? parent child) := by
  refine answers_attach hw parent child fun p w' => ?_
  cases p.input? socket with
  | some displaced => exact succeeds_push displaced w'
  | none => exact succeeds_pure () w'

theorem answers_connectStatement (hw : w.Sound) (parent socket child : String) :
    Answers (connectStatement parent socket child) w (w.attachRefusal? parent child) :=
  answers_attach hw parent child fun _ w' => succeeds_pure () w'

theorem answers_connectNext (hw : w.Sound) (parent child : String) :
    Answers (connectNext parent child) w (w.attachRefusal? parent child) :=
  answers_attach hw parent child fun _ w' => succeeds_pure () w'

theorem run_setField (id name : String) (value : Json) (w : Workspace) :
    (setField id name value).run w = match w.update? id (·.setField name value) with
      | some changed => .ok () changed
      | none => .error (.missingBlock id) w := by
  show (found _ (w.update? id _) >>= fun changed => set changed).run w = _
  cases w.update? id (·.setField name value) <;> rfl

theorem answers_setField (id name : String) (value : Json) (w : Workspace) :
    Answers (setField id name value) w (w.missing? id) := by
  have hrun := run_setField id name value w
  rw [missing?]
  cases hf : w.find? id with
  | none =>
    have hid := (find?_eq_none_iff w id).mp hf
    have hu : w.update? id (·.setField name value) = none := by
      by_contra hne
      obtain ⟨changed, hu⟩ := Option.ne_none_iff_exists'.mp hne
      obtain ⟨p, P, rfl, rfl, hav, -⟩ := update?_eq_some hu
      rw [Place.find?_fill P p hav] at hf
      cases hf
    rw [hu] at hrun
    rw [if_neg hid]
    exact hrun
  | some p =>
    obtain ⟨rfl, P, rfl, hav⟩ := exists_place hf
    have hid : p.id ∈ (P.fill p).ids := by
      rw [← contains_iff, contains, hf]
      rfl
    rw [Place.update?_fill P _ p hav] at hrun
    rw [if_pos hid]
    exact ⟨_, _, hrun⟩

theorem succeeds_moveToTop (slot : Slot) (w : Workspace) : Succeeds (moveToTop slot) w := by
  have htake : Succeeds (takeAt slot) w := by
    unfold Succeeds
    rw [run_takeAt]
    cases w.take? slot with
    | some taken => exact ⟨_, _, rfl⟩
    | none => exact ⟨_, _, rfl⟩
  refine htake.bind fun taken w' => ?_
  cases taken with
  | some b => exact succeeds_push b w'
  | none => exact succeeds_pure () w'

theorem answers_detach (id : String) (w : Workspace) : Answers (detach id) w (w.missing? id) := by
  unfold missing? detach
  by_cases h : id ∈ w.ids
  · rw [if_pos h]
    obtain ⟨slot, hl⟩ := exists_locate? h
    show Succeeds _ w
    rw [Succeeds, run_bind_ok (run_get w), hl]
    cases slot with
    | top index => exact succeeds_pure () w
    | input owner socket => exact succeeds_moveToTop _ w
    | statement owner socket => exact succeeds_moveToTop _ w
    | after owner => exact succeeds_moveToTop _ w
  · rw [if_neg h, Answers, run_bind_ok (run_get w), locate?_eq_none h]
    rfl

theorem answers_delete (hw : w.Sound) (id : String) : Answers (delete id) w (w.missing? id) := by
  unfold missing? delete
  by_cases h : id ∈ w.ids
  · rw [if_pos h]
    obtain ⟨slot, hl⟩ := exists_locate? h
    obtain ⟨b, rest, ht, -, -⟩ := exists_take? hw hl
    have htake : (takeAt slot).run w = .ok (some b) rest := by rw [run_takeAt, ht]
    show Succeeds _ w
    rw [Succeeds, run_bind_ok (run_get w), hl, run_bind_ok (run_found_some _ slot w),
      run_bind_ok htake, run_bind_ok (run_found_some _ b rest)]
    cases b.next with
    | none => exact ⟨_, _, rfl⟩
    | some trailing => exact ⟨_, _, rfl⟩
  · rw [if_neg h, Answers, run_bind_ok (run_get w), locate?_eq_none h]
    rfl

theorem run_addBlock (b : Block) (w : Workspace) :
    (addBlock b).run w = match w.repeatedId? [] b.ids with
      | some i => .error (.duplicateBlock i) w
      | none => .ok () ⟨w.blocks ++ [b]⟩ := by
  show (match w.repeatedId? [] b.ids with
    | some i => throw (EditError.duplicateBlock i)
    | none => push b).run w = _
  cases w.repeatedId? [] b.ids <;> rfl

theorem answers_addBlock (hw : w.ids.Nodup) (b : Block) :
    ((w.ids ++ b.ids).Nodup → Answers (addBlock b) w none)
    ∧ (¬(w.ids ++ b.ids).Nodup → ∃ id, FirstRepeat (w.ids ++ b.ids) id
      ∧ Answers (addBlock b) w (some (.duplicateBlock id))) := by
  have hrun := run_addBlock b w
  cases hr : w.repeatedId? [] b.ids with
  | some i =>
    have hvalue : w.addBlock b = .error (.duplicateBlock i) := by rw [Workspace.addBlock, hr]
    obtain ⟨id, he, hid⟩ := addBlock_error hw hvalue
    cases he
    rw [hr] at hrun
    exact ⟨fun hn => absurd hn hid.not_nodup, fun _ => ⟨i, hid, hrun⟩⟩
  | none =>
    have hvalue : w.addBlock b = .ok ⟨w.blocks ++ [b]⟩ := by rw [Workspace.addBlock, hr]
    have hnodup := addBlock_ids hw hvalue
    rw [ids_append, ids_singleton] at hnodup
    rw [hr] at hrun
    exact ⟨fun _ => ⟨(), _, hrun⟩, fun hn => absurd hnodup hn⟩

/-! ## both kinds of editing -/

theorem settle_takeForAttach (parent child : String) (w : Workspace) :
    settle ((takeForAttach parent child).run w) = w.takeForAttach parent child := by
  rw [run_takeForAttach]
  unfold Workspace.takeForAttach
  split
  next =>
    cases w.find? child with
    | none => rfl
    | some c =>
      dsimp only
      split
      next => rfl
      next => cases (w.locate? child).bind w.take? <;> rfl
  next => rfl

/-- changing a parent in place and appending what it displaced -/
theorem settle_attach (parent child : String) (change : Block → Block → Block)
    (displaced : Block → List Block) (after : Block → Editing Workspace Unit)
    (hafter : ∀ p w', (after p).run w' = .ok () ⟨w'.blocks ++ displaced p⟩) (w : Workspace) :
    settle ((do
      let c ← takeForAttach parent child
      let p ← changeParent parent (change c)
      after p : Editing Workspace Unit).run w)
      = (do
        let (c, rest) ← w.takeForAttach parent child
        rest.changeParent parent (change c) displaced).map fun w' => ((), w') := by
  rw [settle_bind, settle_takeForAttach]
  cases w.takeForAttach parent child with
  | error e => rfl
  | ok taken =>
    obtain ⟨c, rest⟩ := taken
    show settle ((changeParent parent (change c) >>= after).run rest)
      = (rest.changeParent parent (change c) displaced).map fun w' => ((), w')
    rw [settle_bind, run_changeParent]
    unfold Workspace.changeParent
    cases rest.find? parent with
    | none => rfl
    | some p =>
      cases rest.update? parent (change c) with
      | none => rfl
      | some changed =>
        show settle ((after p).run changed) = _
        rw [hafter]
        rfl

theorem settle_connectValue (parent socket child : String) (w : Workspace) :
    settle ((connectValue parent socket child).run w)
      = (w.connectValue parent socket child).map fun w' => ((), w') := by
  refine settle_attach parent child (fun c p => p.setInput socket c)
    (fun p => (p.input? socket).toList) _ (fun p w' => ?_) w
  cases p.input? socket with
  | some displaced => rfl
  | none =>
    show EStateM.Result.ok () w' = .ok () ⟨w'.blocks ++ []⟩
    rw [List.append_nil]

theorem settle_connectStatement (parent socket child : String) (w : Workspace) :
    settle ((connectStatement parent socket child).run w)
      = (w.connectStatement parent socket child).map fun w' => ((), w') := by
  refine settle_attach parent child
    (fun c p => p.setStatement socket (c.appendOption (p.statement? socket))) (fun _ => [])
    (fun _ => pure ()) (fun p w' => ?_) w
  rw [List.append_nil]
  rfl

theorem settle_connectNext (parent child : String) (w : Workspace) :
    settle ((connectNext parent child).run w)
      = (w.connectNext parent child).map fun w' => ((), w') := by
  refine settle_attach parent child (fun c p => p.setNext (some (c.appendOption p.next)))
    (fun _ => []) (fun _ => pure ()) (fun p w' => ?_) w
  rw [List.append_nil]
  rfl

theorem settle_detach (id : String) (w : Workspace) :
    settle ((detach id).run w) = (w.detach id).map fun w' => ((), w') := by
  have hmove : ∀ slot : Slot, settle ((moveToTop slot).run w) = .ok ((), match w.take? slot with
      | some (b, rest) => ⟨rest.blocks ++ [b]⟩
      | none => w) := by
    intro slot
    rw [moveToTop, settle_bind, run_takeAt]
    cases w.take? slot <;> rfl
  unfold detach Workspace.detach
  rw [run_bind_ok (run_get w)]
  cases w.locate? id with
  | none => rfl
  | some slot =>
    cases slot with
    | top index => rfl
    | input owner socket =>
      refine (hmove _).trans ?_
      dsimp only
      cases w.take? (.input owner socket) <;> rfl
    | statement owner socket =>
      refine (hmove _).trans ?_
      dsimp only
      cases w.take? (.statement owner socket) <;> rfl
    | after owner =>
      refine (hmove _).trans ?_
      dsimp only
      cases w.take? (.after owner) <;> rfl

theorem settle_delete (id : String) (w : Workspace) :
    settle ((delete id).run w) = w.delete id := by
  unfold delete Workspace.delete
  rw [run_bind_ok (run_get w)]
  cases w.locate? id with
  | none => rfl
  | some slot =>
    rw [run_bind_ok (run_found_some _ slot w),
      settle_bind, run_takeAt]
    dsimp only
    cases w.take? slot with
    | none => rfl
    | some taken =>
      obtain ⟨b, rest⟩ := taken
      show settle ((match b.next with
        | none => pure b
        | some trailing => do
          modify fun rest => rest.putAt trailing slot
          pure (b.setNext none) : Editing Workspace Block).run rest)
        = match b.next with
          | none => .ok (b, rest)
          | some trailing => .ok (b.setNext none, rest.putAt trailing slot)
      cases b.next <;> rfl

theorem settle_addBlock (b : Block) (w : Workspace) :
    settle ((addBlock b).run w) = (w.addBlock b).map fun w' => ((), w') := by
  rw [run_addBlock]
  unfold Workspace.addBlock
  cases w.repeatedId? [] b.ids <;> rfl

theorem settle_setField (id name : String) (value : Json) (w : Workspace) :
    settle ((setField id name value).run w)
      = (w.setField id name value).map fun w' => ((), w') := by
  rw [run_setField]
  unfold Workspace.setField
  cases w.update? id (·.setField name value) <;> rfl

end Editor

/-- an edit as an editor makes it -/
def Edit.inPlace : Edit → Editing Workspace Unit
  | .addBlock b _ _ => Editor.addBlock b
  | .setField i name value _ => Editor.setField i name value
  | .connectValue parent socket child => Editor.connectValue parent socket child
  | .connectStatement parent socket child => Editor.connectStatement parent socket child
  | .connectNext parent child => Editor.connectNext parent child
  | .detach i => Editor.detach i
  | .delete i => do discard (Editor.delete i)

open Editing Editor

theorem settle_inPlace (e : Edit) (w : Workspace) :
    settle (e.inPlace.run w) = (e.apply w).map fun w' => ((), w') := by
  cases e with
  | addBlock b hb hp => exact settle_addBlock b w
  | setField id name value hp => exact settle_setField id name value w
  | connectValue parent socket child => exact settle_connectValue parent socket child w
  | connectStatement parent socket child => exact settle_connectStatement parent socket child w
  | connectNext parent child => exact settle_connectNext parent child w
  | detach id => exact settle_detach id w
  | delete id =>
    have hdelete := settle_delete id w
    show settle ((Editor.delete id >>= fun _ => pure ()).run w) = ((w.delete id).map Prod.snd).map _
    rw [settle_bind, hdelete]
    cases w.delete id <;> rfl

theorem answers_inPlace {w : Workspace} (hw : w.Sound) (e : Edit) :
    ∃ cause, Answers e.inPlace w cause := by
  cases e with
  | addBlock b hb hp =>
    by_cases hn : (w.ids ++ b.ids).Nodup
    · exact ⟨none, (answers_addBlock hw.distinct b).1 hn⟩
    · obtain ⟨id, -, hid⟩ := (answers_addBlock hw.distinct b).2 hn
      exact ⟨some _, hid⟩
  | setField id name value hp => exact ⟨_, answers_setField id name value w⟩
  | connectValue parent socket child => exact ⟨_, answers_connectValue hw parent socket child⟩
  | connectStatement parent socket child =>
    exact ⟨_, answers_connectStatement hw parent socket child⟩
  | connectNext parent child => exact ⟨_, answers_connectNext hw parent child⟩
  | detach id => exact ⟨_, answers_detach id w⟩
  | delete id => exact ⟨_, (answers_delete hw id).bind fun _ w' _ => succeeds_pure () w'⟩

theorem left_inPlace {w : Workspace} (hw : w.Sound) (e : Edit) :
    left (e.inPlace.run w) = w.step e := by
  obtain ⟨cause, hcause⟩ := answers_inPlace hw e
  rw [hcause.left_eq (settle_inPlace e w), step]
  cases e.apply w <;> rfl

/-- an editor that takes edits one after another holds the workspace of the run -/
theorem run_inPlace {w : Workspace} (hw : w.Sound) (edits : List Edit) :
    edits.foldl (fun w e => left (e.inPlace.run w)) w = w.run edits := by
  induction edits generalizing w with
  | nil => rfl
  | cons e edits ih =>
    rw [List.foldl_cons, left_inPlace hw e, run_cons]
    exact ih (step_sound e hw)

/-! ## along every run -/

/-- on a workspace that a run leads to, an edit is refused exactly for the cause its ids give and then
leaves the workspace as it was.  No edit stops once it has taken a block out of its slot, and what an
edit gives is what the edit by value gives -/
theorem refused_exactly (w : Workspace) (hw : w.Reachable) :
    (∀ parent socket child,
      Answers (Editor.connectValue parent socket child) w (w.attachRefusal? parent child))
    ∧ (∀ parent socket child,
      Answers (Editor.connectStatement parent socket child) w (w.attachRefusal? parent child))
    ∧ (∀ parent child, Answers (Editor.connectNext parent child) w (w.attachRefusal? parent child))
    ∧ (∀ id, Answers (Editor.detach id) w (w.missing? id))
    ∧ (∀ id, Answers (Editor.delete id) w (w.missing? id))
    ∧ (∀ id name value, Answers (Editor.setField id name value) w (w.missing? id))
    ∧ (∀ b, ((w.ids ++ b.ids).Nodup → Answers (Editor.addBlock b) w none)
      ∧ (¬(w.ids ++ b.ids).Nodup → ∃ id, FirstRepeat (w.ids ++ b.ids) id
        ∧ Answers (Editor.addBlock b) w (some (.duplicateBlock id))))
    ∧ (∀ id ∈ w.ids, ∃ slot b rest,
      w.locate? id = some slot ∧ (takeAt slot).run w = .ok (some b) rest)
    ∧ (∀ parent child c rest, (Editor.takeForAttach parent child).run w = .ok c rest →
      ∀ change, Succeeds (Editor.changeParent parent change) rest)
    ∧ ∀ e : Edit, settle (e.inPlace.run w) = (e.apply w).map fun w' => ((), w') := by
  have hs := sound_of_reachable hw
  refine ⟨answers_connectValue hs, answers_connectStatement hs, answers_connectNext hs,
    fun id => answers_detach id w, answers_delete hs,
    fun id name value => answers_setField id name value w, answers_addBlock hs.distinct,
    fun id hid => ?_, fun parent child c rest hrun change => ?_, fun e => settle_inPlace e w⟩
  · obtain ⟨slot, hl⟩ := exists_locate? hid
    obtain ⟨b, rest, ht, -, -⟩ := exists_take? hs hl
    exact ⟨slot, b, rest, hl, by rw [run_takeAt, ht]⟩
  · exact succeeds_changeParent (mem_ids_of_takeForAttach hs hrun) change

/-- b follows a in a chain, so a does not go under b; of two ids that are both absent the parent's is
reported -/
theorem refused_exactly_sampleRun :
    (Editor.connectNext "b" "a").run (empty.run sampleRun)
      = .error (.blockCycle "b" "a") (empty.run sampleRun)
    ∧ (Editor.connectValue "gone" "VALUE" "none").run (empty.run sampleRun)
      = .error (.missingBlock "gone") (empty.run sampleRun)
    ∧ Succeeds (Editor.connectStatement "x" "DO" "loop") (empty.run sampleRun)
    ∧ Succeeds (Editor.delete "a") (empty.run sampleRun)
    ∧ ∃ id, FirstRepeat ["loop", "a", "y", "b", "x", "y"] id
      ∧ (Editor.addBlock (leaf "y" "number")).run (empty.run sampleRun)
        = .error (.duplicateBlock id) (empty.run sampleRun) := by
  obtain ⟨hvalue, hstatement, hnext, -, hdelete, -, hadd, -⟩ :=
    refused_exactly _ reachable_sampleRun
  have hcycle := hnext "b" "a"
  have hgap := hvalue "gone" "VALUE" "none"
  have hmove := hstatement "x" "DO" "loop"
  have hgone := hdelete "a"
  rw [show (empty.run sampleRun).attachRefusal? "b" "a" = some (.blockCycle "b" "a") by decide]
    at hcycle
  rw [show (empty.run sampleRun).attachRefusal? "gone" "none" = some (.missingBlock "gone")
    by decide] at hgap
  rw [show (empty.run sampleRun).attachRefusal? "x" "loop" = none by decide] at hmove
  rw [show (empty.run sampleRun).missing? "a" = none by decide] at hgone
  exact ⟨hcycle, hgap, hmove, hgone, (hadd (leaf "y" "number")).2 (by decide)⟩

end Workspace

end VisualProgram
