import VisualProgram.Proofs.Block.Pruning
import VisualProgram.Proofs.Workspace.Commuting

/-!
# Where edits put blocks

`held?` is the block in a slot.  Every edit of the structure first takes a block out of the workspace, and
what is left then does not depend on the slot it was in: it is the workspace without the block and all it
owns (`prune`, `take?_of_locate?`).  So what an edit does is told in two steps:

* `takeForAttach_iff`, `detach_eq`  what is taken out, and from what it is cut off;
* `find?_prune`                     an owner outside of the block is still there, itself pruned, so a slot
                                    holds what remained of the chain that was in it (`remains?`);
* `held?_fill`                      the slot that is filled holds what was put there;
* `putBack_placed`                  what followed a deleted block takes its slot.

`SameApart` is the frame: a block that is not named is in the slot it was in, and the other chains stand in
their order.  Moving a block changes the links of this block and of the one it displaces, and no others
(`slots_of_prune`, `sameApart_fill`).
-/

namespace VisualProgram.Workspace
open Block

/-! ## slots of a workspace -/

/-- the block in a slot -/
def held? (w : Workspace) : Slot → Option Block
  | .top index => w.blocks[index]?
  | .input owner socket => (w.find? owner).bind (·.input? socket)
  | .statement owner socket => (w.find? owner).bind (·.statement? socket)
  | .after owner => (w.find? owner).bind (·.next)

/-- the ids of the blocks that start the chains -/
def heads (w : Workspace) : List String := w.blocks.map Block.id

/-- the workspace without the block of an id and all it owns -/
def prune (w : Workspace) (cut : String) : Workspace := ⟨w.blocks.filterMap (prune? cut)⟩

/-- what is in a slot once the block of an id was taken out -/
def remains? (w : Workspace) (cut : String) (slot : Slot) : Option Block := (w.held? slot).bind (prune? cut)

/-- the ids of a block that goes to a slot and of what it displaces there -/
def movedTo (w : Workspace) (slot : Slot) (id : String) : List String :=
  id :: (w.remains? id slot).toList.map Block.id

/-- every block but those named is in the slot it was in, and the chains that start with other blocks stand
in the same order -/
structure SameApart (moved : List String) (w w' : Workspace) : Prop where
  slots : ∀ (slot : Slot) (id : String), id ∉ moved → ((slot, id) ∈ w'.links ↔ (slot, id) ∈ w.links)
  heads : w'.heads.filter (· ∉ moved) = w.heads.filter (· ∉ moved)

section
variable {slot : Slot} {owner : String}

theorem held?_of_owner (howner : slot.owner? = some owner) (w : Workspace) :
    w.held? slot = (w.find? owner).bind (child? slot) := by
  cases slot <;> cases howner <;> rfl

theorem take?_of_owner (howner : slot.owner? = some owner) (w : Workspace) :
    w.take? slot = w.takeFrom? owner (child? slot) (dropChild slot) := by
  cases slot <;> cases howner <;> rfl

theorem putAt_of_owner (howner : slot.owner? = some owner) (w : Workspace) (b : Block) :
    w.putAt b slot = (w.update? owner (setChild b slot)).getD ⟨w.blocks ++ [b]⟩ := by
  cases slot <;> cases howner <;> rfl

theorem owner?_of_holds {p child : Block} (h : Holds p child slot) : slot.owner? = some p.id := by
  cases slot with
  | top index => exact h.elim
  | _ => exact congrArg some h.1.symm

/-- a slot of the block in a place, with more chains after the workspace -/
theorem held?_fill {P : Place} {q : Block} (hav : P.Avoids q.id) (howner : slot.owner? = some q.id)
    (more : List Block) : held? ⟨(P.fill q).blocks ++ more⟩ slot = child? slot q := by
  have hfind : find? ⟨(P.fill q).blocks ++ more⟩ q.id = some q := by
    have hself := P.find?_fill q hav
    rw [Workspace.find?] at hself ⊢
    rw [List.findSome?_append, hself, Option.some_or]
  rw [held?_of_owner howner, hfind, Option.bind_some]

end

@[simp] theorem heads_append (a b : List Block) : heads ⟨a ++ b⟩ = heads ⟨a⟩ ++ heads ⟨b⟩ := List.map_append

theorem heads_fill (P : Place) (p : Block) {q : Block} (h : q.id = p.id) :
    (P.fill q).heads = (P.fill p).heads := by
  simp only [heads, Place.fill, List.map_append, List.map_cons, P.context.id_fill h]

theorem find?_of_mem_walk {w : Workspace} (hids : w.ids.Nodup) {b : Block} (hb : b ∈ w.walk) :
    w.find? b.id = some b := by
  obtain ⟨P, rfl⟩ := exists_place_of_mem hids hb
  exact P.find?_fill b (Place.avoids_of_nodup hids)

theorem mem_heads_iff_locate? {w : Workspace} {id : String} {slot : Slot} (h : w.locate? id = some slot) :
    id ∈ w.heads ↔ slot.owner? = none := by
  constructor
  · intro hid
    obtain ⟨b, hb, rfl⟩ := List.mem_map.mp hid
    unfold locate? at h
    split at h
    next index _ =>
      cases h
      rfl
    next hnone => exact absurd (List.findIdx?_eq_none_iff.mp hnone b hb) (by simp)
  · intro hslot
    rcases locate?_eq_some h with ⟨index, b, -, hb, rfl⟩ | ⟨P, parent, child, -, hh, -⟩
    · exact List.mem_map_of_mem (List.mem_of_getElem? hb)
    · rw [owner?_of_holds hh] at hslot
      cases hslot

/-! ## taking out -/

theorem filterMap_prune? {cut : String} {blocks : List Block} (h : cut ∉ ids ⟨blocks⟩) :
    blocks.filterMap (prune? cut) = blocks := by
  induction blocks with
  | nil => rfl
  | cons b rest ih =>
    have hids : ids ⟨b :: rest⟩ = b.ids ++ ids ⟨rest⟩ := by simp [ids]
    rw [hids, List.mem_append, not_or, ids_eq_records] at h
    rw [List.filterMap_cons, prune?_of_not_mem b h.1, ih h.2]

theorem heads_prune (w : Workspace) (cut : String) : (w.prune cut).heads = w.heads.filter (· ≠ cut) := by
  obtain ⟨blocks⟩ := w
  induction blocks with
  | nil => rfl
  | cons b rest ih =>
    simp only [heads, prune, List.map_cons] at ih ⊢
    cases h : b.prune? cut with
    | none =>
      have hid : b.id = cut := prune?_eq_none_iff.mp h
      rw [List.filterMap_cons_none h, ih, List.filter_cons_of_neg (by simpa using hid)]
    | some b' =>
      have hid : b.id ≠ cut := fun e => by cases (prune?_eq_none_iff.mpr e).symm.trans h
      rw [List.filterMap_cons_some h, List.map_cons, ih, id_of_prune? h,
        List.filter_cons_of_pos (by simpa using hid)]

/-- without repeated ids, what is in the hole of a place is nowhere around it -/
theorem Place.nodup_of_fill {P : Place} {q : Block} (h : (P.fill q).ids.Nodup) :
    (recordIds q.records).Nodup
      ∧ ∀ id ∈ recordIds q.records, id ∉ recordIds P.before ∧ id ∉ recordIds P.rest := by
  rw [ids_eq_recordIds, Place.records_fill, recordIds, List.map_append, List.map_append,
    List.nodup_append', List.nodup_append', List.disjoint_append_left] at h
  obtain ⟨⟨-, hq, hbefore⟩, -, -, hrest⟩ := h
  exact ⟨hq, fun id hid => ⟨fun hm => hbefore hm hid, fun hm => hrest hid hm⟩⟩

theorem prune_fill {P : Place} {q q' : Block} {cut : String} (hids : (P.fill q).ids.Nodup)
    (hcut : cut ∈ recordIds q.records) (h : q.prune? cut = some q') : (P.fill q).prune cut = P.fill q' := by
  obtain ⟨hbefore, hrest⟩ := (Place.nodup_of_fill hids).2 cut hcut
  rw [Place.before, mem_recordIds_append, not_or] at hbefore
  rw [Place.rest, mem_recordIds_append, not_or] at hrest
  have hleft : cut ∉ ids ⟨P.left⟩ := by rw [ids_eq_recordIds]; exact hbefore.1
  have hright : cut ∉ ids ⟨P.right⟩ := by rw [ids_eq_recordIds]; exact hrest.2
  rw [prune, Place.fill, List.filterMap_append, filterMap_prune? hleft,
    List.filterMap_cons_some (prune?_fill P.context hbefore.2 hrest.1 h), filterMap_prune? hright]
  rfl

/-- a block taken out of an owner's slot leaves the workspace without it -/
theorem prune_of_child {P : Place} {p child : Block} {slot : Slot} (hids : (P.fill p).ids.Nodup)
    (howner : slot.owner? = some p.id) (h : child? slot p = some child) :
    (P.fill p).prune child.id = P.fill (dropChild slot p) := by
  have hmem : child ∈ p.walk := mem_walk_of_holds (holds_of_child? howner h)
  have hid : child.id ∈ recordIds p.records := by
    rw [recordIds, ← ids_eq_records]
    exact List.mem_map_of_mem hmem
  exact prune_fill hids hid (prune?_of_child (Place.nodup_of_fill hids).1 h)

theorem prune_of_top {w : Workspace} (hids : w.ids.Nodup) {index : Nat} {b : Block}
    (h : w.blocks[index]? = some b) : w.prune b.id = ⟨w.blocks.eraseIdx index⟩ := by
  obtain ⟨hlt, rfl⟩ := List.getElem?_eq_some_iff.mp h
  have hsplit : w.blocks = w.blocks.take index ++ w.blocks[index] :: w.blocks.drop (index + 1) := by
    rw [List.cons_getElem_drop_succ, List.take_append_drop]
  have hself : w.blocks[index].id ∈ w.blocks[index].ids := List.mem_map_of_mem (self_mem_walk _)
  have hnodup : (ids ⟨w.blocks.take index⟩
      ++ (w.blocks[index].ids ++ ids ⟨w.blocks.drop (index + 1)⟩)).Nodup := by
    rw [← ids_singleton, ← ids_append, ← ids_append, List.singleton_append, ← hsplit]
    exact hids
  rw [List.nodup_append', List.nodup_append', List.disjoint_append_right] at hnodup
  obtain ⟨-, ⟨-, -, hright⟩, hleft, -⟩ := hnodup
  rw [prune, List.eraseIdx_eq_take_drop_succ]
  calc (⟨w.blocks.filterMap (prune? w.blocks[index].id)⟩ : Workspace)
      = ⟨(w.blocks.take index ++ w.blocks[index] :: w.blocks.drop (index + 1)).filterMap
          (prune? w.blocks[index].id)⟩ := by rw [← hsplit]
    _ = _ := by
      rw [List.filterMap_append, List.filterMap_cons_none (prune?_eq_none_iff.mpr rfl),
        filterMap_prune? fun hm => hleft hm hself, filterMap_prune? fun hm => hright hself hm]

/-- what comes out of the slot of an id is its block, and what is left is the workspace without it -/
theorem take?_of_locate? {w : Workspace} {id : String} {slot : Slot} (hw : w.Sound)
    (h : w.locate? id = some slot) :
    ∃ b, w.find? id = some b ∧ w.held? slot = some b ∧ w.take? slot = some (b, w.prune id) := by
  rcases locate?_eq_some h with ⟨index, b, rfl, hb, rfl⟩ | ⟨P, parent, child, rfl, hh, rfl⟩
  · refine ⟨b, find?_of_mem_walk hw.distinct (mem_walk_of_mem (List.mem_of_getElem? hb)), hb, ?_⟩
    rw [prune_of_top hw.distinct hb, take?, hb]
    rfl
  · have howner := owner?_of_holds hh
    have htidy : parent.Tidy := ((ordered_iff parent).mp (Place.ordered_of_fill hw.ordered)).1
    have hchild := child?_eq_of_holds htidy hh
    have hparent := P.find?_fill parent (Place.avoids_of_nodup hw.distinct)
    refine ⟨child, find?_of_mem_walk hw.distinct (mem_walk_place (mem_walk_of_holds hh)), ?_, ?_⟩
    · rw [held?_of_owner howner, hparent, Option.bind_some, hchild]
    · rw [take?_of_owner howner, takeFrom?_fill hw.distinct hchild, prune_of_child hw.distinct howner hchild]

section
variable {w w' : Workspace} {id : String} {b : Block}

theorem exists_take?_of_find? (hw : w.Sound) (h : w.find? id = some b) :
    ∃ slot, w.locate? id = some slot ∧ w.take? slot = some (b, w.prune id) := by
  obtain ⟨hb, hid⟩ := mem_walk_of_find? h
  have hmem : id ∈ w.ids := by
    rw [ids_eq_walk, ← hid]
    exact List.mem_map_of_mem hb
  obtain ⟨slot, hl⟩ := exists_locate? hmem
  obtain ⟨b', hb', -, ht⟩ := take?_of_locate? hw hl
  obtain rfl : b' = b := Option.some.inj (hb'.symm.trans h)
  exact ⟨slot, hl, ht⟩

theorem sound_prune (hw : w.Sound) (h : w.find? id = some b) :
    w.contents = b.contents + (w.prune id).contents ∧ (w.prune id).Sound := by
  obtain ⟨slot, -, ht⟩ := exists_take?_of_find? hw h
  obtain ⟨hc, -, ho⟩ := take?_contents hw.ordered ht
  exact ⟨hc, ho, ids_nodup_of_le (hc ▸ Multiset.le_add_left _ _) hw.distinct⟩

theorem links_prune (hw : w.Sound) (h : w.find? id = some b) :
    ∃ cut : Multiset Link, (∀ l ∈ cut, l.2 = id) ∧ w.links = cut + (b.links + (w.prune id).links) := by
  obtain ⟨slot, -, ht⟩ := exists_take?_of_find? hw h
  obtain ⟨cut, hcut, hlinks⟩ := take?_links ht
  exact ⟨cut, fun l hl => (congrArg Prod.snd (hcut l hl)).trans (mem_walk_of_find? h).2, hlinks⟩

/-- a block that the one taken out does not own stays, itself pruned -/
theorem find?_prune (hw : w.Sound) (h : w.find? id = some b) {other : String} {x : Block}
    (hx : w.find? other = some x) (hout : other ∉ b.ids) :
    ∃ x', x.prune? id = some x' ∧ (w.prune id).find? other = some x' := by
  obtain ⟨hb, hbid⟩ := mem_walk_of_find? h
  obtain ⟨hxw, rfl⟩ := mem_walk_of_find? hx
  obtain ⟨root, hroot, hxr⟩ := List.mem_flatMap.mp hxw
  have hspared : Spared id root.walk x := by
    intro y hy hyid hxy
    -- no other block has the id
    obtain rfl : y = b :=
      eq_of_id_eq hw.distinct (List.mem_flatMap.mpr ⟨root, hroot, hy⟩) hb (hyid.trans hbid.symm)
    exact hout (List.mem_map_of_mem hxy)
  obtain ⟨root', x', hroot', hx', hm⟩ := mem_walk_prune? root hxr hspared
  have hmem : x' ∈ (w.prune id).walk :=
    List.mem_flatMap.mpr ⟨root', List.mem_filterMap.mpr ⟨root, hroot, hroot'⟩, hm⟩
  refine ⟨x', hx', ?_⟩
  rw [← id_of_prune? hx']
  exact find?_of_mem_walk (sound_prune hw h).2.distinct hmem

/-! ## the frame -/

theorem mem_iff_of_add_eq {links links' cut new : Multiset Link} {moved : List String}
    (h : links' + cut = new + links) (hcut : ∀ l ∈ cut, l.2 ∈ moved) (hnew : ∀ l ∈ new, l.2 ∈ moved)
    {l : Link} (hl : l.2 ∉ moved) : l ∈ links' ↔ l ∈ links := by
  have hm : l ∈ links' + cut ↔ l ∈ new + links := by rw [h]
  rw [Multiset.mem_add, Multiset.mem_add] at hm
  have hncut : l ∉ cut := fun hc => hl (hcut l hc)
  have hnnew : l ∉ new := fun hn => hl (hnew l hn)
  tauto

/-- links that change are those of blocks that are named -/
theorem slots_of_prune (hw : w.Sound) (h : w.find? id = some b) {moved : List String} (hid : id ∈ moved)
    (cut new : Multiset Link) (hlinks : w'.links + cut = new + (b.links + (w.prune id).links))
    (hcut : ∀ l ∈ cut, l.2 ∈ moved) (hnew : ∀ l ∈ new, l.2 ∈ moved) (slot : Slot) (other : String)
    (hother : other ∉ moved) : (slot, other) ∈ w'.links ↔ (slot, other) ∈ w.links := by
  obtain ⟨cut', hcut', hw'⟩ := links_prune hw h
  have hall : w'.links + (cut + cut') = new + w.links := by
    rw [hw', ← add_assoc, hlinks]
    ac_rfl
  refine mem_iff_of_add_eq hall (fun l hl => ?_) hnew hother
  rcases Multiset.mem_add.mp hl with hl | hl
  · exact hcut l hl
  · rw [hcut' l hl]
    exact hid

theorem filter_heads_prune (w : Workspace) {moved : List String} (hid : id ∈ moved) :
    (w.prune id).heads.filter (· ∉ moved) = w.heads.filter (· ∉ moved) := by
  rw [heads_prune, List.filter_filter]
  refine List.filter_congr fun x _ => ?_
  by_cases hx : x ∈ moved
  · simp [hx]
  · have hne : x ≠ id := fun e => hx (e ▸ hid)
    simp [hx, hne]

theorem filter_eq_nil {moved : List String} {ids : List String} (h : ∀ id ∈ ids, id ∈ moved) :
    ids.filter (· ∉ moved) = [] := by
  rw [List.filter_eq_nil_iff]
  intro x hx
  simpa using h x hx

end

/-! ## attaching -/

theorem takeForAttach_iff {w rest : Workspace} (hw : w.Sound) {parent child : String} {b : Block} :
    w.takeForAttach parent child = .ok (b, rest)
      ↔ parent ∈ w.ids ∧ w.find? child = some b ∧ parent ∉ b.ids ∧ rest = w.prune child := by
  unfold takeForAttach
  by_cases hp : parent ∈ w.ids
  · rw [if_pos ((contains_iff w parent).mpr hp)]
    cases hf : w.find? child with
    | none => simp
    | some c =>
      obtain ⟨slot, hl, ht⟩ := exists_take?_of_find? hw hf
      dsimp only
      rw [hl, Option.bind_some, ht]
      by_cases hc : parent ∈ c.ids
      · rw [if_pos ((Block.contains_iff c parent).mpr hc)]
        refine ⟨nofun, ?_⟩
        rintro ⟨-, e, hnot, -⟩
        cases e
        exact absurd hc hnot
      · rw [if_neg fun h => hc ((Block.contains_iff c parent).mp h)]
        constructor
        · intro h
          cases h
          exact ⟨hp, rfl, hc, rfl⟩
        · rintro ⟨-, e, -, rfl⟩
          cases e
          rfl
  · rw [if_neg fun h => hp ((contains_iff w parent).mp h)]
    exact ⟨nofun, fun h => absurd h.1 hp⟩

/-- the owner is changed in its place in the workspace without the child.  What is in its slots then is what
remained of what was in them -/
theorem attach_ok {w w' : Workspace} (hw : w.Sound) {parent child : String}
    (change : Block → Block → Block) (displaced : Block → List Block)
    (h : (do
      let (c, rest) ← w.takeForAttach parent child
      rest.changeParent parent (change c) displaced) = .ok w') :
    ∃ (b p : Block) (P : Place), w.find? child = some b ∧ p.id = parent ∧ P.Avoids parent ∧ p.Ordered
      ∧ P.fill p = w.prune child ∧ w' = ⟨(P.fill (change b p)).blocks ++ displaced p⟩
      ∧ ∀ slot : Slot, slot.owner? = some parent → child? slot p = w.remains? child slot := by
  cases ht : w.takeForAttach parent child with
  | error e =>
    rw [ht] at h
    cases h
  | ok taken =>
    obtain ⟨b, rest⟩ := taken
    rw [ht] at h
    obtain ⟨hparent, hb, hout, rfl⟩ := (takeForAttach_iff hw).mp ht
    obtain ⟨p, P, hpid, hP, hav, rfl⟩ := changeParent_ok h
    have hrest := (sound_prune hw hb).2
    refine ⟨b, p, P, hb, hpid, hav, Place.ordered_of_fill (hP ▸ hrest.ordered), hP, rfl, ?_⟩
    intro slot howner
    cases hf : w.find? parent with
    | none => exact absurd hparent ((find?_eq_none_iff w parent).mp hf)
    | some owner =>
      obtain ⟨p', hp', hfind⟩ := find?_prune hw hb hf hout
      have hself := P.find?_fill p (hpid ▸ hav)
      rw [hP, hpid, hfind] at hself
      cases hself
      rw [child?_of_prune? (tidy_of_mem_walk hw.ordered (mem_walk_of_find? hf).1) hp', remains?,
        held?_of_owner howner, hf]
      rfl

/-- the owner in its place is changed and some chains are appended.  The links that this makes and takes away
are those of blocks that are named, so the rest is as it was -/
theorem sameApart_fill {w : Workspace} (hw : w.Sound) {id : String} {b : Block} (h : w.find? id = some b)
    {P : Place} {p q : Block} (hP : P.fill p = w.prune id) (hq : q.id = p.id) {more : List Block}
    {moved : List String} (hid : id ∈ moved) (hmore : ∀ x ∈ more.map Block.id, x ∈ moved)
    (cut new : Multiset Link) (hlinks : q.links + links ⟨more⟩ + cut = new + (b.links + p.links))
    (hcut : ∀ l ∈ cut, l.2 ∈ moved) (hnew : ∀ l ∈ new, l.2 ∈ moved) :
    SameApart moved w ⟨(P.fill q).blocks ++ more⟩ := by
  constructor
  · obtain ⟨frame, hframe⟩ := P.links_fill p
    refine slots_of_prune hw h hid cut new ?_ hcut hnew
    rw [links_append, ← hP, hframe q hq, hframe p rfl]
    calc frame + q.links + links ⟨more⟩ + cut
        = frame + (q.links + links ⟨more⟩ + cut) := by ac_rfl
      _ = new + (b.links + (frame + p.links)) := by rw [hlinks]; ac_rfl
  · have hlast : (heads ⟨more⟩).filter (· ∉ moved) = [] := filter_eq_nil hmore
    rw [heads_append, List.filter_append, hlast, List.append_nil, heads_fill P p hq, hP]
    exact filter_heads_prune w hid

theorem connectValue_placed {w w' : Workspace} (hw : w.Sound) {parent socket child : String}
    (h : w.connectValue parent socket child = .ok w') :
    ∃ b, w.find? child = some b ∧ w'.held? (.input parent socket) = some b
      ∧ (∀ o, w.remains? child (.input parent socket) = some o → w'.blocks.getLast? = some o)
      ∧ SameApart (w.movedTo (.input parent socket) child) w w' := by
  obtain ⟨b, p, P, hb, rfl, hav, hp, hP, rfl, hchild⟩ :=
    attach_ok hw (fun c p => p.setInput socket c) (fun p => (p.input? socket).toList) h
  have hremains := hchild (.input p.id socket) rfl
  have hself : b.id ∈ w.movedTo (.input p.id socket) child :=
    (mem_walk_of_find? hb).2.symm ▸ List.mem_cons_self
  have hdisplaced : ∀ x ∈ (p.input? socket).toList.map Block.id, x ∈ w.movedTo (.input p.id socket) child :=
    fun x hx => List.mem_cons_of_mem _ (hremains ▸ hx)
  have hid : (p.setInput socket b).id = p.id := rfl
  refine ⟨b, hb, ?_, fun o ho => ?_, ?_⟩
  · rw [held?_fill (q := p.setInput socket b) hav rfl]
    show child? (.input p.id socket) (setChild b (.input p.id socket) p) = some b
    exact child?_setChild rfl b p
  · rw [← hremains] at ho
    have ho' : p.input? socket = some o := ho
    rw [ho']
    exact List.getLast?_concat
  · obtain ⟨cut, hcut, hnext⟩ := linksNext_eq (.input p.id socket) (p.input? socket)
    have hset := links_setInput socket b hp
    rw [hnext, ← Multiset.singleton_add] at hset
    refine sameApart_fill hw hb hP hid List.mem_cons_self hdisplaced cut {(.input p.id socket, b.id)} ?_
      (fun l hl => hdisplaced _ (hcut l hl).2) (fun l hl => ?_)
    · rw [add_assoc, add_comm _ cut, hset, add_assoc]
    · rw [Multiset.mem_singleton.mp hl]
      exact hself

/-- a chain put into a slot before the chain that remained there -/
theorem chain_placed {w w' : Workspace} (hw : w.Sound) {parent child : String} (slot : Slot)
    (howner : slot.owner? = some parent)
    (h : (do
      let (c, rest) ← w.takeForAttach parent child
      rest.changeParent parent (fun p => setChild (c.appendOption (child? slot p)) slot p)
        fun _ => []) = .ok w') :
    ∃ b, w.find? child = some b
      ∧ row (w'.held? slot) = row (some b) ++ row (w.remains? child slot)
      ∧ SameApart (w.movedTo slot child) w w' := by
  obtain ⟨b, p, P, hb, rfl, hav, hp, hP, rfl, hchild⟩ :=
    attach_ok hw (fun c p => setChild (c.appendOption (child? slot p)) slot p) (fun _ => []) h
  have hremains := hchild slot howner
  have hself : b.id ∈ w.movedTo slot child := (mem_walk_of_find? hb).2.symm ▸ List.mem_cons_self
  have hdisplaced : ∀ x ∈ (child? slot p).toList.map Block.id, x ∈ w.movedTo slot child :=
    fun x hx => List.mem_cons_of_mem _ (hremains ▸ hx)
  have hid : (setChild (b.appendOption (child? slot p)) slot p).id = p.id := id_setChild _ _ _
  refine ⟨b, hb, ?_, ?_⟩
  · rw [held?_fill (hid ▸ hav) (hid ▸ howner), child?_setChild howner, row_appendOption, hremains]
  obtain ⟨last, hlast⟩ := links_appendOption b (child? slot p)
  obtain ⟨cut, hcut, hnext⟩ := linksNext_eq slot (child? slot p)
  obtain ⟨new, hnew, hnext'⟩ := linksNext_eq last (child? slot p)
  have hset := links_setChild hp howner (b.appendOption (child? slot p))
  rw [hnext, hlast, hnext', id_appendOption, ← Multiset.singleton_add] at hset
  refine sameApart_fill hw hb hP hid List.mem_cons_self (by simp) cut ({(slot, b.id)} + new) ?_
    (fun l hl => hdisplaced _ (hcut l hl).2) (fun l hl => ?_)
  · -- the chain that remained goes from the slot to the end of the new chain, with all its own links
    have hnil : links ⟨[]⟩ = 0 := rfl
    rw [hnil, add_zero]
    refine add_right_cancel (b := links ⟨(child? slot p).toList⟩) ?_
    rw [add_assoc, hset]
    ac_rfl
  · rcases Multiset.mem_add.mp hl with hl | hl
    · rw [Multiset.mem_singleton.mp hl]
      exact hself
    · exact hdisplaced _ (hnew l hl).2

/-! ## detaching -/

theorem detach_of_head {w : Workspace} {id : String} (h : id ∈ w.heads) : w.detach id = .ok w := by
  obtain ⟨b, hb, rfl⟩ := List.mem_map.mp h
  have hid : b.id ∈ w.ids := by
    rw [ids_eq_walk]
    exact List.mem_map_of_mem (mem_walk_of_mem hb)
  obtain ⟨slot, hl⟩ := exists_locate? hid
  have hslot := (mem_heads_iff_locate? hl).mp h
  cases slot with
  | top index => rw [detach, hl]
  | _ => cases hslot

theorem detach_eq {w : Workspace} (hw : w.Sound) {id : String} {b : Block} (hb : w.find? id = some b)
    (h : id ∉ w.heads) : w.detach id = .ok ⟨(w.prune id).blocks ++ [b]⟩ := by
  obtain ⟨slot, hl, ht⟩ := exists_take?_of_find? hw hb
  have hslot := (mem_heads_iff_locate? hl).not.mp h
  cases slot with
  | top index => exact absurd rfl hslot
  | _ => rw [detach, hl]; dsimp only; rw [ht]

theorem detach_placed {w w' : Workspace} (hw : w.Sound) {id : String} (h : w.detach id = .ok w') :
    (id ∈ w.heads ∧ w' = w)
    ∨ (id ∉ w.heads
      ∧ ∃ b, w.find? id = some b ∧ w'.blocks.getLast? = some b ∧ SameApart [id] w w') := by
  by_cases hhead : id ∈ w.heads
  · rw [detach_of_head hhead] at h
    exact Or.inl ⟨hhead, (Except.ok.inj h).symm⟩
  refine Or.inr ⟨hhead, ?_⟩
  cases hb : w.find? id with
  | none =>
    rw [detach, locate?_eq_none ((find?_eq_none_iff w id).mp hb)] at h
    cases h
  | some b =>
    rw [detach_eq hw hb hhead] at h
    cases h
    refine ⟨b, rfl, List.getLast?_concat, ?_, ?_⟩
    · refine slots_of_prune hw hb List.mem_cons_self 0 0 ?_ (by simp) (by simp)
      rw [links_append, links_cons]
      simp [links, add_comm]
    · have hbid : b.id = id := (mem_walk_of_find? hb).2
      have hlast : ∀ x ∈ heads ⟨[b]⟩, x ∈ [id] := by simp [heads, hbid]
      rw [heads_append, List.filter_append, filter_heads_prune w List.mem_cons_self, filter_eq_nil hlast,
        List.append_nil]

/-! ## deleting -/

/-- the slot holds another chain now, and at the top level the others are where they were; an empty slot of
the top level is closed -/
def Refilled (next : Option Block) (w w' : Workspace) : Slot → Prop
  | .top index => w'.blocks = w.blocks.take index ++ next.toList ++ w.blocks.drop (index + 1)
  | slot => w'.held? slot = next ∧ w'.heads = w.heads

theorem insertIdx_length (left right : List Block) (b : Block) :
    (left ++ right).insertIdx left.length b = left ++ b :: right := by
  induction left with
  | nil => rfl
  | cons x left ih => rw [List.cons_append, List.length_cons, List.insertIdx_succ_cons, ih, List.cons_append]

/-- what followed a chain's head at the top level takes its place -/
theorem putBack_top {blocks : List Block} {index : Nat} (h : index < blocks.length) (next : Option Block) :
    next.elim (⟨blocks.eraseIdx index⟩ : Workspace) (putAt ⟨blocks.eraseIdx index⟩ · (.top index))
      = ⟨blocks.take index ++ (next.toList ++ blocks.drop (index + 1))⟩ := by
  rw [List.eraseIdx_eq_take_drop_succ]
  cases next with
  | none => rfl
  | some t =>
    have hindex : min index (blocks.take index ++ blocks.drop (index + 1)).length
        = (blocks.take index).length := by
      rw [List.length_append, List.length_take]
      omega
    rw [Option.elim_some, putAt, hindex, insertIdx_length]
    rfl

/-- what followed a block in a slot of an owner takes its place -/
theorem putBack_fill {P : Place} {p : Block} {slot : Slot} (hav : P.Avoids p.id)
    (howner : slot.owner? = some p.id) (next : Option Block) :
    next.elim (P.fill (dropChild slot p)) ((P.fill (dropChild slot p)).putAt · slot)
      = P.fill (refill slot next p) := by
  cases next with
  | none => rfl
  | some t =>
    have hid := id_dropChild slot p
    rw [Option.elim_some, putAt_of_owner howner, ← hid, P.update?_fill _ _ (hid ▸ hav)]
    rfl

theorem mem_ids_of_mem_links {b : Block} {l : Link} (h : l ∈ b.links) : l.2 ∈ b.ids := by
  have hm : l.2 ∈ b.contents.map Prod.fst := by
    rw [← Block.map_snd_links b]
    exact Multiset.mem_add.mpr (Or.inl (Multiset.mem_map_of_mem _ h))
  rw [ids_eq_records]
  exact hm

theorem refilled_of_owner {w w' : Workspace} {slot : Slot} {owner : String} {next : Option Block}
    (howner : slot.owner? = some owner) (hheld : w'.held? slot = next) (hheads : w'.heads = w.heads) :
    Refilled next w w' slot := by
  cases slot with
  | top index => cases howner
  | _ => exact ⟨hheld, hheads⟩

/-- what is put back into a slot brings its links, and one for the slot -/
theorem putBack_placed {w rest : Workspace} (hw : w.Ordered) {slot : Slot} {c : Block}
    (h : w.take? slot = some (c, rest)) (next : Option Block) (moved : List String)
    (hmoved : ∀ id ∈ next.toList.map Block.id, id ∈ moved) :
    Refilled next w (next.elim rest (rest.putAt · slot)) slot
      ∧ (next.elim rest (rest.putAt · slot)).heads.filter (· ∉ moved) = rest.heads.filter (· ∉ moved)
      ∧ ∃ new : Multiset Link, (∀ l ∈ new, l.2 ∈ moved)
        ∧ (next.elim rest (rest.putAt · slot)).links = new + (links ⟨next.toList⟩ + rest.links) := by
  cases howner : slot.owner? with
  | none =>
    cases slot with
    | top index =>
      obtain ⟨c', hc, h⟩ := Option.bind_eq_some_iff.mp h
      cases h
      rw [putBack_top (List.getElem?_eq_some_iff.mp hc).1 next, List.eraseIdx_eq_take_drop_succ]
      refine ⟨(List.append_assoc _ _ _).symm, ?_, 0, by simp, ?_⟩
      · have hnext : (heads ⟨next.toList⟩).filter (· ∉ moved) = [] := filter_eq_nil hmoved
        simp only [heads_append, List.filter_append, hnext, List.nil_append]
      · simp only [links_append]
        ac_rfl
    | _ => cases howner
  | some owner =>
    rw [take?_of_owner howner] at h
    obtain ⟨p, P, rfl, rfl, hav, -, rfl⟩ := takeFrom?_eq_some h
    have hp : p.Ordered := Place.ordered_of_fill hw
    have hid := id_refill slot next p
    rw [putBack_fill hav howner]
    refine ⟨refilled_of_owner howner ?_ (heads_fill P p hid), ?_, ?_⟩
    · have hheld := held?_fill (hid ▸ hav) (hid ▸ howner) []
      rw [List.append_nil] at hheld
      rw [hheld, child?_refill ((ordered_iff p).mp hp).1 howner]
    · rw [heads_fill P p hid, heads_fill P p (id_dropChild slot p)]
    · obtain ⟨frame, hframe⟩ := P.links_fill p
      obtain ⟨new, hnew, hnext⟩ := linksNext_eq slot next
      refine ⟨new, fun l hl => hmoved _ (hnew l hl).2, ?_⟩
      rw [hframe _ hid, hframe _ (id_dropChild slot p), links_refill hp howner, hnext]
      ac_rfl

theorem delete_placed {w w' : Workspace} (hw : w.Sound) {id : String} {b : Block}
    (h : w.delete id = .ok (b, w')) :
    ∃ (slot : Slot) (c : Block), w.find? id = some c ∧ w.held? slot = some c ∧ b = c.setNext none
      ∧ Refilled c.next w w' slot ∧ SameApart (b.ids ++ c.next.toList.map Block.id) w w' := by
  obtain ⟨slot, c, rest, hl, ht, rfl, rfl⟩ := delete_ok h
  obtain ⟨c', hc, hheld, ht'⟩ := take?_of_locate? hw hl
  rw [ht] at ht'
  cases ht'
  have hself : (c.setNext none).id ∈ (c.setNext none).ids := List.mem_map_of_mem (self_mem_walk _)
  have hcid : (c.setNext none).id = id := (mem_walk_of_find? hc).2
  have hid : id ∈ (c.setNext none).ids ++ c.next.toList.map Block.id := List.mem_append_left _ (hcid ▸ hself)
  obtain ⟨hrefilled, hheads, new, hnew, hlinks⟩ := putBack_placed hw.ordered ht c.next
    ((c.setNext none).ids ++ c.next.toList.map Block.id) fun x hx => List.mem_append_right _ hx
  refine ⟨slot, c, hc, hheld, rfl, hrefilled, ?_, hheads.trans (filter_heads_prune w hid)⟩
  -- the links that go are those of the block itself and the one to what followed it
  obtain ⟨cut, hcut, hnext⟩ := linksNext_eq (.after c.id) c.next
  have hc' := links_setNext (p := c) none
  rw [linksNext, zero_add, hnext] at hc'
  refine slots_of_prune hw hc hid ((c.setNext none).links + cut) new ?_ (fun l hl => ?_) hnew
  · rw [hlinks, ← hc']
    ac_rfl
  · rcases Multiset.mem_add.mp hl with hl | hl
    · exact List.mem_append_left _ (mem_ids_of_mem_links hl)
    · exact List.mem_append_right _ (hcut l hl).2

/-! ## every edit of a structure -/

/-- on a workspace that a run leads to, an edit that is not refused puts a block where it is told to: into a
value socket with all it owns, what remained there becoming the last chain; into a statement socket or after
a block before the chain that remained there; to the end of the top level.  A deletion leaves what followed
the block in the slot the block was in.  The block that moves and the one it displaces apart, every block
stays in its slot and the chains stay in order -/
theorem edits_place_blocks (w : Workspace) (hw : w.Reachable) :
    (∀ parent socket child w', w.connectValue parent socket child = .ok w' →
      ∃ b, w.find? child = some b ∧ w'.held? (.input parent socket) = some b
        ∧ (∀ o, w.remains? child (.input parent socket) = some o → w'.blocks.getLast? = some o)
        ∧ SameApart (w.movedTo (.input parent socket) child) w w')
    ∧ (∀ parent socket child w', w.connectStatement parent socket child = .ok w' →
      ∃ b, w.find? child = some b
        ∧ row (w'.held? (.statement parent socket))
          = row (some b) ++ row (w.remains? child (.statement parent socket))
        ∧ SameApart (w.movedTo (.statement parent socket) child) w w')
    ∧ (∀ parent child w', w.connectNext parent child = .ok w' →
      ∃ b, w.find? child = some b
        ∧ row (w'.held? (.after parent)) = row (some b) ++ row (w.remains? child (.after parent))
        ∧ SameApart (w.movedTo (.after parent) child) w w')
    ∧ (∀ id w', w.detach id = .ok w' →
      (id ∈ w.heads ∧ w' = w)
      ∨ (id ∉ w.heads
        ∧ ∃ b, w.find? id = some b ∧ w'.blocks.getLast? = some b ∧ SameApart [id] w w'))
    ∧ ∀ id b w', w.delete id = .ok (b, w') →
      ∃ (slot : Slot) (c : Block), w.find? id = some c ∧ w.held? slot = some c ∧ b = c.setNext none
        ∧ Refilled c.next w w' slot ∧ SameApart (b.ids ++ c.next.toList.map Block.id) w w' := by
  have hs := sound_of_reachable hw
  exact ⟨fun _ _ _ _ h => connectValue_placed hs h,
    fun parent socket _ _ h => chain_placed hs (.statement parent socket) rfl h,
    fun parent _ _ h => chain_placed hs (.after parent) rfl h,
    fun _ _ h => detach_placed hs h, fun _ _ _ h => delete_placed hs h⟩

/-- the value `y` goes to the top level for `x`; `b`, which follows `a`, is put before `a` -/
theorem edits_place_blocks_sampleRun :
    ∃ w₁ w₂ w₃ b₃, (empty.run sampleRun).connectValue "a" "VALUE" "x" = .ok w₁
      ∧ w₁.heads = ["loop", "y"] ∧ SameApart ["x", "y"] (empty.run sampleRun) w₁
      ∧ (empty.run sampleRun).connectStatement "loop" "DO" "b" = .ok w₂
      ∧ (row (w₂.held? (.statement "loop" "DO"))).map Block.id = ["b", "a"]
      ∧ SameApart ["b", "a"] (empty.run sampleRun) w₂
      ∧ (empty.run sampleRun).delete "a" = .ok (b₃, w₃)
      ∧ ∃ slot c, (empty.run sampleRun).held? slot = some c ∧ b₃ = c.setNext none
        ∧ Refilled c.next (empty.run sampleRun) w₃ slot := by
  obtain ⟨hvalue, hstatement, -, -, hdelete⟩ := edits_place_blocks _ reachable_sampleRun
  obtain ⟨w₁, h₁, hheads⟩ : ∃ w₁, (empty.run sampleRun).connectValue "a" "VALUE" "x" = .ok w₁
      ∧ w₁.heads = ["loop", "y"] := ⟨_, rfl, by decide⟩
  obtain ⟨w₂, h₂, hrow⟩ : ∃ w₂, (empty.run sampleRun).connectStatement "loop" "DO" "b" = .ok w₂
      ∧ (row (w₂.held? (.statement "loop" "DO"))).map Block.id = ["b", "a"] := ⟨_, rfl, by decide⟩
  obtain ⟨b₃, w₃, h₃⟩ : ∃ b₃ w₃, (empty.run sampleRun).delete "a" = .ok (b₃, w₃) := ⟨_, _, rfl⟩
  obtain ⟨-, -, -, -, hsame₁⟩ := hvalue "a" "VALUE" "x" w₁ h₁
  obtain ⟨-, -, -, hsame₂⟩ := hstatement "loop" "DO" "b" w₂ h₂
  obtain ⟨slot, c, -, hheld, hb, hrefilled, -⟩ := hdelete "a" b₃ w₃ h₃
  rw [show (empty.run sampleRun).movedTo (.input "a" "VALUE") "x" = ["x", "y"] by decide] at hsame₁
  rw [show (empty.run sampleRun).movedTo (.statement "loop" "DO") "b" = ["b", "a"] by decide] at hsame₂
  exact ⟨w₁, w₂, w₃, b₃, h₁, hheads, hsame₁, h₂, hrow, hsame₂, h₃, slot, c, hheld, hb, hrefilled⟩

end VisualProgram.Workspace
