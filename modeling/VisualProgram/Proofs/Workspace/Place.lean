import VisualProgram.Workspace
import VisualProgram.Proofs.Block.Sockets

/-!
# A block inside its workspace

A `Place` is a workspace with one block left out: the chains before, a context, and the chains
after.  Searching and changing a workspace comes down to filling a place (`Place.find?_fill`,
`Place.update?_fill`, `exists_place`), and so do the steps every edit is made of:

* `take?_contents`     what is taken out of a slot and what is left make up the workspace;
* `take?_locate`       what is taken out of the slot of an id has this id, if no id occurs twice;
* `changeParent_ok`    a parent is changed in its place, and what it displaced is appended;
* `putAt_contents`     a block put into an empty slot adds its contents.
-/

namespace VisualProgram.Workspace
open Block

/-! ## contents and order -/

def records (w : Workspace) : List Record := w.blocks.flatMap Block.records

def contents (w : Workspace) : Multiset Record := w.records

/-- the sockets of every block are in order -/
def Ordered (w : Workspace) : Prop := ∀ b ∈ w.blocks, b.Ordered

theorem ids_eq_recordIds (w : Workspace) : w.ids = recordIds w.records := by
  simp only [ids, records, recordIds, List.map_flatMap]
  exact List.flatMap_congr (fun b _ => ids_eq_records b)

@[simp] theorem contents_append (a b : List Block) :
    contents ⟨a ++ b⟩ = contents ⟨a⟩ + contents ⟨b⟩ := by
  simp [contents, records]

@[simp] theorem contents_cons (b : Block) (rest : List Block) :
    contents ⟨b :: rest⟩ = b.contents + contents ⟨rest⟩ := by
  simp [contents, records, Block.contents]

@[simp] theorem contents_nil : contents ⟨[]⟩ = 0 := rfl

@[simp] theorem contents_singleton (b : Block) : contents ⟨[b]⟩ = b.contents := by
  simp

/-- the contents of a workspace tell its ids -/
theorem ids_nodup_iff (w : Workspace) : w.ids.Nodup ↔ (w.contents.map Prod.fst).Nodup := by
  rw [ids_eq_recordIds, contents, Multiset.map_coe, Multiset.coe_nodup]
  rfl

/-! ## places -/

structure Place where
  left : List Block
  context : Context
  right : List Block

namespace Place

def fill (P : Place) (q : Block) : Workspace := ⟨P.left ++ P.context.fill q :: P.right⟩

/-- the records before the hole, and those after it -/
def before (P : Place) : List Record := P.left.flatMap Block.records ++ P.context.before
def rest (P : Place) : List Record := P.context.rest ++ P.right.flatMap Block.records

theorem records_fill (P : Place) (q : Block) :
    (P.fill q).records = P.before ++ q.records ++ P.rest := by
  simp [fill, records, before, rest, Context.records_fill]

/-- all that stands around the hole -/
def frame (P : Place) : Multiset Record := (P.before : Multiset Record) + P.rest

theorem contents_fill (P : Place) (q : Block) : (P.fill q).contents = P.frame + q.contents := by
  rw [contents, records_fill, ← Multiset.coe_add, ← Multiset.coe_add, add_right_comm]
  rfl

theorem ordered_of_fill {P : Place} {p : Block} (h : (P.fill p).Ordered) : p.Ordered :=
  Ordered.of_fill P.context (h _ (by simp [fill]))

theorem ordered_fill {P : Place} {p q : Block} (h : (P.fill p).Ordered) (hq : q.Ordered) :
    (P.fill q).Ordered := by
  intro b hb
  have hself : (P.context.fill p).Ordered := h _ (by simp [fill])
  rcases List.mem_append.mp hb with hl | hr
  · exact h b (List.mem_append_left _ hl)
  · rcases List.mem_cons.mp hr with rfl | hr
    · exact Ordered.fill P.context hself hq
    · exact h b (List.mem_append_right _ (List.mem_cons_of_mem _ hr))

/-! ## searching and changing in a place -/

/-- no block before the hole has the id -/
def Avoids (P : Place) (wanted : String) : Prop := wanted ∉ recordIds P.before

theorem avoids_iff {P : Place} {wanted : String} :
    P.Avoids wanted ↔ (∀ b ∈ P.left, wanted ∉ recordIds b.records) ∧ P.context.Avoids wanted := by
  rw [Avoids, before, mem_recordIds_append, not_or, Context.Avoids]
  refine and_congr ?_ Iff.rfl
  simp only [recordIds, List.map_flatMap, List.mem_flatMap, not_exists, not_and]

/-- without a repeated id, nothing before the hole has the id of what is in it -/
theorem avoids_of_nodup {P : Place} {q : Block} (h : (P.fill q).ids.Nodup) : P.Avoids q.id := by
  rw [ids_eq_recordIds, records_fill, recordIds, List.append_assoc, List.map_append,
    List.nodup_append] at h
  intro hb
  have hq : q.id ∈ List.map Prod.fst (q.records ++ P.rest) := by
    rw [List.map_append]
    exact List.mem_append_left _ (id_mem_records q)
  exact h.2.2 q.id hb q.id hq rfl

theorem find?_fill (P : Place) (q : Block) (h : P.Avoids q.id) :
    (P.fill q).find? q.id = some q := by
  obtain ⟨hl, hc⟩ := avoids_iff.mp h
  have hleft : P.left.findSome? (Block.find? q.id) = none := by
    rw [List.findSome?_eq_none_iff]
    exact fun b hb => (find?_eq_none_iff q.id b).mpr (hl b hb)
  rw [fill, Workspace.find?, List.findSome?_append, hleft, Option.none_or, List.findSome?_cons,
    Context.find?_fill P.context q hc]

theorem updateFirst?_append (wanted : String) (change : Block → Block) (a b : List Block)
    (h : ∀ x ∈ a, wanted ∉ recordIds x.records) :
    updateFirst? wanted change (a ++ b) = (updateFirst? wanted change b).map (a ++ ·) := by
  induction a with
  | nil => simp
  | cons x rest ih =>
    have hx := update?_eq_none wanted change x (h x List.mem_cons_self)
    rw [List.cons_append, updateFirst?, hx, ih (fun y hy => h y (List.mem_cons_of_mem _ hy))]
    simp [Option.map_map, Function.comp_def]

theorem update?_fill (P : Place) (change : Block → Block) (q : Block) (h : P.Avoids q.id) :
    (P.fill q).update? q.id change = some (P.fill (change q)) := by
  obtain ⟨hl, hc⟩ := avoids_iff.mp h
  rw [fill, Workspace.update?, updateFirst?_append _ _ _ _ hl, updateFirst?,
    Context.update?_fill P.context change q hc]
  rfl

end Place

theorem find?_eq_none_iff (w : Workspace) (wanted : String) :
    w.find? wanted = none ↔ wanted ∉ w.ids := by
  rw [Workspace.find?, List.findSome?_eq_none_iff, ids, List.mem_flatMap, not_exists]
  refine forall_congr' fun b => ?_
  rw [not_and, ids_eq_records, Block.find?_eq_none_iff]
  rfl

theorem exists_place {w : Workspace} {wanted : String} {p : Block} (h : w.find? wanted = some p) :
    p.id = wanted ∧ ∃ P : Place, P.fill p = w ∧ P.Avoids wanted := by
  obtain ⟨left, b, right, hw, hb, hleft⟩ := List.findSome?_eq_some_iff.mp h
  obtain ⟨hp, c, rfl, hc⟩ := exists_context b hb
  refine ⟨hp, ⟨left, c, right⟩, ?_, Place.avoids_iff.mpr ⟨?_, hc⟩⟩
  · rw [Place.fill, ← hw]
  · exact fun x hx => (Block.find?_eq_none_iff wanted x).mp (hleft x hx)

/-- a change that succeeds changes the block a search would find -/
theorem update?_eq_some {w w' : Workspace} {wanted : String} {change : Block → Block}
    (h : w.update? wanted change = some w') :
    ∃ (p : Block) (P : Place), p.id = wanted ∧ P.fill p = w ∧ P.Avoids wanted
      ∧ P.fill (change p) = w' := by
  cases hf : w.find? wanted with
  | none =>
    have hnone : updateFirst? wanted change w.blocks = none := by
      have := Place.updateFirst?_append wanted change w.blocks [] (fun b hb => by
        have hb' := (List.findSome?_eq_none_iff.mp hf) b hb
        exact (Block.find?_eq_none_iff wanted b).mp hb')
      rw [List.append_nil] at this
      rw [this]
      rfl
    rw [Workspace.update?, hnone] at h
    cases h
  | some p =>
    obtain ⟨rfl, P, rfl, hav⟩ := exists_place hf
    rw [Place.update?_fill P change p hav] at h
    exact ⟨p, P, rfl, rfl, hav, Option.some.inj h⟩

/-! ## taking out -/

theorem takeFrom?_eq_some {w rest : Workspace} {owner : String} {child : Block → Option Block}
    {without : Block → Block} {b : Block} (h : w.takeFrom? owner child without = some (b, rest)) :
    ∃ (p : Block) (P : Place), p.id = owner ∧ P.fill p = w ∧ P.Avoids owner
      ∧ child p = some b ∧ P.fill (without p) = rest := by
  obtain ⟨p, hf, h⟩ := Option.bind_eq_some_iff.mp h
  obtain ⟨b', hb, h⟩ := Option.bind_eq_some_iff.mp h
  obtain ⟨rest', hu, h⟩ := Option.bind_eq_some_iff.mp h
  cases h
  obtain ⟨rfl, P, rfl, hav⟩ := exists_place hf
  rw [Place.update?_fill P without p hav] at hu
  exact ⟨p, P, rfl, rfl, hav, hb, Option.some.inj hu⟩

/-- taking one child out of a block splits its contents -/
theorem takeFrom?_contents {w rest : Workspace} {owner : String} {child : Block → Option Block}
    {without : Block → Block} {b : Block} (hw : w.Ordered)
    (hsplit : ∀ p : Block, p.Ordered → child p = some b →
      p.contents = b.contents + (without p).contents ∧ b.Ordered ∧ (without p).Ordered)
    (h : w.takeFrom? owner child without = some (b, rest)) :
    w.contents = b.contents + rest.contents ∧ b.Ordered ∧ rest.Ordered := by
  obtain ⟨p, P, -, rfl, -, hb, rfl⟩ := takeFrom?_eq_some h
  obtain ⟨hc, hob, how⟩ := hsplit p (Place.ordered_of_fill hw) hb
  refine ⟨?_, hob, Place.ordered_fill hw how⟩
  rw [Place.contents_fill, Place.contents_fill, hc, add_left_comm]

theorem take?_contents {w rest : Workspace} {slot : Slot} {b : Block} (hw : w.Ordered)
    (h : w.take? slot = some (b, rest)) :
    w.contents = b.contents + rest.contents ∧ b.Ordered ∧ rest.Ordered := by
  cases slot with
  | top index =>
    obtain ⟨b', hb, h⟩ := Option.bind_eq_some_iff.mp h
    cases h
    obtain ⟨hlt, hget⟩ := List.getElem?_eq_some_iff.mp hb
    have hsplit : w.blocks = w.blocks.take index ++ b :: w.blocks.drop (index + 1) := by
      rw [← hget, List.cons_getElem_drop_succ, List.take_append_drop]
    refine ⟨?_, hw b (List.mem_of_getElem? hb), fun x hx => hw x (List.mem_of_mem_eraseIdx hx)⟩
    rw [List.eraseIdx_eq_take_drop_succ]
    calc w.contents = contents ⟨w.blocks.take index ++ b :: w.blocks.drop (index + 1)⟩ := by
          rw [← hsplit]
      _ = b.contents + contents ⟨w.blocks.take index ++ w.blocks.drop (index + 1)⟩ := by
          simp [add_left_comm]
  | input owner socket =>
    exact takeFrom?_contents hw (fun p hp hb =>
      ⟨contents_eraseInput hb, Ordered.of_get? ((ordered_iff p).mp hp).2.1 hb, hp.eraseInput⟩) h
  | statement owner socket =>
    exact takeFrom?_contents hw (fun p hp hb =>
      ⟨contents_eraseStatement hb, Ordered.of_get? ((ordered_iff p).mp hp).2.2.1 hb,
        hp.eraseStatement⟩) h
  | after owner =>
    refine takeFrom?_contents hw (fun p hp hb => ?_) h
    have hnext : p.next = some b := hb
    have hc := contents_setNext (p := p) none
    rw [hnext, nextContents_some, nextContents_none, add_zero] at hc
    refine ⟨by rw [← hc, add_comm], ?_, hp.setNext orderedNext_none⟩
    exact orderedNext_some.mp (hnext ▸ hp.next)

/-! ## the slot of an id -/

theorem locate?_eq_some {w : Workspace} {id : String} {slot : Slot} (h : w.locate? id = some slot) :
    (∃ (index : Nat) (b : Block), slot = .top index ∧ w.blocks[index]? = some b ∧ b.id = id)
      ∨ ∃ (P : Place) (parent child : Block),
        P.fill parent = w ∧ Holds parent child slot ∧ child.id = id := by
  unfold locate? at h
  split at h
  next index hidx =>
    obtain ⟨hlt, hid, -⟩ := List.findIdx?_eq_some_iff_getElem.mp hidx
    cases h
    exact .inl ⟨index, w.blocks[index], rfl, List.getElem?_eq_getElem hlt, by simpa using hid⟩
  next =>
    obtain ⟨left, b, right, hw, hb, -⟩ := List.findSome?_eq_some_iff.mp h
    obtain ⟨c, parent, child, rfl, hh, hc⟩ := exists_slot b hb
    exact .inr ⟨⟨left, c, right⟩, parent, child, by rw [Place.fill, ← hw], hh, hc⟩

/-- without repeated ids, what is taken out of the slot of an id is the block of this id -/
theorem take?_locate {w rest : Workspace} {id : String} {slot : Slot} {b : Block} (hw : w.Ordered)
    (hids : w.ids.Nodup) (hl : w.locate? id = some slot) (h : w.take? slot = some (b, rest)) :
    b.id = id := by
  rcases locate?_eq_some hl with ⟨index, x, rfl, hx, hid⟩ | ⟨P, parent, child, rfl, hh, hid⟩
  · obtain ⟨b', hb, h⟩ := Option.bind_eq_some_iff.mp h
    cases h
    rw [hx] at hb
    cases hb
    exact hid
  -- the owner is the only block of its id, so it is the one the slot is looked up in
  have hfind : (P.fill parent).find? parent.id = some parent :=
    Place.find?_fill P parent (Place.avoids_of_nodup hids)
  have hparent : ∀ p : Block, ∀ Q : Place, p.id = parent.id → Q.fill p = P.fill parent →
      Q.Avoids parent.id → p = parent := by
    intro p Q hp hQ hav
    have := Place.find?_fill Q p (hp ▸ hav)
    rw [hQ, hp, hfind] at this
    exact (Option.some.inj this).symm
  obtain ⟨⟨hti, hts⟩, -⟩ := (ordered_iff parent).mp (Place.ordered_of_fill hw)
  cases slot with
  | top index => exact hh.elim
  | input owner socket =>
    obtain ⟨rfl, hmem⟩ := hh
    obtain ⟨p, Q, hp, hQ, hav, hb, -⟩ := takeFrom?_eq_some h
    rw [hparent p Q hp hQ hav, input?, Assoc.get?_of_mem hti hmem] at hb
    rw [← Option.some.inj hb, hid]
  | statement owner socket =>
    obtain ⟨rfl, hmem⟩ := hh
    obtain ⟨p, Q, hp, hQ, hav, hb, -⟩ := takeFrom?_eq_some h
    rw [hparent p Q hp hQ hav, statement?, Assoc.get?_of_mem hts hmem] at hb
    rw [← Option.some.inj hb, hid]
  | after owner =>
    obtain ⟨rfl, hnext⟩ := hh
    obtain ⟨p, Q, hp, hQ, hav, hb, -⟩ := takeFrom?_eq_some h
    rw [hparent p Q hp hQ hav, hnext] at hb
    rw [← Option.some.inj hb, hid]

/-! ## changing an owner -/

theorem changeParent_ok {w w' : Workspace} {parent : String} {change : Block → Block}
    {displaced : Block → List Block} (h : w.changeParent parent change displaced = .ok w') :
    ∃ (p : Block) (P : Place), p.id = parent ∧ P.fill p = w ∧ P.Avoids parent
      ∧ w' = ⟨(P.fill (change p)).blocks ++ displaced p⟩ := by
  unfold changeParent at h
  split at h
  next p changed hf hu =>
    cases h
    obtain ⟨rfl, P, rfl, hav⟩ := exists_place hf
    rw [Place.update?_fill P change p hav] at hu
    cases hu
    exact ⟨p, P, rfl, rfl, hav, rfl⟩
  next => cases h

/-- a change that adds the contents of `c` and displaces what it takes away -/
theorem changeParent_contents {w w' : Workspace} {parent : String} {change : Block → Block}
    {displaced : Block → List Block} {c : Block} (hw : w.Ordered)
    (hchange : ∀ p : Block, p.Ordered →
      (change p).contents + contents ⟨displaced p⟩ = p.contents + c.contents
        ∧ (change p).Ordered ∧ ∀ x ∈ displaced p, x.Ordered)
    (h : w.changeParent parent change displaced = .ok w') :
    w'.contents = w.contents + c.contents ∧ w'.Ordered := by
  obtain ⟨p, P, -, rfl, -, rfl⟩ := changeParent_ok h
  obtain ⟨hc, hoc, hod⟩ := hchange p (Place.ordered_of_fill hw)
  refine ⟨?_, fun x hx => ?_⟩
  · rw [contents_append, Place.contents_fill, Place.contents_fill, add_assoc, hc, add_assoc]
  · rcases List.mem_append.mp hx with hx | hx
    · exact Place.ordered_fill hw hoc x hx
    · exact hod x hx

/-! ## putting back -/

/-- the slot is empty: its socket is there, and nothing hangs in it -/
def Vacant (w : Workspace) : Slot → Prop
  | .top _ => True
  | .input owner socket => ∀ p, w.find? owner = some p → p.input? socket = none
  | .statement owner socket => ∀ p, w.find? owner = some p → p.statement? socket = none
  | .after owner => ∀ p, w.find? owner = some p → p.next = none

theorem putUnder_contents {w : Workspace} {b : Block} {owner : String} {change : Block → Block}
    (hw : w.Ordered) (hb : b.Ordered)
    (hchange : ∀ p : Block, p.Ordered → w.find? owner = some p →
      (change p).contents = p.contents + b.contents ∧ (change p).Ordered) :
    (putAt.putUnder w b owner change).contents = w.contents + b.contents
      ∧ (putAt.putUnder w b owner change).Ordered := by
  unfold putAt.putUnder
  cases hu : w.update? owner change with
  | none =>
    refine ⟨?_, fun x hx => ?_⟩
    · simp
    · rcases List.mem_append.mp hx with hx | hx
      · exact hw x hx
      · rw [List.mem_singleton.mp hx]
        exact hb
  | some w' =>
    obtain ⟨p, P, rfl, rfl, hav, rfl⟩ := update?_eq_some hu
    obtain ⟨hc, ho⟩ := hchange p (Place.ordered_of_fill hw) (Place.find?_fill P p hav)
    refine ⟨?_, Place.ordered_fill hw ho⟩
    rw [Option.getD_some, Place.contents_fill, Place.contents_fill, hc, add_assoc]

theorem putAt_contents {w : Workspace} {b : Block} {slot : Slot} (hw : w.Ordered) (hb : b.Ordered)
    (hv : w.Vacant slot) :
    (w.putAt b slot).contents = w.contents + b.contents ∧ (w.putAt b slot).Ordered := by
  cases slot with
  | top index =>
    refine ⟨?_, fun x hx => ?_⟩
    · have hperm := List.perm_insertIdx b w.blocks (Nat.min_le_right index w.blocks.length)
      have hflat := hperm.flatMap_right Block.records
      calc (w.putAt b (.top index)).contents = contents ⟨b :: w.blocks⟩ :=
            Multiset.coe_eq_coe.mpr hflat
        _ = w.contents + b.contents := by rw [contents_cons, add_comm]
    · rcases List.eq_or_mem_of_mem_insertIdx hx with rfl | hx
      · exact hb
      · exact hw x hx
  | input owner socket =>
    refine putUnder_contents hw hb (fun p hp hf => ⟨?_, hp.setInput hb⟩)
    have hc := contents_setInput (p := p) socket b hp
    rwa [hv p hf, nextContents_none, add_zero] at hc
  | statement owner socket =>
    refine putUnder_contents hw hb (fun p hp hf => ⟨?_, hp.setStatement hb⟩)
    have hc := contents_setStatement (p := p) socket b hp
    rwa [hv p hf, nextContents_none, add_zero] at hc
  | after owner =>
    refine putUnder_contents hw hb (fun p hp hf => ⟨?_, hp.setNext hb⟩)
    have hc := contents_setNext (p := p) (some b)
    rwa [hv p hf, nextContents_none, add_zero] at hc

/-- a slot is empty once its block has been taken out -/
theorem vacant_of_take? {w rest : Workspace} {slot : Slot} {b : Block} (hw : w.Ordered)
    (h : w.take? slot = some (b, rest)) : rest.Vacant slot := by
  cases slot with
  | top index => trivial
  | input owner socket =>
    obtain ⟨p, P, rfl, rfl, hav, -, rfl⟩ := takeFrom?_eq_some h
    intro q hq
    have hself := Place.find?_fill P { p with inputs := Assoc.erase socket p.inputs } hav
    rw [hself] at hq
    cases hq
    exact Assoc.get?_erase_self ((ordered_iff p).mp (Place.ordered_of_fill hw)).1.1
  | statement owner socket =>
    obtain ⟨p, P, rfl, rfl, hav, -, rfl⟩ := takeFrom?_eq_some h
    intro q hq
    have hself := Place.find?_fill P { p with statements := Assoc.erase socket p.statements } hav
    rw [hself] at hq
    cases hq
    exact Assoc.get?_erase_self ((ordered_iff p).mp (Place.ordered_of_fill hw)).1.2
  | after owner =>
    obtain ⟨p, P, rfl, rfl, hav, -, rfl⟩ := takeFrom?_eq_some h
    intro q hq
    have hself := Place.find?_fill P (p.setNext none) hav
    rw [show (p.setNext none).id = p.id from rfl] at hself
    rw [hself] at hq
    cases hq
    rfl

end VisualProgram.Workspace
