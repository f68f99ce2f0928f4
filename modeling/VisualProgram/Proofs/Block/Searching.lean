import VisualProgram.Proofs.Block.Context

/-!
# Searches and the walk

A search for an id, an edit by id and the search for a slot go through a tree each in its own way.  All three
are held against `walk`, which lists the blocks of a tree one by one, so an id may occur in it more than once.

* `walk_eq_flatMap_chain`, `find?_eq_findSome?_chain`, `slotOf?_eq_findSome?_chain`
                        each of them as a loop over the chain of the root, and over the sockets of each block of it;
* `exists_context_at`   every number in a walk is the position of a context: a block is told by its number even
                        where another block has its id;
* `Context.slot?`       the slot of the hole, which is the innermost around it;
* `slotOf?_fill`        a search for a slot comes to the slot of the hole if the id does not occur between the
                        root and the hole;
* `searches_agree`      the searches meet the same block, the first in the walk, or the first after the root.
-/

namespace VisualProgram.Block

theorem records_eq (b : Block) : b.records = b.record :: b.records.tail := by
  cases b
  rw [records_mk]
  rfl

theorem recordIds_records (b : Block) : recordIds b.records = b.ids := (ids_eq_records b).symm

@[simp] theorem contains_iff (b : Block) (id : String) : b.contains id = true ↔ id ∈ b.ids := by
  rw [contains, ← not_iff_not, Bool.not_eq_true, Option.isSome_eq_false_iff,
    Option.isNone_iff_eq_none, find?_eq_none_iff, recordIds_records]

/-! ## along the chain -/

/-- the blocks in the sockets of a block, value sockets first -/
def children (b : Block) : List Block := (b.inputs ++ b.statements).map Prod.snd

theorem walkSockets_eq (sockets : List (String × Block)) :
    walkSockets sockets = (sockets.map Prod.snd).flatMap walk := by
  induction sockets with
  | nil => rfl
  | cons entry rest ih =>
    obtain ⟨socket, child⟩ := entry
    rw [walkSockets, ih, List.map_cons, List.flatMap_cons]

theorem findSockets?_eq (wanted : String) (sockets : List (String × Block)) :
    findSockets? wanted sockets = (sockets.map Prod.snd).findSome? (find? wanted) := by
  induction sockets with
  | nil => rfl
  | cons entry rest ih =>
    obtain ⟨socket, child⟩ := entry
    rw [findSockets?, ih, List.map_cons, List.findSome?_cons]
    cases child.find? wanted <;> rfl

/-- the slot in which a block hangs is looked at before what is in the block -/
def slotAt? (wanted : String) (slot : String → Slot) (entry : String × Block) : Option Slot :=
  if entry.2.id = wanted then some (slot entry.1) else entry.2.slotOf? wanted

theorem slotIn?_eq (wanted : String) (slot : String → Slot) (sockets : List (String × Block)) :
    slotIn? wanted slot sockets = sockets.findSome? (slotAt? wanted slot) := by
  induction sockets with
  | nil => rfl
  | cons entry rest ih =>
    obtain ⟨socket, child⟩ := entry
    rw [slotIn?, ih, List.findSome?_cons, slotAt?]
    split
    next => rfl
    next => cases child.slotOf? wanted <;> rfl

mutual
theorem walk_eq_flatMap_chain : (b : Block) → b.walk = b.chain.flatMap fun x => x :: x.children.flatMap walk
  | ⟨id, tag, fields, inputs, statements, next⟩ => by
    rw [walk, chain, List.flatMap_cons, walkSockets_eq, walkSockets_eq, walkNext_eq_flatMap_chain next, children,
      List.map_append, List.flatMap_append]
    rfl

theorem walkNext_eq_flatMap_chain :
    (next : Option Block) → walkNext next = (chainNext next).flatMap fun x => x :: x.children.flatMap walk
  | none => rfl
  | some b => walk_eq_flatMap_chain b
end

mutual
theorem find?_eq_findSome?_chain (wanted : String) :
    (b : Block) → b.find? wanted
      = b.chain.findSome? fun x => if x.id = wanted then some x else x.children.findSome? (find? wanted)
  | ⟨id, tag, fields, inputs, statements, next⟩ => by
    rw [find?, chain, List.findSome?_cons, findSockets?_eq, findSockets?_eq, findNext?_eq_findSome?_chain wanted next,
      children, List.map_append, List.findSome?_append, ← Option.or_assoc]
    by_cases hid : id = wanted
    · rw [if_pos hid, if_pos hid]
    · rw [if_neg hid, if_neg hid]
      cases (List.findSome? _ (inputs.map Prod.snd)).or (List.findSome? _ (statements.map Prod.snd)) <;> rfl

theorem findNext?_eq_findSome?_chain (wanted : String) :
    (next : Option Block) → findNext? wanted next
      = (chainNext next).findSome? fun x => if x.id = wanted then some x else x.children.findSome? (find? wanted)
  | none => rfl
  | some b => find?_eq_findSome?_chain wanted b
end

/-- the slot of a block of an id, in a socket of `x` or right after it, if there is one -/
def slotNear? (wanted : String) (x : Block) : Option Slot :=
  ((x.inputs.findSome? (slotAt? wanted (.input x.id))).or
    (x.statements.findSome? (slotAt? wanted (.statement x.id)))).or
    (if x.next.any (·.id = wanted) then some (.after x.id) else none)

mutual
theorem slotOf?_eq_findSome?_chain (wanted : String) :
    (b : Block) → b.slotOf? wanted = b.chain.findSome? (slotNear? wanted)
  | ⟨id, tag, fields, inputs, statements, next⟩ => by
    rw [slotOf?, chain, List.findSome?_cons, slotIn?_eq, slotIn?_eq, slotAfter?_eq_findSome?_chain wanted id next,
      slotNear?, ← Option.or_assoc, ← Option.or_assoc]
    cases ((inputs.findSome? (slotAt? wanted (.input id))).or
      (statements.findSome? (slotAt? wanted (.statement id)))).or
      (if next.any (·.id = wanted) then some (.after id) else none) <;> rfl

theorem slotAfter?_eq_findSome?_chain (wanted owner : String) :
    (next : Option Block) → slotAfter? wanted owner next
      = (if next.any (·.id = wanted) then some (.after owner) else none).or
        ((chainNext next).findSome? (slotNear? wanted))
  | none => rfl
  | some b => by
    rw [slotAfter?, chainNext, ← slotOf?_eq_findSome?_chain wanted b, Option.any_some,
      if_congr decide_eq_true_iff rfl rfl]
    split <;> rfl
end

/-! ## a search for slots misses nothing -/

theorem mem_recordIds_records {wanted : String} {b : Block} :
    wanted ∈ recordIds b.records ↔ b.id = wanted ∨ wanted ∈ recordIds b.records.tail := by
  rw [records_eq, mem_recordIds_cons, List.tail_cons, eq_comm]
  rfl

/-- a block that hangs somewhere is looked at before what hangs in it -/
theorem slot_or_below_eq_none_iff {wanted : String} {b : Block}
    (hb : b.slotOf? wanted = none ↔ wanted ∉ recordIds b.records.tail) (here : Slot) :
    (if b.id = wanted then some here else b.slotOf? wanted) = none ↔ wanted ∉ recordIds b.records := by
  rw [mem_recordIds_records, not_or, ← hb]
  by_cases h : b.id = wanted <;> simp [h]

@[simp] theorem slotIn?_cons (wanted : String) (slot : String → Slot) (socket : String) (child : Block)
    (rest : List (String × Block)) :
    slotIn? wanted slot ((socket, child) :: rest)
      = (if child.id = wanted then some (slot socket) else child.slotOf? wanted).or
          (slotIn? wanted slot rest) := by
  rw [slotIn?]
  split <;> rfl

mutual
theorem slotOf?_eq_none_iff (wanted : String) :
    (b : Block) → (b.slotOf? wanted = none ↔ wanted ∉ recordIds b.records.tail)
  | ⟨id, tag, fields, inputs, statements, next⟩ => by
    have hi := slotIn?_eq_none_iff wanted (Slot.input id) inputs
    have hs := slotIn?_eq_none_iff wanted (Slot.statement id) statements
    have hn := slotAfter?_eq_none_iff wanted id next
    rw [slotOf?, records_mk, List.tail_cons, mem_recordIds_append, mem_recordIds_append, not_or, not_or,
      Option.or_eq_none_iff, Option.or_eq_none_iff, hi, hs, hn, and_assoc]

theorem slotIn?_eq_none_iff (wanted : String) (slot : String → Slot) :
    (sockets : List (String × Block)) →
      (slotIn? wanted slot sockets = none ↔ wanted ∉ recordIds (recordsSockets sockets))
  | [] => iff_of_true rfl (mem_recordIds_nil wanted)
  | (socket, child) :: rest => by
    have hc := slotOf?_eq_none_iff wanted child
    have hr := slotIn?_eq_none_iff wanted slot rest
    simp [slot_or_below_eq_none_iff hc, hr]

theorem slotAfter?_eq_none_iff (wanted owner : String) :
    (next : Option Block) →
      (slotAfter? wanted owner next = none ↔ wanted ∉ recordIds (recordsNext next))
  | none => iff_of_true rfl (mem_recordIds_nil wanted)
  | some b => by
    have hb := slotOf?_eq_none_iff wanted b
    simp [slotAfter?, slot_or_below_eq_none_iff hb]
end

/-! ## positions -/

namespace Context

/-- the number of the hole in a walk -/
def position (c : Context) : Nat := c.before.length

/-- the slot in which the hole hangs, none at the root -/
def slot? : Context → Option Slot
  | .hole => none
  | .input id _ _ _ socket inner _ _ _ => some (inner.slot?.getD (.input id socket))
  | .statement id _ _ _ _ socket inner _ _ => some (inner.slot?.getD (.statement id socket))
  | .after id _ _ _ _ inner => some (inner.slot?.getD (.after id))

theorem slot?_eq_none {c : Context} (h : c.slot? = none) : c = .hole := by
  cases c with
  | hole => rfl
  | _ => cases h

theorem slot?_of_position {c : Context} (h : c.position ≠ 0) : ∃ slot, c.slot? = some slot := by
  cases c with
  | hole => exact absurd rfl h
  | _ => exact ⟨_, rfl⟩

/-- the root comes before any hole below it -/
theorem id_fill_mem {c : Context} {slot : Slot} (h : c.slot? = some slot) (q : Block) :
    (c.fill q).id ∈ recordIds c.before := by
  cases c with
  | hole => cases h
  | _ => exact List.mem_cons_self

theorem getElem?_walk_fill (c : Context) (q : Block) : (c.fill q).walk[c.position]? = some q := by
  obtain ⟨left, right, hwalk, hleft⟩ := c.walk_fill q
  have hlength : c.position = left.length := by rw [position, ← hleft, List.length_map]
  rw [hwalk, hlength, List.append_assoc, List.getElem?_append_right (Nat.le_refl _), Nat.sub_self, walk_eq]
  rfl

theorem ids_fill (c : Context) (q : Block) :
    (c.fill q).ids = recordIds c.before ++ q.id :: (recordIds q.records.tail ++ recordIds c.rest) := by
  rw [← recordIds_records, records_fill, records_eq]
  simp [recordIds, record]

/-- a block that holds the tree around the hole in the slot `here` has the owner of the hole under it -/
theorem exists_owner_of_holds {c : Context} {q parent : Block} {here : Slot}
    (hheld : Holds parent (c.fill q) here)
    (howner : ∀ {slot}, c.slot? = some slot → ∃ owner ∈ (c.fill q).walk, Holds owner q slot) :
    ∃ owner ∈ parent.walk, Holds owner q (c.slot?.getD here) := by
  cases hs : c.slot? with
  | none =>
    obtain rfl := slot?_eq_none hs
    exact ⟨parent, self_mem_walk parent, hheld⟩
  | some slot =>
    obtain ⟨owner, hmem, hholds⟩ := howner hs
    exact ⟨owner, mem_walk_owner hheld hmem, hholds⟩

/-- what is in the slot of the hole is what the hole is filled with -/
theorem exists_owner {c : Context} {slot : Slot} (h : c.slot? = some slot) (q : Block) :
    ∃ owner ∈ (c.fill q).walk, Holds owner q slot := by
  induction c generalizing slot with
  | hole => cases h
  | input id tag fields left socket inner right statements next ih =>
    obtain rfl := Option.some.inj h
    exact exists_owner_of_holds ⟨rfl, List.mem_append_right left List.mem_cons_self⟩ ih
  | statement id tag fields inputs left socket inner right next ih =>
    obtain rfl := Option.some.inj h
    exact exists_owner_of_holds ⟨rfl, List.mem_append_right left List.mem_cons_self⟩ ih
  | after id tag fields inputs statements inner ih =>
    obtain rfl := Option.some.inj h
    exact exists_owner_of_holds ⟨rfl, rfl⟩ ih

end Context

mutual
theorem exists_context_at :
    (b : Block) → (i : Nat) → i < b.records.length →
      ∃ (c : Context) (p : Block), c.fill p = b ∧ c.position = i
  | _, 0, _ => ⟨.hole, _, rfl, rfl⟩
  | ⟨id, tag, fields, inputs, statements, next⟩, i + 1, h => by
    simp only [records_mk, List.length_cons, List.length_append] at h
    -- the numbers after that of the root belong to the inputs, then to the statements, then to the chain
    by_cases hi : i < (recordsSockets inputs).length
    · obtain ⟨left, socket, c, p, right, rfl, hat⟩ := exists_context_at_sockets inputs i hi
      refine ⟨.input id tag fields left socket c right statements next, p, rfl, ?_⟩
      simpa [Context.position, Context.before] using hat
    by_cases hs : i - (recordsSockets inputs).length < (recordsSockets statements).length
    · obtain ⟨left, socket, c, p, right, rfl, hat⟩ := exists_context_at_sockets statements _ hs
      refine ⟨.statement id tag fields inputs left socket c right next, p, rfl, ?_⟩
      simp only [Context.position, Context.before, List.length_cons, List.length_append] at hat ⊢
      omega
    · obtain ⟨c, p, rfl, hat⟩ := exists_context_at_next next
        (i - (recordsSockets inputs).length - (recordsSockets statements).length) (by omega)
      refine ⟨.after id tag fields inputs statements c, p, rfl, ?_⟩
      simp only [Context.position, Context.before, List.length_cons, List.length_append] at hat ⊢
      omega

theorem exists_context_at_sockets :
    (sockets : List (String × Block)) → (i : Nat) → i < (recordsSockets sockets).length →
      ∃ (left : List (String × Block)) (socket : String) (c : Context) (p : Block)
        (right : List (String × Block)), left ++ (socket, c.fill p) :: right = sockets
          ∧ (recordsSockets left).length + c.position = i
  | [], _, h => absurd h (Nat.not_lt_zero _)
  | (socket, child) :: rest, i, h => by
    rw [recordsSockets_cons, List.length_append] at h
    by_cases hc : i < child.records.length
    · obtain ⟨c, p, rfl, hat⟩ := exists_context_at child i hc
      exact ⟨[], socket, c, p, rest, rfl, (Nat.zero_add _).trans hat⟩
    · obtain ⟨left, s, c, p, right, rfl, hat⟩ :=
        exists_context_at_sockets rest (i - child.records.length) (by omega)
      refine ⟨(socket, child) :: left, s, c, p, right, rfl, ?_⟩
      rw [recordsSockets_cons, List.length_append]
      omega

theorem exists_context_at_next :
    (next : Option Block) → (i : Nat) → i < (recordsNext next).length →
      ∃ (c : Context) (p : Block), some (c.fill p) = next ∧ c.position = i
  | none, _, h => absurd h (Nat.not_lt_zero _)
  | some b, i, h => by
    obtain ⟨c, p, rfl, hat⟩ := exists_context_at b i h
    exact ⟨c, p, rfl, hat⟩
end

/-! ## the first block of an id -/

/-- an item with nothing like it before it is where the search for it ends -/
theorem eq_of_idxOf {before rest : List String} {x wanted : String}
    (h : (before ++ x :: rest).idxOf wanted = before.length) : x = wanted ∧ wanted ∉ before := by
  have hnew : wanted ∉ before := by
    intro hbefore
    rw [List.idxOf_append_of_mem hbefore] at h
    exact absurd (List.idxOf_lt_length_of_mem hbefore) (by omega)
  refine ⟨?_, hnew⟩
  rw [List.idxOf_append_of_notMem hnew] at h
  by_contra hne
  rw [List.idxOf_cons_ne rest hne] at h
  omega

@[simp] theorem length_ids (b : Block) : b.ids.length = b.records.length := by
  rw [← recordIds_records, recordIds, List.length_map]

theorem exists_first {b : Block} {wanted : String} (h : wanted ∈ b.ids) :
    ∃ (c : Context) (p : Block), c.fill p = b ∧ c.position = b.ids.idxOf wanted ∧ p.id = wanted
      ∧ c.Avoids wanted := by
  have hlt := List.idxOf_lt_length_of_mem h
  obtain ⟨c, p, rfl, hat⟩ := exists_context_at b _ (length_ids b ▸ hlt)
  refine ⟨c, p, rfl, hat, ?_⟩
  apply eq_of_idxOf
  rw [← Context.ids_fill, ← hat, Context.position, recordIds, List.length_map]

/-- the root aside -/
theorem exists_first_below {b : Block} {wanted : String} (h : wanted ∈ b.ids.tail) :
    ∃ (c : Context) (q : Block), c.fill q = b ∧ c.position = b.ids.tail.idxOf wanted + 1 ∧ q.id = wanted
      ∧ wanted ∉ recordIds c.before.tail := by
  have hlt := List.idxOf_lt_length_of_mem h
  rw [List.length_tail, length_ids] at hlt
  obtain ⟨c, q, rfl, hat⟩ := exists_context_at b (b.ids.tail.idxOf wanted + 1) (by omega)
  refine ⟨c, q, rfl, hat, ?_⟩
  -- the hole is not at the root, so the root is the first block before it
  have hne : recordIds c.before ≠ [] := by
    rw [ne_eq, recordIds, List.map_eq_nil_iff, ← List.length_eq_zero_iff]
    exact fun hzero => absurd (hzero.symm.trans hat) (by omega)
  have htail : (c.fill q).ids.tail = recordIds c.before.tail
      ++ q.id :: (recordIds q.records.tail ++ recordIds c.rest) := by
    rw [Context.ids_fill, List.tail_append_of_ne_nil hne, recordIds, ← List.map_tail]
    rfl
  apply eq_of_idxOf
  rw [← htail, recordIds, List.length_map, List.length_tail]
  exact Nat.eq_sub_of_add_eq hat.symm

theorem find?_eq_find?_walk (b : Block) (wanted : String) :
    b.find? wanted = b.walk.find? (fun x => x.id = wanted) := by
  by_cases h : wanted ∈ b.ids
  · obtain ⟨c, p, rfl, -, rfl, havoids⟩ := exists_first h
    obtain ⟨left, right, hwalk, hleft⟩ := c.walk_fill p
    have hnone : left.find? (fun x => x.id = p.id) = none := by
      rw [List.find?_eq_none]
      intro x hx hid
      refine havoids ?_
      rw [← hleft, recordIds, List.map_map]
      exact List.mem_map.mpr ⟨x, hx, of_decide_eq_true hid⟩
    rw [Context.find?_fill c p havoids, hwalk, List.append_assoc, List.find?_append, hnone, Option.none_or,
      walk_eq, List.cons_append, List.find?_cons_of_pos (by simp)]
  · have hnone : b.walk.find? (fun x => x.id = wanted) = none := by
      rw [List.find?_eq_none]
      intro x hx hid
      exact h (List.mem_map.mpr ⟨x, hx, of_decide_eq_true hid⟩)
    rw [hnone, find?_eq_none_iff]
    rwa [recordIds_records]

/-! ## the slot of the hole -/

theorem slotIn?_append_of_not_mem {wanted : String} {a : List (String × Block)}
    (h : wanted ∉ recordIds (recordsSockets a)) (slot : String → Slot) (b : List (String × Block)) :
    slotIn? wanted slot (a ++ b) = slotIn? wanted slot b := by
  induction a with
  | nil => rfl
  | cons entry rest ih =>
    obtain ⟨socket, child⟩ := entry
    rw [recordsSockets_cons, mem_recordIds_append, not_or] at h
    have hchild := (slot_or_below_eq_none_iff (slotOf?_eq_none_iff wanted child) (slot socket)).mpr h.1
    rw [List.cons_append, slotIn?_cons, hchild, Option.none_or, ih h.2]

namespace Context

theorem not_mem_tail {wanted : String} {rs : List Record} (h : wanted ∉ recordIds rs) :
    wanted ∉ recordIds rs.tail := by
  rw [recordIds, List.map_tail]
  exact fun hm => h (List.mem_of_mem_tail hm)

/-- the slot of the hole is `here`, or deeper if the hole is -/
theorem slot_or_below_fill {c : Context} {q : Block} (h : c.Avoids q.id)
    (hbelow : ∀ {slot}, q.id ∉ recordIds c.before.tail → c.slot? = some slot →
      (c.fill q).slotOf? q.id = some slot) (here : Slot) :
    (if (c.fill q).id = q.id then some here else (c.fill q).slotOf? q.id) = some (c.slot?.getD here) := by
  cases hs : c.slot? with
  | none =>
    obtain rfl := slot?_eq_none hs
    exact if_pos rfl
  | some slot =>
    -- the root of the tree around a deeper hole is before the hole, so it has another id
    have hid : (c.fill q).id ≠ q.id := fun he => h (he ▸ id_fill_mem hs q)
    rw [if_neg hid, hbelow (not_mem_tail h) hs]
    rfl

theorem slotOf?_fill {c : Context} {q : Block} {slot : Slot} (h : q.id ∉ recordIds c.before.tail)
    (hslot : c.slot? = some slot) : (c.fill q).slotOf? q.id = some slot := by
  induction c generalizing slot with
  | hole => cases hslot
  | input id tag fields left socket inner right statements next ih =>
    rw [before, List.tail_cons, mem_recordIds_append, not_or] at h
    rw [fill, slotOf?, slotIn?_append_of_not_mem h.1, slotIn?_cons, slot_or_below_fill h.2 ih, Option.some_or,
      Option.some_or]
    exact hslot
  | statement id tag fields inputs left socket inner right next ih =>
    rw [before, List.tail_cons, mem_recordIds_append, mem_recordIds_append, not_or, not_or] at h
    rw [fill, slotOf?, (slotIn?_eq_none_iff _ _ inputs).mpr h.1.1, slotIn?_append_of_not_mem h.1.2,
      slotIn?_cons, slot_or_below_fill h.2 ih, Option.none_or, Option.some_or, Option.some_or]
    exact hslot
  | after id tag fields inputs statements inner ih =>
    rw [before, List.tail_cons, mem_recordIds_append, mem_recordIds_append, not_or, not_or] at h
    rw [fill, slotOf?, (slotIn?_eq_none_iff _ _ inputs).mpr h.1.1, (slotIn?_eq_none_iff _ _ statements).mpr h.1.2,
      slotAfter?, slot_or_below_fill h.2 ih, Option.none_or, Option.none_or]
    exact hslot

end Context

/-! ## the searches agree -/

/-- the block with a number in the walk through a tree, and what is around it -/
structure IsAt (b : Block) (i : Nat) (c : Context) (p : Block) : Prop where
  fill : c.fill p = b
  position : c.position = i
  walk : b.walk[i]? = some p

theorem Context.isAt (c : Context) (p : Block) : (c.fill p).IsAt c.position c p :=
  ⟨rfl, rfl, c.getElem?_walk_fill p⟩

/-- a search and an edit come to the first block of an id -/
theorem exists_found {b : Block} {wanted : String} (h : wanted ∈ b.ids) :
    ∃ c p, b.IsAt (b.ids.idxOf wanted) c p ∧ b.find? wanted = some p
      ∧ ∀ change, b.update? wanted change = some (c.fill (change p)) := by
  obtain ⟨c, p, rfl, hat, rfl, havoids⟩ := exists_first h
  exact ⟨c, p, hat ▸ c.isAt p, c.find?_fill p havoids, fun change => c.update?_fill change p havoids⟩

theorem update?_eq_none_iff (b : Block) (wanted : String) (change : Block → Block) :
    b.update? wanted change = none ↔ wanted ∉ b.ids := by
  constructor
  · intro hnone h
    obtain ⟨c, p, -, -, hupdate⟩ := exists_found h
    rw [hupdate change] at hnone
    cases hnone
  · intro h
    rw [← recordIds_records] at h
    exact update?_eq_none wanted change b h

/-- a search for a slot comes to the first block of an id, the root aside -/
theorem exists_slot_found {b : Block} {wanted : String} (h : wanted ∈ b.ids.tail) :
    ∃ c q slot, b.IsAt (b.ids.tail.idxOf wanted + 1) c q ∧ q.id = wanted ∧ c.slot? = some slot
      ∧ (∃ owner ∈ b.walk, Holds owner q slot) ∧ b.slotOf? wanted = some slot := by
  obtain ⟨c, q, rfl, hat, rfl, hnew⟩ := exists_first_below h
  obtain ⟨slot, hslot⟩ : ∃ slot, c.slot? = some slot := Context.slot?_of_position (by omega)
  exact ⟨c, q, slot, hat ▸ c.isAt q, rfl, hslot, Context.exists_owner hslot q, Context.slotOf?_fill hnew hslot⟩

/-- each search goes through the chain of the root, and through the sockets of every block of it, as the walk does.
So all of them go by the walk: an id that does not occur is not found, otherwise the first block of the id is found,
and changed where it stands; a slot is that of the first block of the id below the root -/
theorem searches_agree (b : Block) (wanted : String) :
    b.walk = b.chain.flatMap (fun x => x :: x.children.flatMap walk)
    ∧ (b.find? wanted
      = b.chain.findSome? fun x => if x.id = wanted then some x else x.children.findSome? (find? wanted))
    ∧ b.slotOf? wanted = b.chain.findSome? (slotNear? wanted)
    ∧ b.find? wanted = b.walk.find? (fun x => x.id = wanted)
    ∧ (b.find? wanted = none ↔ wanted ∉ b.ids)
    ∧ (∀ change, b.update? wanted change = none ↔ wanted ∉ b.ids)
    ∧ (wanted ∈ b.ids → ∃ c p, b.IsAt (b.ids.idxOf wanted) c p ∧ b.find? wanted = some p
        ∧ ∀ change, b.update? wanted change = some (c.fill (change p)))
    ∧ (b.slotOf? wanted = none ↔ wanted ∉ b.ids.tail)
    ∧ (wanted ∈ b.ids.tail → ∃ c q slot, b.IsAt (b.ids.tail.idxOf wanted + 1) c q ∧ q.id = wanted
        ∧ c.slot? = some slot ∧ (∃ owner ∈ b.walk, Holds owner q slot) ∧ b.slotOf? wanted = some slot) := by
  refine ⟨walk_eq_flatMap_chain b, find?_eq_findSome?_chain wanted b, slotOf?_eq_findSome?_chain wanted b,
    find?_eq_find?_walk b wanted, ?_, update?_eq_none_iff b wanted, exists_found, ?_, exists_slot_found⟩
  · rw [find?_eq_none_iff, recordIds_records]
  · rw [slotOf?_eq_none_iff, recordIds, List.map_tail, ← ids_eq_records]

/-- a search finds the block in the socket, an edit changes it there, and the slot of the id of the root is that
of the block that has the same id -/
example :
    let b : Block := ⟨"a", "t", [], [("X", leaf "b" "u")], [("Y", leaf "b" "v")], some (leaf "a" "w")⟩
    b.find? "b" = some (leaf "b" "u")
    ∧ b.update? "b" (·.setField "F" .null)
      = some ⟨"a", "t", [], [("X", (leaf "b" "u").setField "F" .null)], [("Y", leaf "b" "v")], some (leaf "a" "w")⟩
    ∧ b.slotOf? "b" = some (.input "a" "X") ∧ b.slotOf? "a" = some (.after "a") := by decide

end VisualProgram.Block
