import VisualProgram.Proofs.Block.Links

/-!
# Cutting a block off, and the slots of its owner

`prune?` is the tree without the block of an id and all that block owns.  It looks at no slot, so it says
what an edit leaves behind wherever the block hangs.

* `child?`, `setChild`, `dropChild`  what is in a slot of an owner, the owner with another block there, and
                                     the owner with the slot empty, for all three kinds of slots; `refill`
                                     empties a slot and fills it again;
* `prune?_of_child`   cutting off a child empties its slot and does nothing else;
* `child?_of_prune?`  in every slot of a pruned owner is the pruned child;
* `mem_walk_prune?`   a block that is not under the one cut off stays, itself pruned;
* `links_setChild`    a block put into a slot brings its links and takes away the link of the slot;
* `row`               the blocks of a chain, each for itself: `append` puts one row after another.
-/

namespace VisualProgram

/-- the block that has the slot -/
def Slot.owner? : Slot → Option String
  | .top _ => none
  | .input owner _ => some owner
  | .statement owner _ => some owner
  | .after owner => some owner

namespace Block

/-! ## slots of an owner -/

/-- what hangs in a slot -/
def child? : Slot → Block → Option Block
  | .top _, _ => none
  | .input _ socket, p => p.input? socket
  | .statement _ socket, p => p.statement? socket
  | .after _, p => p.next

/-- the owner with a block in the slot -/
def setChild (child : Block) : Slot → Block → Block
  | .top _, p => p
  | .input _ socket, p => p.setInput socket child
  | .statement _ socket, p => p.setStatement socket child
  | .after _, p => p.setNext (some child)

/-- the owner with nothing in the slot -/
def dropChild : Slot → Block → Block
  | .top _, p => p
  | .input _ socket, p => { p with inputs := Assoc.erase socket p.inputs }
  | .statement _ socket, p => { p with statements := Assoc.erase socket p.statements }
  | .after _, p => p.setNext none

/-- the owner with another chain in the slot, or with nothing in it -/
def refill (slot : Slot) (next : Option Block) (p : Block) : Block :=
  next.elim (dropChild slot p) (setChild · slot (dropChild slot p))

section
variable {p child : Block} {slot : Slot} {owner : String}

theorem id_setChild (child : Block) (slot : Slot) (p : Block) : (setChild child slot p).id = p.id := by
  cases slot <;> rfl

theorem id_dropChild (slot : Slot) (p : Block) : (dropChild slot p).id = p.id := by
  cases slot <;> rfl

theorem id_refill (slot : Slot) (next : Option Block) (p : Block) : (refill slot next p).id = p.id := by
  cases next with
  | none => exact id_dropChild slot p
  | some b => exact (id_setChild b slot _).trans (id_dropChild slot p)

theorem Ordered.dropChild (h : p.Ordered) (slot : Slot) : (dropChild slot p).Ordered := by
  cases slot with
  | top index => exact h
  | input owner socket => exact h.eraseInput
  | statement owner socket => exact h.eraseStatement
  | after owner => exact h.setNext orderedNext_none

theorem child?_eq_of_holds (hp : p.Tidy) (h : Holds p child slot) : child? slot p = some child := by
  cases slot with
  | top index => exact h.elim
  | input owner socket => exact Assoc.get?_of_mem hp.1 h.2
  | statement owner socket => exact Assoc.get?_of_mem hp.2 h.2
  | after owner => exact h.2

theorem holds_of_child? (howner : slot.owner? = some p.id) (h : child? slot p = some child) :
    Holds p child slot := by
  cases slot with
  | top index => cases howner
  | input owner socket => exact ⟨(Option.some.inj howner).symm, Assoc.mem_of_get? h⟩
  | statement owner socket => exact ⟨(Option.some.inj howner).symm, Assoc.mem_of_get? h⟩
  | after owner => exact ⟨(Option.some.inj howner).symm, h⟩

theorem child?_setChild (howner : slot.owner? = some owner) (child p : Block) :
    child? slot (setChild child slot p) = some child := by
  cases slot with
  | top index => cases howner
  | input owner socket => exact (Assoc.get?_insert _ _ _ _).trans (if_pos rfl)
  | statement owner socket => exact (Assoc.get?_insert _ _ _ _).trans (if_pos rfl)
  | after owner => rfl

theorem child?_dropChild (hp : p.Tidy) (slot : Slot) : child? slot (dropChild slot p) = none := by
  cases slot with
  | top index => rfl
  | input owner socket => exact Assoc.get?_erase_self hp.1
  | statement owner socket => exact Assoc.get?_erase_self hp.2
  | after owner => rfl

theorem child?_refill (hp : p.Tidy) (howner : slot.owner? = some owner) (next : Option Block) :
    child? slot (refill slot next p) = next := by
  cases next with
  | none => exact child?_dropChild hp slot
  | some b => exact child?_setChild howner b _

theorem setChild_dropChild (hp : p.Tidy) (h : child? slot p = some child) :
    setChild child slot (dropChild slot p) = p := by
  obtain ⟨id, tag, fields, inputs, statements, next⟩ := p
  cases slot with
  | top index => cases h
  | input owner socket =>
    exact congrArg (fun i => (⟨id, tag, fields, i, statements, next⟩ : Block)) (Assoc.insert_erase hp.1 h)
  | statement owner socket =>
    exact congrArg (fun s => (⟨id, tag, fields, inputs, s, next⟩ : Block)) (Assoc.insert_erase hp.2 h)
  | after owner => exact congrArg (fun n => (⟨id, tag, fields, inputs, statements, n⟩ : Block)) h.symm

/-! ## links of an owner -/

theorem links_setStatement (socket : String) (head : Block) (h : p.Ordered) :
    (p.setStatement socket head).links + linksNext (.statement p.id socket) (p.statement? socket)
      = (.statement p.id socket, head.id) ::ₘ head.links + p.links := by
  have hl := linksSockets_insert (.statement p.id) socket head ((ordered_iff p).mp h).1.2
  rw [links_eq p, links_eq (p.setStatement socket head)]
  simp only [setStatement, statement?]
  calc linksSockets (.input p.id) p.inputs
        + linksSockets (.statement p.id) (Assoc.insert socket head p.statements)
        + linksNext (.after p.id) p.next
        + linksNext (.statement p.id socket) (Assoc.get? socket p.statements)
      = linksSockets (.statement p.id) (Assoc.insert socket head p.statements)
        + linksNext (.statement p.id socket) (Assoc.get? socket p.statements)
        + linksSockets (.input p.id) p.inputs + linksNext (.after p.id) p.next := by ac_rfl
    _ = _ := by rw [hl]; ac_rfl

theorem links_setNext (next : Option Block) :
    (p.setNext next).links + linksNext (.after p.id) p.next = linksNext (.after p.id) next + p.links := by
  rw [links_eq p, links_eq (p.setNext next)]
  simp only [setNext]
  ac_rfl

theorem links_setChild (hp : p.Ordered) (howner : slot.owner? = some p.id) (child : Block) :
    (setChild child slot p).links + linksNext slot (child? slot p)
      = (slot, child.id) ::ₘ child.links + p.links := by
  cases slot with
  | top index => cases howner
  | input owner socket =>
    cases howner
    exact links_setInput socket child hp
  | statement owner socket =>
    cases howner
    exact links_setStatement socket child hp
  | after owner =>
    cases howner
    exact links_setNext (some child)

theorem links_refill (hp : p.Ordered) (howner : slot.owner? = some p.id) (next : Option Block) :
    (refill slot next p).links = linksNext slot next + (dropChild slot p).links := by
  cases next with
  | none => exact (zero_add _).symm
  | some b =>
    have hset := links_setChild (hp.dropChild slot) (id_dropChild slot p ▸ howner) b
    rw [child?_dropChild ((ordered_iff p).mp hp).1, linksNext, add_zero] at hset
    exact hset

end

/-! ## pruning -/

mutual
/-- the tree without the block of an id and all it owns; nothing is left if the root has the id -/
def prune? (cut : String) : Block → Option Block
  | ⟨id, tag, fields, inputs, statements, next⟩ =>
    if id = cut then none
    else some ⟨id, tag, fields, pruneSockets cut inputs, pruneSockets cut statements, pruneNext? cut next⟩

def pruneSockets (cut : String) : List (String × Block) → List (String × Block)
  | [] => []
  | (socket, child) :: rest =>
    match child.prune? cut with
    | none => pruneSockets cut rest
    | some child => (socket, child) :: pruneSockets cut rest

def pruneNext? (cut : String) : Option Block → Option Block
  | none => none
  | some b => b.prune? cut
end

section
variable {cut : String}

theorem prune?_eq_none_iff {b : Block} : b.prune? cut = none ↔ b.id = cut := by
  cases b
  rw [prune?]
  split
  · next h => exact ⟨fun _ => h, fun _ => rfl⟩
  · next h => exact ⟨nofun, fun e => absurd e h⟩

theorem id_of_prune? {b b' : Block} (h : b.prune? cut = some b') : b'.id = b.id := by
  cases b
  rw [prune?] at h
  split at h
  · cases h
  · cases h
    rfl

theorem pruneNext?_eq_bind (next : Option Block) : pruneNext? cut next = next.bind (prune? cut) := by
  cases next <;> rfl

@[simp] theorem pruneSockets_cons (socket : String) (child : Block) (rest : List (String × Block)) :
    pruneSockets cut ((socket, child) :: rest)
      = ((child.prune? cut).map fun kept => (socket, kept)).toList ++ pruneSockets cut rest := by
  rw [pruneSockets]
  cases child.prune? cut <;> rfl

@[simp] theorem pruneSockets_append (a b : List (String × Block)) :
    pruneSockets cut (a ++ b) = pruneSockets cut a ++ pruneSockets cut b := by
  induction a with
  | nil => rfl
  | cons entry rest ih =>
    obtain ⟨socket, child⟩ := entry
    simp [ih]

mutual
theorem prune?_of_not_mem : (b : Block) → cut ∉ recordIds b.records → b.prune? cut = some b
  | ⟨id, tag, fields, inputs, statements, next⟩, h => by
    simp only [records_mk, mem_recordIds_cons, mem_recordIds_append, not_or] at h
    obtain ⟨hid, ⟨hi, hs⟩, hn⟩ := h
    rw [prune?, if_neg (fun e => hid e.symm), pruneSockets_of_not_mem inputs hi,
      pruneSockets_of_not_mem statements hs, pruneNext?_of_not_mem next hn]

theorem pruneSockets_of_not_mem : (sockets : List (String × Block)) →
    cut ∉ recordIds (recordsSockets sockets) → pruneSockets cut sockets = sockets
  | [], _ => rfl
  | (socket, child) :: rest, h => by
    rw [recordsSockets_cons, mem_recordIds_append, not_or] at h
    rw [pruneSockets, prune?_of_not_mem child h.1, pruneSockets_of_not_mem rest h.2]

theorem pruneNext?_of_not_mem : (next : Option Block) → cut ∉ recordIds (recordsNext next) →
    pruneNext? cut next = next
  | none, _ => rfl
  | some b, h => prune?_of_not_mem b h
end

theorem get?_pruneSockets {sockets : List (String × Block)} (h : Assoc.Increasing sockets)
    (socket : String) :
    Assoc.get? socket (pruneSockets cut sockets) = (Assoc.get? socket sockets).bind (prune? cut) := by
  induction sockets with
  | nil => rfl
  | cons entry rest ih =>
    obtain ⟨k, child⟩ := entry
    obtain ⟨hlt, hrest⟩ := Assoc.increasing_cons.mp h
    rw [pruneSockets, Assoc.get?_cons]
    by_cases hk : k = socket
    · subst hk
      rw [if_pos rfl, Option.bind_some]
      cases hc : child.prune? cut with
      | some kept => rw [Assoc.get?_cons, if_pos rfl]
      | none =>
        -- the name does not come again in the rest
        rw [ih hrest, Assoc.get?_eq_none_of_lt hlt, Option.bind_none]
    · rw [if_neg hk, ← ih hrest]
      cases child.prune? cut with
      | some kept => rw [Assoc.get?_cons, if_neg hk]
      | none => rfl

theorem child?_of_prune? {p p' : Block} (hp : p.Tidy) (h : p.prune? cut = some p') (slot : Slot) :
    child? slot p' = (child? slot p).bind (prune? cut) := by
  obtain ⟨id, tag, fields, inputs, statements, next⟩ := p
  rw [prune?] at h
  split at h
  · cases h
  · cases h
    cases slot with
    | top index => rfl
    | input owner socket => exact get?_pruneSockets hp.1 socket
    | statement owner socket => exact get?_pruneSockets hp.2 socket
    | after owner => exact pruneNext?_eq_bind next

/-! ## cutting off a child -/

theorem id_mem_recordsSockets {socket : String} {child : Block} {sockets : List (String × Block)}
    (h : (socket, child) ∈ sockets) : child.id ∈ recordIds (recordsSockets sockets) := by
  obtain ⟨left, right, rfl⟩ := List.append_of_mem h
  rw [recordsSockets_append, recordsSockets_cons, mem_recordIds_append, mem_recordIds_append]
  exact .inr (.inl (id_mem_records child))

theorem pruneSockets_of_get? {socket : String} {child : Block} {sockets : List (String × Block)}
    (hids : (recordIds (recordsSockets sockets)).Nodup) (h : Assoc.get? socket sockets = some child) :
    pruneSockets child.id sockets = Assoc.erase socket sockets := by
  induction sockets with
  | nil => cases h
  | cons entry rest ih =>
    obtain ⟨k, v⟩ := entry
    rw [recordsSockets_cons, recordIds, List.map_append, List.nodup_append'] at hids
    obtain ⟨-, hrest, hdisjoint⟩ := hids
    rw [Assoc.get?_cons] at h
    rw [pruneSockets, Assoc.erase]
    by_cases hk : k = socket
    · rw [if_pos hk] at h ⊢
      cases h
      rw [prune?_eq_none_iff.mpr rfl]
      exact pruneSockets_of_not_mem rest fun hm => hdisjoint (id_mem_records child) hm
    · rw [if_neg hk] at h ⊢
      have hm := id_mem_recordsSockets (Assoc.mem_of_get? h)
      rw [prune?_of_not_mem v fun hv => hdisjoint hv hm, ih hrest h]

/-- no id occurs twice, so the id of a child occurs in its own slot only -/
theorem prune?_of_child {p child : Block} {slot : Slot} (hids : (recordIds p.records).Nodup)
    (h : child? slot p = some child) : p.prune? child.id = some (dropChild slot p) := by
  obtain ⟨id, tag, fields, inputs, statements, next⟩ := p
  simp only [records_mk, recordIds, List.map_cons, List.map_append, List.nodup_cons, List.nodup_append',
    List.mem_append, not_or, List.disjoint_append_left] at hids
  obtain ⟨⟨⟨hi, hs⟩, hn⟩, ⟨hni, hns, his⟩, -, hin, hsn⟩ := hids
  rw [prune?]
  cases slot with
  | top index => cases h
  | input owner socket =>
    have hm := id_mem_recordsSockets (Assoc.mem_of_get? h)
    rw [if_neg fun e : id = child.id => hi (e ▸ hm), pruneSockets_of_get? hni h,
      pruneSockets_of_not_mem statements fun hm' => his hm hm',
      pruneNext?_of_not_mem next fun hm' => hin hm hm']
    rfl
  | statement owner socket =>
    have hm := id_mem_recordsSockets (Assoc.mem_of_get? h)
    rw [if_neg fun e : id = child.id => hs (e ▸ hm), pruneSockets_of_get? hns h,
      pruneSockets_of_not_mem inputs fun hm' => his hm' hm,
      pruneNext?_of_not_mem next fun hm' => hsn hm hm']
    rfl
  | after owner =>
    obtain rfl : next = some child := h
    have hm : child.id ∈ recordIds (recordsNext (some child)) := id_mem_records child
    rw [if_neg fun e : id = child.id => hn (e ▸ hm), pruneSockets_of_not_mem inputs fun hm' => hin hm' hm,
      pruneSockets_of_not_mem statements fun hm' => hsn hm' hm, pruneNext?, prune?_eq_none_iff.mpr rfl]
    rfl

/-- an id that occurs in the hole only is cut off there -/
theorem prune?_fill (c : Context) {q q' : Block} (hbefore : cut ∉ recordIds c.before)
    (hrest : cut ∉ recordIds c.rest) (h : q.prune? cut = some q') :
    (c.fill q).prune? cut = some (c.fill q') := by
  induction c with
  | hole => exact h
  | input id tag fields left socket inner right statements next ih =>
    simp only [Context.before, Context.rest, mem_recordIds_cons, mem_recordIds_append, not_or]
      at hbefore hrest
    obtain ⟨hid, hl, hb⟩ := hbefore
    obtain ⟨⟨⟨hr, hright⟩, hs⟩, hn⟩ := hrest
    rw [Context.fill, prune?, if_neg (fun e => hid e.symm), pruneSockets_append, pruneSockets,
      pruneSockets_of_not_mem left hl, ih hb hr, pruneSockets_of_not_mem right hright,
      pruneSockets_of_not_mem statements hs, pruneNext?_of_not_mem next hn]
    rfl
  | statement id tag fields inputs left socket inner right next ih =>
    simp only [Context.before, Context.rest, mem_recordIds_cons, mem_recordIds_append, not_or]
      at hbefore hrest
    obtain ⟨hid, ⟨hi, hl⟩, hb⟩ := hbefore
    obtain ⟨⟨hr, hright⟩, hn⟩ := hrest
    rw [Context.fill, prune?, if_neg (fun e => hid e.symm), pruneSockets_append, pruneSockets,
      pruneSockets_of_not_mem inputs hi, pruneSockets_of_not_mem left hl, ih hb hr,
      pruneSockets_of_not_mem right hright, pruneNext?_of_not_mem next hn]
    rfl
  | after id tag fields inputs statements inner ih =>
    simp only [Context.before, Context.rest, mem_recordIds_cons, mem_recordIds_append, not_or]
      at hbefore hrest
    obtain ⟨hid, ⟨hi, hs⟩, hb⟩ := hbefore
    rw [Context.fill, prune?, if_neg (fun e => hid e.symm), pruneSockets_of_not_mem inputs hi,
      pruneSockets_of_not_mem statements hs, pruneNext?, ih hb hrest]
    rfl

/-! ## what stays -/

/-- the block is not under one of the id that is cut off -/
def Spared (cut : String) (blocks : List Block) (x : Block) : Prop :=
  ∀ y ∈ blocks, y.id = cut → x ∉ y.walk

mutual
theorem mem_walk_prune? {x : Block} : (b : Block) → x ∈ b.walk → Spared cut b.walk x →
    ∃ b' x', b.prune? cut = some b' ∧ x.prune? cut = some x' ∧ x' ∈ b'.walk
  | ⟨id, tag, fields, inputs, statements, next⟩, hx, hspared => by
    have hid : ¬ id = cut := fun e => hspared _ (by rw [walk]; exact List.mem_cons_self) e hx
    have hprune : prune? cut ⟨id, tag, fields, inputs, statements, next⟩ = some ⟨id, tag, fields,
        pruneSockets cut inputs, pruneSockets cut statements, pruneNext? cut next⟩ := by
      rw [prune?, if_neg hid]
    rw [walk] at hx hspared
    rcases List.mem_cons.mp hx with rfl | hx
    · exact ⟨_, _, hprune, hprune, by rw [walk]; exact List.mem_cons_self⟩
    have hunder : ∀ blocks, (∀ y ∈ blocks, y ∈ walkSockets inputs ++ walkSockets statements ++ walkNext next) →
        Spared cut blocks x := fun blocks hb y hy => hspared y (List.mem_cons_of_mem _ (hb y hy))
    rcases List.mem_append.mp hx with hx | hx
    · rcases List.mem_append.mp hx with hx | hx
      · obtain ⟨x', hx', hm⟩ := mem_walk_pruneSockets inputs hx (hunder _ fun y hy => by simp [hy])
        exact ⟨_, x', hprune, hx', by simp [walk, hm]⟩
      · obtain ⟨x', hx', hm⟩ := mem_walk_pruneSockets statements hx (hunder _ fun y hy => by simp [hy])
        exact ⟨_, x', hprune, hx', by simp [walk, hm]⟩
    · obtain ⟨x', hx', hm⟩ := mem_walk_pruneNext? next hx (hunder _ fun y hy => by simp [hy])
      exact ⟨_, x', hprune, hx', by simp [walk, hm]⟩

theorem mem_walk_pruneSockets {x : Block} : (sockets : List (String × Block)) → x ∈ walkSockets sockets →
    Spared cut (walkSockets sockets) x →
    ∃ x', x.prune? cut = some x' ∧ x' ∈ walkSockets (pruneSockets cut sockets)
  | [], hx, _ => by cases hx
  | (socket, child) :: rest, hx, hspared => by
    rw [walkSockets] at hx hspared
    rcases List.mem_append.mp hx with hx | hx
    · obtain ⟨child', x', hchild, hx', hm⟩ :=
        mem_walk_prune? child hx fun y hy => hspared y (List.mem_append_left _ hy)
      refine ⟨x', hx', ?_⟩
      rw [pruneSockets, hchild, walkSockets]
      exact List.mem_append_left _ hm
    · obtain ⟨x', hx', hm⟩ :=
        mem_walk_pruneSockets rest hx fun y hy => hspared y (List.mem_append_right _ hy)
      refine ⟨x', hx', ?_⟩
      rw [pruneSockets]
      cases child.prune? cut with
      | none => exact hm
      | some child' =>
        rw [walkSockets]
        exact List.mem_append_right _ hm

theorem mem_walk_pruneNext? {x : Block} : (next : Option Block) → x ∈ walkNext next →
    Spared cut (walkNext next) x → ∃ x', x.prune? cut = some x' ∧ x' ∈ walkNext (pruneNext? cut next)
  | none, hx, _ => by cases hx
  | some b, hx, hspared => by
    obtain ⟨b', x', hb', hx', hm⟩ := mem_walk_prune? b hx hspared
    exact ⟨x', hx', by rw [pruneNext?, hb']; exact hm⟩
end

end

/-! ## chains -/

/-- the blocks of a chain, each without the ones after it -/
def row (head : Option Block) : List Block := (chainOf head).map (·.setNext none)

@[simp] theorem row_some (b : Block) : row (some b) = b.setNext none :: row b.next := by
  obtain ⟨id, tag, fields, inputs, statements, next⟩ := b
  rw [row, chainOf, Option.elim_some, chain, List.map_cons]
  cases next <;> rfl

mutual
theorem row_append (tail : Block) : (b : Block) → row (some (b.append tail)) = row (some b) ++ row (some tail)
  | ⟨id, tag, fields, inputs, statements, next⟩ => by
    have hn := row_appendNext tail next
    rw [append, row_some, row_some ⟨id, tag, fields, inputs, statements, next⟩, hn]
    rfl

theorem row_appendNext (tail : Block) : (next : Option Block) →
    row (some (appendNext next tail)) = row next ++ row (some tail)
  | none => rfl
  | some b => row_append tail b
end

theorem row_appendOption (b : Block) (tail : Option Block) :
    row (some (b.appendOption tail)) = row (some b) ++ row tail := by
  cases tail with
  | none => exact (List.append_nil _).symm
  | some t => exact row_append t b

theorem id_appendOption (b : Block) (tail : Option Block) : (b.appendOption tail).id = b.id := by
  cases tail with
  | none => rfl
  | some t => cases b; rfl

mutual
/-- the tail goes into one slot, and all other links stay -/
theorem links_append (tail : Block) : (b : Block) →
    ∃ slot, (b.append tail).links = b.links + linksNext slot (some tail)
  | ⟨id, tag, fields, inputs, statements, next⟩ => by
    obtain ⟨slot, hslot⟩ := links_appendNext tail (.after id) next
    refine ⟨slot, ?_⟩
    rw [append, links, links, hslot, ← add_assoc]

theorem links_appendNext (tail : Block) (first : Slot) : (next : Option Block) →
    ∃ slot, linksNext first (some (appendNext next tail)) = linksNext first next + linksNext slot (some tail)
  | none => ⟨first, (zero_add _).symm⟩
  | some b => by
    obtain ⟨slot, hslot⟩ := links_append tail b
    have hid : (b.append tail).id = b.id := id_appendOption b (some tail)
    exact ⟨slot, by rw [appendNext, linksNext, linksNext, hslot, hid, Multiset.cons_add]⟩
end

theorem links_appendOption (b : Block) (tail : Option Block) :
    ∃ slot, (b.appendOption tail).links = b.links + linksNext slot tail := by
  cases tail with
  | none => exact ⟨.top 0, (add_zero _).symm⟩
  | some t => exact links_append t b

end Block
end VisualProgram
