import VisualProgram.Block
import Mathlib.Data.List.Basic

/-!
# A block inside its tree

`Context` is a tree with one block left out: `fill` puts a block into the hole.  The records of a
filled tree are those `before` the hole, those of the block, and those `after` it, in the order of
`walk`.

* `find?_fill`, `update?_fill`   an id that does not occur before the hole is found in the hole, and
                                 changed there;
* `exists_context`               every search that succeeds comes from such a context;
* `exists_slot`                  a slot names an owner, which has a context, and the block it holds.

So a statement on a search or an edit deep in a tree is one on `fill`, by induction on the context.
-/

namespace VisualProgram

/-- what an edit of the structure leaves alone in a block: its id, its tag and its fields -/
abbrev Record := String × String × List (String × Json)

namespace Block

def record (b : Block) : Record := (b.id, b.tag, b.fields)

/-! ## records of a tree -/

def records (b : Block) : List Record := b.walk.map record
def recordsSockets (sockets : List (String × Block)) : List Record :=
  (walkSockets sockets).map record
def recordsNext (next : Option Block) : List Record := (walkNext next).map record

@[simp] theorem records_mk (id tag : String) (fields : List (String × Json))
    (inputs statements : List (String × Block)) (next : Option Block) :
    records ⟨id, tag, fields, inputs, statements, next⟩
      = (id, tag, fields)
        :: (recordsSockets inputs ++ recordsSockets statements ++ recordsNext next) := by
  simp [records, walk, record, recordsSockets, recordsNext]

@[simp] theorem recordsSockets_nil : recordsSockets [] = [] := rfl

@[simp] theorem recordsSockets_cons (socket : String) (child : Block) (rest : List (String × Block)) :
    recordsSockets ((socket, child) :: rest) = child.records ++ recordsSockets rest := by
  simp [recordsSockets, walkSockets, records]

@[simp] theorem recordsSockets_append (a b : List (String × Block)) :
    recordsSockets (a ++ b) = recordsSockets a ++ recordsSockets b := by
  induction a with
  | nil => rfl
  | cons entry rest ih =>
    obtain ⟨socket, child⟩ := entry
    simp [ih]

@[simp] theorem recordsNext_none : recordsNext none = [] := rfl
@[simp] theorem recordsNext_some (b : Block) : recordsNext (some b) = b.records := rfl

theorem ids_eq_records (b : Block) : b.ids = b.records.map Prod.fst := by
  simp [ids, records, record]

/-- the ids of some records -/
def recordIds (rs : List Record) : List String := rs.map Prod.fst

@[simp] theorem mem_recordIds_nil (wanted : String) : ¬ wanted ∈ recordIds [] := by simp [recordIds]
@[simp] theorem mem_recordIds_cons (wanted : String) (r : Record) (rs : List Record) :
    wanted ∈ recordIds (r :: rs) ↔ wanted = r.1 ∨ wanted ∈ recordIds rs := by simp [recordIds]
@[simp] theorem mem_recordIds_append (wanted : String) (a b : List Record) :
    wanted ∈ recordIds (a ++ b) ↔ wanted ∈ recordIds a ∨ wanted ∈ recordIds b := by simp [recordIds]

theorem id_mem_records (b : Block) : b.id ∈ recordIds b.records := by
  cases b
  rw [records_mk, mem_recordIds_cons]
  exact .inl rfl

/-! ## searching and changing what is not there -/

mutual
theorem find?_eq_none_iff (wanted : String) :
    (b : Block) → (b.find? wanted = none ↔ wanted ∉ recordIds b.records)
  | ⟨id, tag, fields, inputs, statements, next⟩ => by
    have hi := findSockets?_eq_none_iff wanted inputs
    have hs := findSockets?_eq_none_iff wanted statements
    have hn := findNext?_eq_none_iff wanted next
    rw [find?, records_mk]
    by_cases h : id = wanted
    · simp [h, mem_recordIds_cons]
    · have h' : ¬ wanted = id := fun e => h e.symm
      simp only [mem_recordIds_cons, mem_recordIds_append, not_or, if_neg h, h', not_false_eq_true,
        true_and, Option.or_eq_none_iff, hi, hs, hn, and_assoc]

theorem findSockets?_eq_none_iff (wanted : String) :
    (sockets : List (String × Block)) →
      (findSockets? wanted sockets = none ↔ wanted ∉ recordIds (recordsSockets sockets))
  | [] => by simp [findSockets?, recordsSockets_nil, mem_recordIds_nil]
  | (socket, child) :: rest => by
    have hc := find?_eq_none_iff wanted child
    have hr := findSockets?_eq_none_iff wanted rest
    simp [findSockets?, hc, hr]

theorem findNext?_eq_none_iff (wanted : String) :
    (next : Option Block) → (findNext? wanted next = none ↔ wanted ∉ recordIds (recordsNext next))
  | none => by simp [findNext?, recordsNext_none, mem_recordIds_nil]
  | some b => by rw [findNext?, recordsNext_some]; exact find?_eq_none_iff wanted b
end

mutual
theorem update?_eq_none (wanted : String) (change : Block → Block) :
    (b : Block) → wanted ∉ recordIds b.records → b.update? wanted change = none
  | ⟨id, tag, fields, inputs, statements, next⟩, h => by
    simp only [records_mk, mem_recordIds_cons, mem_recordIds_append, not_or] at h
    obtain ⟨hid, ⟨hi, hs⟩, hn⟩ := h
    rw [update?, if_neg (fun e => hid e.symm), updateSockets?_eq_none wanted change inputs hi,
      updateSockets?_eq_none wanted change statements hs, updateNext?_eq_none wanted change next hn]
    rfl

theorem updateSockets?_eq_none (wanted : String) (change : Block → Block) :
    (sockets : List (String × Block)) → wanted ∉ recordIds (recordsSockets sockets) →
      updateSockets? wanted change sockets = none
  | [], _ => rfl
  | (socket, child) :: rest, h => by
    rw [recordsSockets_cons, mem_recordIds_append, not_or] at h
    rw [updateSockets?, update?_eq_none wanted change child h.1,
      updateSockets?_eq_none wanted change rest h.2]
    rfl

theorem updateNext?_eq_none (wanted : String) (change : Block → Block) :
    (next : Option Block) → wanted ∉ recordIds (recordsNext next) →
      updateNext? wanted change next = none
  | none, _ => rfl
  | some b, h => by rw [updateNext?]; exact update?_eq_none wanted change b h
end

theorem findSockets?_append (wanted : String) (a b : List (String × Block)) :
    findSockets? wanted (a ++ b) = (findSockets? wanted a).or (findSockets? wanted b) := by
  induction a with
  | nil => rfl
  | cons entry rest ih =>
    obtain ⟨socket, child⟩ := entry
    rw [List.cons_append, findSockets?, findSockets?, ih, Option.or_assoc]

theorem updateSockets?_append_of_not_mem (wanted : String) (change : Block → Block)
    (a b : List (String × Block)) (h : wanted ∉ recordIds (recordsSockets a)) :
    updateSockets? wanted change (a ++ b) = (updateSockets? wanted change b).map (a ++ ·) := by
  induction a with
  | nil => simp
  | cons entry rest ih =>
    obtain ⟨socket, child⟩ := entry
    rw [recordsSockets_cons, mem_recordIds_append, not_or] at h
    rw [List.cons_append, updateSockets?, update?_eq_none wanted change child h.1, ih h.2]
    simp [Option.map_map, Function.comp_def]

/-! ## contexts -/

inductive Context where
  | hole
  | input (id tag : String) (fields : List (String × Json)) (left : List (String × Block))
      (socket : String) (inner : Context) (right statements : List (String × Block))
      (next : Option Block)
  | statement (id tag : String) (fields : List (String × Json)) (inputs left : List (String × Block))
      (socket : String) (inner : Context) (right : List (String × Block)) (next : Option Block)
  | after (id tag : String) (fields : List (String × Json)) (inputs statements : List (String × Block))
      (inner : Context)

namespace Context

def fill : Context → Block → Block
  | .hole, q => q
  | .input id tag fields left socket inner right statements next, q =>
    ⟨id, tag, fields, left ++ (socket, inner.fill q) :: right, statements, next⟩
  | .statement id tag fields inputs left socket inner right next, q =>
    ⟨id, tag, fields, inputs, left ++ (socket, inner.fill q) :: right, next⟩
  | .after id tag fields inputs statements inner, q =>
    ⟨id, tag, fields, inputs, statements, some (inner.fill q)⟩

/-- the records that a walk meets before the hole -/
def before : Context → List Record
  | .hole => []
  | .input id tag fields left _ inner _ _ _ =>
    (id, tag, fields) :: (recordsSockets left ++ inner.before)
  | .statement id tag fields inputs left _ inner _ _ =>
    (id, tag, fields) :: (recordsSockets inputs ++ recordsSockets left ++ inner.before)
  | .after id tag fields inputs statements inner =>
    (id, tag, fields) :: (recordsSockets inputs ++ recordsSockets statements ++ inner.before)

/-- the records that a walk meets after the hole -/
def rest : Context → List Record
  | .hole => []
  | .input _ _ _ _ _ inner right statements next =>
    inner.rest ++ recordsSockets right ++ recordsSockets statements ++ recordsNext next
  | .statement _ _ _ _ _ _ inner right next => inner.rest ++ recordsSockets right ++ recordsNext next
  | .after _ _ _ _ _ inner => inner.rest

theorem records_fill (c : Context) (q : Block) :
    (c.fill q).records = c.before ++ q.records ++ c.rest := by
  induction c with
  | hole => simp [fill, before, rest]
  | input id tag fields left socket inner right statements next ih =>
    simp [fill, before, rest, records_mk, recordsSockets_append, recordsSockets_cons, ih]
  | statement id tag fields inputs left socket inner right next ih =>
    simp [fill, before, rest, records_mk, recordsSockets_append, recordsSockets_cons, ih]
  | after id tag fields inputs statements inner ih =>
    simp [fill, before, rest, records_mk, recordsNext_some, ih]

/-! ## searching and changing in the hole -/

/-- no block before the hole has the id -/
def Avoids (c : Context) (wanted : String) : Prop := wanted ∉ recordIds c.before

theorem avoids_hole (wanted : String) : hole.Avoids wanted := mem_recordIds_nil wanted

theorem avoids_input_iff {id tag : String} {fields : List (String × Json)}
    {left right statements : List (String × Block)} {socket wanted : String} {inner : Context}
    {next : Option Block} :
    (Context.input id tag fields left socket inner right statements next).Avoids wanted
      ↔ id ≠ wanted ∧ wanted ∉ recordIds (recordsSockets left) ∧ inner.Avoids wanted := by
  simp only [Avoids, before, mem_recordIds_cons, mem_recordIds_append, not_or, ne_comm (a := id),
    ne_eq]

theorem avoids_statement_iff {id tag : String} {fields : List (String × Json)}
    {inputs left right : List (String × Block)} {socket wanted : String} {inner : Context}
    {next : Option Block} :
    (Context.statement id tag fields inputs left socket inner right next).Avoids wanted
      ↔ id ≠ wanted ∧ wanted ∉ recordIds (recordsSockets inputs)
        ∧ wanted ∉ recordIds (recordsSockets left) ∧ inner.Avoids wanted := by
  simp only [Avoids, before, mem_recordIds_cons, mem_recordIds_append, not_or, ne_comm (a := id),
    ne_eq, and_assoc]

theorem avoids_after_iff {id tag : String} {fields : List (String × Json)}
    {inputs statements : List (String × Block)} {wanted : String} {inner : Context} :
    (Context.after id tag fields inputs statements inner).Avoids wanted
      ↔ id ≠ wanted ∧ wanted ∉ recordIds (recordsSockets inputs)
        ∧ wanted ∉ recordIds (recordsSockets statements) ∧ inner.Avoids wanted := by
  simp only [Avoids, before, mem_recordIds_cons, mem_recordIds_append, not_or, ne_comm (a := id),
    ne_eq, and_assoc]

theorem find?_fill (c : Context) (q : Block) (h : c.Avoids q.id) :
    (c.fill q).find? q.id = some q := by
  induction c with
  | hole => cases q; simp [fill, find?]
  | input id tag fields left socket inner right statements next ih =>
    obtain ⟨hid, hl, hin⟩ := avoids_input_iff.mp h
    rw [fill, find?, if_neg hid, findSockets?_append, (findSockets?_eq_none_iff _ left).mpr hl,
      findSockets?, ih hin]
    simp
  | statement id tag fields inputs left socket inner right next ih =>
    obtain ⟨hid, hi, hl, hin⟩ := avoids_statement_iff.mp h
    rw [fill, find?, if_neg hid, (findSockets?_eq_none_iff _ inputs).mpr hi, findSockets?_append,
      (findSockets?_eq_none_iff _ left).mpr hl, findSockets?, ih hin]
    simp
  | after id tag fields inputs statements inner ih =>
    obtain ⟨hid, hi, hs, hin⟩ := avoids_after_iff.mp h
    rw [fill, find?, if_neg hid, (findSockets?_eq_none_iff _ inputs).mpr hi,
      (findSockets?_eq_none_iff _ statements).mpr hs, findNext?, ih hin]
    simp

theorem update?_fill (c : Context) (change : Block → Block) (q : Block) (h : c.Avoids q.id) :
    (c.fill q).update? q.id change = some (c.fill (change q)) := by
  induction c with
  | hole => cases q; simp [fill, update?]
  | input id tag fields left socket inner right statements next ih =>
    obtain ⟨hid, hl, hin⟩ := avoids_input_iff.mp h
    rw [fill, update?, if_neg hid, updateSockets?_append_of_not_mem _ _ _ _ hl, updateSockets?,
      ih hin]
    simp [fill]
  | statement id tag fields inputs left socket inner right next ih =>
    obtain ⟨hid, hi, hl, hin⟩ := avoids_statement_iff.mp h
    rw [fill, update?, if_neg hid, updateSockets?_eq_none _ _ _ hi,
      updateSockets?_append_of_not_mem _ _ _ _ hl, updateSockets?, ih hin]
    simp [fill]
  | after id tag fields inputs statements inner ih =>
    obtain ⟨hid, hi, hs, hin⟩ := avoids_after_iff.mp h
    rw [fill, update?, if_neg hid, updateSockets?_eq_none _ _ _ hi, updateSockets?_eq_none _ _ _ hs,
      updateNext?, ih hin]
    simp [fill]

end Context

/-! ## every search has a context -/

mutual
theorem exists_context {wanted : String} {p : Block} :
    (b : Block) → b.find? wanted = some p →
      p.id = wanted ∧ ∃ c : Context, c.fill p = b ∧ c.Avoids wanted
  | ⟨id, tag, fields, inputs, statements, next⟩, h => by
    rw [find?] at h
    by_cases hid : id = wanted
    · rw [if_pos hid] at h
      cases h
      exact ⟨hid, .hole, rfl, Context.avoids_hole wanted⟩
    rw [if_neg hid] at h
    cases hi : findSockets? wanted inputs with
    | some x =>
      rw [hi, Option.some_or] at h
      cases h
      obtain ⟨hp, left, socket, inner, right, rfl, hl, hin⟩ := exists_context_sockets inputs hi
      exact ⟨hp, .input id tag fields left socket inner right statements next, rfl,
        Context.avoids_input_iff.mpr ⟨hid, hl, hin⟩⟩
    | none =>
      have hni := (findSockets?_eq_none_iff _ inputs).mp hi
      rw [hi, Option.none_or] at h
      cases hs : findSockets? wanted statements with
      | some x =>
        rw [hs, Option.some_or] at h
        cases h
        obtain ⟨hp, left, socket, inner, right, rfl, hl, hin⟩ := exists_context_sockets statements hs
        exact ⟨hp, .statement id tag fields inputs left socket inner right next, rfl,
          Context.avoids_statement_iff.mpr ⟨hid, hni, hl, hin⟩⟩
      | none =>
        have hns := (findSockets?_eq_none_iff _ statements).mp hs
        rw [hs, Option.none_or] at h
        obtain ⟨hp, inner, rfl, hin⟩ := exists_context_next next h
        exact ⟨hp, .after id tag fields inputs statements inner, rfl,
          Context.avoids_after_iff.mpr ⟨hid, hni, hns, hin⟩⟩

theorem exists_context_sockets {wanted : String} {p : Block} :
    (sockets : List (String × Block)) → findSockets? wanted sockets = some p →
      p.id = wanted ∧ ∃ (left : List (String × Block)) (socket : String) (c : Context)
        (right : List (String × Block)), left ++ (socket, c.fill p) :: right = sockets
          ∧ wanted ∉ recordIds (recordsSockets left) ∧ c.Avoids wanted
  | [], h => by cases h
  | (socket, child) :: rest, h => by
    rw [findSockets?] at h
    cases hc : child.find? wanted with
    | some x =>
      rw [hc, Option.some_or] at h
      cases h
      obtain ⟨hp, c, rfl, hin⟩ := exists_context child hc
      exact ⟨hp, [], socket, c, rest, rfl, mem_recordIds_nil wanted, hin⟩
    | none =>
      have hnc := (find?_eq_none_iff _ child).mp hc
      rw [hc, Option.none_or] at h
      obtain ⟨hp, left, s, c, right, rfl, hl, hin⟩ := exists_context_sockets rest h
      refine ⟨hp, (socket, child) :: left, s, c, right, rfl, ?_, hin⟩
      rw [recordsSockets_cons, mem_recordIds_append]
      exact not_or.mpr ⟨hnc, hl⟩

theorem exists_context_next {wanted : String} {p : Block} :
    (next : Option Block) → findNext? wanted next = some p →
      p.id = wanted ∧ ∃ c : Context, some (c.fill p) = next ∧ c.Avoids wanted
  | none, h => by cases h
  | some b, h => by
    obtain ⟨hp, c, rfl, hin⟩ := exists_context b h
    exact ⟨hp, c, rfl, hin⟩
end

/-! ## walking through a context -/

theorem walk_eq (b : Block) :
    b.walk = b :: (walkSockets b.inputs ++ walkSockets b.statements ++ walkNext b.next) := by
  cases b
  rw [walk]

theorem self_mem_walk (b : Block) : b ∈ b.walk := by
  rw [walk_eq]
  exact List.mem_cons_self

@[simp] theorem walkSockets_append (a b : List (String × Block)) :
    walkSockets (a ++ b) = walkSockets a ++ walkSockets b := by
  induction a with
  | nil => rfl
  | cons entry rest ih =>
    obtain ⟨socket, child⟩ := entry
    rw [List.cons_append, walkSockets, walkSockets, ih, List.append_assoc]

theorem mem_walkSockets {socket : String} {child x : Block} {sockets : List (String × Block)}
    (h : (socket, child) ∈ sockets) (hx : x ∈ child.walk) : x ∈ walkSockets sockets := by
  obtain ⟨left, right, rfl⟩ := List.append_of_mem h
  rw [walkSockets_append, walkSockets]
  exact List.mem_append_right _ (List.mem_append_left _ hx)

/-- a walk comes to the hole after the blocks whose records are before it -/
theorem Context.walk_fill (c : Context) (q : Block) :
    ∃ left right, (c.fill q).walk = left ++ q.walk ++ right ∧ left.map record = c.before := by
  induction c with
  | hole => exact ⟨[], [], by simp [fill], rfl⟩
  | input id tag fields before socket inner after statements next ih =>
    obtain ⟨left, right, hwalk, hleft⟩ := ih
    refine ⟨(fill (.input id tag fields before socket inner after statements next) q)
      :: (walkSockets before ++ left),
      right ++ walkSockets after ++ walkSockets statements ++ walkNext next, ?_, ?_⟩
    · simp [fill, walk, walkSockets_append, walkSockets, hwalk]
    · simp [fill, Context.before, record, recordsSockets, hleft]
  | statement id tag fields inputs before socket inner after next ih =>
    obtain ⟨left, right, hwalk, hleft⟩ := ih
    refine ⟨(fill (.statement id tag fields inputs before socket inner after next) q)
      :: (walkSockets inputs ++ walkSockets before ++ left), right ++ walkSockets after ++ walkNext next, ?_, ?_⟩
    · simp [fill, walk, walkSockets_append, walkSockets, hwalk]
    · simp [fill, Context.before, record, recordsSockets, hleft]
  | after id tag fields inputs statements inner ih =>
    obtain ⟨left, right, hwalk, hleft⟩ := ih
    refine ⟨(fill (.after id tag fields inputs statements inner) q)
      :: (walkSockets inputs ++ walkSockets statements ++ left), right, ?_, ?_⟩
    · simp [fill, walk, walkNext, hwalk]
    · simp [fill, Context.before, record, recordsSockets, hleft]

/-- what is under a block is under every tree around it -/
theorem mem_walk_fill (c : Context) {q x : Block} (h : x ∈ q.walk) : x ∈ (c.fill q).walk := by
  obtain ⟨left, right, hwalk, -⟩ := c.walk_fill q
  rw [hwalk]
  exact List.mem_append_left _ (List.mem_append_right _ h)

/-! ## slots -/

/-- a slot of the block `parent` in which `child` hangs -/
def Holds (parent child : Block) : Slot → Prop
  | .top _ => False
  | .input owner socket => parent.id = owner ∧ (socket, child) ∈ parent.inputs
  | .statement owner socket => parent.id = owner ∧ (socket, child) ∈ parent.statements
  | .after owner => parent.id = owner ∧ parent.next = some child

mutual
theorem exists_slot {wanted : String} {slot : Slot} :
    (b : Block) → b.slotOf? wanted = some slot →
      ∃ (c : Context) (parent child : Block),
        c.fill parent = b ∧ Holds parent child slot ∧ child.id = wanted
  | ⟨id, tag, fields, inputs, statements, next⟩, h => by
    rw [slotOf?, Option.or_eq_some_iff, Option.or_eq_some_iff] at h
    rcases h with hi | ⟨-, hs | ⟨-, hn⟩⟩
    · rcases exists_slot_sockets inputs hi with
        ⟨socket, child, hmem, rfl, hc⟩ | ⟨left, socket, c, right, parent, child, rfl, hh, hc⟩
      · exact ⟨.hole, _, child, rfl, ⟨rfl, hmem⟩, hc⟩
      · exact ⟨.input id tag fields left socket c right statements next, parent, child, rfl, hh, hc⟩
    · rcases exists_slot_sockets statements hs with
        ⟨socket, child, hmem, rfl, hc⟩ | ⟨left, socket, c, right, parent, child, rfl, hh, hc⟩
      · exact ⟨.hole, _, child, rfl, ⟨rfl, hmem⟩, hc⟩
      · exact ⟨.statement id tag fields inputs left socket c right next, parent, child, rfl, hh, hc⟩
    · rcases exists_slot_next next hn with
        ⟨child, rfl, rfl, hc⟩ | ⟨c, parent, child, rfl, hh, hc⟩
      · exact ⟨.hole, _, child, rfl, ⟨rfl, rfl⟩, hc⟩
      · exact ⟨.after id tag fields inputs statements c, parent, child, rfl, hh, hc⟩

/-- a slot found among sockets is one of these sockets or lies deeper in one of them -/
theorem exists_slot_sockets {wanted : String} {among : String → Slot} {slot : Slot} :
    (sockets : List (String × Block)) → slotIn? wanted among sockets = some slot →
      (∃ (socket : String) (child : Block),
        (socket, child) ∈ sockets ∧ slot = among socket ∧ child.id = wanted)
      ∨ ∃ (left : List (String × Block)) (socket : String) (c : Context)
          (right : List (String × Block)) (parent child : Block),
        left ++ (socket, c.fill parent) :: right = sockets
          ∧ Holds parent child slot ∧ child.id = wanted
  | [], h => by cases h
  | (socket, child) :: rest, h => by
    rw [slotIn?] at h
    by_cases hid : child.id = wanted
    · rw [if_pos hid] at h
      cases h
      exact .inl ⟨socket, child, List.mem_cons_self, rfl, hid⟩
    rw [if_neg hid, Option.or_eq_some_iff] at h
    rcases h with hc | ⟨-, hr⟩
    · obtain ⟨c, parent, held, rfl, hh, hw⟩ := exists_slot child hc
      exact .inr ⟨[], socket, c, rest, parent, held, rfl, hh, hw⟩
    · rcases exists_slot_sockets rest hr with
        ⟨s, held, hmem, e, hw⟩ | ⟨left, s, c, right, parent, held, rfl, hh, hw⟩
      · exact .inl ⟨s, held, List.mem_cons_of_mem _ hmem, e, hw⟩
      · exact .inr ⟨(socket, child) :: left, s, c, right, parent, held, rfl, hh, hw⟩

theorem exists_slot_next {wanted owner : String} {slot : Slot} :
    (next : Option Block) → slotAfter? wanted owner next = some slot →
      (∃ child : Block, next = some child ∧ slot = .after owner ∧ child.id = wanted)
      ∨ ∃ (c : Context) (parent child : Block),
        some (c.fill parent) = next ∧ Holds parent child slot ∧ child.id = wanted
  | none, h => by cases h
  | some b, h => by
    rw [slotAfter?] at h
    by_cases hid : b.id = wanted
    · rw [if_pos hid] at h
      cases h
      exact .inl ⟨b, rfl, rfl, hid⟩
    rw [if_neg hid] at h
    obtain ⟨c, parent, child, rfl, hh, hw⟩ := exists_slot b h
    exact .inr ⟨c, parent, child, rfl, hh, hw⟩
end

/-- what is under a block is under its owner -/
theorem mem_walk_owner {parent child x : Block} {slot : Slot} (h : Holds parent child slot)
    (hx : x ∈ child.walk) : x ∈ parent.walk := by
  rw [walk_eq]
  simp only [List.mem_cons, List.mem_append]
  cases slot with
  | top index => exact h.elim
  | input owner socket => exact .inr (.inl (.inl (mem_walkSockets h.2 hx)))
  | statement owner socket => exact .inr (.inl (.inr (mem_walkSockets h.2 hx)))
  | after owner =>
    have hnext : parent.next = some child := h.2
    rw [hnext, walkNext]
    exact .inr (.inr hx)

theorem mem_walk_of_holds {parent child : Block} {slot : Slot} (h : Holds parent child slot) :
    child ∈ parent.walk :=
  mem_walk_owner h (self_mem_walk child)

end Block
end VisualProgram
