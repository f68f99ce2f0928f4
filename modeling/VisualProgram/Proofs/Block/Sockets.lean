import VisualProgram.Proofs.Assoc
import VisualProgram.Proofs.Block.Context
import Mathlib.Algebra.Order.Group.Multiset

/-!
# Sockets in order, and what hangs in them

The sockets of a block are kept in increasing order (`Assoc.Increasing`), so a name stands for at
most one of them.  A tree is `Ordered` if this holds of each of its blocks, and the operations on
sockets keep it.

`contents` is the collection of the records of a tree, without their places.  Taking a child out of
a socket takes away its contents (`socketContents_erase`); putting one in adds its contents and takes
away those of the child it replaces (`socketContents_insert`).
-/

namespace VisualProgram

namespace Block

/-! ## contents -/

def contents (b : Block) : Multiset Record := b.records
def socketContents (sockets : List (String × Block)) : Multiset Record := recordsSockets sockets
def nextContents (next : Option Block) : Multiset Record := recordsNext next

theorem contents_eq (b : Block) :
    b.contents = {b.record} + socketContents b.inputs + socketContents b.statements
      + nextContents b.next := by
  obtain ⟨id, tag, fields, inputs, statements, next⟩ := b
  rw [contents, records_mk, ← Multiset.cons_coe, ← Multiset.coe_add, ← Multiset.coe_add,
    ← Multiset.singleton_add]
  simp only [add_assoc]
  rfl

@[simp] theorem socketContents_cons (socket : String) (child : Block) (rest : List (String × Block)) :
    socketContents ((socket, child) :: rest) = child.contents + socketContents rest := by
  rw [socketContents, recordsSockets_cons, ← Multiset.coe_add]
  rfl

@[simp] theorem nextContents_none : nextContents none = 0 := rfl
@[simp] theorem nextContents_some (b : Block) : nextContents (some b) = b.contents := rfl

theorem socketContents_erase {socket : String} {child : Block} {sockets : List (String × Block)}
    (h : Assoc.get? socket sockets = some child) :
    socketContents sockets = child.contents + socketContents (Assoc.erase socket sockets) := by
  induction sockets with
  | nil => cases h
  | cons entry rest ih =>
    obtain ⟨k, v⟩ := entry
    rw [Assoc.get?_cons] at h
    rw [Assoc.erase]
    by_cases hk : k = socket
    · rw [if_pos hk] at h
      cases h
      simp [hk]
    · rw [if_neg hk] at h
      simp [hk, ih h, add_left_comm]

theorem socketContents_insert (socket : String) (child : Block) {sockets : List (String × Block)}
    (h : Assoc.Increasing sockets) :
    socketContents (Assoc.insert socket child sockets) + nextContents (Assoc.get? socket sockets)
      = child.contents + socketContents sockets := by
  induction sockets with
  | nil => simp [Assoc.insert]
  | cons entry rest ih =>
    obtain ⟨k, v⟩ := entry
    obtain ⟨hlt, hrest⟩ := Assoc.increasing_cons.mp h
    rw [Assoc.insert, Assoc.get?_cons]
    by_cases hk : k = socket
    · rw [if_pos hk, if_pos hk, socketContents_cons, socketContents_cons, nextContents_some,
        add_right_comm, add_assoc]
    rw [if_neg hk, if_neg hk]
    by_cases hl : socket < k
    · -- a smaller name is not there
      have hnone : Assoc.get? socket rest = none :=
        Assoc.get?_eq_none_of_lt (fun l hm => lt_trans hl (hlt l hm))
      simp [hl, hnone]
    · rw [if_neg hl, socketContents_cons, socketContents_cons, add_assoc, ih hrest, add_left_comm]

mutual
theorem contents_append (tail : Block) :
    (b : Block) → (b.append tail).contents = b.contents + tail.contents
  | ⟨id, tag, fields, inputs, statements, next⟩ => by
    have hn := contents_appendNext tail next
    rw [append, contents_eq, contents_eq ⟨id, tag, fields, inputs, statements, next⟩]
    simp only [record, nextContents_some, hn, add_assoc]

theorem contents_appendNext (tail : Block) :
    (next : Option Block) → (appendNext next tail).contents = nextContents next + tail.contents
  | none => by rw [appendNext, nextContents_none, zero_add]
  | some b => by rw [appendNext, nextContents_some]; exact contents_append tail b
end

theorem contents_appendOption (b : Block) (tail : Option Block) :
    (b.appendOption tail).contents = b.contents + nextContents tail := by
  cases tail with
  | none => simp [appendOption]
  | some t => exact contents_append t b

/-! ## trees with all sockets in order -/

/-- both kinds of sockets of a block are in order -/
def Tidy (b : Block) : Prop := Assoc.Increasing b.inputs ∧ Assoc.Increasing b.statements

/-- the sockets of every block of a tree are in order -/
def Ordered (b : Block) : Prop := ∀ x ∈ b.walk, x.Tidy
def OrderedSockets (sockets : List (String × Block)) : Prop := ∀ x ∈ walkSockets sockets, x.Tidy
def OrderedNext (next : Option Block) : Prop := ∀ x ∈ walkNext next, x.Tidy

theorem ordered_iff (b : Block) :
    b.Ordered ↔ b.Tidy ∧ OrderedSockets b.inputs ∧ OrderedSockets b.statements
      ∧ OrderedNext b.next := by
  obtain ⟨id, tag, fields, inputs, statements, next⟩ := b
  simp only [Ordered, walk, List.mem_cons, List.mem_append, or_imp, forall_and, forall_eq,
    OrderedSockets, OrderedNext, and_assoc]

@[simp] theorem orderedSockets_nil : OrderedSockets [] := by simp [OrderedSockets, walkSockets]

@[simp] theorem orderedSockets_cons {socket : String} {child : Block} {rest : List (String × Block)} :
    OrderedSockets ((socket, child) :: rest) ↔ child.Ordered ∧ OrderedSockets rest := by
  simp only [OrderedSockets, walkSockets, List.mem_append, or_imp, forall_and, Ordered]

@[simp] theorem orderedSockets_append {a b : List (String × Block)} :
    OrderedSockets (a ++ b) ↔ OrderedSockets a ∧ OrderedSockets b := by
  induction a with
  | nil => simp [orderedSockets_nil]
  | cons entry rest ih =>
    obtain ⟨socket, child⟩ := entry
    simp [ih, and_assoc]

@[simp] theorem orderedNext_none : OrderedNext none := by simp [OrderedNext, walkNext]
@[simp] theorem orderedNext_some {b : Block} : OrderedNext (some b) ↔ b.Ordered := Iff.rfl

theorem Ordered.of_get? {socket : String} {child : Block} {sockets : List (String × Block)}
    (h : OrderedSockets sockets) (hg : Assoc.get? socket sockets = some child) : child.Ordered := by
  induction sockets with
  | nil => cases hg
  | cons entry rest ih =>
    obtain ⟨k, v⟩ := entry
    obtain ⟨hv, hrest⟩ := orderedSockets_cons.mp h
    rw [Assoc.get?_cons] at hg
    split at hg
    · cases hg
      exact hv
    · exact ih hrest hg

theorem OrderedSockets.erase {socket : String} {sockets : List (String × Block)}
    (h : OrderedSockets sockets) : OrderedSockets (Assoc.erase socket sockets) := by
  induction sockets with
  | nil => exact h
  | cons entry rest ih =>
    obtain ⟨k, v⟩ := entry
    obtain ⟨hv, hrest⟩ := orderedSockets_cons.mp h
    rw [Assoc.erase]
    split
    · exact hrest
    · exact orderedSockets_cons.mpr ⟨hv, ih hrest⟩

theorem OrderedSockets.insert {socket : String} {child : Block} {sockets : List (String × Block)}
    (h : OrderedSockets sockets) (hc : child.Ordered) :
    OrderedSockets (Assoc.insert socket child sockets) := by
  induction sockets with
  | nil => exact orderedSockets_cons.mpr ⟨hc, h⟩
  | cons entry rest ih =>
    obtain ⟨k, v⟩ := entry
    obtain ⟨hv, hrest⟩ := orderedSockets_cons.mp h
    rw [Assoc.insert]
    split
    · exact orderedSockets_cons.mpr ⟨hc, hrest⟩
    · split
      · exact orderedSockets_cons.mpr ⟨hc, h⟩
      · exact orderedSockets_cons.mpr ⟨hv, ih hrest⟩

mutual
theorem Ordered.append {tail : Block} (ht : tail.Ordered) :
    (b : Block) → b.Ordered → (b.append tail).Ordered
  | ⟨id, tag, fields, inputs, statements, next⟩, h => by
    obtain ⟨htidy, hi, hs, hn⟩ := (ordered_iff _).mp h
    exact (ordered_iff _).mpr ⟨htidy, hi, hs, Ordered.appendNext ht next hn⟩

theorem Ordered.appendNext {tail : Block} (ht : tail.Ordered) :
    (next : Option Block) → OrderedNext next → (Block.appendNext next tail).Ordered
  | none, _ => ht
  | some b, h => Ordered.append ht b h
end

theorem Ordered.appendOption {b : Block} {tail : Option Block} (h : b.Ordered)
    (ht : OrderedNext tail) : (b.appendOption tail).Ordered := by
  cases tail with
  | none => exact h
  | some t => exact Ordered.append ht b h

/-! ## one block -/

section
variable {p child : Block} {socket : String}

theorem contents_eraseInput (h : p.input? socket = some child) :
    p.contents = child.contents + { p with inputs := Assoc.erase socket p.inputs }.contents := by
  rw [contents_eq p, contents_eq { p with inputs := Assoc.erase socket p.inputs },
    socketContents_erase h]
  simp only [record]
  ac_rfl

theorem contents_eraseStatement (h : p.statement? socket = some child) :
    p.contents
      = child.contents + { p with statements := Assoc.erase socket p.statements }.contents := by
  rw [contents_eq p, contents_eq { p with statements := Assoc.erase socket p.statements },
    socketContents_erase h]
  simp only [record]
  ac_rfl

theorem contents_setNext (next : Option Block) :
    (p.setNext next).contents + nextContents p.next = p.contents + nextContents next := by
  rw [contents_eq p, contents_eq (p.setNext next)]
  simp only [record, setNext]
  ac_rfl

theorem contents_setInput (socket : String) (child : Block) (h : p.Ordered) :
    (p.setInput socket child).contents + nextContents (p.input? socket)
      = p.contents + child.contents := by
  have hc := socketContents_insert socket child ((ordered_iff p).mp h).1.1
  rw [contents_eq p, contents_eq (p.setInput socket child)]
  simp only [record, setInput, input?]
  calc {(p.id, p.tag, p.fields)} + socketContents (Assoc.insert socket child p.inputs)
        + socketContents p.statements + nextContents p.next
        + nextContents (Assoc.get? socket p.inputs)
      = {(p.id, p.tag, p.fields)} + (socketContents (Assoc.insert socket child p.inputs)
        + nextContents (Assoc.get? socket p.inputs)) + socketContents p.statements
        + nextContents p.next := by ac_rfl
    _ = {(p.id, p.tag, p.fields)} + socketContents p.inputs + socketContents p.statements
        + nextContents p.next + child.contents := by rw [hc]; ac_rfl

theorem contents_setStatement (socket : String) (child : Block) (h : p.Ordered) :
    (p.setStatement socket child).contents + nextContents (p.statement? socket)
      = p.contents + child.contents := by
  have hc := socketContents_insert socket child ((ordered_iff p).mp h).1.2
  rw [contents_eq p, contents_eq (p.setStatement socket child)]
  simp only [record, setStatement, statement?]
  calc {(p.id, p.tag, p.fields)} + socketContents p.inputs
        + socketContents (Assoc.insert socket child p.statements) + nextContents p.next
        + nextContents (Assoc.get? socket p.statements)
      = {(p.id, p.tag, p.fields)} + socketContents p.inputs
        + (socketContents (Assoc.insert socket child p.statements)
        + nextContents (Assoc.get? socket p.statements)) + nextContents p.next := by ac_rfl
    _ = {(p.id, p.tag, p.fields)} + socketContents p.inputs + socketContents p.statements
        + nextContents p.next + child.contents := by rw [hc]; ac_rfl

theorem Ordered.eraseInput (h : p.Ordered) :
    { p with inputs := Assoc.erase socket p.inputs }.Ordered := by
  obtain ⟨⟨hti, hts⟩, hi, hs, hn⟩ := (ordered_iff p).mp h
  exact (ordered_iff _).mpr ⟨⟨Assoc.increasing_erase hti, hts⟩, hi.erase, hs, hn⟩

theorem Ordered.eraseStatement (h : p.Ordered) :
    { p with statements := Assoc.erase socket p.statements }.Ordered := by
  obtain ⟨⟨hti, hts⟩, hi, hs, hn⟩ := (ordered_iff p).mp h
  exact (ordered_iff _).mpr ⟨⟨hti, Assoc.increasing_erase hts⟩, hi, hs.erase, hn⟩

theorem Ordered.setInput (h : p.Ordered) (hc : child.Ordered) :
    (p.setInput socket child).Ordered := by
  obtain ⟨⟨hti, hts⟩, hi, hs, hn⟩ := (ordered_iff p).mp h
  exact (ordered_iff _).mpr ⟨⟨Assoc.increasing_insert hti, hts⟩, hi.insert hc, hs, hn⟩

theorem Ordered.setStatement (h : p.Ordered) (hc : child.Ordered) :
    (p.setStatement socket child).Ordered := by
  obtain ⟨⟨hti, hts⟩, hi, hs, hn⟩ := (ordered_iff p).mp h
  exact (ordered_iff _).mpr ⟨⟨hti, Assoc.increasing_insert hts⟩, hi, hs.insert hc, hn⟩

theorem Ordered.setNext {next : Option Block} (h : p.Ordered) (hn : OrderedNext next) :
    (p.setNext next).Ordered := by
  obtain ⟨htidy, hi, hs, -⟩ := (ordered_iff p).mp h
  exact (ordered_iff _).mpr ⟨htidy, hi, hs, hn⟩

theorem Ordered.next (h : p.Ordered) : OrderedNext p.next := ((ordered_iff p).mp h).2.2.2

theorem Ordered.input? (h : p.Ordered) (socket : String) : OrderedNext (p.input? socket) := by
  cases hg : p.input? socket with
  | none => exact orderedNext_none
  | some b => exact Ordered.of_get? ((ordered_iff p).mp h).2.1 hg

theorem Ordered.statement? (h : p.Ordered) (socket : String) : OrderedNext (p.statement? socket) := by
  cases hg : p.statement? socket with
  | none => exact orderedNext_none
  | some b => exact Ordered.of_get? ((ordered_iff p).mp h).2.2.1 hg

theorem Ordered.setField {name : String} {value : Json} (h : p.Ordered) :
    (p.setField name value).Ordered :=
  (ordered_iff _).mpr ((ordered_iff p).mp h)

end

/-! ## in a context -/

theorem keys_hole (left right : List (String × Block)) (socket : String) (p q : Block) :
    Assoc.keys (left ++ (socket, p) :: right) = Assoc.keys (left ++ (socket, q) :: right) := by
  simp

theorem Ordered.of_fill (c : Context) {p : Block} (h : (c.fill p).Ordered) : p.Ordered := by
  induction c with
  | hole => exact h
  | input id tag fields left socket inner right statements next ih =>
    obtain ⟨-, hi, -, -⟩ := (ordered_iff _).mp h
    exact ih (orderedSockets_cons.mp (orderedSockets_append.mp hi).2).1
  | statement id tag fields inputs left socket inner right next ih =>
    obtain ⟨-, -, hs, -⟩ := (ordered_iff _).mp h
    exact ih (orderedSockets_cons.mp (orderedSockets_append.mp hs).2).1
  | after id tag fields inputs statements inner ih =>
    obtain ⟨-, -, -, hn⟩ := (ordered_iff _).mp h
    exact ih hn

/-- another ordered block may take the place of the one in the hole -/
theorem Ordered.fill (c : Context) {p q : Block} (h : (c.fill p).Ordered) (hq : q.Ordered) :
    (c.fill q).Ordered := by
  induction c with
  | hole => exact hq
  | input id tag fields left socket inner right statements next ih =>
    obtain ⟨⟨hti, hts⟩, hi, hs, hn⟩ := (ordered_iff _).mp h
    obtain ⟨hl, hr⟩ := orderedSockets_append.mp hi
    obtain ⟨hin, hr⟩ := orderedSockets_cons.mp hr
    refine (ordered_iff _).mpr ⟨⟨?_, hts⟩, ?_, hs, hn⟩
    · rw [Assoc.Increasing] at hti ⊢
      exact keys_hole left right socket (inner.fill p) (inner.fill q) ▸ hti
    · exact orderedSockets_append.mpr ⟨hl, orderedSockets_cons.mpr ⟨ih hin, hr⟩⟩
  | statement id tag fields inputs left socket inner right next ih =>
    obtain ⟨⟨hti, hts⟩, hi, hs, hn⟩ := (ordered_iff _).mp h
    obtain ⟨hl, hr⟩ := orderedSockets_append.mp hs
    obtain ⟨hin, hr⟩ := orderedSockets_cons.mp hr
    refine (ordered_iff _).mpr ⟨⟨hti, ?_⟩, hi, ?_, hn⟩
    · rw [Assoc.Increasing] at hts ⊢
      exact keys_hole left right socket (inner.fill p) (inner.fill q) ▸ hts
    · exact orderedSockets_append.mpr ⟨hl, orderedSockets_cons.mpr ⟨ih hin, hr⟩⟩
  | after id tag fields inputs statements inner ih =>
    obtain ⟨htidy, hi, hs, hn⟩ := (ordered_iff _).mp h
    exact (ordered_iff _).mpr ⟨htidy, hi, hs, ih hn⟩

end Block
end VisualProgram
