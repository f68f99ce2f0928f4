import VisualProgram.Proofs.Block.Sockets
import Mathlib.Algebra.BigOperators.Group.Multiset.Basic

/-!
# Who hangs where

A `Link` is a slot and the id of the block in it.  The links of a tree tell how its blocks hang together and
nothing else: with the records of the blocks (`contents`) they tell the tree, as is seen for whole
workspaces.

* `mem_links`           a link comes from a block of the tree that holds another one in the slot;
* `map_snd_links`       every block of a tree but its root is in exactly one slot;
* `links_eraseInput`, … taking a block out of its slot takes its link and its own links away;
* `links_setInput`      putting one in adds them, and takes away the link of the block that was there;
* `links_fill`          the links around a hole depend only on the id of what is in it.
-/

namespace VisualProgram

/-- a slot and the id of the block in it -/
abbrev Link := Slot × String

namespace Block

mutual
/-- the links of a tree -/
def links : Block → Multiset Link
  | ⟨id, _, _, inputs, statements, next⟩ =>
    linksSockets (.input id) inputs + linksSockets (.statement id) statements + linksNext (.after id) next

/-- the links of sockets, `slot` being the slot of each by its name -/
def linksSockets (slot : String → Slot) : List (String × Block) → Multiset Link
  | [] => 0
  | (socket, child) :: rest => (slot socket, child.id) ::ₘ child.links + linksSockets slot rest

def linksNext (slot : Slot) : Option Block → Multiset Link
  | none => 0
  | some b => (slot, b.id) ::ₘ b.links
end

theorem links_eq (b : Block) :
    b.links = linksSockets (.input b.id) b.inputs + linksSockets (.statement b.id) b.statements
      + linksNext (.after b.id) b.next := by
  cases b
  rw [links]

@[simp] theorem linksSockets_append (slot : String → Slot) (a b : List (String × Block)) :
    linksSockets slot (a ++ b) = linksSockets slot a + linksSockets slot b := by
  induction a with
  | nil => rw [List.nil_append, linksSockets, zero_add]
  | cons entry rest ih =>
    obtain ⟨socket, child⟩ := entry
    rw [List.cons_append, linksSockets, linksSockets, ih, add_assoc]

/-! ## where links come from -/

/-- a block of the list holds another one of the given id in the slot -/
def Linked (blocks : List Block) (l : Link) : Prop :=
  ∃ parent ∈ blocks, ∃ child, Holds parent child l.1 ∧ child.id = l.2

theorem Linked.append_iff {a b : List Block} {l : Link} : Linked (a ++ b) l ↔ Linked a l ∨ Linked b l := by
  simp only [Linked, List.mem_append, or_and_right, exists_or]

theorem linked_singleton {b : Block} {l : Link} :
    Linked [b] l ↔ ∃ child, Holds b child l.1 ∧ child.id = l.2 := by
  simp only [Linked, List.mem_singleton, exists_eq_left]

/-- the links of a block itself, by the kinds of its slots -/
theorem linked_self {b : Block} {l : Link} :
    Linked [b] l ↔ (∃ e ∈ b.inputs, l = (.input b.id e.1, e.2.id))
      ∨ (∃ e ∈ b.statements, l = (.statement b.id e.1, e.2.id))
      ∨ ∃ child, b.next = some child ∧ l = (.after b.id, child.id) := by
  rw [linked_singleton]
  constructor
  · rintro ⟨child, hh, hid⟩
    obtain ⟨slot, id⟩ := l
    obtain rfl : child.id = id := hid
    cases slot with
    | top index => exact hh.elim
    | input owner socket =>
      obtain ⟨rfl, hm⟩ := hh
      exact Or.inl ⟨_, hm, rfl⟩
    | statement owner socket =>
      obtain ⟨rfl, hm⟩ := hh
      exact Or.inr (Or.inl ⟨_, hm, rfl⟩)
    | after owner =>
      obtain ⟨rfl, hm⟩ := hh
      exact Or.inr (Or.inr ⟨_, hm, rfl⟩)
  · rintro (⟨e, hm, rfl⟩ | ⟨e, hm, rfl⟩ | ⟨child, hm, rfl⟩)
    · exact ⟨e.2, ⟨rfl, hm⟩, rfl⟩
    · exact ⟨e.2, ⟨rfl, hm⟩, rfl⟩
    · exact ⟨child, ⟨rfl, hm⟩, rfl⟩

mutual
theorem mem_links {l : Link} : (b : Block) → (l ∈ b.links ↔ Linked b.walk l)
  | ⟨id, tag, fields, inputs, statements, next⟩ => by
    have hi := mem_linksSockets (l := l) (Slot.input id) inputs
    have hs := mem_linksSockets (l := l) (Slot.statement id) statements
    have hn := mem_linksNext (l := l) (Slot.after id) next
    rw [links, Multiset.mem_add, Multiset.mem_add, hi, hs, hn, walk, ← List.singleton_append,
      Linked.append_iff, Linked.append_iff, Linked.append_iff, linked_self]
    exact ((or_congr_left or_or_or_comm).trans or_or_or_comm).trans (or_congr_left or_assoc)

theorem mem_linksSockets {l : Link} (slot : String → Slot) : (sockets : List (String × Block)) →
    (l ∈ linksSockets slot sockets
      ↔ (∃ e ∈ sockets, l = (slot e.1, e.2.id)) ∨ Linked (walkSockets sockets) l)
  | [] => by simp [linksSockets, walkSockets, Linked]
  | (socket, child) :: rest => by
    have hc := mem_links (l := l) child
    have hr := mem_linksSockets (l := l) slot rest
    rw [linksSockets, walkSockets, Linked.append_iff, Multiset.mem_add, Multiset.mem_cons, hc, hr]
    simp only [List.mem_cons, exists_eq_or_imp]
    exact or_or_or_comm

theorem mem_linksNext {l : Link} (slot : Slot) : (next : Option Block) →
    (l ∈ linksNext slot next
      ↔ (∃ child, next = some child ∧ l = (slot, child.id)) ∨ Linked (walkNext next) l)
  | none => by simp [linksNext, walkNext, Linked]
  | some b => by
    have hb := mem_links (l := l) b
    rw [linksNext, walkNext, Multiset.mem_cons, hb]
    simp
end

/-! ## a slot holds one block, and the slots of a block tell it -/

theorem Holds.id_eq {p q c d : Block} {slot : Slot} (h : Holds p c slot) (h' : Holds q d slot) :
    p.id = q.id := by
  cases slot with
  | top index => exact h.elim
  | _ => exact h.1.trans h'.1.symm

theorem Holds.unique {p c d : Block} {slot : Slot} (hp : p.Tidy) (h : Holds p c slot)
    (h' : Holds p d slot) : c = d := by
  cases slot with
  | top index => exact h.elim
  | input owner socket =>
    exact Option.some.inj ((Assoc.get?_of_mem hp.1 h.2).symm.trans (Assoc.get?_of_mem hp.1 h'.2))
  | statement owner socket =>
    exact Option.some.inj ((Assoc.get?_of_mem hp.2 h.2).symm.trans (Assoc.get?_of_mem hp.2 h'.2))
  | after owner => exact Option.some.inj (h.2.symm.trans h'.2)

theorem eq_of_holds_iff {p q : Block} (hp : p.Tidy) (hq : q.Tidy) (hr : p.record = q.record)
    (h : ∀ child slot, Holds p child slot ↔ Holds q child slot) : p = q := by
  obtain ⟨id, tag, fields, inputs, statements, next⟩ := p
  obtain ⟨id', tag', fields', inputs', statements', next'⟩ := q
  obtain ⟨rfl, rfl, rfl⟩ : id = id' ∧ tag = tag' ∧ fields = fields' := by simpa [record] using hr
  have hi : inputs = inputs' := Assoc.eq_of_mem_iff hp.1 hq.1 fun e => by
    simpa [Holds] using h e.2 (.input id e.1)
  have hs : statements = statements' := Assoc.eq_of_mem_iff hp.2 hq.2 fun e => by
    simpa [Holds] using h e.2 (.statement id e.1)
  have hn : next = next' := Option.ext fun child => by simpa [Holds] using h child (.after id)
  rw [hi, hs, hn]

/-! ## every block but the root is linked once -/

mutual
theorem map_snd_links : (b : Block) → b.links.map Prod.snd + {b.id} = b.contents.map Prod.fst
  | ⟨id, tag, fields, inputs, statements, next⟩ => by
    have hi := map_snd_linksSockets (.input id) inputs
    have hs := map_snd_linksSockets (.statement id) statements
    have hn := map_snd_linksNext (.after id) next
    rw [links, contents_eq]
    simp only [Multiset.map_add, hi, hs, hn, record, Multiset.map_singleton]
    ac_rfl

theorem map_snd_linksSockets (slot : String → Slot) : (sockets : List (String × Block)) →
    (linksSockets slot sockets).map Prod.snd = (socketContents sockets).map Prod.fst
  | [] => rfl
  | (socket, child) :: rest => by
    have hc := map_snd_links child
    have hr := map_snd_linksSockets slot rest
    rw [linksSockets, socketContents_cons, Multiset.map_add, Multiset.map_add, ← hc, hr, Multiset.map_cons,
      ← Multiset.singleton_add]
    ac_rfl

theorem map_snd_linksNext (slot : Slot) : (next : Option Block) →
    (linksNext slot next).map Prod.snd = (nextContents next).map Prod.fst
  | none => rfl
  | some b => by
    rw [linksNext, nextContents_some, ← map_snd_links b, Multiset.map_cons, ← Multiset.singleton_add,
      add_comm]
end

/-! ## taking out and putting in -/

theorem linksSockets_erase (slot : String → Slot) {socket : String} {child : Block}
    {sockets : List (String × Block)} (h : Assoc.get? socket sockets = some child) :
    linksSockets slot sockets
      = (slot socket, child.id) ::ₘ child.links + linksSockets slot (Assoc.erase socket sockets) := by
  induction sockets with
  | nil => cases h
  | cons entry rest ih =>
    obtain ⟨k, v⟩ := entry
    rw [Assoc.get?_cons] at h
    rw [Assoc.erase]
    by_cases hk : k = socket
    · rw [if_pos hk] at h
      cases h
      rw [if_pos hk, linksSockets, hk]
    · rw [if_neg hk] at h
      rw [if_neg hk, linksSockets, linksSockets, ih h, add_left_comm]

theorem linksSockets_insert (slot : String → Slot) (socket : String) (child : Block)
    {sockets : List (String × Block)} (h : Assoc.Increasing sockets) :
    linksSockets slot (Assoc.insert socket child sockets)
        + linksNext (slot socket) (Assoc.get? socket sockets)
      = (slot socket, child.id) ::ₘ child.links + linksSockets slot sockets := by
  induction sockets with
  | nil => simp [Assoc.insert, Assoc.get?_nil, linksSockets, linksNext]
  | cons entry rest ih =>
    obtain ⟨k, v⟩ := entry
    obtain ⟨hlt, hrest⟩ := Assoc.increasing_cons.mp h
    rw [Assoc.insert, Assoc.get?_cons]
    by_cases hk : k = socket
    · rw [if_pos hk, if_pos hk, linksSockets, linksSockets, linksNext, hk, add_assoc, add_right_inj, add_comm]
    rw [if_neg hk, if_neg hk]
    by_cases hl : socket < k
    · -- a smaller name is not there
      have hnone : Assoc.get? socket rest = none :=
        Assoc.get?_eq_none_of_lt (fun l hm => lt_trans hl (hlt l hm))
      rw [if_pos hl, hnone, linksNext, add_zero, linksSockets]
    · rw [if_neg hl, linksSockets, linksSockets, add_assoc, ih hrest, add_left_comm]

section
variable {p child : Block} {socket : String}

theorem links_eraseInput (h : p.input? socket = some child) :
    p.links = (.input p.id socket, child.id) ::ₘ child.links
      + { p with inputs := Assoc.erase socket p.inputs }.links := by
  rw [links_eq p, links_eq { p with inputs := Assoc.erase socket p.inputs },
    linksSockets_erase (.input p.id) h]
  simp only [add_assoc]

theorem links_eraseStatement (h : p.statement? socket = some child) :
    p.links = (.statement p.id socket, child.id) ::ₘ child.links
      + { p with statements := Assoc.erase socket p.statements }.links := by
  rw [links_eq p, links_eq { p with statements := Assoc.erase socket p.statements },
    linksSockets_erase (.statement p.id) h]
  ac_rfl

theorem links_dropNext (h : p.next = some child) :
    p.links = (.after p.id, child.id) ::ₘ child.links + (p.setNext none).links := by
  rw [links_eq p, links_eq (p.setNext none), h]
  simp only [setNext, linksNext, add_zero]
  ac_rfl

theorem links_setInput (socket : String) (child : Block) (h : p.Ordered) :
    (p.setInput socket child).links + linksNext (.input p.id socket) (p.input? socket)
      = (.input p.id socket, child.id) ::ₘ child.links + p.links := by
  have hl := linksSockets_insert (.input p.id) socket child ((ordered_iff p).mp h).1.1
  rw [links_eq p, links_eq (p.setInput socket child)]
  simp only [setInput, input?]
  calc linksSockets (.input p.id) (Assoc.insert socket child p.inputs)
        + linksSockets (.statement p.id) p.statements + linksNext (.after p.id) p.next
        + linksNext (.input p.id socket) (Assoc.get? socket p.inputs)
      = linksSockets (.input p.id) (Assoc.insert socket child p.inputs)
        + linksNext (.input p.id socket) (Assoc.get? socket p.inputs)
        + linksSockets (.statement p.id) p.statements + linksNext (.after p.id) p.next := by ac_rfl
    _ = _ := by rw [hl]; ac_rfl

end

/-! ## in a context -/

theorem Context.id_fill (c : Context) {q q' : Block} (h : q.id = q'.id) : (c.fill q).id = (c.fill q').id := by
  cases c with
  | hole => exact h
  | _ => rfl

/-- the links around a hole, for a block of a given id in it -/
theorem links_fill (c : Context) (p : Block) :
    ∃ frame : Multiset Link, ∀ q : Block, q.id = p.id → (c.fill q).links = frame + q.links := by
  induction c with
  | hole => exact ⟨0, fun q _ => (zero_add _).symm⟩
  | input id tag fields left socket inner right statements next ih =>
    obtain ⟨frame, hframe⟩ := ih
    refine ⟨linksSockets (.input id) left + (.input id socket, (inner.fill p).id) ::ₘ frame
      + linksSockets (.input id) right + linksSockets (.statement id) statements
      + linksNext (.after id) next, fun q hq => ?_⟩
    rw [Context.fill, links, linksSockets_append, linksSockets, hframe q hq, inner.id_fill hq,
      ← Multiset.cons_add]
    ac_rfl
  | statement id tag fields inputs left socket inner right next ih =>
    obtain ⟨frame, hframe⟩ := ih
    refine ⟨linksSockets (.input id) inputs + linksSockets (.statement id) left
      + (.statement id socket, (inner.fill p).id) ::ₘ frame + linksSockets (.statement id) right
      + linksNext (.after id) next, fun q hq => ?_⟩
    rw [Context.fill, links, linksSockets_append, linksSockets, hframe q hq, inner.id_fill hq,
      ← Multiset.cons_add]
    ac_rfl
  | after id tag fields inputs statements inner ih =>
    obtain ⟨frame, hframe⟩ := ih
    refine ⟨linksSockets (.input id) inputs + linksSockets (.statement id) statements
      + (.after id, (inner.fill p).id) ::ₘ frame, fun q hq => ?_⟩
    rw [Context.fill, links, linksNext, hframe q hq, inner.id_fill hq, ← Multiset.cons_add]
    ac_rfl

end Block
end VisualProgram
