import VisualProgram.Proofs.Block.Links
import VisualProgram.Proofs.Workspace.Atomic

/-!
# Connecting values in either order

Where the blocks of a workspace hang is told by its links (`Workspace.links`), and a workspace without
repeated ids by its contents and its links, up to the order of its chains (`perm_of_links`).

Connecting a value changes the links in one way only: the new link is set, and the links that speak of the
same slot or of the same block go (`mem_links_connectValue`).  What lay in the sockets and which block was
inside which makes no difference, so two connections of different blocks into different sockets commute.
-/

namespace VisualProgram

namespace Block

theorem length_walk_le {socket : String} {child : Block} {sockets : List (String × Block)}
    (h : (socket, child) ∈ sockets) : child.walk.length ≤ (walkSockets sockets).length := by
  obtain ⟨left, right, rfl⟩ := List.append_of_mem h
  rw [walkSockets_append, walkSockets, List.length_append, List.length_append]
  omega

theorem length_walk_lt {parent child : Block} {slot : Slot} (h : Holds parent child slot) :
    child.walk.length < parent.walk.length := by
  rw [walk_eq parent]
  simp only [List.length_cons, List.length_append]
  cases slot with
  | top index => exact h.elim
  | input owner socket =>
    have hle := length_walk_le h.2
    omega
  | statement owner socket =>
    have hle := length_walk_le h.2
    omega
  | after owner =>
    have hnext : parent.next = some child := h.2
    rw [hnext, walkNext]
    omega

end Block

namespace Workspace
open Block

/-! ## the links of a workspace -/

def links (w : Workspace) : Multiset Link := (w.blocks.map Block.links).sum

@[simp] theorem links_append (a b : List Block) : links ⟨a ++ b⟩ = links ⟨a⟩ + links ⟨b⟩ := by simp [links]

@[simp] theorem links_cons (b : Block) (rest : List Block) : links ⟨b :: rest⟩ = b.links + links ⟨rest⟩ := by
  simp [links]

theorem mem_links_iff {w : Workspace} {l : Link} : l ∈ w.links ↔ Linked w.walk l := by
  obtain ⟨blocks⟩ := w
  induction blocks with
  | nil => simp [links, walk, Linked]
  | cons b rest ih =>
    have hw : walk ⟨b :: rest⟩ = b.walk ++ walk ⟨rest⟩ := by simp [walk]
    rw [links_cons, Multiset.mem_add, Block.mem_links, ih, hw, Linked.append_iff]

/-- every block is at the top or in exactly one slot -/
theorem map_snd_links (w : Workspace) :
    w.links.map Prod.snd + (w.blocks.map Block.id : Multiset String) = w.contents.map Prod.fst := by
  obtain ⟨blocks⟩ := w
  induction blocks with
  | nil => rfl
  | cons b rest ih =>
    rw [links_cons, contents_cons, Multiset.map_add, Multiset.map_add, ← ih, ← Block.map_snd_links b,
      List.map_cons, ← Multiset.cons_coe, ← Multiset.singleton_add]
    ac_rfl

section
variable {w : Workspace}

theorem tidy_of_mem_walk (hw : w.Ordered) {b : Block} (hb : b ∈ w.walk) : b.Tidy := by
  obtain ⟨root, hr, hb⟩ := List.mem_flatMap.mp hb
  exact hw root hr b hb

theorem exists_place_of_mem (hids : w.ids.Nodup) {b : Block} (hb : b ∈ w.walk) :
    ∃ P : Place, P.fill b = w := by
  have hid : b.id ∈ w.ids := by
    rw [ids_eq_walk]
    exact List.mem_map_of_mem hb
  cases hf : w.find? b.id with
  | none => exact absurd hid ((find?_eq_none_iff w b.id).mp hf)
  | some p =>
    obtain ⟨hp, P, hP, -⟩ := exists_place hf
    obtain rfl : p = b := eq_of_id_eq hids (mem_walk_of_find? hf).1 hb hp
    exact ⟨P, hP⟩

theorem mem_walk_of_child (hids : w.ids.Nodup) {parent child : Block} {slot : Slot}
    (hp : parent ∈ w.walk) (h : Holds parent child slot) : child ∈ w.walk := by
  obtain ⟨P, rfl⟩ := exists_place_of_mem hids hp
  exact mem_walk_place (mem_walk_of_holds h)

theorem mem_walk_of_mem {b : Block} (hb : b ∈ w.blocks) : b ∈ w.walk :=
  List.mem_flatMap.mpr ⟨b, hb, self_mem_walk b⟩

theorem record_mem_contents {r : Record} : r ∈ w.contents ↔ ∃ b ∈ w.walk, b.record = r := by
  simp only [contents, records, Block.records, walk, Multiset.mem_coe, List.mem_flatMap, List.mem_map]
  constructor
  · rintro ⟨root, hroot, b, hb, hr⟩
    exact ⟨b, ⟨root, hroot, hb⟩, hr⟩
  · rintro ⟨b, ⟨root, hroot, hb⟩, hr⟩
    exact ⟨root, hroot, b, hb, hr⟩

theorem nodup_linked_or_top (hids : w.ids.Nodup) :
    (w.links.map Prod.snd + (w.blocks.map Block.id : Multiset String)).Nodup := by
  rw [map_snd_links]
  exact (ids_nodup_iff w).mp hids

theorem nodup_linked (hids : w.ids.Nodup) : (w.links.map Prod.snd).Nodup :=
  Multiset.nodup_of_le (Multiset.le_add_right _ _) (nodup_linked_or_top hids)

theorem nodup_links (hids : w.ids.Nodup) : w.links.Nodup := (nodup_linked hids).of_map

theorem nodup_blocks (hids : w.ids.Nodup) : w.blocks.Nodup := by
  have htop : (w.blocks.map Block.id : Multiset String).Nodup :=
    Multiset.nodup_of_le (Multiset.le_add_left _ _) (nodup_linked_or_top hids)
  exact List.Nodup.of_map _ (Multiset.coe_nodup.mp htop)

/-- a block is in one slot -/
theorem slot_unique (hids : w.ids.Nodup) {slot slot' : Slot} {id : String} (h : (slot, id) ∈ w.links)
    (h' : (slot', id) ∈ w.links) : slot = slot' :=
  congrArg Prod.fst (Multiset.inj_on_of_nodup_map (nodup_linked hids) _ h _ h' rfl)

/-- a slot holds one block -/
theorem occupant_unique (hw : w.Sound) {slot : Slot} {id id' : String} (h : (slot, id) ∈ w.links)
    (h' : (slot, id') ∈ w.links) : id = id' := by
  obtain ⟨p, hp, c, hc, hid⟩ := mem_links_iff.mp h
  obtain ⟨q, hq, d, hd, hid'⟩ := mem_links_iff.mp h'
  obtain rfl : p = q := eq_of_id_eq hw.distinct hp hq (hc.id_eq hd)
  obtain rfl : c = d := hc.unique (tidy_of_mem_walk hw.ordered hp) hd
  exact hid.symm.trans hid'

end

/-! ## contents and links tell a workspace -/

section
variable {w w' : Workspace} (hw : w.Sound) (hw' : w'.Sound) (hl : w.links = w'.links)
include hw' hl

/-- the block of the same id in the other workspace has something of the same id in each slot -/
theorem exists_child {b b' child : Block} {slot : Slot} (hb : b ∈ w.walk) (hb' : b' ∈ w'.walk)
    (hid : b.id = b'.id) (h : Holds b child slot) :
    ∃ child', Holds b' child' slot ∧ child' ∈ w'.walk ∧ child.id = child'.id := by
  have hm : (slot, child.id) ∈ w'.links := hl ▸ mem_links_iff.mpr ⟨b, hb, child, h, rfl⟩
  obtain ⟨p, hp, child', hc, hcid⟩ := mem_links_iff.mp hm
  -- the owner of the slot is told by the slot
  obtain rfl : p = b' := eq_of_id_eq hw'.distinct hp hb' ((hc.id_eq h).trans hid)
  exact ⟨child', hc, mem_walk_of_child hw'.distinct hp hc, hcid.symm⟩

include hw

/-- by induction on the size of the block: what hangs in its slots is smaller -/
theorem eq_of_links (hc : w.contents = w'.contents) {b b' : Block} (hb : b ∈ w.walk)
    (hb' : b' ∈ w'.walk) (hid : b.id = b'.id) : b = b' := by
  induction hn : b.walk.length using Nat.strong_induction_on generalizing b b' with
  | _ n ih =>
    subst hn
    have hrecord : b.record = b'.record := by
      have hm : b.record ∈ w'.contents := hc ▸ record_mem_contents.mpr ⟨b, hb, rfl⟩
      obtain ⟨x, hx, hr⟩ := record_mem_contents.mp hm
      obtain rfl : x = b' := eq_of_id_eq hw'.distinct hx hb' ((congrArg Prod.fst hr).trans hid)
      exact hr.symm
    have hchild : ∀ {child child' : Block} {slot : Slot}, Holds b child slot → child' ∈ w'.walk →
        child.id = child'.id → child = child' := fun h hm he =>
      ih _ (length_walk_lt h) (mem_walk_of_child hw.distinct hb h) hm he rfl
    refine eq_of_holds_iff (tidy_of_mem_walk hw.ordered hb) (tidy_of_mem_walk hw'.ordered hb') hrecord
      fun child slot => ⟨fun h => ?_, fun h => ?_⟩
    · obtain ⟨child', h', hm, he⟩ := exists_child hw' hl hb hb' hid h
      rw [hchild h hm he]
      exact h'
    · obtain ⟨child', h', -, he⟩ := exists_child hw hl.symm hb' hb hid.symm h
      rw [← hchild h' (mem_walk_of_child hw'.distinct hb' h) he.symm]
      exact h'

/-- the chains start with the blocks that no link names -/
theorem mem_blocks_of_links (hc : w.contents = w'.contents) {b : Block} (hb : b ∈ w.blocks) :
    b ∈ w'.blocks := by
  have hroots : (w.blocks.map Block.id : Multiset String) = w'.blocks.map Block.id := by
    have h := map_snd_links w
    rw [hc, ← map_snd_links w', hl] at h
    exact add_left_cancel h
  have hid : b.id ∈ (w'.blocks.map Block.id : Multiset String) :=
    hroots ▸ Multiset.mem_coe.mpr (List.mem_map_of_mem hb)
  obtain ⟨b', hb', he⟩ := List.mem_map.mp (Multiset.mem_coe.mp hid)
  rw [eq_of_links hw hw' hl hc (mem_walk_of_mem hb) (mem_walk_of_mem hb') he.symm]
  exact hb'

theorem perm_of_links (hc : w.contents = w'.contents) : w.blocks.Perm w'.blocks := by
  rw [List.perm_ext_iff_of_nodup (nodup_blocks hw.distinct) (nodup_blocks hw'.distinct)]
  exact fun b => ⟨mem_blocks_of_links hw hw' hl hc, mem_blocks_of_links hw' hw hl.symm hc.symm⟩

end

/-! ## connecting a value -/

theorem Place.links_fill (P : Place) (p : Block) :
    ∃ frame : Multiset Link, ∀ q : Block, q.id = p.id → (P.fill q).links = frame + q.links := by
  obtain ⟨frame, hframe⟩ := Block.links_fill P.context p
  refine ⟨links ⟨P.left⟩ + frame + links ⟨P.right⟩, fun q hq => ?_⟩
  rw [Place.fill, links_append, links_cons, hframe q hq]
  ac_rfl

theorem takeFrom?_links {w rest : Workspace} {owner : String} {child : Block → Option Block}
    {without : Block → Block} {b : Block} {l : Link}
    (h : w.takeFrom? owner child without = some (b, rest))
    (hsplit : ∀ p : Block, p.id = owner → child p = some b →
      p.links = l ::ₘ b.links + (without p).links ∧ (without p).id = p.id) :
    w.links = {l} + (b.links + rest.links) := by
  obtain ⟨p, P, rfl, rfl, -, hb, rfl⟩ := takeFrom?_eq_some h
  obtain ⟨frame, hframe⟩ := P.links_fill p
  obtain ⟨hp, hid⟩ := hsplit p rfl hb
  rw [hframe p rfl, hframe _ hid, hp, ← Multiset.singleton_add]
  ac_rfl

/-- a block that is taken out loses the link to it, if there is one, and takes its own links along -/
theorem take?_links {w rest : Workspace} {slot : Slot} {b : Block}
    (h : w.take? slot = some (b, rest)) :
    ∃ cut : Multiset Link, (∀ l ∈ cut, l = (slot, b.id)) ∧ w.links = cut + (b.links + rest.links) := by
  cases slot with
  | top index =>
    obtain ⟨b', hb, h⟩ := Option.bind_eq_some_iff.mp h
    cases h
    obtain ⟨hlt, rfl⟩ := List.getElem?_eq_some_iff.mp hb
    refine ⟨0, by simp, ?_⟩
    rw [zero_add, ← links_cons]
    exact ((List.getElem_cons_eraseIdx_perm hlt).symm.map Block.links).sum_eq
  | input owner socket =>
    exact ⟨_, fun l hl => Multiset.mem_singleton.mp hl,
      takeFrom?_links h fun p hp hb => ⟨hp ▸ links_eraseInput hb, rfl⟩⟩
  | statement owner socket =>
    exact ⟨_, fun l hl => Multiset.mem_singleton.mp hl,
      takeFrom?_links h fun p hp hb => ⟨hp ▸ links_eraseStatement hb, rfl⟩⟩
  | after owner =>
    exact ⟨_, fun l hl => Multiset.mem_singleton.mp hl,
      takeFrom?_links h fun p hp hb => ⟨hp ▸ links_dropNext hb, rfl⟩⟩

theorem linksNext_eq (slot : Slot) (next : Option Block) :
    ∃ cut : Multiset Link, (∀ l ∈ cut, l.1 = slot ∧ l.2 ∈ next.toList.map Block.id)
      ∧ linksNext slot next = cut + links ⟨next.toList⟩ := by
  cases next with
  | none => exact ⟨0, by simp, rfl⟩
  | some b => exact ⟨{(slot, b.id)}, by simp, by simp [linksNext, links]⟩

/-- connecting a value cuts the link to it and the link of the socket, and sets the new one -/
theorem connectValue_links {w w' : Workspace} {parent socket child : String} (hw : w.Sound)
    (h : w.connectValue parent socket child = .ok w') :
    ∃ kept cut cut' : Multiset Link, (∀ l ∈ cut, l.2 = child) ∧ w.links = cut + kept
      ∧ (∀ l ∈ cut', l.1 = .input parent socket)
      ∧ w'.links + cut' = (.input parent socket, child) ::ₘ kept
      ∧ (.input parent socket, child) ∈ w'.links := by
  cases ht : w.takeForAttach parent child with
  | error e =>
    rw [connectValue, ht] at h
    cases h
  | ok taken =>
    obtain ⟨c, rest⟩ := taken
    rw [connectValue, ht] at h
    obtain ⟨slot, hlocate, htake⟩ := takeForAttach_ok ht
    obtain rfl : c.id = child := take?_locate hw.ordered hw.distinct hlocate htake
    obtain ⟨cut, hcut, hlinks⟩ := take?_links htake
    obtain ⟨p, P, rfl, rfl, -, rfl⟩ := changeParent_ok h
    obtain ⟨frame, hframe⟩ := P.links_fill p
    obtain ⟨cut', hcut', hnext⟩ := linksNext_eq (.input p.id socket) (p.input? socket)
    have hp : p.Ordered := Place.ordered_of_fill (take?_contents hw.ordered htake).2.2
    have hset := links_setInput socket c hp
    refine ⟨_, cut, cut', fun l hl => congrArg Prod.snd (hcut l hl), hlinks,
      fun l hl => (hcut' l hl).1, ?_, ?_⟩
    · rw [links_append, hframe (p.setInput socket c) rfl, hframe p rfl]
      calc frame + (p.setInput socket c).links + links ⟨(p.input? socket).toList⟩ + cut'
          = frame + ((p.setInput socket c).links + linksNext (.input p.id socket) (p.input? socket)) := by
            rw [hnext]; ac_rfl
        _ = _ := by rw [hset, ← Multiset.singleton_add, ← Multiset.singleton_add]; ac_rfl
    · have hheld : Holds (p.setInput socket c) c (.input p.id socket) :=
        ⟨rfl, Assoc.mem_of_get? (by rw [setInput, Assoc.get?_insert, if_pos rfl])⟩
      have hmem : p.setInput socket c ∈ (P.fill (p.setInput socket c)).walk :=
        mem_walk_place (self_mem_walk _)
      rw [links_append, Multiset.mem_add]
      exact Or.inl (mem_links_iff.mpr ⟨_, hmem, c, hheld, rfl⟩)

/-- the links after a value was connected: the new one, and those that neither speak of its socket nor of
its block -/
theorem mem_links_connectValue {w w' : Workspace} {parent socket child : String} (hw : w.Sound)
    (h : w.connectValue parent socket child = .ok w') (l : Link) :
    l ∈ w'.links ↔ l = (.input parent socket, child)
      ∨ l ∈ w.links ∧ l.1 ≠ .input parent socket ∧ l.2 ≠ child := by
  have hw' : w'.Sound := hw.of_contents (connectValue_contents hw.ordered h)
  obtain ⟨kept, cut, cut', hcut, hlinks, hcut', hlinks', hnew⟩ := connectValue_links hw h
  obtain ⟨slot, id⟩ := l
  constructor
  · intro hl
    by_cases he : (slot, id) = (.input parent socket, child)
    · exact Or.inl he
    have hkept : (slot, id) ∈ kept := by
      have hm : (slot, id) ∈ w'.links + cut' := Multiset.mem_add.mpr (Or.inl hl)
      rw [hlinks'] at hm
      exact (Multiset.mem_cons.mp hm).resolve_left he
    refine Or.inr ⟨hlinks ▸ Multiset.mem_add.mpr (Or.inr hkept), ?_, ?_⟩
    · rintro rfl
      exact he (by rw [occupant_unique hw' hl hnew])
    · rintro rfl
      exact he (by rw [slot_unique hw'.distinct hl hnew])
  · rintro (he | ⟨hl, hslot, hid⟩)
    · rw [he]
      exact hnew
    have hkept : (slot, id) ∈ kept := by
      rw [hlinks] at hl
      exact (Multiset.mem_add.mp hl).resolve_left fun hm => hid (hcut _ hm)
    have hm : (slot, id) ∈ w'.links + cut' := hlinks' ▸ Multiset.mem_cons_of_mem hkept
    exact (Multiset.mem_add.mp hm).resolve_right fun hm => hslot (hcut' _ hm)

/-! ## two connections -/

/-- two connections of different blocks into different sockets lead to the same workspace in either order, up
to the order of its chains, whatever is in the sockets and wherever the blocks were -/
theorem connections_commute {w w₁ w₁₂ w₂ w₂₁ : Workspace} (hw : w.Reachable)
    {p₁ s₁ c₁ p₂ s₂ c₂ : String} (hchild : c₁ ≠ c₂) (hsocket : (p₁, s₁) ≠ (p₂, s₂))
    (h₁ : w.connectValue p₁ s₁ c₁ = .ok w₁) (h₁₂ : w₁.connectValue p₂ s₂ c₂ = .ok w₁₂)
    (h₂ : w.connectValue p₂ s₂ c₂ = .ok w₂) (h₂₁ : w₂.connectValue p₁ s₁ c₁ = .ok w₂₁) :
    w₁₂.blocks.Perm w₂₁.blocks := by
  have hs : w.Sound := sound_of_reachable hw
  have hc₁ := connectValue_contents hs.ordered h₁
  have hc₂ := connectValue_contents hs.ordered h₂
  have hs₁ : w₁.Sound := hs.of_contents hc₁
  have hs₂ : w₂.Sound := hs.of_contents hc₂
  have hc₁₂ := connectValue_contents hs₁.ordered h₁₂
  have hc₂₁ := connectValue_contents hs₂.ordered h₂₁
  have hs₁₂ : w₁₂.Sound := hs₁.of_contents hc₁₂
  have hs₂₁ : w₂₁.Sound := hs₂.of_contents hc₂₁
  have hslot : Slot.input p₁ s₁ ≠ .input p₂ s₂ := by simpa using hsocket
  refine perm_of_links hs₁₂ hs₂₁ ?_ (by rw [hc₁₂.1, hc₁.1, hc₂₁.1, hc₂.1])
  rw [(nodup_links hs₁₂.distinct).ext (nodup_links hs₂₁.distinct)]
  intro l
  rw [mem_links_connectValue hs₁ h₁₂, mem_links_connectValue hs h₁, mem_links_connectValue hs₂ h₂₁,
    mem_links_connectValue hs h₂]
  -- neither new link speaks of the socket or the block of the other one
  have hnew₁ : l = (.input p₁ s₁, c₁) → l.1 ≠ .input p₂ s₂ ∧ l.2 ≠ c₂ := by
    rintro rfl
    exact ⟨hslot, hchild⟩
  have hnew₂ : l = (.input p₂ s₂, c₂) → l.1 ≠ .input p₁ s₁ ∧ l.2 ≠ c₁ := by
    rintro rfl
    exact ⟨hslot.symm, hchild.symm⟩
  grind

/-- `u` goes where `x` is, and `v`, which is inside `x`, goes where `y` is -/
def crossingRun : List Edit :=
  [.addLeaf "p" "print", .addLeaf "q" "print", .addLeaf "x" "abs", .addLeaf "y" "number", .addLeaf "u" "number",
    .addLeaf "v" "number", .connectValue "p" "TEXT" "x", .connectValue "q" "TEXT" "y", .connectValue "x" "NUM" "v"]

theorem connections_commute_crossingRun :
    ∃ w₁ w₁₂ w₂ w₂₁ : Workspace,
      (empty.run crossingRun).connectValue "p" "TEXT" "u" = .ok w₁
      ∧ w₁.connectValue "q" "TEXT" "v" = .ok w₁₂
      ∧ (empty.run crossingRun).connectValue "q" "TEXT" "v" = .ok w₂
      ∧ w₂.connectValue "p" "TEXT" "u" = .ok w₂₁
      ∧ w₁₂.blocks.map Block.id = ["p", "q", "x", "y"] ∧ w₂₁.blocks.map Block.id = ["p", "q", "y", "x"]
      ∧ w₁₂.blocks.Perm w₂₁.blocks := by
  obtain ⟨w₁, w₁₂, w₂, w₂₁, h₁, h₁₂, h₂, h₂₁, hids, hids'⟩ : ∃ w₁ w₁₂ w₂ w₂₁ : Workspace,
      (empty.run crossingRun).connectValue "p" "TEXT" "u" = .ok w₁
      ∧ w₁.connectValue "q" "TEXT" "v" = .ok w₁₂
      ∧ (empty.run crossingRun).connectValue "q" "TEXT" "v" = .ok w₂
      ∧ w₂.connectValue "p" "TEXT" "u" = .ok w₂₁
      ∧ w₁₂.blocks.map Block.id = ["p", "q", "x", "y"]
      ∧ w₂₁.blocks.map Block.id = ["p", "q", "y", "x"] :=
    ⟨_, _, _, _, rfl, rfl, rfl, rfl, by decide, by decide⟩
  exact ⟨w₁, w₁₂, w₂, w₂₁, h₁, h₁₂, h₂, h₂₁, hids, hids',
    connections_commute ⟨empty, crossingRun, .empty, rfl⟩ (by decide) (by decide) h₁ h₁₂ h₂ h₂₁⟩

end Workspace
end VisualProgram
