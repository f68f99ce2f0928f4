import VisualProgram.Block.State
import VisualProgram.Proofs.Block.Sockets
import VisualProgram.Proofs.Json.RoundTrip

/-!
# What holds of blocks read from JSON

A tree is read bottom up, and the sockets of a block are inserted one by one.  So whatever a block has if
its fields are a map and its sockets and the rest of its chain have it (`Inherited`), every block that is
read has (`Inherited.of_ofRaw?`).  In particular its sockets are in order (`ordered_of_ofRaw?`).
-/

namespace VisualProgram.Block
open Json

/-! ## entries of a record -/

theorem mem_of_knownMembers? {α : Type} {names : List String} {members : List (Option String × α)}
    {known : List (String × α)} (h : knownMembers? names members = some known) :
    ∀ entry ∈ known, ∃ key, (key, entry.2) ∈ members := by
  induction members generalizing known with
  | nil =>
    cases h
    simp
  | cons member rest ih =>
    obtain ⟨key, x⟩ := member
    obtain ⟨name, -, h⟩ := Option.bind_eq_some_iff.mp h
    obtain ⟨tail, ht, h⟩ := Option.bind_eq_some_iff.mp h
    have hrest : ∀ entry ∈ tail, ∃ k, (k, entry.2) ∈ (key, x) :: rest := fun entry he => by
      obtain ⟨k, hk⟩ := ih ht entry he
      exact ⟨k, List.mem_cons_of_mem _ hk⟩
    split at h
    · split at h
      · cases h
      · cases h
        intro entry he
        rcases List.mem_cons.mp he with rfl | he
        · exact ⟨key, List.mem_cons_self⟩
        · exact hrest entry he
    · cases h
      exact hrest

theorem mem_of_knownItems? {α : Type} {names : List String} {items : List α}
    {known : List (String × α)} (h : knownItems? names items = some known) :
    ∀ entry ∈ known, entry.2 ∈ items := by
  unfold knownItems? at h
  split at h
  · cases h
    exact fun entry he => (List.of_mem_zip he).2
  · cases h

/-- an optional entry is its default or was read from one of the entries -/
theorem optional_eq_some {α β : Type} {name : String} {default x : β} {read : α → Option β}
    {entries : List (String × α)} (h : optional name default read entries = some x) :
    x = default ∨ ∃ entry ∈ entries, read entry.2 = some x := by
  unfold Json.optional at h
  split at h
  · cases h
    exact .inl rfl
  next y hy =>
    exact .inr ⟨(name, y), Assoc.mem_of_get? hy, h⟩

/-! ## from the parts of a block to the block -/

/-- blocks have `P` and sets of sockets have `Q` as soon as what they are made of does -/
structure Inherited (P : Block → Prop) (Q : List (String × Block) → Prop) : Prop where
  nil : Q []
  insert : ∀ {sockets : List (String × Block)} {child : Block} (socket : String),
    Q sockets → P child → Q (Assoc.insert socket child sockets)
  block : ∀ b : Block, (object b.fields).Proper → Q b.inputs → Q b.statements →
    (∀ n, b.next = some n → P n) → P b

section
variable {P : Block → Prop} {Q : List (String × Block) → Prop}

/-- what a tree is taken for has `P` and `Q` -/
def View.Has (P : Block → Prop) (Q : List (String × Block) → Prop) (v : View) : Prop :=
  (∀ b, v.block = some b → P b) ∧ ∀ sockets, v.sockets = some sockets → Q sockets

theorem Inherited.of_entries (h : Inherited P Q) {entries : List (String × View)} {b : Block}
    (hall : ∀ entry ∈ entries, entry.2.Has P Q) (hb : ofEntries? entries = some b) : P b := by
  unfold ofEntries? at hb
  obtain ⟨id, -, hb⟩ := Option.bind_eq_some_iff.mp hb
  obtain ⟨tag, -, hb⟩ := Option.bind_eq_some_iff.mp hb
  obtain ⟨fields, hf, hb⟩ := Option.bind_eq_some_iff.mp hb
  obtain ⟨inputs, hi, hb⟩ := Option.bind_eq_some_iff.mp hb
  obtain ⟨statements, hs, hb⟩ := Option.bind_eq_some_iff.mp hb
  obtain ⟨next, hn, hb⟩ := Option.bind_eq_some_iff.mp hb
  cases hb
  have hfields : (object fields).Proper := by
    rcases optional_eq_some hf with rfl | ⟨entry, -, hr⟩
    · exact proper_empty
    · exact proper_of_members? hr
  have hsockets : ∀ (name : String) (sockets : List (String × Block)),
      optional name [] (·.sockets) entries = some sockets → Q sockets := by
    intro name sockets ho
    rcases optional_eq_some ho with rfl | ⟨entry, he, hr⟩
    · exact h.nil
    · exact (hall entry he).2 sockets hr
  have hnext : ∀ n, next = some n → P n := by
    intro n e
    subst e
    rcases optional_eq_some hn with e | ⟨entry, he, hr⟩
    · cases e
    · unfold View.next? at hr
      split at hr
      · cases hr
      · obtain ⟨b, hb, e⟩ := Option.map_eq_some_iff.mp hr
        cases e
        exact (hall entry he).1 _ hb
  exact h.block _ hfields (hsockets _ _ hi) (hsockets _ _ hs) hnext

theorem Inherited.of_sockets (h : Inherited P Q) {members : List (Option String × View)}
    (hall : ∀ member ∈ members, member.2.Has P Q) :
    ∀ {done sockets : List (String × Block)}, Q done →
      socketsOf? members done = some sockets → Q sockets := by
  induction members with
  | nil =>
    intro done sockets hd hs
    cases hs
    exact hd
  | cons member rest ih =>
    intro done sockets hd hs
    obtain ⟨key, v⟩ := member
    obtain ⟨socket, -, hs⟩ := Option.bind_eq_some_iff.mp hs
    obtain ⟨child, hc, hs⟩ := Option.bind_eq_some_iff.mp hs
    have hchild := (hall (key, v) List.mem_cons_self).1 child hc
    exact ih (fun m hm => hall m (List.mem_cons_of_mem _ hm)) (h.insert socket hd hchild) hs

mutual
theorem Inherited.of_view (h : Inherited P Q) : (raw : Raw) → (view raw).Has P Q
  | .object members => by
    have hall := h.of_viewMembers members
    rw [view]
    refine ⟨fun b hb => ?_, fun sockets hs => h.of_sockets hall h.nil hs⟩
    obtain ⟨known, hk, he⟩ := Option.bind_eq_some_iff.mp hb
    refine h.of_entries (fun entry hentry => ?_) he
    obtain ⟨key, hm⟩ := mem_of_knownMembers? hk entry hentry
    exact hall _ hm
  | .array items => by
    have hall := h.of_viewItems items
    rw [view]
    refine ⟨fun b hb => ?_, fun sockets hs => by cases hs⟩
    obtain ⟨known, hk, he⟩ := Option.bind_eq_some_iff.mp hb
    exact h.of_entries (fun entry hentry => hall _ (mem_of_knownItems? hk entry hentry)) he
  | .null => by simp [view, View.Has]
  | .bool b => by simp [view, View.Has]
  | .number n => by simp [view, View.Has]
  | .string s => by simp [view, View.Has]

theorem Inherited.of_viewMembers (h : Inherited P Q) :
    (members : List (Option String × Raw)) → ∀ member ∈ viewMembers members, member.2.Has P Q
  | [] => by simp [viewMembers]
  | (key, raw) :: rest => by
    rw [viewMembers]
    exact List.forall_mem_cons.mpr ⟨h.of_view raw, h.of_viewMembers rest⟩

theorem Inherited.of_viewItems (h : Inherited P Q) :
    (items : List Raw) → ∀ v ∈ viewItems items, v.Has P Q
  | [] => by simp [viewItems]
  | raw :: rest => by
    rw [viewItems]
    exact List.forall_mem_cons.mpr ⟨h.of_view raw, h.of_viewItems rest⟩
end

theorem Inherited.of_ofRaw? (h : Inherited P Q) {raw : Raw} {b : Block} (hb : ofRaw? raw = some b) :
    P b :=
  (h.of_view raw).1 b hb

end

/-! ## sockets in order -/

theorem inherited_ordered :
    Inherited Ordered fun sockets => Assoc.Increasing sockets ∧ OrderedSockets sockets where
  nil := ⟨Assoc.increasing_nil, orderedSockets_nil⟩
  insert _ hs hc := ⟨Assoc.increasing_insert hs.1, hs.2.insert hc⟩
  block b _ hi hs hn := by
    have hnext : OrderedNext b.next := by
      cases h : b.next with
      | none => exact orderedNext_none
      | some n => exact orderedNext_some.mpr (hn n h)
    exact (ordered_iff b).mpr ⟨⟨hi.1, hs.1⟩, hi.2, hs.2, hnext⟩

theorem ordered_of_ofRaw? {raw : Raw} {b : Block} (h : ofRaw? raw = some b) : b.Ordered :=
  inherited_ordered.of_ofRaw? h

end VisualProgram.Block
