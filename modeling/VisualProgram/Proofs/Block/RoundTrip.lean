import VisualProgram.Proofs.Block.Decoding
import VisualProgram.Proofs.Block.Loading

/-!
# Blocks read back from their JSON

What is empty is not written, and its default is just that, so the tree of a written block is taken for
the same block again (`ofRaw?_toJson`).  Two things must hold of it.  Its sockets are in order: they are
inserted one by one, and each new one goes last.  Its fields are `Proper` maps: they hold each key once,
at any depth.  Every block that is read has both (`ordered_of_ofRaw?`, `proper_of_ofRaw?`).
-/

namespace VisualProgram
open Json

namespace Block

/-! ## maps of fields -/

/-- the fields of every block of a tree hold each key once -/
def Proper (b : Block) : Prop := ∀ r ∈ b.records, (object r.2.2).Proper
def ProperSockets (sockets : List (String × Block)) : Prop :=
  ∀ r ∈ recordsSockets sockets, (object r.2.2).Proper
def ProperNext (next : Option Block) : Prop := ∀ r ∈ recordsNext next, (object r.2.2).Proper

theorem proper_iff (b : Block) :
    b.Proper ↔ (object b.fields).Proper ∧ ProperSockets b.inputs ∧ ProperSockets b.statements
      ∧ ProperNext b.next := by
  obtain ⟨id, tag, fields, inputs, statements, next⟩ := b
  simp only [Proper, records_mk, List.mem_cons, List.mem_append, or_imp, forall_and, forall_eq,
    ProperSockets, ProperNext, and_assoc]

@[simp] theorem properSockets_nil : ProperSockets [] := by simp [ProperSockets, recordsSockets_nil]

@[simp] theorem properSockets_cons {socket : String} {child : Block} {rest : List (String × Block)} :
    ProperSockets ((socket, child) :: rest) ↔ child.Proper ∧ ProperSockets rest := by
  simp only [ProperSockets, recordsSockets_cons, List.mem_append, or_imp, forall_and, Proper]

@[simp] theorem properNext_none : ProperNext none := by simp [ProperNext, recordsNext_none]

theorem ProperSockets.insert {socket : String} {child : Block} {sockets : List (String × Block)}
    (h : ProperSockets sockets) (hc : child.Proper) :
    ProperSockets (Assoc.insert socket child sockets) := by
  induction sockets with
  | nil => exact properSockets_cons.mpr ⟨hc, h⟩
  | cons entry rest ih =>
    obtain ⟨k, v⟩ := entry
    obtain ⟨hv, hrest⟩ := properSockets_cons.mp h
    rw [Assoc.insert]
    split
    · exact properSockets_cons.mpr ⟨hc, hrest⟩
    · split
      · exact properSockets_cons.mpr ⟨hc, h⟩
      · exact properSockets_cons.mpr ⟨hv, ih hrest⟩

/-! ## the members of a block -/

theorem viewMembers_ofMembers (members : List (String × Json)) :
    viewMembers (Raw.ofMembers members) = members.map fun m => (some m.1, view (Raw.ofJson m.2)) := by
  induction members with
  | nil => rfl
  | cons member rest ih => rw [Raw.ofMembers, viewMembers, ih, List.map_cons]

theorem ofRaw?_object {members : List (String × Json)} (hnames : Assoc.keys members ⊆ entryNames)
    (hkeys : (Assoc.keys members).Nodup) :
    ofRaw? (Raw.ofJson (.object members))
      = ofEntries? (members.map fun m => (m.1, view (Raw.ofJson m.2))) := by
  show (knownMembers? entryNames (viewMembers (Raw.ofMembers members))).bind ofEntries? = _
  rw [viewMembers_ofMembers, knownMembers?_map (fun v => view (Raw.ofJson v)) hnames hkeys]
  rfl

theorem keys_memberUnless (empty : Bool) (key : String) (v : Json) :
    (Assoc.keys (memberUnless empty key v)).Sublist [key] := by
  unfold memberUnless
  split
  · exact List.nil_sublist _
  · exact List.Sublist.refl _

/-- the member is there, unless it is left out -/
theorem get?_memberUnless (empty : Bool) (key other : String) (v : Json) :
    Assoc.get? other (memberUnless empty key v)
      = if key = other then (if empty then none else some v) else none := by
  cases empty <;> simp [memberUnless, Assoc.get?]

/-- the members a block is written with -/
def members (b : Block) : List (String × Json) :=
  [("id", .string b.id), ("type", .string b.tag)]
    ++ memberUnless b.fields.isEmpty "fields" (.object b.fields)
    ++ memberUnless b.inputs.isEmpty "inputs" (.object (socketsToJson b.inputs))
    ++ memberUnless b.statements.isEmpty "statements" (.object (socketsToJson b.statements))
    ++ memberUnless b.next.isNone "next" (nextToJson b.next)

theorem toJson_eq (b : Block) : b.toJson = .object b.members := by
  cases b
  rw [toJson, members]

theorem keys_members (b : Block) : (Assoc.keys b.members).Sublist entryNames := by
  simp only [members, Assoc.keys_append]
  have hfields := (List.Sublist.refl ["id", "type"]).append
    (keys_memberUnless b.fields.isEmpty "fields" (.object b.fields))
  exact ((hfields.append (keys_memberUnless _ _ _)).append (keys_memberUnless _ _ _)).append
    (keys_memberUnless _ _ _)

/-- an entry that is left out has its default -/
theorem optional_of_get? {α β : Type} {name : String} {default x : β} {read : α → Option β}
    {entries : List (String × α)} {empty : Bool} {v : α}
    (hget : Assoc.get? name entries = if empty then none else some v)
    (hdefault : empty = true → x = default) (hread : read v = some x) :
    optional name default read entries = some x := by
  unfold Json.optional
  rw [hget]
  cases empty with
  | true => rw [hdefault rfl]; rfl
  | false => exact hread

/-- a written block is read back if its parts are -/
theorem ofRaw?_of_parts (b : Block) (hf : (object b.fields).Proper)
    (hi : (view (Raw.ofJson (.object (socketsToJson b.inputs)))).sockets = some b.inputs)
    (hs : (view (Raw.ofJson (.object (socketsToJson b.statements)))).sockets = some b.statements)
    (hn : (view (Raw.ofJson (nextToJson b.next))).next? = some b.next) :
    ofRaw? (Raw.ofJson b.toJson) = some b := by
  have hid : Assoc.get? "id" b.members = some (.string b.id) := rfl
  have htag : Assoc.get? "type" b.members = some (.string b.tag) := rfl
  have hfields : Assoc.get? "fields" b.members
      = if b.fields.isEmpty then none else some (.object b.fields) := by
    simp [members, Assoc.get?_append, get?_memberUnless, Assoc.get?]
  have hinputs : Assoc.get? "inputs" b.members
      = if b.inputs.isEmpty then none else some (.object (socketsToJson b.inputs)) := by
    simp [members, Assoc.get?_append, get?_memberUnless, Assoc.get?]
  have hstatements : Assoc.get? "statements" b.members
      = if b.statements.isEmpty then none else some (.object (socketsToJson b.statements)) := by
    simp [members, Assoc.get?_append, get?_memberUnless, Assoc.get?]
  have hnext : Assoc.get? "next" b.members
      = if b.next.isNone then none else some (nextToJson b.next) := by
    simp [members, Assoc.get?_append, get?_memberUnless, Assoc.get?]
  rw [toJson_eq, ofRaw?_object b.keys_members.subset (b.keys_members.nodup (by decide)), ofEntries?]
  simp only [required_map _ fun v => view (Raw.ofJson v), optional_map _ _ fun v => view (Raw.ofJson v),
    view_raw]
  have hread := (members?_ofJson _).trans (members?_of_proper hf)
  rw [required, hid, required, htag, optional_of_get? hfields List.isEmpty_iff.mp hread,
    optional_of_get? hinputs List.isEmpty_iff.mp hi,
    optional_of_get? hstatements List.isEmpty_iff.mp hs,
    optional_of_get? hnext Option.isNone_iff_eq_none.mp hn]
  cases b
  rfl

/-! ## whole trees -/

theorem next?_toJson (b : Block) :
    (view (Raw.ofJson b.toJson)).next? = (ofRaw? (Raw.ofJson b.toJson)).map some := by
  rw [toJson_eq]
  rfl

mutual
theorem ofRaw?_toJson : (b : Block) → b.Ordered → b.Proper → ofRaw? (Raw.ofJson b.toJson) = some b
  | ⟨id, tag, fields, inputs, statements, next⟩, ho, hp => by
    obtain ⟨⟨hti, hts⟩, hoi, hos, hon⟩ := (ordered_iff _).mp ho
    obtain ⟨hf, hpi, hps, hpn⟩ := (proper_iff _).mp hp
    exact ofRaw?_of_parts _ hf (socketsOf?_toJson inputs hoi hpi [] hti)
      (socketsOf?_toJson statements hos hps [] hts) (next?_nextToJson next hon hpn)

/-- each socket comes after those before it, so it is inserted last -/
theorem socketsOf?_toJson : (sockets : List (String × Block)) → OrderedSockets sockets →
    ProperSockets sockets → (done : List (String × Block)) → Assoc.Increasing (done ++ sockets) →
    socketsOf? (viewMembers (Raw.ofMembers (socketsToJson sockets))) done = some (done ++ sockets)
  | [], _, _, done, _ => by
    rw [List.append_nil]
    rfl
  | (socket, child) :: rest, ho, hp, done, hinc => by
    obtain ⟨hoc, hor⟩ := orderedSockets_cons.mp ho
    obtain ⟨hpc, hpr⟩ := properSockets_cons.mp hp
    have hchild : (view (Raw.ofJson child.toJson)).block = some child := ofRaw?_toJson child hoc hpc
    have hlast : ∀ l ∈ Assoc.keys done, l < socket := by
      rw [Assoc.Increasing, Assoc.keys_append, List.pairwise_append] at hinc
      exact fun l hl => hinc.2.2 l hl socket List.mem_cons_self
    have hrest := socketsOf?_toJson rest hor hpr (done ++ [(socket, child)]) (by simpa using hinc)
    simpa [socketsToJson, Raw.ofMembers, viewMembers, socketsOf?, hchild, Assoc.insert_last hlast]
      using hrest

theorem next?_nextToJson : (next : Option Block) → OrderedNext next → ProperNext next →
    (view (Raw.ofJson (nextToJson next))).next? = some next
  | none, _, _ => rfl
  | some b, ho, hp => by
    rw [nextToJson, next?_toJson, ofRaw?_toJson b ho hp]
    rfl
end

/-! ## maps of fields that are read -/

theorem inherited_proper : Inherited Proper ProperSockets where
  nil := properSockets_nil
  insert _ hs hc := hs.insert hc
  block b hf hi hs hn := by
    have hnext : ProperNext b.next := by
      cases h : b.next with
      | none => exact properNext_none
      | some n => exact hn n h
    exact (proper_iff b).mpr ⟨hf, hi, hs, hnext⟩

theorem proper_of_ofRaw? {raw : Raw} {b : Block} (h : ofRaw? raw = some b) : b.Proper :=
  inherited_proper.of_ofRaw? h

end Block
end VisualProgram
