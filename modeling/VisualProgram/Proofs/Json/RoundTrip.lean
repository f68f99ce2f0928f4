import VisualProgram.Json.Record
import VisualProgram.Proofs.Assoc
import VisualProgram.Proofs.Json.Scanning
import VisualProgram.Proofs.Literal.RoundTrip

/-!
# Values read back from their text

A value has its `tokens`.  Writing it and scanning the text gives them, with blanks (`reads_spread`) and
without (`reads_compact`), and the machine that takes one token at a time builds from them the tree that says
just the value (`builds_tokens`).  So a text that was written gives back its tree (`ofText?_pretty`,
`ofText?_compact`), provided that its floats are finite and denoted by their own text (`ReadsBack`).

The tree gives back the value if no object in it repeats a key (`Proper`), so a value with both properties
(`Legible`) is the one its text denotes.  The tree gives back a record with all its entries if its keys are
among the names of the record (`knownMembers?_map`).
-/

namespace VisualProgram

/-! ## maps -/

namespace Json
open Python (floats floatsOfItems floatsOfMembers)

/-! ## floats that read back -/

/-- a float is finite, and its text denotes it again -/
def ReadsBack (x : Float) : Prop :=
  x.isFinite = true
    ∧ (numeral? (floatLayout.write x).toList).bind Number.ofNumeral? = Number.ofFloat? x

instance : DecidablePred ReadsBack := fun x =>
  inferInstanceAs (Decidable (x.isFinite = true
    ∧ (numeral? (floatLayout.write x).toList).bind Number.ofNumeral? = Number.ofFloat? x))

theorem reads_number {n : Number} (h : ∀ x ∈ floats (.number n), ReadsBack x) :
    Reads (numberText n).toList [.number (some n)] := by
  have hback : (numeral? (numberText n).toList).bind Number.ofNumeral? = some n := by
    cases n with
    | whole n fits => exact numeral?_whole n fits
    | float x finite =>
      have hx := (h x (by simp [floats])).2
      rwa [Number.ofFloat?, dif_pos finite] at hx
  obtain ⟨numeral, hnumeral, hvalue⟩ := Option.bind_eq_some_iff.mp hback
  rw [← hvalue]
  exact reads_numeral hnumeral

/-! ## tokens -/

mutual
def tokens : Json → List Token
  | .null => [.null]
  | .bool b => [.bool b]
  | .number n => [.number (some n)]
  | .string s => [.string (some s)]
  | .array items => .openArray :: ([Token.comma].intercalate (tokensOfItems items) ++ [.closeArray])
  | .object members =>
    .openObject :: ([Token.comma].intercalate (tokensOfMembers members) ++ [.closeObject])

def tokensOfItems : List Json → List (List Token)
  | [] => []
  | v :: rest => tokens v :: tokensOfItems rest

def tokensOfMembers : List (String × Json) → List (List Token)
  | [] => []
  | (k, v) :: rest => (.string (some k) :: .colon :: tokens v) :: tokensOfMembers rest
end

/-! ## from a value to its text and tokens -/

/-- a line of a container and its tokens -/
def ReadsLine (line : String) (ts : List Token) : Prop := Reads line.toList ts

theorem passes_pad (level : Nat) : Passes (Text.pad "  " level).toList [] := by
  refine passes_blanks fun c hc => ?_
  rw [Text.pad, String.toList_join] at hc
  obtain ⟨part, hp, hcp⟩ := List.mem_flatMap.mp hc
  rw [List.eq_of_mem_replicate hp] at hcp
  exact Or.inl (by simpa using hcp)

theorem ReadsLine.indented {line : String} {ts : List Token} (h : ReadsLine line ts) (level : Nat) :
    ReadsLine (Text.pad "  " level ++ line) ts := by
  rw [ReadsLine, String.toList_append]
  exact (passes_pad level).append_reads h

theorem ReadsLine.entry {line : String} {ts : List Token} (h : ReadsLine line ts) (level : Nat)
    (key : String) :
    ReadsLine (Text.pad "  " level ++ quote key ++ ": " ++ line) (.string (some key) :: .colon :: ts) := by
  have hcolon : Passes ": ".toList [.colon] := fun _ => rfl
  have hkey := (passes_pad level).append ((passes_quote key).append hcolon)
  have hentry := hkey.append_reads h
  simpa [ReadsLine] using hentry

/-- elements with a comma between each two, which may stand before blanks -/
theorem reads_elements (separator : String) (blanks : List Char) (hs : separator.toList = ',' :: blanks)
    (hcomma : Passes (',' :: blanks) [.comma]) {lines : List String} {tss : List (List Token)}
    (h : List.Forall₂ ReadsLine lines tss) :
    Reads (String.intercalate separator lines).toList ([Token.comma].intercalate tss) := by
  induction h with
  | nil => exact passes_nil.reads
  | @cons line ts lines tss hline hmore ih =>
    cases hmore with
    | nil => simpa [ReadsLine] using hline
    | @cons next us lines tss hnext hmore =>
      have hfirst : Passes (line.toList ++ ',' :: blanks) (ts ++ [.comma]) :=
        Reads.append hline (by decide) hcomma
      have hall := hfirst.append_reads ih
      rw [String.intercalate_cons_cons, String.toList_append, String.toList_append, hs]
      simpa [List.intercalate_cons_cons] using hall

theorem passes_enclose (opening closing : String) {first last : Token} {lines : List String}
    {tss : List (List Token)} (ho : Passes opening.toList [first]) (hc : Passes closing.toList [last])
    (h : List.Forall₂ ReadsLine lines tss) (level : Nat) :
    Passes (enclose "  " level opening closing lines).toList
      (first :: ([Token.comma].intercalate tss ++ [last])) := by
  unfold enclose
  split
  next =>
    cases h
    rw [String.toList_append]
    exact ho.append hc
  next =>
    have hbreak : Passes "\n".toList [] := fun _ => rfl
    have hend := hbreak.append ((passes_pad level).append hc)
    have hbody := (reads_elements ",\n" ['\n'] rfl (fun _ => rfl) h).append (c := '\n') (by decide) hend
    have hwhole := ho.append (hbreak.append hbody)
    simpa using hwhole

mutual
theorem reads_spread (level : Nat) : (v : Json) → (∀ x ∈ floats v, ReadsBack x) →
    Reads (spread dialect "  " level v).toList (tokens v)
  | .null, _ => reads_null
  | .bool b, _ => reads_truth b
  | .number _, h => reads_number h
  | .string s, _ => (passes_quote s).reads
  | .array items, h =>
    (passes_enclose "[" "]" (fun _ => rfl) (fun _ => rfl)
      (elements_items (level + 1) items h) level).reads
  | .object members, h =>
    (passes_enclose "\x7b" "\x7d" (fun _ => rfl) (fun _ => rfl)
      (elements_members (level + 1) members h) level).reads

theorem elements_items (level : Nat) : (items : List Json) →
    (∀ x ∈ floatsOfItems items, ReadsBack x) →
    List.Forall₂ ReadsLine (spreadItems dialect "  " level items) (tokensOfItems items)
  | [], _ => .nil
  | v :: rest, h => by
    have hv : ReadsLine (spread dialect "  " level v) (tokens v) :=
      reads_spread level v fun x hx => h x (List.mem_append_left _ hx)
    exact .cons (hv.indented level)
      (elements_items level rest fun x hx => h x (List.mem_append_right _ hx))

theorem elements_members (level : Nat) : (members : List (String × Json)) →
    (∀ x ∈ floatsOfMembers members, ReadsBack x) →
    List.Forall₂ ReadsLine (spreadMembers dialect "  " level members) (tokensOfMembers members)
  | [], _ => .nil
  | (k, v) :: rest, h => by
    have hv : ReadsLine (spread dialect "  " level v) (tokens v) :=
      reads_spread level v fun x hx => h x (List.mem_append_left _ hx)
    exact .cons (hv.entry level k)
      (elements_members level rest fun x hx => h x (List.mem_append_right _ hx))
end

/-! ## from a value to its text without blanks -/

theorem passes_brackets (opening closing : String) {first last : Token} {c : Char} {cs : List Char}
    (hclosing : closing.toList = c :: cs) (hdelimiter : isDelimiter c = true)
    (ho : Passes opening.toList [first]) (hc : Passes (c :: cs) [last]) {parts : List String}
    {tss : List (List Token)} (h : List.Forall₂ ReadsLine parts tss) :
    Passes (opening ++ String.intercalate "," parts ++ closing).toList
      (first :: ([Token.comma].intercalate tss ++ [last])) := by
  have hbody := (reads_elements "," [] rfl (fun _ => rfl) h).append hdelimiter hc
  have hwhole := ho.append hbody
  rw [String.toList_append, String.toList_append, hclosing, List.append_assoc]
  exact hwhole

theorem ReadsLine.keyed {part : String} {ts : List Token} (h : ReadsLine part ts) (key : String) :
    ReadsLine (quote key ++ ":" ++ part) (.string (some key) :: .colon :: ts) := by
  have hcolon : Passes ":".toList [.colon] := fun _ => rfl
  have hentry := ((passes_quote key).append hcolon).append_reads h
  rw [ReadsLine, String.toList_append, String.toList_append]
  exact hentry

mutual
theorem reads_compact : (v : Json) → (∀ x ∈ floats v, ReadsBack x) → Reads (compact v).toList (tokens v)
  | .null, _ => reads_null
  | .bool b, _ => reads_truth b
  | .number _, h => reads_number h
  | .string s, _ => (passes_quote s).reads
  | .array items, h =>
    (passes_brackets "[" "]" rfl (by decide) (fun _ => rfl) (fun _ => rfl) (parts_items items h)).reads
  | .object members, h =>
    (passes_brackets "\x7b" "\x7d" rfl (by decide) (fun _ => rfl) (fun _ => rfl)
      (parts_members members h)).reads

theorem parts_items : (items : List Json) → (∀ x ∈ floatsOfItems items, ReadsBack x) →
    List.Forall₂ ReadsLine (compactItems items) (tokensOfItems items)
  | [], _ => .nil
  | v :: rest, h =>
    .cons (reads_compact v fun x hx => h x (List.mem_append_left _ hx))
      (parts_items rest fun x hx => h x (List.mem_append_right _ hx))

theorem parts_members : (members : List (String × Json)) →
    (∀ x ∈ floatsOfMembers members, ReadsBack x) →
    List.Forall₂ ReadsLine (compactMembers members) (tokensOfMembers members)
  | [], _ => .nil
  | (k, v) :: rest, h => by
    have hv : ReadsLine (compact v) (tokens v) := reads_compact v fun x hx => h x (List.mem_append_left _ hx)
    exact .cons (hv.keyed k) (parts_members rest fun x hx => h x (List.mem_append_right _ hx))
end

/-! ## from the tokens to the tree -/

def Build.after (b : Build) (ts : List Token) : Option Build := ts.foldlM Build.step b

@[simp] theorem Build.after_append (b : Build) (s t : List Token) :
    b.after (s ++ t) = (b.after s).bind (·.after t) :=
  List.foldlM_append

/-- the tokens are taken for the tree, at any place where a value may stand -/
structure Builds (ts : List Token) (raw : Raw) : Prop where
  value : ∀ stack, Build.after (.value stack) ts = some (.complete raw stack)
  opened : ∀ stack, Build.after (.opened stack) ts = some (.complete raw (.items [] :: stack))

/-- the tokens are taken for a member of an object -/
def BuildsMember (ts : List Token) (member : Option String × Raw) : Prop :=
  ∀ done stack, Build.after (.entry done stack) ts
    = some (.complete member.2 (.members done member.1 :: stack))

theorem builds_of_value {v : Json} {raw : Raw}
    (h : ∀ stack, Build.after (.value stack) (tokens v) = some (.complete raw stack)) :
    Builds (tokens v) raw := by
  refine ⟨h, fun stack => ?_⟩
  -- the first token of a value does not close the array that was just opened
  have hfirst : Build.after (.opened stack) (tokens v)
      = Build.after (.value (.items [] :: stack)) (tokens v) := by cases v <;> rfl
  rw [hfirst, h]

theorem Builds.member {ts : List Token} {raw : Raw} (h : Builds ts raw) (key : Option String) :
    BuildsMember (.string key :: .colon :: ts) (key, raw) := by
  intro done stack
  rw [← h.value]
  cases done <;> rfl

/-- the items that are left, and the bracket that closes the array -/
theorem after_items {tss : List (List Token)} {raws : List Raw} (h : List.Forall₂ Builds tss raws)
    (hne : tss ≠ []) (done : List Raw) (stack : List Frame) :
    Build.after (.value (.items done :: stack)) ([Token.comma].intercalate tss ++ [.closeArray])
      = some (.complete (.array (done.reverse ++ raws)) stack) := by
  induction h generalizing done with
  | nil => exact absurd rfl hne
  | @cons ts raw tss raws hts hmore ih =>
    cases hmore with
    | nil =>
      rw [List.intercalate_singleton, Build.after_append, hts.value]
      show some (Build.complete (.array (raw :: done).reverse) stack) = _
      rw [List.reverse_cons]
    | cons hnext hmore =>
      have hrest := ih (List.cons_ne_nil _ _) (raw :: done)
      rw [List.reverse_cons, List.append_assoc] at hrest
      rw [List.intercalate_cons_cons, List.append_assoc, List.append_assoc, Build.after_append,
        hts.value]
      exact hrest

/-- the members that are left, and the bracket that closes the object -/
theorem after_members {tss : List (List Token)} {members : List (Option String × Raw)}
    (h : List.Forall₂ BuildsMember tss members) (hne : tss ≠ [])
    (done : List (Option String × Raw)) (stack : List Frame) :
    Build.after (.entry done stack) ([Token.comma].intercalate tss ++ [.closeObject])
      = some (.complete (.object (done.reverse ++ members)) stack) := by
  induction h generalizing done with
  | nil => exact absurd rfl hne
  | @cons ts member tss members hts hmore ih =>
    cases hmore with
    | nil =>
      rw [List.intercalate_singleton, Build.after_append, hts]
      show some (Build.complete (.object (member :: done).reverse) stack) = _
      rw [List.reverse_cons]
    | cons hnext hmore =>
      have hrest := ih (List.cons_ne_nil _ _) (member :: done)
      rw [List.reverse_cons, List.append_assoc] at hrest
      rw [List.intercalate_cons_cons, List.append_assoc, List.append_assoc, Build.after_append, hts]
      exact hrest

theorem builds_array {tss : List (List Token)} {raws : List Raw} (h : List.Forall₂ Builds tss raws)
    (stack : List Frame) :
    Build.after (.value stack) (.openArray :: ([Token.comma].intercalate tss ++ [.closeArray]))
      = some (.complete (.array raws) stack) := by
  cases h with
  | nil => rfl
  | @cons ts raw tss raws hts hmore =>
    have hitems := after_items (.cons hts hmore) (List.cons_ne_nil _ _) [] stack
    obtain ⟨more, hmore⟩ : ∃ more, [Token.comma].intercalate (ts :: tss) = ts ++ more := by
      cases tss with
      | nil => exact ⟨[], by rw [List.intercalate_singleton, List.append_nil]⟩
      | cons us tss => exact ⟨_, by rw [List.intercalate_cons_cons, List.append_assoc]⟩
    rw [hmore, List.append_assoc, Build.after_append, hts.value] at hitems
    show Build.after (.opened stack) _ = _
    rw [hmore, List.append_assoc, Build.after_append, hts.opened]
    exact hitems

theorem builds_object {tss : List (List Token)} {members : List (Option String × Raw)}
    (h : List.Forall₂ BuildsMember tss members) (stack : List Frame) :
    Build.after (.value stack) (.openObject :: ([Token.comma].intercalate tss ++ [.closeObject]))
      = some (.complete (.object members) stack) := by
  cases h with
  | nil => rfl
  | cons hmember hmore => exact after_members (.cons hmember hmore) (List.cons_ne_nil _ _) [] stack

mutual
theorem builds_tokens : (v : Json) → Builds (tokens v) (Raw.ofJson v)
  | .null => builds_of_value fun _ => rfl
  | .bool _ => builds_of_value fun _ => rfl
  | .number _ => builds_of_value fun _ => rfl
  | .string _ => builds_of_value fun _ => rfl
  | .array items => builds_of_value (builds_array (builds_items items))
  | .object members => builds_of_value (builds_object (builds_members members))

theorem builds_items : (items : List Json) →
    List.Forall₂ Builds (tokensOfItems items) (Raw.ofItems items)
  | [] => .nil
  | v :: rest => .cons (builds_tokens v) (builds_items rest)

theorem builds_members : (members : List (String × Json)) →
    List.Forall₂ BuildsMember (tokensOfMembers members) (Raw.ofMembers members)
  | [] => .nil
  | (k, v) :: rest => .cons ((builds_tokens v).member (some k)) (builds_members rest)
end

/-- a text with the tokens of a value gives back the tree that says just that -/
theorem ofText?_of_reads {text : String} {v : Json} (h : Reads text.toList (tokens v)) :
    Raw.ofText? text = some (Raw.ofJson v) := by
  have hscan : scan text.toList = some (tokens v) := scan_of_reads h
  rw [Raw.ofText?, hscan, Option.bind_some]
  show (Build.after (.value []) (tokens v)).bind Build.finish = _
  rw [(builds_tokens v).value]
  rfl

theorem ofText?_pretty {v : Json} (h : ∀ x ∈ floats v, ReadsBack x) :
    Raw.ofText? (pretty v) = some (Raw.ofJson v) :=
  ofText?_of_reads (reads_spread 0 v h)

theorem ofText?_compact {v : Json} (h : ∀ x ∈ floats v, ReadsBack x) :
    Raw.ofText? (compact v) = some (Raw.ofJson v) :=
  ofText?_of_reads (reads_compact v h)

/-! ## from the tree to the value -/

mutual
/-- the keys of each object in a value -/
def keyLists : Json → List (List String)
  | .array items => keyListsOfItems items
  | .object members => Assoc.keys members :: keyListsOfMembers members
  | _ => []

def keyListsOfItems : List Json → List (List String)
  | [] => []
  | v :: rest => keyLists v ++ keyListsOfItems rest

def keyListsOfMembers : List (String × Json) → List (List String)
  | [] => []
  | (_, v) :: rest => keyLists v ++ keyListsOfMembers rest
end

/-- no object in the value repeats a key -/
def Proper (v : Json) : Prop := ∀ keys ∈ keyLists v, keys.Nodup

instance : DecidablePred Proper :=
  fun v => inferInstanceAs (Decidable (∀ keys ∈ keyLists v, keys.Nodup))

theorem keyListsOfItems_eq (items : List Json) : keyListsOfItems items = items.flatMap keyLists := by
  induction items with
  | nil => rfl
  | cons v rest ih => rw [keyListsOfItems, ih, List.flatMap_cons]

theorem keyListsOfMembers_eq (members : List (String × Json)) :
    keyListsOfMembers members = members.flatMap fun m => keyLists m.2 := by
  induction members with
  | nil => rfl
  | cons member rest ih => rw [keyListsOfMembers, ih, List.flatMap_cons]

theorem proper_array {items : List Json} : (array items).Proper ↔ ∀ v ∈ items, v.Proper := by
  simp only [Proper, keyLists, keyListsOfItems_eq, List.mem_flatMap]
  exact ⟨fun h v hv keys hk => h keys ⟨v, hv, hk⟩, fun h keys ⟨v, hv, hk⟩ => h v hv keys hk⟩

theorem proper_object {members : List (String × Json)} :
    (object members).Proper ↔ (Assoc.keys members).Nodup ∧ ∀ m ∈ members, m.2.Proper := by
  simp only [Proper, keyLists, keyListsOfMembers_eq, List.forall_mem_cons, List.mem_flatMap]
  exact and_congr_right fun _ =>
    ⟨fun h m hm keys hk => h keys ⟨m, hm, hk⟩, fun h keys ⟨m, hm, hk⟩ => h m hm keys hk⟩

@[simp] theorem proper_empty : (object []).Proper := proper_object.mpr ⟨List.nodup_nil, by simp⟩

theorem Proper.put {members : List (String × Json)} (h : (object members).Proper) (key : String)
    {v : Json} (hv : v.Proper) : (object (Assoc.put key v members)).Proper := by
  obtain ⟨hkeys, hall⟩ := proper_object.mp h
  refine proper_object.mpr ⟨Assoc.nodup_keys_put hkeys key v, fun m hm => ?_⟩
  rcases Assoc.mem_put hm with rfl | hm
  · exact hv
  · exact hall m hm

/-! ## values put together again -/

mutual
/-- a value is taken from the tree that says it as it is put together again -/
theorem toJson?_ofJson : (v : Json) → (Raw.ofJson v).toJson? = some v.rebuilt
  | .null => rfl
  | .bool _ => rfl
  | .number _ => rfl
  | .string _ => rfl
  | .array items => by
    rw [Raw.ofJson, Raw.toJson?, itemsToJson?_ofItems items, rebuilt]
    rfl
  | .object members => by
    rw [Raw.ofJson, Raw.toJson?, membersToJson?_ofMembers members [], rebuilt]
    rfl

theorem itemsToJson?_ofItems : (items : List Json) →
    Raw.itemsToJson? (Raw.ofItems items) = some (rebuiltItems items)
  | [] => rfl
  | v :: rest => by
    simp [Raw.ofItems, Raw.itemsToJson?, rebuiltItems, toJson?_ofJson v, itemsToJson?_ofItems rest]

theorem membersToJson?_ofMembers : (members done : List (String × Json)) →
    Raw.membersToJson? (Raw.ofMembers members) done = some (rebuiltMembers members done)
  | [], _ => rfl
  | (k, v) :: rest, done => by
    simp [Raw.ofMembers, Raw.membersToJson?, rebuiltMembers, toJson?_ofJson v,
      membersToJson?_ofMembers rest (Assoc.put k v.rebuilt done)]
end

theorem members?_ofJson (v : Json) : (Raw.ofJson v).members? = v.members? := by
  cases v with
  | object members => exact membersToJson?_ofMembers members []
  | _ => rfl

mutual
/-- a value that repeats no key is the same again -/
theorem rebuilt_of_proper : (v : Json) → v.Proper → v.rebuilt = v
  | .null, _ => rfl
  | .bool _, _ => rfl
  | .number _, _ => rfl
  | .string _, _ => rfl
  | .array items, h => by rw [rebuilt, rebuiltItems_of_proper items (proper_array.mp h)]
  | .object members, h => by
    obtain ⟨hkeys, hall⟩ := proper_object.mp h
    rw [rebuilt, rebuiltMembers_of_proper members hall [] hkeys, List.nil_append]

theorem rebuiltItems_of_proper : (items : List Json) → (∀ v ∈ items, v.Proper) → rebuiltItems items = items
  | [], _ => rfl
  | v :: rest, h => by
    obtain ⟨hv, hrest⟩ := List.forall_mem_cons.mp h
    rw [rebuiltItems, rebuilt_of_proper v hv, rebuiltItems_of_proper rest hrest]

/-- each member is new among those before it, so it goes last -/
theorem rebuiltMembers_of_proper : (members : List (String × Json)) → (∀ m ∈ members, m.2.Proper) →
    (done : List (String × Json)) → (Assoc.keys (done ++ members)).Nodup →
    rebuiltMembers members done = done ++ members
  | [], _, done, _ => by rw [rebuiltMembers, List.append_nil]
  | (k, v) :: rest, h, done, hkeys => by
    obtain ⟨hv, hrest⟩ := List.forall_mem_cons.mp h
    have hnew : k ∉ Assoc.keys done := by
      intro hk
      rw [Assoc.keys, List.map_append, List.nodup_append] at hkeys
      exact hkeys.2.2 k hk k List.mem_cons_self rfl
    rw [rebuiltMembers, rebuilt_of_proper v hv, Assoc.put_of_not_mem hnew v,
      rebuiltMembers_of_proper rest hrest (done ++ [(k, v)]) (by simpa using hkeys), List.append_assoc]
    rfl
end

theorem members?_of_proper {members : List (String × Json)} (h : (object members).Proper) :
    (object members).members? = some members := by
  obtain ⟨hkeys, hall⟩ := proper_object.mp h
  exact congrArg some (rebuiltMembers_of_proper members hall [] hkeys)

/-! ## legible values -/

/-- a value whose text denotes it: its floats read back and its objects hold each key once -/
def Legible (v : Json) : Prop := v.Proper ∧ ∀ x ∈ floats v, ReadsBack x

instance : DecidablePred Legible :=
  fun v => inferInstanceAs (Decidable (v.Proper ∧ ∀ x ∈ floats v, ReadsBack x))

theorem ofText?_of_legible {v : Json} (h : v.Legible) : Json.ofText? (pretty v) = some v := by
  rw [Json.ofText?, ofText?_pretty h.2, Option.bind_some, toJson?_ofJson, rebuilt_of_proper v h.1]

theorem legible_string (s : String) : (string s).Legible := by
  simp [Legible, Proper, keyLists, floats]

theorem legible_ofFloat {x : Float} (h : ReadsBack x) : (ofFloat x).Legible := by
  rw [ofFloat, Number.ofFloat?, dif_pos h.1]
  refine ⟨by simp [Proper, keyLists], fun y hy => ?_⟩
  rwa [List.mem_singleton.mp hy]

theorem legible_array {items : List Json} : (array items).Legible ↔ ∀ v ∈ items, v.Legible := by
  have hfloats : floats (array items) = items.flatMap floats := by
    show floatsOfItems items = _
    induction items with
    | nil => rfl
    | cons v rest ih => rw [floatsOfItems, ih, List.flatMap_cons]
  simp only [Legible, proper_array, hfloats, List.mem_flatMap, forall_exists_index, and_imp]
  exact ⟨fun h v hv => ⟨h.1 v hv, fun x => h.2 x v hv⟩,
    fun h => ⟨fun v hv => (h v hv).1, fun x v hv => (h v hv).2 x⟩⟩

theorem legible_object {members : List (String × Json)} :
    (object members).Legible ↔ (Assoc.keys members).Nodup ∧ ∀ m ∈ members, m.2.Legible := by
  have hfloats : floats (object members) = members.flatMap fun m => floats m.2 := by
    show floatsOfMembers members = _
    induction members with
    | nil => rfl
    | cons m rest ih => rw [floatsOfMembers, ih, List.flatMap_cons]
  simp only [Legible, proper_object, hfloats, List.mem_flatMap, forall_exists_index, and_imp]
  exact ⟨fun h => ⟨h.1.1, fun m hm => ⟨h.1.2 m hm, fun x => h.2 x m hm⟩⟩,
    fun h => ⟨⟨h.1, fun m hm => (h.2 m hm).1⟩, fun x m hm => (h.2 m hm).2 x⟩⟩

/-! ## whatever is read holds each key once -/

mutual
theorem proper_of_toJson? : (raw : Raw) → {v : Json} → raw.toJson? = some v → v.Proper
  | .null, v, h => by
    cases h
    simp [Proper, keyLists]
  | .bool b, v, h => by
    cases h
    simp [Proper, keyLists]
  | .number n, v, h => by
    obtain ⟨n, -, rfl⟩ := Option.map_eq_some_iff.mp h
    simp [Proper, keyLists]
  | .string s, v, h => by
    obtain ⟨s, -, rfl⟩ := Option.map_eq_some_iff.mp h
    simp [Proper, keyLists]
  | .array items, v, h => by
    obtain ⟨vs, hvs, rfl⟩ := Option.map_eq_some_iff.mp h
    exact proper_array.mpr (proper_of_itemsToJson? items hvs)
  | .object members, v, h => by
    obtain ⟨ms, hms, rfl⟩ := Option.map_eq_some_iff.mp h
    exact proper_of_membersToJson? members proper_empty hms

theorem proper_of_itemsToJson? : (items : List Raw) → {vs : List Json} →
    Raw.itemsToJson? items = some vs → ∀ v ∈ vs, v.Proper
  | [], vs, h => by
    cases h
    simp
  | x :: xs, vs, h => by
    obtain ⟨v, hv, h⟩ := Option.bind_eq_some_iff.mp h
    obtain ⟨rest, hrest, h⟩ := Option.bind_eq_some_iff.mp h
    cases h
    exact List.forall_mem_cons.mpr ⟨proper_of_toJson? x hv, proper_of_itemsToJson? xs hrest⟩

theorem proper_of_membersToJson? : (members : List (Option String × Raw)) →
    {done ms : List (String × Json)} → (object done).Proper →
    Raw.membersToJson? members done = some ms → (object ms).Proper
  | [], done, ms, hd, h => by
    cases h
    exact hd
  | (key, x) :: rest, done, ms, hd, h => by
    obtain ⟨k, -, h⟩ := Option.bind_eq_some_iff.mp h
    obtain ⟨v, hv, h⟩ := Option.bind_eq_some_iff.mp h
    exact proper_of_membersToJson? rest (hd.put k (proper_of_toJson? x hv)) h
end

theorem proper_of_members? {raw : Raw} {ms : List (String × Json)} (h : raw.members? = some ms) :
    (object ms).Proper := by
  unfold Raw.members? at h
  split at h
  next members => exact proper_of_membersToJson? members proper_empty h
  next => cases h

/-! ## records -/

/-- a list whose elements are read back one by one -/
theorem mapM_ofItems {α : Type} {read : Raw → Option α} {write : α → Json} {xs : List α}
    (h : ∀ x ∈ xs, read (Raw.ofJson (write x)) = some x) :
    (Raw.ofItems (xs.map write)).mapM read = some xs := by
  induction xs with
  | nil => rfl
  | cons x rest ih =>
    rw [List.forall_mem_cons] at h
    rw [List.map_cons, Raw.ofItems, List.mapM_cons, h.1, ih h.2]
    rfl

section
variable {α β γ : Type} {names : List String} {members : List (String × α)}

/-- the members of an object whose keys are names of the record, each once -/
theorem knownMembers?_map (f : α → β) (hnames : Assoc.keys members ⊆ names)
    (hkeys : (Assoc.keys members).Nodup) :
    knownMembers? names (members.map fun m => (some m.1, f m.2))
      = some (members.map fun m => (m.1, f m.2)) := by
  induction members with
  | nil => rfl
  | cons member rest ih =>
    obtain ⟨hname, hrest⟩ := List.cons_subset.mp hnames
    obtain ⟨hnew, hrestKeys⟩ : member.1 ∉ Assoc.keys rest ∧ (Assoc.keys rest).Nodup :=
      List.nodup_cons.mp hkeys
    rw [List.map_cons, knownMembers?, ih hrest hrestKeys]
    simp [hname, Assoc.keys_map, hnew]

theorem required_map (name : String) (f : α → β) (read : β → Option γ) :
    required name read (members.map fun m => (m.1, f m.2))
      = required name (fun x => read (f x)) members := by
  rw [required, required, Assoc.get?_map, Option.bind_map]
  rfl

theorem optional_map (name : String) (default : γ) (f : α → β) (read : β → Option γ) :
    optional name default read (members.map fun m => (m.1, f m.2))
      = optional name default (fun x => read (f x)) members := by
  rw [Json.optional, Json.optional, Assoc.get?_map]
  cases Assoc.get? name members <;> rfl

end

end Json
end VisualProgram
