import VisualProgram.Json.Basic

/-!
# Block trees

A block has an id, a type tag and fields, and owns other blocks: one in each connected value socket,
the head of a chain in each connected statement socket, and the `next` block of its own chain.
Sockets are kept in increasing order of their names.

* `walk`     the blocks of a tree: a block, then what hangs in its value sockets, then in its
             statement sockets, then the rest of its chain;
* `find?`    the first block with an id, in the order of `walk`;
* `update?`  the tree with that block changed;
* `slotOf?`  where the first block with an id hangs, the root aside.
-/

namespace VisualProgram

structure Block where
  id : String
  tag : String
  fields : List (String × Json)
  inputs : List (String × Block)
  statements : List (String × Block)
  next : Option Block

/-- where a block hangs: at the top level, in a value or statement socket of its owner, or after the
block before it -/
inductive Slot where
  | top (index : Nat)
  | input (owner socket : String)
  | statement (owner socket : String)
  | after (owner : String)
deriving DecidableEq, Repr

namespace Block

/-- a block with nothing in it -/
def leaf (id tag : String) : Block := ⟨id, tag, [], [], [], none⟩

instance : Inhabited Block := ⟨leaf "" ""⟩

def input? (b : Block) (socket : String) : Option Block := Assoc.get? socket b.inputs
def statement? (b : Block) (socket : String) : Option Block := Assoc.get? socket b.statements

def setField (b : Block) (name : String) (value : Json) : Block :=
  { b with fields := Assoc.put name value b.fields }

def setInput (b : Block) (socket : String) (child : Block) : Block :=
  { b with inputs := Assoc.insert socket child b.inputs }

def setStatement (b : Block) (socket : String) (head : Block) : Block :=
  { b with statements := Assoc.insert socket head b.statements }

def setNext (b : Block) (next : Option Block) : Block := { b with next := next }

/-! ## chains -/

mutual
/-- a block and those after it -/
def chain : Block → List Block
  | ⟨id, tag, fields, inputs, statements, next⟩ =>
    ⟨id, tag, fields, inputs, statements, next⟩ :: chainNext next

def chainNext : Option Block → List Block
  | none => []
  | some b => b.chain
end

/-- the blocks of a chain that may be missing -/
def chainOf (head : Option Block) : List Block := head.elim [] chain

mutual
/-- the chain with another one linked after its last block -/
def append : Block → Block → Block
  | ⟨id, tag, fields, inputs, statements, next⟩, tail =>
    ⟨id, tag, fields, inputs, statements, some (appendNext next tail)⟩

def appendNext : Option Block → Block → Block
  | none, tail => tail
  | some b, tail => b.append tail
end

/-- a chain linked after a block, if there is one -/
def appendOption (b : Block) (tail : Option Block) : Block :=
  match tail with
  | none => b
  | some t => b.append t

/-! ## walking -/

mutual
def walk : Block → List Block
  | ⟨id, tag, fields, inputs, statements, next⟩ =>
    ⟨id, tag, fields, inputs, statements, next⟩
      :: (walkSockets inputs ++ walkSockets statements ++ walkNext next)

def walkSockets : List (String × Block) → List Block
  | [] => []
  | (_, child) :: rest => child.walk ++ walkSockets rest

def walkNext : Option Block → List Block
  | none => []
  | some b => b.walk
end

def ids (b : Block) : List String := b.walk.map Block.id

/-! ## searching -/

mutual
def find? (wanted : String) : Block → Option Block
  | ⟨id, tag, fields, inputs, statements, next⟩ =>
    if id = wanted then some ⟨id, tag, fields, inputs, statements, next⟩
    else (findSockets? wanted inputs).or
      ((findSockets? wanted statements).or (findNext? wanted next))

def findSockets? (wanted : String) : List (String × Block) → Option Block
  | [] => none
  | (_, child) :: rest => (child.find? wanted).or (findSockets? wanted rest)

def findNext? (wanted : String) : Option Block → Option Block
  | none => none
  | some b => b.find? wanted
end

def contains (wanted : String) (b : Block) : Bool := (b.find? wanted).isSome

mutual
/-- the tree with its first block of an id changed, if it has one -/
def update? (wanted : String) (change : Block → Block) : Block → Option Block
  | ⟨id, tag, fields, inputs, statements, next⟩ =>
    if id = wanted then some (change ⟨id, tag, fields, inputs, statements, next⟩)
    else
      match updateSockets? wanted change inputs with
      | some inputs => some ⟨id, tag, fields, inputs, statements, next⟩
      | none =>
        match updateSockets? wanted change statements with
        | some statements => some ⟨id, tag, fields, inputs, statements, next⟩
        | none =>
          (updateNext? wanted change next).map fun b =>
            ⟨id, tag, fields, inputs, statements, some b⟩

def updateSockets? (wanted : String) (change : Block → Block) :
    List (String × Block) → Option (List (String × Block))
  | [] => none
  | (socket, child) :: rest =>
    match child.update? wanted change with
    | some child => some ((socket, child) :: rest)
    | none => (updateSockets? wanted change rest).map fun rest => (socket, child) :: rest

def updateNext? (wanted : String) (change : Block → Block) : Option Block → Option Block
  | none => none
  | some b => b.update? wanted change
end

mutual
def slotOf? (wanted : String) : Block → Option Slot
  | ⟨id, _, _, inputs, statements, next⟩ =>
    (slotIn? wanted (Slot.input id) inputs).or
      ((slotIn? wanted (Slot.statement id) statements).or (slotAfter? wanted id next))

/-- the slot among sockets, `slot` being the slot of each by its name -/
def slotIn? (wanted : String) (slot : String → Slot) : List (String × Block) → Option Slot
  | [] => none
  | (socket, child) :: rest =>
    if child.id = wanted then some (slot socket)
    else (child.slotOf? wanted).or (slotIn? wanted slot rest)

def slotAfter? (wanted owner : String) : Option Block → Option Slot
  | none => none
  | some b => if b.id = wanted then some (.after owner) else b.slotOf? wanted
end

/-! ## equality -/

mutual
def decEq : (a b : Block) → Decidable (a = b)
  | ⟨id, tag, fields, inputs, statements, next⟩, ⟨id', tag', fields', inputs', statements', next'⟩ =>
    match decEqSockets inputs inputs', decEqSockets statements statements', decEqNext next next' with
    | isTrue hi, isTrue hs, isTrue hn =>
      decidable_of_iff (id = id' ∧ tag = tag' ∧ fields = fields') (by simp [hi, hs, hn])
    | isFalse h, _, _ => isFalse (by simp [h])
    | _, isFalse h, _ => isFalse (by simp [h])
    | _, _, isFalse h => isFalse (by simp [h])

def decEqSockets : (a b : List (String × Block)) → Decidable (a = b)
  | [], [] => isTrue rfl
  | (k, x) :: xs, (l, y) :: ys =>
    match decEq x y, decEqSockets xs ys with
    | isTrue h, isTrue t => decidable_of_iff (k = l) (by simp [h, t])
    | isFalse h, _ => isFalse (by simp [h])
    | _, isFalse t => isFalse (by simp [t])
  | [], _ :: _ | _ :: _, [] => isFalse (by simp)

def decEqNext : (a b : Option Block) → Decidable (a = b)
  | none, none => isTrue rfl
  | some x, some y =>
    match decEq x y with
    | isTrue h => isTrue (by rw [h])
    | isFalse h => isFalse (by simpa using h)
  | none, some _ | some _, none => isFalse (by simp)
end

instance : DecidableEq Block := decEq

end Block

end VisualProgram
