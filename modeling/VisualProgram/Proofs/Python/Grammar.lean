import VisualProgram.Precedence
import VisualProgram.Proofs.Python.Lexer

/-!
# The expression grammar of Python

`Derives p ts t` says that the tokens `ts` come from the nonterminal of level `p` with the syntax
tree `t`.  The levels are those of `Precedence`, from names and brackets up to conditionals:

* `+ - * / % and or` go to the left, `**` and the last branch of a conditional to the right;
* the exponent of a power may have a sign, its base may not;
* comparisons form chains.

`parse` reads an expression of a level and gives back the tokens it has no use for.  It reads every
derivation back (`parsed_of_derives`), so tokens have one tree at most (`Derives.unique`).
-/

namespace VisualProgram.Python

/-! ## trees -/

/-- the operators that go to the left -/
inductive Infix where
  | add | sub | mul | div | mod | and | or
deriving DecidableEq, Repr

inductive Comparison where
  | eq | ne | lt | le | gt | ge
deriving DecidableEq, Repr

inductive Tree where
  | none
  | truth (b : Bool)
  | int (n : Nat)
  | float (spelling : String)
  | text (s : String)
  | name (s : String)
  | list (items : List Tree)
  | dict (entries : List (Tree × Tree))
  | member (object : Tree) (name : String)
  | call (function : Tree) (args : List Tree)
  | index (object key : Tree)
  | power (base exponent : Tree)
  | neg (x : Tree)
  | not (x : Tree)
  | binary (op : Infix) (left right : Tree)
  | compare (first : Tree) (links : List (Comparison × Tree))
  | cond (test yes no : Tree)

namespace Infix

def token : Infix → Token
  | .add => .sign .plus
  | .sub => .sign .minus
  | .mul => .sign .times
  | .div => .sign .over
  | .mod => .sign .percent
  | .and => .key .and
  | .or => .key .or

def ofToken? : Token → Option Infix
  | .sign .plus => some .add
  | .sign .minus => some .sub
  | .sign .times => some .mul
  | .sign .over => some .div
  | .sign .percent => some .mod
  | .key .and => some .and
  | .key .or => some .or
  | _ => none

def level : Infix → Precedence
  | .add | .sub => .sum
  | .mul | .div | .mod => .product
  | .and => .conjunction
  | .or => .disjunction

end Infix

namespace Comparison

def token : Comparison → Token
  | .eq => .sign .equal
  | .ne => .sign .unequal
  | .lt => .sign .less
  | .le => .sign .lessEqual
  | .gt => .sign .greater
  | .ge => .sign .greaterEqual

def ofToken? : Token → Option Comparison
  | .sign .equal => some .eq
  | .sign .unequal => some .ne
  | .sign .less => some .lt
  | .sign .lessEqual => some .le
  | .sign .greater => some .gt
  | .sign .greaterEqual => some .ge
  | _ => none

theorem ofToken?_token (op : Comparison) : ofToken? op.token = some op := by cases op <;> rfl

end Comparison

/-! ## derivations -/

/-- parts with commas between them -/
def commas : List (List Token) → List Token
  | [] => []
  | [ts] => ts
  | ts :: rest => ts ++ .sign .comma :: commas rest

@[simp] theorem commas_cons_cons (a b : List Token) (rest : List (List Token)) :
    commas (a :: b :: rest) = a ++ .sign .comma :: commas (b :: rest) := rfl

/-- an entry of a dict display -/
def entryTokens (key value : List Token) : List Token := key ++ .sign .colon :: value

inductive Derives : Precedence → List Token → Tree → Prop where
  /-- an expression of a tighter level -/
  | looser {p : Precedence} {ts : List Token} {t : Tree} (h : Derives p.tighter ts t) :
    Derives p ts t
  | none : Derives .atomic [.key .none] .none
  | true : Derives .atomic [.key .true] (.truth true)
  | false : Derives .atomic [.key .false] (.truth false)
  | int (n : Nat) : Derives .atomic [.int n] (.int n)
  | float (spelling : String) : Derives .atomic [.float spelling] (.float spelling)
  | text (s : String) : Derives .atomic [.text s] (.text s)
  | name (s : String) : Derives .atomic [.name s] (.name s)
  | paren {ts : List Token} {t : Tree} (h : Derives .loosest ts t) :
    Derives .atomic (.sign .leftParen :: (ts ++ [.sign .rightParen])) t
  | list (items : List (List Token × Tree)) (h : ∀ x ∈ items, Derives .loosest x.1 x.2) :
    Derives .atomic
      (.sign .leftBracket :: (commas (items.map Prod.fst) ++ [.sign .rightBracket]))
      (.list (items.map Prod.snd))
  | dict (entries : List ((List Token × List Token) × (Tree × Tree)))
    (hk : ∀ x ∈ entries, Derives .loosest x.1.1 x.2.1)
    (hv : ∀ x ∈ entries, Derives .loosest x.1.2 x.2.2) :
    Derives .atomic
      (.sign .leftBrace
        :: (commas (entries.map fun x => entryTokens x.1.1 x.1.2) ++ [.sign .rightBrace]))
      (.dict (entries.map Prod.snd))
  | member {ts : List Token} {t : Tree} (name : String) (h : Derives .call ts t) :
    Derives .call (ts ++ [.sign .dot, .name name]) (.member t name)
  | call {ts : List Token} {t : Tree} (args : List (List Token × Tree)) (hf : Derives .call ts t)
    (h : ∀ x ∈ args, Derives .loosest x.1 x.2) :
    Derives .call
      (ts ++ .sign .leftParen :: (commas (args.map Prod.fst) ++ [.sign .rightParen]))
      (.call t (args.map Prod.snd))
  | index {ts ks : List Token} {t k : Tree} (h : Derives .call ts t) (hk : Derives .loosest ks k) :
    Derives .call (ts ++ .sign .leftBracket :: (ks ++ [.sign .rightBracket])) (.index t k)
  | power {bs es : List Token} {b e : Tree} (hb : Derives .call bs b) (he : Derives .sign es e) :
    Derives .power (bs ++ .sign .power :: es) (.power b e)
  | neg {ts : List Token} {t : Tree} (h : Derives .sign ts t) :
    Derives .sign (.sign .minus :: ts) (.neg t)
  | binary {ls rs : List Token} {l r : Tree} (op : Infix) (hl : Derives op.level ls l)
    (hr : Derives op.level.tighter rs r) :
    Derives op.level (ls ++ op.token :: rs) (.binary op l r)
  | compare {ts : List Token} {t : Tree} (links : List (Comparison × List Token × Tree))
    (hne : links ≠ []) (ht : Derives .sum ts t) (h : ∀ x ∈ links, Derives .sum x.2.1 x.2.2) :
    Derives .comparison (ts ++ links.flatMap fun x => x.1.token :: x.2.1)
      (.compare t (links.map fun x => (x.1, x.2.2)))
  | not {ts : List Token} {t : Tree} (h : Derives .negation ts t) :
    Derives .negation (.key .not :: ts) (.not t)
  | cond {ys cs ns : List Token} {y c n : Tree} (hy : Derives .disjunction ys y)
    (hc : Derives .disjunction cs c) (hn : Derives .conditional ns n) :
    Derives .conditional (ys ++ .key .test :: (cs ++ .key .otherwise :: ns)) (.cond c y n)

/-! ## a parser

Where the parser goes on with what an expression has left, it checks that this is less than it had
before; so it ends, and the check never fails on the tokens of an expression. -/

theorem rank_tighter {q : Precedence} (h : q ≠ .atomic) : q.tighter.rank + 1 = q.rank := by
  cases q <;> first | rfl | exact absurd rfl h

mutual
def parse (p : Precedence) (ts : List Token) : Option (Tree × List Token) :=
  match p, ts with
  | .sign, .sign .minus :: rest => do
    let (x, rest) ← parse .sign rest
    some (.neg x, rest)
  | .negation, .key .not :: rest => do
    let (x, rest) ← parse .negation rest
    some (.not x, rest)
  | p, ts =>
    if p = .atomic then parseAtom ts
    else do
      let (t, rest) ← parse p.tighter ts
      if rest.length < ts.length then resume p t rest else none
termination_by (ts.length, p.rank + 1)
decreasing_by
  · exact .left _ _ (Nat.lt_succ_self _)
  · exact .left _ _ (Nat.lt_succ_self _)
  · exact .right _ (Nat.succ_pos _)
  next h => exact .right _ (Nat.lt_succ_of_le (Nat.le_of_eq (rank_tighter h)))
  next h => exact .left _ _ h

/-- goes on after a tree of the next tighter level -/
def resume (p : Precedence) (t : Tree) (ts : List Token) : Option (Tree × List Token) :=
  match p with
  | .call => resumeCall t ts
  | .power =>
    match ts with
    | .sign .power :: rest => do
      let (e, rest) ← parse .sign rest
      some (.power t e, rest)
    | _ => some (t, ts)
  | .comparison => do
    let (links, rest) ← parseLinks ts
    some (if links.isEmpty then t else .compare t links, rest)
  | .conditional =>
    match ts with
    | .key .test :: rest => do
      let (c, tail) ← parse .disjunction rest
      match tail with
      | .key .otherwise :: tail =>
        if tail.length < rest.length then do
          let (n, rest) ← parse .conditional tail
          some (.cond c t n, rest)
        else none
      | _ => none
    | _ => some (t, ts)
  | p =>
    match ts with
    | [] => some (t, [])
    | token :: rest =>
      match Infix.ofToken? token with
      | none => some (t, token :: rest)
      | some op =>
        if op.level = p then do
          let (r, tail) ← parse p.tighter rest
          if tail.length < rest.length then resume p (.binary op t r) tail else none
        else some (t, token :: rest)
termination_by (ts.length, 1)

def resumeCall (t : Tree) (ts : List Token) : Option (Tree × List Token) :=
  match ts with
  | .sign .dot :: .name name :: rest => resumeCall (.member t name) rest
  | .sign .leftParen :: rest => do
    let (args, tail) ← parseItems .rightParen rest
    if tail.length < rest.length then resumeCall (.call t args) tail else none
  | .sign .leftBracket :: rest => do
    let (k, tail) ← parse .loosest rest
    match tail with
    | .sign .rightBracket :: tail =>
      if tail.length < rest.length then resumeCall (.index t k) tail else none
    | _ => none
  | _ => some (t, ts)
termination_by (ts.length, 0)

def parseAtom (ts : List Token) : Option (Tree × List Token) :=
  match ts with
  | .key .none :: rest => some (.none, rest)
  | .key .true :: rest => some (.truth true, rest)
  | .key .false :: rest => some (.truth false, rest)
  | .int n :: rest => some (.int n, rest)
  | .float spelling :: rest => some (.float spelling, rest)
  | .text s :: rest => some (.text s, rest)
  | .name s :: rest => some (.name s, rest)
  | .sign .leftParen :: rest => do
    let (t, rest) ← parse .loosest rest
    match rest with
    | .sign .rightParen :: rest => some (t, rest)
    | _ => none
  | .sign .leftBracket :: rest => do
    let (items, rest) ← parseItems .rightBracket rest
    some (.list items, rest)
  | .sign .leftBrace :: rest => do
    let (entries, rest) ← parseEntries rest
    some (.dict entries, rest)
  | _ => none
termination_by (ts.length, 0)

/-- the links of a comparison, as many as there are -/
def parseLinks (ts : List Token) : Option (List (Comparison × Tree) × List Token) :=
  match ts with
  | [] => some ([], [])
  | token :: rest =>
    match Comparison.ofToken? token with
    | none => some ([], token :: rest)
    | some op => do
      let (x, tail) ← parse .sum rest
      if tail.length < rest.length then do
        let (more, tail) ← parseLinks tail
        some ((op, x) :: more, tail)
      else none
termination_by (ts.length, 0)

/-- expressions with commas between them, up to a closing bracket -/
def parseItems (closing : Sign) (ts : List Token) : Option (List Tree × List Token) :=
  if ts.head? = some (.sign closing) then some ([], ts.tail)
  else do
    let (x, rest) ← parse .loosest ts
    match rest with
    | .sign .comma :: rest =>
      if rest.length < ts.length then do
        let (more, rest) ← parseItems closing rest
        some (x :: more, rest)
      else none
    | _ => if rest.head? = some (.sign closing) then some ([x], rest.tail) else none
termination_by (ts.length, Precedence.loosest.rank + 2)

def parseEntries (ts : List Token) : Option (List (Tree × Tree) × List Token) :=
  if ts.head? = some (.sign .rightBrace) then some ([], ts.tail)
  else do
    let (k, rest) ← parse .loosest ts
    match rest with
    | .sign .colon :: rest =>
      if rest.length < ts.length then do
        let (v, tail) ← parse .loosest rest
        match tail with
        | .sign .comma :: tail =>
          if tail.length < rest.length then do
            let (more, tail) ← parseEntries tail
            some ((k, v) :: more, tail)
          else none
        | _ => if tail.head? = some (.sign .rightBrace) then some ([(k, v)], tail.tail) else none
      else none
    | _ => none
termination_by (ts.length, Precedence.loosest.rank + 2)
end

/-! ## first tokens -/

/-- a token with which expressions of a level may start -/
def Token.starts (p : Precedence) : Token → Bool
  | .key .none | .key .true | .key .false => true
  | .int _ | .float _ | .text _ | .name _ => true
  | .sign .leftParen | .sign .leftBracket | .sign .leftBrace => true
  | .sign .minus => Precedence.sign.rank ≤ p.rank
  | .key .not => Precedence.negation.rank ≤ p.rank
  | _ => false

theorem rank_tighter_le (p : Precedence) : p.tighter.rank ≤ p.rank := by cases p <;> decide

theorem Token.starts_mono {p q : Precedence} (h : p.rank ≤ q.rank) {token : Token}
    (hs : token.starts p = true) : token.starts q = true := by
  unfold Token.starts at hs ⊢
  split <;> simp_all <;> omega

def StartsWith (p : Precedence) (ts : List Token) : Prop :=
  ∃ token rest, ts = token :: rest ∧ token.starts p = true

theorem StartsWith.append {p : Precedence} {ts : List Token} (h : StartsWith p ts)
    (more : List Token) : StartsWith p (ts ++ more) := by
  obtain ⟨token, rest, rfl, hs⟩ := h
  exact ⟨token, rest ++ more, rfl, hs⟩

theorem StartsWith.mono {p q : Precedence} {ts : List Token} (h : StartsWith p ts)
    (hpq : p.rank ≤ q.rank) : StartsWith q ts := by
  obtain ⟨token, rest, rfl, hs⟩ := h
  exact ⟨token, rest, rfl, Token.starts_mono hpq hs⟩

/-- what starts with something is longer than what is left of it -/
theorem StartsWith.length_lt {p : Precedence} {ts : List Token} (h : StartsWith p ts)
    (rest : List Token) : rest.length < (ts ++ rest).length := by
  obtain ⟨token, more, rfl, -⟩ := h
  simp only [List.cons_append, List.length_cons, List.length_append]
  omega

theorem Derives.startsWith {p : Precedence} {ts : List Token} {t : Tree} (h : Derives p ts t) :
    StartsWith p ts := by
  induction h with
  | looser _ ih => exact ih.mono (rank_tighter_le _)
  | none | true | false | int | float | text | name | paren | list | dict =>
    exact ⟨_, _, rfl, rfl⟩
  | member _ _ ih => exact ih.append _
  | call _ _ _ ih => exact ih.append _
  | index _ _ ih => exact ih.append _
  | power _ _ ih => exact (ih.mono (by decide)).append _
  | neg => exact ⟨_, _, rfl, rfl⟩
  | binary _ _ _ ih => exact ih.append _
  | compare _ _ _ _ ih => exact (ih.mono (by decide)).append _
  | not => exact ⟨_, _, rfl, rfl⟩
  | cond _ _ _ ih => exact (ih.mono (by decide)).append _

/-! ## tokens that go on -/

/-- the level at which a token goes on after an expression -/
def Token.connects : Token → Option Precedence
  | .sign .dot | .sign .leftParen | .sign .leftBracket => some .call
  | .sign .power => some .power
  | .key .test => some .conditional
  | token =>
    match Infix.ofToken? token with
    | some op => some op.level
    | none => (Comparison.ofToken? token).map fun _ => .comparison

/-- the tokens do not go on with an expression of a level -/
def Free (p : Precedence) (ts : List Token) : Prop :=
  ∀ token, ts.head? = some token → ∀ q, token.connects = some q → p.rank < q.rank

@[simp] theorem free_nil (p : Precedence) : Free p [] := by simp [Free]

theorem free_cons {p q : Precedence} {token : Token} (h : token.connects = some q)
    (hpq : p.rank < q.rank) (ts : List Token) : Free p (token :: ts) := by
  intro x hx r hr
  cases hx
  rw [h] at hr
  cases hr
  exact hpq

theorem free_of_none {k : Token} (h : k.connects = none) (p : Precedence)
    (ts : List Token) : Free p (k :: ts) := by
  intro x hx r hr
  cases hx
  rw [h] at hr
  cases hr

theorem Free.mono {p q : Precedence} {ts : List Token} (h : Free q ts) (hpq : p.rank ≤ q.rank) :
    Free p ts := fun token ht r hr => Nat.lt_of_le_of_lt hpq (h token ht r hr)

theorem Free.tighter {p : Precedence} {ts : List Token} (h : Free p ts) : Free p.tighter ts :=
  h.mono (rank_tighter_le p)

/-- no token goes on at the level of a sign -/
theorem Token.connects_ne_sign (token : Token) : token.connects ≠ some .sign := by
  unfold Token.connects
  split
  · simp
  · simp
  · simp
  · simp
  · simp
  · split
    next op _ => cases op <;> simp [Infix.level]
    next => simp

theorem Free.sign {ts : List Token} (h : Free .power ts) : Free .sign ts := by
  intro token ht q hq
  have hlt := h token ht q hq
  have hne : q ≠ .sign := fun e => token.connects_ne_sign (e ▸ hq)
  revert hlt hne
  cases q <;> decide

theorem Infix.connects_token (op : Infix) : op.token.connects = some op.level := by
  cases op <;> rfl

theorem Comparison.connects_token (op : Comparison) : op.token.connects = some .comparison := by
  cases op <;> rfl

theorem Infix.connects_of {token : Token} {op : Infix} (h : Infix.ofToken? token = some op) :
    token.connects = some op.level := by
  unfold Infix.ofToken? at h
  split at h <;> cases h <;> rfl

theorem Comparison.connects_of {token : Token} {op : Comparison}
    (h : Comparison.ofToken? token = some op) : token.connects = some .comparison := by
  unfold Comparison.ofToken? at h
  split at h <;> cases h <;> rfl

/-! ## reading derivations back -/

theorem resumeCall_free {t : Tree} {ts : List Token} (h : Free .call ts) :
    resumeCall t ts = some (t, ts) := by
  rw [resumeCall.eq_def]
  split
  · exact absurd (h _ rfl _ rfl) (by decide)
  · exact absurd (h _ rfl _ rfl) (by decide)
  · exact absurd (h _ rfl _ rfl) (by decide)
  · rfl

theorem parseLinks_free {ts : List Token} (h : Free .comparison ts) :
    parseLinks ts = some ([], ts) := by
  cases ts with
  | nil => rw [parseLinks]
  | cons token rest =>
    cases hop : Comparison.ofToken? token with
    | none => simp only [parseLinks, hop]
    | some op => exact absurd (h _ rfl _ (Comparison.connects_of hop)) (by decide)

theorem resume_free {p : Precedence} {t : Tree} {ts : List Token} (h : Free p ts) :
    resume p t ts = some (t, ts) := by
  rw [resume.eq_def]
  split
  next => exact resumeCall_free h
  next =>
    split
    · exact absurd (h _ rfl _ rfl) (by decide)
    · rfl
  next => simp [parseLinks_free h]
  next =>
    split
    · exact absurd (h _ rfl _ rfl) (by decide)
    · rfl
  next =>
    split
    · rfl
    next token rest =>
      split
      · rfl
      next op hop =>
        have hne : op.level ≠ p := by
          rintro rfl
          exact absurd (h _ rfl _ (Infix.connects_of hop)) (Nat.lt_irrefl _)
        rw [if_neg hne]

/-- at these levels a tree may be the start of a longer one -/
def leftward : Precedence → Bool
  | .call | .product | .sum | .conjunction | .disjunction => true
  | _ => false

structure Parsed (p : Precedence) (ts : List Token) (t : Tree) : Prop where
  whole : ∀ rest, Free p rest → parse p (ts ++ rest) = some (t, rest)
  start : leftward p = true → ∀ rest, Free p.tighter rest → parse p (ts ++ rest) = resume p t rest

/-- a level goes on after an expression of the next tighter one -/
theorem parse_tighter (p : Precedence) {ts : List Token} {t : Tree} (ha : p ≠ .atomic)
    (h : Derives p.tighter ts t) (ih : Parsed p.tighter ts t) (rest : List Token)
    (hrest : Free p.tighter rest) : parse p (ts ++ rest) = resume p t rest := by
  obtain ⟨token, more, heq, hs⟩ := h.startsWith.append rest
  rw [parse.eq_def]
  split
  next hminus =>
    rw [hminus] at heq
    cases heq
    cases hs
  next hnot =>
    rw [hnot] at heq
    cases heq
    cases hs
  next =>
    rw [if_neg ha, ih.whole rest hrest]
    exact if_pos (h.startsWith.length_lt rest)

/-- what a token leaves is less -/
theorem length_lt_cons (ts : List Token) (token : Token) (rest : List Token) :
    rest.length < (ts ++ token :: rest).length := by
  rw [List.length_append, List.length_cons]
  omega

theorem StartsWith.head_ne {ts : List Token} (h : StartsWith .loosest ts) {k : Token}
    (hs : k.starts .loosest = false) (more : List Token) :
    (ts ++ more).head? ≠ some k := by
  obtain ⟨first, rest, rfl, hf⟩ := h
  rintro ⟨⟩
  rw [hs] at hf
  cases hf

theorem parseItems_last {closing : Sign} {ts rest : List Token} {x : Tree}
    (hne : ts.head? ≠ some (.sign closing)) (hcomma : closing ≠ .comma)
    (hx : parse .loosest ts = some (x, .sign closing :: rest)) :
    parseItems closing ts = some ([x], rest) := by
  rw [parseItems.eq_def, if_neg hne, hx]
  simp [hcomma]

theorem parseItems_more {closing : Sign} {ts rest rest' : List Token} {x : Tree} {more : List Tree}
    (hne : ts.head? ≠ some (.sign closing)) (hlt : rest.length < ts.length)
    (hx : parse .loosest ts = some (x, .sign .comma :: rest))
    (hmore : parseItems closing rest = some (more, rest')) :
    parseItems closing ts = some (x :: more, rest') := by
  rw [parseItems.eq_def, if_neg hne, hx]
  simp [hlt, hmore]

theorem parseItems_of_parsed (closing : Sign) (hc : (Token.sign closing).connects = none)
    (hs : (Token.sign closing).starts .loosest = false) (hcomma : closing ≠ .comma)
    (items : List (List Token × Tree)) (h : ∀ x ∈ items, Parsed .loosest x.1 x.2)
    (hstart : ∀ x ∈ items, StartsWith .loosest x.1) (rest : List Token) :
    parseItems closing (commas (items.map Prod.fst) ++ .sign closing :: rest)
      = some (items.map Prod.snd, rest) := by
  induction items with
  | nil =>
    rw [parseItems.eq_def]
    exact if_pos rfl
  | cons x more ih =>
    have hx := (h x List.mem_cons_self).whole
    have hne := (hstart x List.mem_cons_self).head_ne hs
    cases more with
    | nil =>
      show parseItems closing (x.1 ++ .sign closing :: rest) = some ([x.2], rest)
      exact parseItems_last (hne _) hcomma (hx _ (free_of_none hc _ _))
    | cons y more =>
      have hmore := ih (fun z hz => h z (List.mem_cons_of_mem _ hz))
        (fun z hz => hstart z (List.mem_cons_of_mem _ hz))
      have hread := hx (.sign .comma :: (commas ((y :: more).map Prod.fst) ++ .sign closing :: rest))
        (free_of_none rfl _ _)
      rw [List.map_cons, List.map_cons, commas_cons_cons, List.append_assoc]
      exact parseItems_more (hne _) (length_lt_cons _ _ _) hread hmore

section
variable {ts vs rest rest' : List Token} {k v : Tree} {more : List (Tree × Tree)}

theorem parseEntries_last (hne : ts.head? ≠ some (.sign .rightBrace)) (hlt : vs.length < ts.length)
    (hk : parse .loosest ts = some (k, .sign .colon :: vs))
    (hv : parse .loosest vs = some (v, .sign .rightBrace :: rest)) :
    parseEntries ts = some ([(k, v)], rest) := by
  rw [parseEntries.eq_def, if_neg hne, hk]
  simp [hlt, hv]

theorem parseEntries_more (hne : ts.head? ≠ some (.sign .rightBrace)) (hlt : vs.length < ts.length)
    (hk : parse .loosest ts = some (k, .sign .colon :: vs))
    (hv : parse .loosest vs = some (v, .sign .comma :: rest)) (hrest : rest.length < vs.length)
    (hmore : parseEntries rest = some (more, rest')) :
    parseEntries ts = some ((k, v) :: more, rest') := by
  rw [parseEntries.eq_def, if_neg hne, hk]
  simp [hlt, hv, hrest, hmore]

end

theorem parseEntries_of_parsed (entries : List ((List Token × List Token) × (Tree × Tree)))
    (hk : ∀ x ∈ entries, Parsed .loosest x.1.1 x.2.1)
    (hv : ∀ x ∈ entries, Parsed .loosest x.1.2 x.2.2)
    (hstart : ∀ x ∈ entries, StartsWith .loosest x.1.1) (rest : List Token) :
    parseEntries (commas (entries.map fun x => entryTokens x.1.1 x.1.2)
        ++ .sign .rightBrace :: rest)
      = some (entries.map Prod.snd, rest) := by
  induction entries with
  | nil =>
    rw [parseEntries.eq_def]
    exact if_pos rfl
  | cons x more ih =>
    have hkey := (hk x List.mem_cons_self).whole
    have hvalue := (hv x List.mem_cons_self).whole
    have hne := (hstart x List.mem_cons_self).head_ne (k := .sign .rightBrace) rfl
    cases more with
    | nil =>
      show parseEntries (x.1.1 ++ .sign .colon :: x.1.2 ++ .sign .rightBrace :: rest) = _
      rw [List.append_assoc]
      exact parseEntries_last (hne _) (length_lt_cons _ _ _) (hkey _ (free_of_none rfl _ _))
        (hvalue _ (free_of_none rfl _ _))
    | cons y more =>
      have hmore := ih (fun z hz => hk z (List.mem_cons_of_mem _ hz))
        (fun z hz => hv z (List.mem_cons_of_mem _ hz))
        (fun z hz => hstart z (List.mem_cons_of_mem _ hz))
      rw [List.map_cons, List.map_cons, commas_cons_cons, entryTokens, List.append_assoc,
        List.append_assoc]
      exact parseEntries_more (hne _) (length_lt_cons _ _ _) (hkey _ (free_of_none rfl _ _))
        (hvalue _ (free_of_none rfl _ _)) (length_lt_cons _ _ _) hmore

theorem parseLinks_of_parsed (links : List (Comparison × List Token × Tree))
    (h : ∀ x ∈ links, Parsed .sum x.2.1 x.2.2) (hstart : ∀ x ∈ links, StartsWith .sum x.2.1)
    {rest : List Token} (hrest : Free .comparison rest) :
    parseLinks ((links.flatMap fun x => x.1.token :: x.2.1) ++ rest)
      = some (links.map fun x => (x.1, x.2.2), rest) := by
  induction links with
  | nil => exact parseLinks_free hrest
  | cons x more ih =>
    have hmore := ih (fun z hz => h z (List.mem_cons_of_mem _ hz))
      fun z hz => hstart z (List.mem_cons_of_mem _ hz)
    have hlt := (hstart x List.mem_cons_self).length_lt
      ((more.flatMap fun x => x.1.token :: x.2.1) ++ rest)
    have hfree : Free .sum ((more.flatMap fun x => x.1.token :: x.2.1) ++ rest) := by
      cases more with
      | nil => exact hrest.mono (by decide)
      | cons y more => exact free_cons y.1.connects_token (by decide) _
    have hx := (h x List.mem_cons_self).whole _ hfree
    rw [List.flatMap_cons, List.cons_append, List.cons_append, List.append_assoc,
      parseLinks.eq_def]
    simp only [Comparison.ofToken?_token, hx, Option.bind_eq_bind, Option.bind_some, if_pos hlt, hmore]
    rfl

/-! ## one tree at most -/

theorem leftward_level (op : Infix) : leftward op.level = true := by cases op <;> rfl

theorem parsed_whole {p : Precedence} {ts : List Token} {t : Tree} (hl : leftward p = false)
    (h : ∀ rest, Free p rest → parse p (ts ++ rest) = some (t, rest)) : Parsed p ts t :=
  ⟨h, fun hp => absurd hp (by rw [hl]; exact Bool.false_ne_true)⟩

theorem parsed_atomic {ts : List Token} {t : Tree}
    (h : ∀ rest, parseAtom (ts ++ rest) = some (t, rest)) : Parsed .atomic ts t :=
  parsed_whole rfl fun rest _ => by
    rw [parse.eq_def]
    exact (if_pos rfl).trans (h rest)

/-- where a tree may be the start of a longer one, it is enough to know how the parser goes on -/
theorem parsed_leftward {p : Precedence} {ts : List Token} {t : Tree}
    (h : ∀ rest, Free p.tighter rest → parse p (ts ++ rest) = resume p t rest) : Parsed p ts t :=
  ⟨fun rest hrest => by rw [h rest hrest.tighter, resume_free hrest], fun _ => h⟩

theorem resume_token (op : Infix) {t r : Tree} {ts rest : List Token}
    (h : parse op.level.tighter ts = some (r, rest)) (hlt : rest.length < ts.length) :
    resume op.level t (op.token :: ts) = resume op.level (.binary op t r) rest := by
  rw [resume.eq_def]
  cases op <;> exact (congrArg (Option.bind · _) h).trans (if_pos hlt)

theorem parsed_looser {p : Precedence} {ts : List Token} {t : Tree} (h : Derives p.tighter ts t)
    (ih : Parsed p.tighter ts t) : Parsed p ts t := by
  by_cases ha : p = .atomic
  · subst ha
    exact ih
  · exact parsed_leftward fun rest hrest => parse_tighter p ha h ih rest hrest

theorem parsed_of_derives {p : Precedence} {ts : List Token} {t : Tree} (h : Derives p ts t) :
    Parsed p ts t := by
  induction h with
  | looser h ih => exact parsed_looser h ih
  | none | true | false | int | float | text | name =>
    exact parsed_atomic fun rest => by rw [parseAtom.eq_def]; rfl
  | @paren ts t h ih =>
    refine parsed_atomic fun rest => ?_
    rw [parseAtom.eq_def]
    simp [ih.whole (.sign .rightParen :: rest) (free_of_none rfl _ _)]
  | list items h ih =>
    refine parsed_atomic fun rest => ?_
    have hitems := parseItems_of_parsed .rightBracket rfl rfl (by decide) items ih
      (fun x hx => (h x hx).startsWith) rest
    rw [parseAtom.eq_def]
    simp [hitems]
  | dict entries hk hv ihk ihv =>
    refine parsed_atomic fun rest => ?_
    have hentries := parseEntries_of_parsed entries ihk ihv (fun x hx => (hk x hx).startsWith) rest
    rw [parseAtom.eq_def]
    simp [hentries]
  | @member ts t name h ih =>
    refine parsed_leftward fun rest _ => ?_
    have hstart := ih.start rfl (.sign .dot :: .name name :: rest)
      (free_cons rfl (by decide) _)
    rw [List.append_assoc]
    refine hstart.trans ?_
    rw [resume, resume, resumeCall.eq_def]
  | @call ts t args hf h ihf ih =>
    refine parsed_leftward fun rest _ => ?_
    have hargs := parseItems_of_parsed .rightParen rfl rfl (by decide) args ih
      (fun x hx => (h x hx).startsWith) rest
    have hstart := ihf.start rfl
      (.sign .leftParen :: (commas (args.map Prod.fst) ++ .sign .rightParen :: rest))
      (free_cons rfl (by decide) _)
    rw [List.append_assoc, List.cons_append, List.append_assoc]
    refine hstart.trans ?_
    rw [resume, resume, resumeCall.eq_def]
    simp only [hargs, Option.bind_eq_bind, Option.bind_some]
    exact if_pos (length_lt_cons _ _ _)
  | @index ts ks t k h hk ih ihk =>
    refine parsed_leftward fun rest _ => ?_
    have hkey := ihk.whole (.sign .rightBracket :: rest) (free_of_none rfl _ _)
    have hstart := ih.start rfl
      (.sign .leftBracket :: (ks ++ .sign .rightBracket :: rest)) (free_cons rfl (by decide) _)
    rw [List.append_assoc, List.cons_append, List.append_assoc]
    refine hstart.trans ?_
    rw [resume, resume, resumeCall.eq_def]
    simp only [hkey, Option.bind_eq_bind, Option.bind_some]
    exact if_pos (length_lt_cons _ _ _)
  | @power bs es b e hb he ihb ihe =>
    refine parsed_whole rfl fun rest hrest => ?_
    have hbase := parse_tighter .power (by decide) hb ihb (.sign .power :: (es ++ rest))
      (free_cons rfl (by decide) _)
    rw [List.append_assoc]
    refine hbase.trans ?_
    rw [resume.eq_def]
    simp [ihe.whole rest hrest.sign]
  | neg h ih =>
    refine parsed_whole rfl fun rest hrest => ?_
    rw [List.cons_append, parse]
    simp [ih.whole rest hrest]
  | @binary ls rs l r op hl hr ihl ihr =>
    refine parsed_leftward fun rest hrest => ?_
    have hlt : op.level.tighter.rank < op.level.rank := by cases op <;> decide
    have hstart := ihl.start (leftward_level op) (op.token :: (rs ++ rest))
      (free_cons op.connects_token hlt _)
    rw [List.append_assoc]
    refine hstart.trans ?_
    exact resume_token op (ihr.whole rest hrest) (hr.startsWith.length_lt rest)
  | @compare ts t links hne ht h iht ih =>
    refine parsed_whole rfl fun rest hrest => ?_
    have hlinks := parseLinks_of_parsed links ih (fun x hx => (h x hx).startsWith) hrest
    have hfree : Free .sum ((links.flatMap fun x => x.1.token :: x.2.1) ++ rest) := by
      cases links with
      | nil => exact absurd rfl hne
      | cons y more => exact free_cons y.1.connects_token (by decide) _
    rw [List.append_assoc, parse_tighter .comparison (by decide) ht iht _ hfree, resume.eq_def]
    simp [hlinks, hne]
  | not h ih =>
    refine parsed_whole rfl fun rest hrest => ?_
    rw [List.cons_append, parse]
    simp [ih.whole rest hrest]
  | @cond ys cs ns y c n hy hc hn ihy ihc ihn =>
    refine parsed_whole rfl fun rest hrest => ?_
    have hyes := parse_tighter .conditional (by decide) hy ihy
      (.key .test :: (cs ++ .key .otherwise :: (ns ++ rest))) (free_cons rfl (by decide) _)
    have htest := ihc.whole (.key .otherwise :: (ns ++ rest)) (free_of_none rfl _ _)
    have hlt := length_lt_cons cs (.key .otherwise) (ns ++ rest)
    rw [List.append_assoc, List.cons_append, List.append_assoc]
    refine hyes.trans ?_
    rw [resume.eq_def]
    simp only [htest, ihn.whole rest hrest, Option.bind_eq_bind, Option.bind_some, if_pos hlt]

/-- tokens of a level have one tree at most -/
theorem Derives.unique {p : Precedence} {ts : List Token} {t u : Tree} (ht : Derives p ts t)
    (hu : Derives p ts u) : t = u := by
  have hpt := (parsed_of_derives ht).whole [] (free_nil p)
  have hpu := (parsed_of_derives hu).whole [] (free_nil p)
  rw [hpt] at hpu
  cases hpu
  rfl

end VisualProgram.Python
