import VisualProgram.Proofs.Python.Grammar

/-!
# Texts of expressions

`Spells p cs t` says that the characters `cs` are a text of the tree `t` that can stand where an
expression of level `p` is asked for, whatever bracket, comma or blank comes next.  There is one rule
for each way in which texts are put together, and with them the tokens are out of sight.

`Equiv` is equality of trees up to the laws by which parentheses on the right of `+`, `and` and `or`
may be dropped, and `Denotes` is `Spells` up to these laws.
-/

namespace VisualProgram.Python

/-! ## levels -/

theorem rank_injective {p q : Precedence} (h : p.rank = q.rank) : p = q := by
  cases p <;> cases q <;> first | rfl | cases h

theorem Derives.mono {p q : Precedence} {ts : List Token} {t : Tree} (h : Derives p ts t)
    (hpq : p.rank ≤ q.rank) : Derives q ts t := by
  induction hn : q.rank generalizing q with
  | zero => exact rank_injective (show p.rank = q.rank by omega) ▸ h
  | succ n ih =>
    by_cases heq : p.rank = q.rank
    · exact rank_injective heq ▸ h
    · have hq : q ≠ .atomic := by
        rintro rfl
        cases hn
      have hr := rank_tighter hq
      exact .looser (ih (by omega) (by omega))

/-! ## reading the tokens of a text -/

/-- a character that a minus sign in front would take up -/
def joinsMinus (c : Char) : Bool := c == '=' || c == '>'

structure Reads (cs : List Char) (ts : List Token) : Prop where
  scans : ∀ d, Scans Ends d cs ts d
  begins : Stops joinsMinus cs

theorem Reads.begins_append {cs : List Char} {ts : List Token} (h : Reads cs ts) {rest : List Char}
    (hrest : Ends rest) : Stops joinsMinus (cs ++ rest) := by
  cases cs with
  | nil => exact hrest.stops (by decide)
  | cons c cs => exact h.begins

theorem stops_cons {p : Char → Bool} {c : Char} (h : p c = false) (cs : List Char) :
    Stops p (c :: cs) := by
  intro x hx
  cases hx
  exact h

/-- a sign or a word with a blank on either side -/
def spaced (cs : List Char) : List Char := ' ' :: (cs ++ [' '])

theorem ends_spaced (cs rest : List Char) : Ends (spaced cs ++ rest) := ends_cons (by decide) _

/-- a blank after the characters sets the token apart -/
def Apart (cs : List Char) (t : Token) : Prop :=
  (∀ rest, next? (cs ++ ' ' :: rest) = some (t, ' ' :: rest)) ∧ ∀ d, t.shift d = some d

theorem Apart.scans {cs : List Char} {t : Token} (h : Apart cs t) (d : Nat) :
    Scans (fun _ => True) d (cs ++ [' ']) [t] d := by
  have htoken : Scans (fun rest => ∃ more, rest = ' ' :: more) d cs [t] d :=
    scans_token (fun rest hrest => by obtain ⟨more, rfl⟩ := hrest; exact h.1 more) (h.2 d)
  exact htoken.append (scans_blank rfl) fun rest _ => ⟨rest, rfl⟩

/-- two texts with a sign between them that stands apart from both -/
theorem Reads.between {ls rs cs : List Char} {lts rts : List Token} {t : Token} (hl : Reads ls lts)
    (hr : Reads rs rts) (h : Apart cs t) :
    Reads (ls ++ (spaced cs ++ rs)) (lts ++ t :: rts) := by
  refine ⟨fun d => ?_, hl.begins_append (ends_spaced cs rs)⟩
  have hsign : Scans (fun _ => True) d (spaced cs) [t] d :=
    (scans_blank (show isBlank d ' ' = true from rfl)).append (h.scans d) fun _ _ => trivial
  refine (hl.scans d).append (hsign.append (hr.scans d) fun _ _ => trivial) fun rest _ => ?_
  rw [List.append_assoc]
  exact ends_spaced cs _

/-! ## spelling -/

def Spells (p : Precedence) (cs : List Char) (t : Tree) : Prop :=
  ∃ ts, Reads cs ts ∧ Derives p ts t

theorem Spells.mono {p q : Precedence} {cs : List Char} {t : Tree} (h : Spells p cs t)
    (hpq : p.rank ≤ q.rank) : Spells q cs t := by
  obtain ⟨ts, hr, hd⟩ := h
  exact ⟨ts, hr, hd.mono hpq⟩

theorem scans_leftParen (d : Nat) :
    Scans (fun _ => True) d ['('] [.sign .leftParen] (d + 1) := scans_token (fun _ _ => rfl) rfl

theorem scans_rightParen (d : Nat) :
    Scans (fun _ => True) (d + 1) [')'] [.sign .rightParen] d := scans_token (fun _ _ => rfl) rfl

theorem Spells.paren {cs : List Char} {t : Tree} (h : Spells .loosest cs t) :
    Spells .atomic ('(' :: (cs ++ [')'])) t := by
  obtain ⟨ts, hr, hd⟩ := h
  refine ⟨_, ⟨fun d => ?_, stops_cons rfl _⟩, .paren hd⟩
  have hinner := (hr.scans (d + 1)).append (scans_rightParen d) fun rest _ => ends_cons (by decide) rest
  exact ((scans_leftParen d).append hinner fun _ _ => trivial).imp fun _ _ => trivial

def Infix.spelling : Infix → List Char
  | .add => ['+']
  | .sub => ['-']
  | .mul => ['*']
  | .div => ['/']
  | .mod => ['%']
  | .and => ['a', 'n', 'd']
  | .or => ['o', 'r']

theorem Infix.apart (op : Infix) : Apart op.spelling op.token := by
  cases op <;> exact ⟨fun _ => rfl, fun _ => rfl⟩

theorem Spells.binary {ls rs : List Char} {l r : Tree} (op : Infix) (hl : Spells op.level ls l)
    (hr : Spells op.level.tighter rs r) :
    Spells op.level (ls ++ (spaced op.spelling ++ rs)) (.binary op l r) := by
  obtain ⟨lts, hlr, hld⟩ := hl
  obtain ⟨rts, hrr, hrd⟩ := hr
  exact ⟨_, hlr.between hrr op.apart, .binary op hld hrd⟩

theorem Spells.power {bs es : List Char} {b e : Tree} (hb : Spells .call bs b)
    (he : Spells .sign es e) : Spells .power (bs ++ (spaced ['*', '*'] ++ es)) (.power b e) := by
  obtain ⟨bts, hbr, hbd⟩ := hb
  obtain ⟨ets, her, hed⟩ := he
  exact ⟨_, hbr.between her ⟨fun _ => rfl, fun _ => rfl⟩, .power hbd hed⟩

def Comparison.spelling : Comparison → List Char
  | .eq => ['=', '=']
  | .ne => ['!', '=']
  | .lt => ['<']
  | .le => ['<', '=']
  | .gt => ['>']
  | .ge => ['>', '=']

theorem Comparison.apart (op : Comparison) : Apart op.spelling op.token := by
  cases op <;> exact ⟨fun _ => rfl, fun _ => rfl⟩

theorem Spells.compare {ls rs : List Char} {l r : Tree} (op : Comparison) (hl : Spells .sum ls l)
    (hr : Spells .sum rs r) :
    Spells .comparison (ls ++ (spaced op.spelling ++ rs)) (.compare l [(op, r)]) := by
  obtain ⟨lts, hlr, hld⟩ := hl
  obtain ⟨rts, hrr, hrd⟩ := hr
  have hd := Derives.compare [(op, rts, r)] (List.cons_ne_nil _ _) hld (by simpa using hrd)
  refine ⟨_, hlr.between hrr op.apart, ?_⟩
  simpa using hd

theorem Spells.cond {ys cs ns : List Char} {y c n : Tree} (hy : Spells .disjunction ys y)
    (hc : Spells .disjunction cs c) (hn : Spells .conditional ns n) :
    Spells .conditional (ys ++ (spaced ['i', 'f'] ++ (cs ++ (spaced ['e', 'l', 's', 'e'] ++ ns))))
      (.cond c y n) := by
  obtain ⟨yts, hyr, hyd⟩ := hy
  obtain ⟨cts, hcr, hcd⟩ := hc
  obtain ⟨nts, hnr, hnd⟩ := hn
  exact ⟨_, hyr.between (hcr.between hnr ⟨fun _ => rfl, fun _ => rfl⟩) ⟨fun _ => rfl, fun _ => rfl⟩,
    .cond hyd hcd hnd⟩

theorem Spells.not {cs : List Char} {t : Tree} (h : Spells .negation cs t) :
    Spells .negation (['n', 'o', 't', ' '] ++ cs) (.not t) := by
  obtain ⟨ts, hr, hd⟩ := h
  have hword : Apart ['n', 'o', 't'] (.key .not) := ⟨fun _ => rfl, fun _ => rfl⟩
  exact ⟨_, ⟨fun d => (hword.scans d).append (hr.scans d) fun _ _ => trivial, stops_cons rfl _⟩,
    .not hd⟩

theorem next?_minus {cs : List Char} (h : Stops joinsMinus cs) :
    next? ('-' :: cs) = some (.sign .minus, cs) := by
  cases cs with
  | nil => rfl
  | cons c cs =>
    have hc : ¬(c = '=') ∧ ¬(c = '>') := by simpa [joinsMinus] using h c rfl
    have heq : ('=' == c) = false := by simpa using Ne.symm hc.1
    have hgt : ('>' == c) = false := by simpa using Ne.symm hc.2
    simp [next?, sign?, signs, signs.other, isWordStart, List.isPrefixOf, heq, hgt]

theorem Spells.neg {cs : List Char} {t : Tree} (h : Spells .sign cs t) :
    Spells .sign ('-' :: cs) (.neg t) := by
  obtain ⟨ts, hr, hd⟩ := h
  refine ⟨_, ⟨fun d => ?_, stops_cons rfl _⟩, .neg hd⟩
  have hminus : Scans (Stops joinsMinus) d ['-'] [.sign .minus] d :=
    scans_token (fun rest hrest => next?_minus hrest) rfl
  exact hminus.append (hr.scans d) fun rest hrest => hr.begins_append hrest

/-- the text of a function and the opening bracket of its call -/
def Opens (cs : List Char) (f : Tree) : Prop :=
  ∃ ts, (∀ d, Scans (fun _ => True) d cs (ts ++ [.sign .leftParen]) (d + 1))
    ∧ Stops joinsMinus cs ∧ cs ≠ [] ∧ Derives .call ts f

theorem Spells.call {fs cs : List Char} {f t : Tree} (hf : Opens fs f) (h : Spells .loosest cs t) :
    Spells .call (fs ++ (cs ++ [')'])) (.call f [t]) := by
  obtain ⟨fts, hscan, hbegin, hne, hfd⟩ := hf
  obtain ⟨ts, hr, hd⟩ := h
  have hargs := Derives.call [(ts, t)] hfd (by simpa using hd)
  refine ⟨(fts ++ [.sign .leftParen]) ++ (ts ++ [.sign .rightParen]), ⟨fun d => ?_, ?_⟩, ?_⟩
  · have hinner := (hr.scans (d + 1)).append (scans_rightParen d)
      fun rest _ => ends_cons (by decide) rest
    exact ((hscan d).append hinner fun _ _ => trivial).imp fun _ _ => trivial
  · obtain ⟨c, tail, rfl⟩ := List.exists_cons_of_ne_nil hne
    exact hbegin
  · simpa [commas] using hargs

/-! ## laws -/

/-- `x outer (y inner z)` is `(x outer y) inner z` -/
def Infix.regroups : (outer inner : Infix) → Bool
  | .add, .add | .add, .sub | .and, .and | .or, .or => true
  | _, _ => false

/-- equality up to regrouping, anywhere under operators and in the arguments of calls -/
inductive Equiv : Tree → Tree → Prop where
  | refl (t : Tree) : Equiv t t
  | symm {t u : Tree} (h : Equiv t u) : Equiv u t
  | trans {t u v : Tree} (h : Equiv t u) (h' : Equiv u v) : Equiv t v
  | regroup {outer inner : Infix} (h : outer.regroups inner = true) (x y z : Tree) :
    Equiv (.binary outer x (.binary inner y z)) (.binary inner (.binary outer x y) z)
  | neg {x y : Tree} (h : Equiv x y) : Equiv (.neg x) (.neg y)
  | not {x y : Tree} (h : Equiv x y) : Equiv (.not x) (.not y)
  | power {b b' e e' : Tree} (hb : Equiv b b') (he : Equiv e e') :
    Equiv (.power b e) (.power b' e')
  | binary {l l' r r' : Tree} (op : Infix) (hl : Equiv l l') (hr : Equiv r r') :
    Equiv (.binary op l r) (.binary op l' r')
  | compare {l l' r r' : Tree} (op : Comparison) (hl : Equiv l l') (hr : Equiv r r') :
    Equiv (.compare l [(op, r)]) (.compare l' [(op, r')])
  | cond {c c' y y' n n' : Tree} (hc : Equiv c c') (hy : Equiv y y') (hn : Equiv n n') :
    Equiv (.cond c y n) (.cond c' y' n')
  | call {x y : Tree} (f : Tree) (h : Equiv x y) : Equiv (.call f [x]) (.call f [y])

/-- all operators of its level regroup to the right of it -/
def Infix.Flat (op : Infix) : Prop :=
  ∀ inner : Infix, inner.level = op.level → op.regroups inner = true

theorem Infix.flat_add : Infix.Flat .add := by
  intro inner h
  cases inner <;> first | rfl | cases h

theorem Infix.flat_and : Infix.Flat .and := by
  intro inner h
  cases inner <;> first | rfl | cases h

theorem Infix.flat_or : Infix.Flat .or := by
  intro inner h
  cases inner <;> first | rfl | cases h

/-- to the right of such an operator an expression of its own level may stand -/
theorem Infix.Flat.derives {op : Infix} (hop : op.Flat) {ls rs : List Token} {l r : Tree}
    (hl : Derives op.level ls l) (hr : Derives op.level rs r) :
    ∃ t, Derives op.level (ls ++ op.token :: rs) t ∧ Equiv t (.binary op l r) := by
  generalize hp : op.level = p at hr
  -- along the operators of this level, from left to right
  induction hr with
  | looser h =>
    subst hp
    exact ⟨_, .binary op hl h, .refl _⟩
  | @binary ls' rs' l' r' inner hl' hr' ihl ihr =>
    obtain ⟨t, ht, hequiv⟩ := ihl hp
    refine ⟨.binary inner t r', ?_, ?_⟩
    · simpa using Derives.binary inner ht hr'
    · exact (Equiv.binary inner hequiv (.refl r')).trans (.symm (.regroup (hop inner hp.symm) l l' r'))
  | _ => cases op <;> cases hp

/-! ## denoting -/

def Denotes (p : Precedence) (cs : List Char) (m : Tree) : Prop := ∃ t, Spells p cs t ∧ Equiv t m

theorem Spells.denotes {p : Precedence} {cs : List Char} {t : Tree} (h : Spells p cs t) :
    Denotes p cs t := ⟨t, h, .refl t⟩

namespace Denotes
variable {p q : Precedence} {cs ls rs : List Char} {m l r : Tree}

theorem mono (h : Denotes p cs m) (hpq : p.rank ≤ q.rank) : Denotes q cs m := by
  obtain ⟨t, hs, he⟩ := h
  exact ⟨t, hs.mono hpq, he⟩

theorem paren (h : Denotes .loosest cs m) : Denotes .atomic ('(' :: (cs ++ [')'])) m := by
  obtain ⟨t, hs, he⟩ := h
  exact ⟨t, hs.paren, he⟩

theorem binary (op : Infix) (hl : Denotes op.level ls l) (hr : Denotes op.level.tighter rs r) :
    Denotes op.level (ls ++ (spaced op.spelling ++ rs)) (.binary op l r) := by
  obtain ⟨t, hs, he⟩ := hl
  obtain ⟨u, hs', he'⟩ := hr
  exact ⟨_, hs.binary op hs', .binary op he he'⟩

/-- an operand on the right that is not tighter than the operator -/
theorem flat (op : Infix) (hop : op.Flat) (hl : Denotes op.level ls l) (hr : Denotes op.level rs r) :
    Denotes op.level (ls ++ (spaced op.spelling ++ rs)) (.binary op l r) := by
  obtain ⟨t, ⟨lts, hlr, hld⟩, he⟩ := hl
  obtain ⟨u, ⟨rts, hrr, hrd⟩, he'⟩ := hr
  obtain ⟨v, hv, hequiv⟩ := hop.derives hld hrd
  exact ⟨v, ⟨_, hlr.between hrr op.apart, hv⟩, hequiv.trans (.binary op he he')⟩

theorem power (hl : Denotes .call ls l) (hr : Denotes .sign rs r) :
    Denotes .power (ls ++ (spaced ['*', '*'] ++ rs)) (.power l r) := by
  obtain ⟨t, hs, he⟩ := hl
  obtain ⟨u, hs', he'⟩ := hr
  exact ⟨_, hs.power hs', .power he he'⟩

theorem compare (op : Comparison) (hl : Denotes .sum ls l) (hr : Denotes .sum rs r) :
    Denotes .comparison (ls ++ (spaced op.spelling ++ rs)) (.compare l [(op, r)]) := by
  obtain ⟨t, hs, he⟩ := hl
  obtain ⟨u, hs', he'⟩ := hr
  exact ⟨_, hs.compare op hs', .compare op he he'⟩

theorem cond {ys ns : List Char} {y n : Tree} (hy : Denotes .disjunction ys y)
    (hc : Denotes .disjunction cs m) (hn : Denotes .conditional ns n) :
    Denotes .conditional (ys ++ (spaced ['i', 'f'] ++ (cs ++ (spaced ['e', 'l', 's', 'e'] ++ ns))))
      (.cond m y n) := by
  obtain ⟨t, hs, he⟩ := hy
  obtain ⟨u, hs', he'⟩ := hc
  obtain ⟨v, hs'', he''⟩ := hn
  exact ⟨_, hs.cond hs' hs'', .cond he' he he''⟩

theorem not (h : Denotes .negation cs m) : Denotes .negation (['n', 'o', 't', ' '] ++ cs) (.not m) := by
  obtain ⟨t, hs, he⟩ := h
  exact ⟨_, hs.not, .not he⟩

theorem neg (h : Denotes .sign cs m) : Denotes .sign ('-' :: cs) (.neg m) := by
  obtain ⟨t, hs, he⟩ := h
  exact ⟨_, hs.neg, .neg he⟩

theorem call {fs : List Char} {f : Tree} (hf : Opens fs f) (h : Denotes .loosest cs m) :
    Denotes .call (fs ++ (cs ++ [')'])) (.call f [m]) := by
  obtain ⟨t, hs, he⟩ := h
  exact ⟨_, hs.call hf, .call f he⟩

end Denotes

end VisualProgram.Python
