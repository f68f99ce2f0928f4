import VisualProgram.Identifier.Scope
import Mathlib.Data.List.Nodup
import Mathlib.Data.List.Perm.Subperm
import Mathlib.Order.Bounds.Defs

/-!
# Names that are free

A scope tries one more numbered name than there are names taken, and numbered names are all different, so
one of them is free: the search never falls back on its default (`exists_free`).  The name claimed is
therefore new (`fresh_not_mem`).

`Probes` is the same search without a bound: names are tried until one is free.  Its counter is a number of 32
bits with a sign, so it has a last value (`lastNumber`).  The search comes to an end before that, and with the
name that the bounded search gives, unless about as many names are taken as there are numbers
(`probes_numbered`); `Suits` says which name that is.

`claims` are the names handed out one after another, `after` is the scope that is left.  Each name is new when
it is handed out and taken from then on, so no two of them are equal and none was taken before
(`nodup_claims`, `not_mem_of_mem_claims`), and nothing else is taken in the end (`mem_taken_after`).
-/

namespace VisualProgram

/-- a text followed by a number tells the number -/
theorem append_toString_injective (stem : String) :
    Function.Injective fun n : Nat => stem ++ toString n := by
  intro a b h
  have hlist := congrArg String.toList h
  simp only [String.toList_append] at hlist
  have hdigits : Nat.toDigits 10 a = Nat.toDigits 10 b := by
    simpa only [Nat.toString_eq_repr, Nat.toList_repr] using List.append_cancel_left hlist
  calc a = Nat.ofDigitChars 10 (Nat.toDigits 10 a) 0 := Nat.ofDigitChars_ten_toDigits.symm
    _ = Nat.ofDigitChars 10 (Nat.toDigits 10 b) 0 := by rw [hdigits]
    _ = b := Nat.ofDigitChars_ten_toDigits

namespace Scope

/-! ## one name -/

theorem candidate_injective (base : String) : Function.Injective (candidate base) := by
  intro a b h
  have hnumber := append_toString_injective (base ++ "_") h
  omega

theorem exists_free (s : Scope) (base : String) :
    ∃ k ∈ List.range (s.taken.length + 1), candidate base k ∉ s.taken := by
  by_contra hall
  simp only [not_exists, not_and, not_not] at hall
  have hsubset : (List.range (s.taken.length + 1)).map (candidate base) ⊆ s.taken := by
    intro name hname
    obtain ⟨k, hk, rfl⟩ := List.mem_map.mp hname
    exact hall k hk
  have hnodup : ((List.range (s.taken.length + 1)).map (candidate base)).Nodup :=
    List.nodup_range.map (candidate_injective base)
  have hlength := (List.subperm_of_subset hnodup hsubset).length_le
  rw [List.length_map, List.length_range] at hlength
  omega

/-- a numbered name is the first one that is free, and there is one soon -/
theorem numbered_eq (s : Scope) (base : String) :
    ∃ k ≤ s.taken.length, s.numbered base = candidate base k ∧ candidate base k ∉ s.taken
      ∧ ∀ j < k, candidate base j ∈ s.taken := by
  obtain ⟨i, hi, hfree⟩ := s.exists_free base
  cases hfind : (List.range (s.taken.length + 1)).find? fun k => candidate base k ∉ s.taken with
  | none =>
    have htaken := List.find?_eq_none.mp hfind i hi
    exact absurd (decide_eq_true hfree) htaken
  | some k =>
    obtain ⟨hk, hrange, hbefore⟩ := List.find?_range_eq_some.mp hfind
    refine ⟨k, Nat.le_of_lt_succ (List.mem_range.mp hrange), by rw [numbered, hfind, Option.getD_some],
      of_decide_eq_true hk, fun j hj => ?_⟩
    simpa using hbefore j hj

theorem fresh_not_mem (s : Scope) (base : String) : s.fresh base ∉ s.taken := by
  unfold fresh
  split
  next =>
    obtain ⟨k, -, hk, hfree, -⟩ := s.numbered_eq base
    rw [hk]
    exact hfree
  next hfree => simpa [isTaken] using hfree

@[simp] theorem isTaken_iff {s : Scope} {name : String} : s.isTaken name = true ↔ name ∈ s.taken :=
  decide_eq_true_iff

@[simp] theorem isTaken_eq_false_iff {s : Scope} {name : String} : s.isTaken name = false ↔ name ∉ s.taken :=
  decide_eq_false_iff_not

/-- the last number that a search can count to -/
def lastNumber : Nat := 0x7fffffff

/-- trying the numbers from `n` on, `tries` in all, until a name is free; the counter never runs over -/
inductive Probes (s : Scope) (base : String) : Nat → Nat → String → Prop where
  | free {n : Nat} (h : s.isTaken (base ++ "_" ++ toString n) = false) :
    Probes s base n 1 (base ++ "_" ++ toString n)
  | taken {n tries : Nat} {name : String} (h : s.isTaken (base ++ "_" ++ toString n) = true)
    (fits : n + 1 ≤ lastNumber) (more : Probes s base (n + 1) tries name) : Probes s base n (tries + 1) name

/-- a free name is reached from every number below it, if all names in between are taken -/
theorem Probes.of_taken {s : Scope} {base : String} {n : Nat}
    (hfree : s.isTaken (base ++ "_" ++ toString n) = false) (hn : n ≤ lastNumber) (d : Nat) {m : Nat}
    (hm : m + d = n) (htaken : ∀ j, m ≤ j → j < n → s.isTaken (base ++ "_" ++ toString j) = true) :
    Probes s base m (d + 1) (base ++ "_" ++ toString n) := by
  induction d generalizing m with
  | zero =>
    obtain rfl : m = n := hm
    exact .free hfree
  | succ d ih =>
    refine .taken (htaken m (Nat.le_refl m) (by omega)) (by omega) (ih (by omega) fun j hj => ?_)
    exact htaken j (by omega)

/-- the search for a number comes to an end, and the bounded search ends with the same name -/
theorem probes_numbered (s : Scope) (base : String) (h : s.taken.length + 2 ≤ lastNumber) :
    ∃ tries ≤ s.taken.length + 1, Probes s base 2 tries (s.numbered base) := by
  obtain ⟨k, hle, hk, hfree, hbefore⟩ := s.numbered_eq base
  refine ⟨k + 1, Nat.succ_le_succ hle, hk ▸ ?_⟩
  refine .of_taken (isTaken_eq_false_iff.mpr hfree) (by omega) k (Nat.add_comm 2 k) fun n hn hlt => ?_
  obtain ⟨j, rfl⟩ := Nat.exists_eq_add_of_le' hn
  exact isTaken_iff.mpr (hbefore j (by omega))

/-- the name for a base: the base itself if it is free, and otherwise with the least number from two on that
makes a free name; the number is hardly greater than the number of names taken -/
def Suits (s : Scope) (base name : String) : Prop :=
  if s.isTaken base then
    ∃ n ≤ s.taken.length + 2, IsLeast {n | 2 ≤ n ∧ s.isTaken (base ++ "_" ++ toString n) = false} n
      ∧ name = base ++ "_" ++ toString n
  else name = base

theorem suits_fresh (s : Scope) (base : String) : s.Suits base (s.fresh base) := by
  unfold Suits fresh
  split
  next =>
    obtain ⟨k, hle, hk, hfree, hbefore⟩ := s.numbered_eq base
    refine ⟨k + 2, by omega, ⟨⟨by omega, isTaken_eq_false_iff.mpr hfree⟩, fun n hn => ?_⟩, hk⟩
    -- a smaller number is that of a candidate before, which is taken
    by_contra hlt
    obtain ⟨j, rfl⟩ := Nat.exists_eq_add_of_le' hn.1
    exact isTaken_eq_false_iff.mp hn.2 (hbefore j (by omega))
  next => rfl

/-- a claim comes to an end, with the name that suits; a search takes at most one more try than there are
names taken -/
structure Gives (s : Scope) (base name : String) : Prop where
  suits : s.Suits base name
  ends : s.isTaken base = true → s.taken.length + 2 ≤ lastNumber →
    ∃ tries ≤ s.taken.length + 1, Probes s base 2 tries name

theorem gives_claim (s : Scope) (base : String) : s.Gives base (s.claim base).1 := by
  refine ⟨s.suits_fresh base, fun htaken hlength => ?_⟩
  rw [claim, fresh, if_pos htaken]
  exact s.probes_numbered base hlength

/-! ## one name after another -/

/-- the names claimed for some bases in a row -/
def claims (s : Scope) : List String → List String
  | [] => []
  | base :: rest => (s.claim base).1 :: claims (s.claim base).2 rest

/-- the name that is claimed is new, and the one that is taken from then on -/
@[simp]
theorem taken_claim (s : Scope) (base : String) :
    (s.claim base).2.taken = (s.claim base).1 :: s.taken := rfl

theorem claim_not_mem (s : Scope) (base : String) : (s.claim base).1 ∉ s.taken := s.fresh_not_mem base

theorem not_mem_of_mem_claims {s : Scope} {bases : List String} :
    ∀ name ∈ s.claims bases, name ∉ s.taken := by
  induction bases generalizing s with
  | nil => exact List.forall_mem_nil _
  | cons base rest ih =>
    refine List.forall_mem_cons.mpr ⟨s.claim_not_mem base, fun name hname htaken => ?_⟩
    refine ih name hname ?_
    rw [taken_claim]
    exact List.mem_cons_of_mem _ htaken

theorem nodup_claims (s : Scope) (bases : List String) : (s.claims bases).Nodup := by
  induction bases generalizing s with
  | nil => exact List.nodup_nil
  | cons base rest ih =>
    refine List.nodup_cons.mpr ⟨fun hagain => ?_, ih _⟩
    refine not_mem_of_mem_claims _ hagain ?_
    rw [taken_claim]
    exact List.mem_cons_self

/-- the scope after some bases have been claimed in a row -/
def after (s : Scope) (bases : List String) : Scope := bases.foldl (fun s base => (s.claim base).2) s

@[simp]
theorem after_nil (s : Scope) : s.after [] = s := rfl

@[simp]
theorem after_cons (s : Scope) (base : String) (rest : List String) :
    s.after (base :: rest) = (s.claim base).2.after rest := rfl

theorem length_claims (s : Scope) (bases : List String) : (s.claims bases).length = bases.length := by
  induction bases generalizing s with
  | nil => rfl
  | cons base rest ih => simp [claims, ih]

theorem mem_taken_after {s : Scope} {bases : List String} {name : String} :
    name ∈ (s.after bases).taken ↔ name ∈ s.taken ∨ name ∈ s.claims bases := by
  induction bases generalizing s with
  | nil => simp [claims]
  | cons base rest ih =>
    rw [after_cons, ih, taken_claim, claims, List.mem_cons, List.mem_cons]
    exact or_assoc.trans or_left_comm

theorem length_taken_after (s : Scope) (bases : List String) :
    (s.after bases).taken.length = s.taken.length + bases.length := by
  induction bases generalizing s with
  | nil => rfl
  | cons base rest ih =>
    rw [after_cons, ih, taken_claim, List.length_cons, List.length_cons]
    omega

/-- every claim is made in the scope that the claims before it left -/
theorem getElem?_claims {s : Scope} {bases : List String} {i : Nat} {base : String}
    (h : bases[i]? = some base) :
    (s.claims bases)[i]? = some ((s.after (bases.take i)).claim base).1 := by
  induction bases generalizing s i with
  | nil => cases h
  | cons first rest ih =>
    cases i with
    | zero =>
      obtain rfl : first = base := Option.some.inj h
      rfl
    | succ i => exact ih h

/-- what claiming makes of a base that has a property, all names claimed have -/
theorem forall_claims {P : String → Prop} (hP : ∀ (s : Scope) (base : String), P base → P (s.fresh base))
    {s : Scope} {bases : List String} (h : ∀ base ∈ bases, P base) : ∀ name ∈ s.claims bases, P name := by
  induction bases generalizing s with
  | nil => exact List.forall_mem_nil _
  | cons base rest ih =>
    obtain ⟨hbase, hrest⟩ := List.forall_mem_cons.mp h
    exact List.forall_mem_cons.mpr ⟨hP s base hbase, ih hrest⟩

/-- names are handed out as long as they are asked for: no name comes twice or is reserved, each is what claiming
its base gives in the scope that the claims before it left, that is the first name free for the base, and these
names are the ones taken in the end; no search goes on forever, and none counts too far before there are about
as many names as numbers -/
theorem names_handed_out (reserved bases : List String) :
    ((reserving reserved).claims bases).length = bases.length
    ∧ ((reserving reserved).claims bases).Nodup
    ∧ (∀ name ∈ (reserving reserved).claims bases, name ∉ reserved)
    ∧ (∀ i base, bases[i]? = some base →
        let s := (reserving reserved).after (bases.take i)
        ((reserving reserved).claims bases)[i]? = some (s.claim base).1
          ∧ s.Gives base (s.claim base).1
          ∧ s.taken.length = reserved.length + i)
    ∧ ∀ name, ((reserving reserved).after bases).isTaken name = true
        ↔ name ∈ reserved ∨ name ∈ (reserving reserved).claims bases := by
  refine ⟨length_claims _ _, nodup_claims _ _, not_mem_of_mem_claims, fun i base hbase => ?_,
    fun _ => isTaken_iff.trans mem_taken_after⟩
  have hi : i ≤ bases.length := Nat.le_of_lt (List.getElem?_eq_some_iff.mp hbase).1
  refine ⟨getElem?_claims hbase, gives_claim _ base, ?_⟩
  rw [length_taken_after, List.length_take_of_le hi]
  rfl

example : (reserving ["engine"]).claims ["engine", "a", "a", "a_2", "a"]
    = ["engine_2", "a", "a_2", "a_2_2", "a_3"] := by decide

end Scope

end VisualProgram
