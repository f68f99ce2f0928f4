import VisualProgram.Proofs.Graph.Reachable

/-!
# Searching along wires

`reaches` uses up the wires of a node when it comes to the node.  A `Search` keeps all wires and remembers
the nodes it has visited instead, with a stack of nodes to visit on which a node may stand several times.
The wires that leave no visited node are those still `unused`, and with them the two searches are one:

* `sizes_step`, `leads_step`   a turn makes the stack and the unused wires together shorter by one, and keeps
                               whether the goal can be reached from the stack along unused wires;
* `run_eq`                     so every search ends, and its answer is that of `reaches`.

A wire closes a cycle exactly if there is a way back from its target to its source (`cyclic_append_iff`), so
the search decides what `connect` has to know.
-/

namespace VisualProgram.Graph
open Relation

/-! ## a search with a stack -/

/-- the nodes to visit, the one put there last in front, and the nodes visited -/
structure Search where
  stack : List String
  visited : List String

namespace Search

/-- one turn of a search: its answer, or how it goes on -/
def step (wires : List Wire) (goal : String) : Search → Bool ⊕ Search
  | ⟨[], _⟩ => .inl false
  | ⟨current :: stack, visited⟩ =>
    if current = goal then .inl true
    else if current ∈ visited then .inr ⟨stack, visited⟩
    else .inr ⟨(targetsFrom current wires).reverse ++ stack, current :: visited⟩

/-- the answer of a search, if it comes within a number of turns -/
def run (wires : List Wire) (goal : String) : Nat → Search → Option Bool
  | 0, _ => none
  | turns + 1, s => (s.step wires goal).elim some (run wires goal turns)

/-- the wires that leave no visited node -/
def unused (wires : List Wire) (visited : List String) : List Wire := wires.filter (·.source.node ∉ visited)

/-- the goal can be reached from the stack along unused wires -/
def Leads (wires : List Wire) (goal : String) (s : Search) : Prop :=
  ∃ node ∈ s.stack, ReflTransGen (Feeds (unused wires s.visited)) node goal

section
variable {wires : List Wire} {current : String} {visited : List String}

theorem wiresNotFrom_eq_filter (id : String) (wires : List Wire) :
    wiresNotFrom id wires = wires.filter (·.source.node ≠ id) := by
  induction wires with
  | nil => rfl
  | cons w rest ih => by_cases h : w.source.node = id <;> simp [wiresNotFrom, h, ih]

/-- visiting a node uses its wires up -/
theorem unused_cons : unused wires (current :: visited) = wiresNotFrom current (unused wires visited) := by
  rw [wiresNotFrom_eq_filter, unused, unused, List.filter_filter]
  refine List.filter_congr fun w _ => ?_
  simp only [List.mem_cons, not_or, Bool.decide_and]

/-- a node that was not visited has all its wires unused -/
theorem targetsFrom_unused (h : current ∉ visited) :
    targetsFrom current (unused wires visited) = targetsFrom current wires := by
  unfold unused
  induction wires with
  | nil => rfl
  | cons w rest ih =>
    by_cases hw : w.source.node = current
    · have hkeep : w.source.node ∉ visited := hw ▸ h
      rw [List.filter_cons_of_pos (by simpa using hkeep), targetsFrom, targetsFrom, if_pos hw, if_pos hw, ih]
    · rw [targetsFrom, if_neg hw, List.filter_cons]
      split
      · rw [targetsFrom, if_neg hw, ih]
      · exact ih

/-- no unused wire leaves a visited node -/
theorem not_feeds_unused {b : String} (h : current ∈ visited) :
    ¬Feeds (unused wires visited) current b := by
  rintro ⟨w, hw, hs, -⟩
  exact of_decide_eq_true (List.mem_filter.mp hw).2 (hs ▸ h)

end

section
variable {wires : List Wire} {goal : String} {s s' : Search}

/-- all that a turn can do -/
theorem step_cases (h : s.step wires goal = .inr s') :
    ∃ current stack, s.stack = current :: stack ∧ current ≠ goal
      ∧ (current ∈ s.visited ∧ s' = ⟨stack, s.visited⟩
        ∨ current ∉ s.visited
          ∧ s' = ⟨(targetsFrom current wires).reverse ++ stack, current :: s.visited⟩) := by
  obtain ⟨stack, visited⟩ := s
  cases stack with
  | nil => cases h
  | cons current stack =>
    rw [step] at h
    split at h
    next => cases h
    next hne =>
      refine ⟨current, stack, rfl, hne, ?_⟩
      split at h
      next hv =>
        cases h
        exact Or.inl ⟨hv, rfl⟩
      next hv =>
        cases h
        exact Or.inr ⟨hv, rfl⟩

/-- a turn takes one node off the stack, and moves the wires of a new node onto it -/
theorem sizes_step (h : s.step wires goal = .inr s') :
    s'.stack.length + (unused wires s'.visited).length + 1
      = s.stack.length + (unused wires s.visited).length := by
  obtain ⟨current, stack, hstack, -, ⟨-, rfl⟩ | ⟨hv, rfl⟩⟩ := step_cases h
  · rw [hstack, List.length_cons, Nat.add_right_comm]
  · have hsplit := length_targetsFrom_add current (unused wires s.visited)
    rw [targetsFrom_unused hv] at hsplit
    rw [unused_cons, hstack, List.length_append, List.length_reverse, List.length_cons]
    omega

/-- a turn keeps whether the goal can be reached -/
theorem leads_step (h : s.step wires goal = .inr s') : s'.Leads wires goal ↔ s.Leads wires goal := by
  obtain ⟨current, stack, hstack, hne, ⟨hv, rfl⟩ | ⟨hv, rfl⟩⟩ := step_cases h
  · -- from a visited node no unused wire leads on
    have hstuck : ¬ReflTransGen (Feeds (unused wires s.visited)) current goal := by
      intro hpath
      rcases hpath.cases_head with rfl | ⟨b, hb, -⟩
      · exact hne rfl
      · exact not_feeds_unused hv hb
    rw [Leads, Leads, hstack, List.exists_mem_cons_iff]
    exact (or_iff_right hstuck).symm
  · have hturn := reachable_iff goal (current :: stack) (unused wires s.visited)
    rw [reachable, if_neg hne, targetsFrom_unused hv, reachable_iff] at hturn
    rw [Leads, Leads, unused_cons, hstack, ← hturn]
    simp only [List.mem_append, List.mem_reverse]

theorem answer_iff {answer : Bool} (h : s.step wires goal = .inl answer) :
    answer = true ↔ s.Leads wires goal := by
  obtain ⟨stack, visited⟩ := s
  cases stack with
  | nil =>
    cases h
    simp [Leads]
  | cons current stack =>
    rw [step] at h
    split at h
    next heq =>
      cases h
      exact iff_of_true rfl ⟨current, List.mem_cons_self, heq ▸ .refl⟩
    next => split at h <;> cases h

/-- a search ends, after no more turns than there are nodes on its stack and wires, and one more -/
theorem run_eq (turns : Nat) (s : Search) (h : s.stack.length + (unused wires s.visited).length < turns) :
    ∃ answer, s.run wires goal turns = some answer ∧ (answer = true ↔ s.Leads wires goal) := by
  induction turns generalizing s with
  | zero => omega
  | succ turns ih =>
    rw [run]
    cases hstep : s.step wires goal with
    | inl answer => exact ⟨answer, rfl, answer_iff hstep⟩
    | inr s' =>
      have hsizes := sizes_step hstep
      obtain ⟨answer, hrun, hanswer⟩ := ih s' (by omega)
      exact ⟨answer, hrun, hanswer.trans (leads_step hstep)⟩

end

theorem run_eq_reaches (g : Graph) (source target : String) :
    run g.wires target (g.wires.length + 2) ⟨[source], []⟩ = some (g.reaches source target) := by
  have hunused : unused g.wires [] = g.wires := by simp [unused]
  have hturns : [source].length + (unused g.wires []).length < g.wires.length + 2 := by
    rw [hunused, List.length_singleton]
    omega
  obtain ⟨answer, hrun, hanswer⟩ := @run_eq g.wires target (g.wires.length + 2) ⟨[source], []⟩ hturns
  have hleads : answer = true ↔ g.reaches source target = true := by
    rw [hanswer, reaches_iff, Leads, hunused]
    simp
  rw [hrun, Bool.eq_iff_iff.mpr hleads]

end Search

/-! ## cycles -/

/-- a path is empty or takes a wire -/
theorem reaches_iff_path (g : Graph) (source target : String) :
    g.reaches source target = true ↔ source = target ∨ TransGen (Feeds g.wires) source target := by
  rw [reaches_iff, reflTransGen_iff_eq_or_transGen, eq_comm]

theorem cyclic_append_iff {wires : List Wire} {w : Wire} (ha : Acyclic wires) :
    (∃ a, TransGen (Feeds (wires ++ [w])) a a)
      ↔ ReflTransGen (Feeds wires) w.target.node w.source.node := by
  constructor
  · intro hcycle
    by_contra hpath
    obtain ⟨a, hcycle⟩ := hcycle
    exact acyclic_append ha hpath a hcycle
  · intro hpath
    have hwire : Feeds (wires ++ [w]) w.source.node w.target.node := feeds_append.mpr (Or.inr ⟨rfl, rfl⟩)
    have hmono : Feeds wires ≤ Feeds (wires ++ [w]) := fun _ _ => Feeds.mono (List.subset_append_left _ _)
    exact ⟨w.source.node, .head' hwire (ReflTransGen.mono hmono _ _ hpath)⟩

/-- a wire between nodes that are there, of which there is none yet, is refused only for a cycle -/
theorem connect_eq {g : Graph} {w : Wire} (hs : w.source.node ∈ g.ids) (ht : w.target.node ∈ g.ids)
    (hnew : ∀ v ∈ g.wires, (v.source, v.target) ≠ (w.source, w.target)) :
    g.connect w = if g.reaches w.target.node w.source.node
      then .error (.wireCycle w.source.node w.target.node) else .ok { g with wires := g.wires ++ [w] } := by
  have hends : ¬((g.node? w.source.node).isNone = true ∨ (g.node? w.target.node).isNone = true) := by
    rw [isNone_node?, isNone_node?]
    tauto
  have hports : ¬(g.wires.any fun v => v.source = w.source ∧ v.target = w.target) = true := by
    rw [List.any_eq_true]
    rintro ⟨v, hv, heq⟩
    obtain ⟨hsource, htarget⟩ := of_decide_eq_true heq
    exact hnew v hv (Prod.ext hsource htarget)
  rw [connect, if_neg hends, if_neg hports]

/-- in a graph that a run leads to, the search for a way between two nodes ends, and it finds one exactly if
the nodes are the same or wires lead from the one to the other.  So a new wire between nodes that are there
is refused for a cycle exactly if there would be one with it, and otherwise it is added and nothing else is
changed -/
theorem cycles_found_exactly (g : Graph) (hg : g.Reachable) :
    (∀ source target,
      (g.reaches source target = true ↔ source = target ∨ TransGen (Feeds g.wires) source target)
      ∧ Search.run g.wires target (g.wires.length + 2) ⟨[source], []⟩ = some (g.reaches source target))
    ∧ ∀ w : Wire, w.source.node ∈ g.ids → w.target.node ∈ g.ids →
      (∀ v ∈ g.wires, (v.source, v.target) ≠ (w.source, w.target)) →
      (g.connect w = .error (.wireCycle w.source.node w.target.node)
        ↔ ∃ a, TransGen (Feeds (g.wires ++ [w])) a a)
      ∧ ((¬∃ a, TransGen (Feeds (g.wires ++ [w])) a a)
        → g.connect w = .ok { g with wires := g.wires ++ [w] }) := by
  refine ⟨fun source target => ⟨g.reaches_iff_path source target, Search.run_eq_reaches g source target⟩, ?_⟩
  intro w hs ht hnew
  rw [cyclic_append_iff (sound_of_reachable hg).acyclic, ← reaches_iff, connect_eq hs ht hnew]
  split
  next hreach => exact ⟨iff_of_true rfl hreach, fun hfree => absurd hreach hfree⟩
  next hfree => exact ⟨iff_of_false (by simp) hfree, fun _ => rfl⟩

/-- the way from b over c to a is found, so a wire from a to b is refused and one from b to a is not -/
theorem cycles_found_exactly_sampleRun :
    (empty.run sampleRun).Reachable
    ∧ (empty.run sampleRun).connect (sampleWire "a" "b") = .error (.wireCycle "a" "b")
    ∧ (∃ a, TransGen (Feeds ((empty.run sampleRun).wires ++ [sampleWire "a" "b"])) a a)
    ∧ (¬∃ a, TransGen (Feeds ((empty.run sampleRun).wires ++ [sampleWire "b" "a"])) a a)
    ∧ Search.run (empty.run sampleRun).wires "a" 4 ⟨["b"], []⟩ = some true
    ∧ ("b" = "a" ∨ TransGen (Feeds (empty.run sampleRun).wires) "b" "a") := by
  obtain ⟨hsearch, hconnect⟩ := cycles_found_exactly _ reachable_sampleRun
  have hids : (empty.run sampleRun).ids = ["a", "c", "b"] := by decide +kernel
  have hnew : ∀ w ∈ [sampleWire "a" "b", sampleWire "b" "a"], ∀ v ∈ (empty.run sampleRun).wires,
      (v.source, v.target) ≠ (w.source, w.target) := by decide +kernel
  have hback : (empty.run sampleRun).reaches "b" "a" = true := by decide +kernel
  have hrefused : (empty.run sampleRun).connect (sampleWire "a" "b") = .error (.wireCycle "a" "b") := by
    rw [connect_eq (by rw [hids]; decide) (by rw [hids]; decide) (hnew _ (by decide))]
    exact if_pos hback
  have hadded : (empty.run sampleRun).connect (sampleWire "b" "a") ≠ .error (.wireCycle "b" "a") := by
    decide +kernel
  refine ⟨reachable_sampleRun, hrefused, ?_, ?_, ?_, (hsearch "b" "a").1.mp hback⟩
  · exact (hconnect _ (by rw [hids]; decide) (by rw [hids]; decide) (hnew _ (by decide))).1.mp hrefused
  · exact fun hcycle => hadded
      ((hconnect _ (by rw [hids]; decide) (by rw [hids]; decide) (hnew _ (by decide))).1.mpr hcycle)
  · have hrun := (hsearch "b" "a").2
    have hwires : (empty.run sampleRun).wires.length + 2 = 4 := by decide +kernel
    rwa [hback, hwires] at hrun

end VisualProgram.Graph
