import VisualProgram.Proofs.Lists
import VisualProgram.Proofs.Program.Classes

/-!
# The configuration of a node

A configuration is put together from three sources: the properties of the node without the state of its script,
the code of the script, and the defaults of the class.  `get?_nodeConfig` says which of them a key is taken from,
whatever the keys for the state and for the code are called, and `keys_nodeConfig` in which order the keys come.

The state of a script is dropped as a property.  A default under its key is not: to the defaults the key looks
like one that the node does not set.
-/

namespace VisualProgram

namespace Program

/-! ## defaults -/

/-- the defaults of the class of a node -/
def defaultsFor (t : Toolchain) (n : Node) : List (String × Json) := (t.resolve n.type).defaults.getD []

/-- defaults are for keys that are missing -/
theorem get?_addDefaults (key : String) (config defaults : List (String × Json)) :
    Assoc.get? key (addDefaults config defaults) = (Assoc.get? key config).or (Assoc.get? key defaults) := by
  induction defaults generalizing config with
  | nil => exact Option.or_none.symm
  | cons entry rest ih =>
    obtain ⟨k, x⟩ := entry
    rw [addDefaults, ih, Assoc.get?_cons]
    by_cases hk : k = key
    · subst hk
      rw [if_pos rfl]
      cases hget : Assoc.get? k config with
      | some y => rw [if_pos (by rw [Assoc.contains, hget]; rfl), hget, Option.some_or, Option.some_or]
      | none =>
        rw [if_neg (by rw [Assoc.contains, hget]; decide), Assoc.get?_put, if_pos rfl]
        rfl
    · rw [if_neg hk]
      split
      next => rfl
      next => rw [Assoc.get?_put, if_neg hk]

@[simp] theorem addDefaults_append (config a b : List (String × Json)) :
    addDefaults config (a ++ b) = addDefaults (addDefaults config a) b := by
  induction a generalizing config with
  | nil => rfl
  | cons entry rest ih =>
    obtain ⟨k, x⟩ := entry
    rw [List.cons_append, addDefaults, addDefaults, ih]

/-- the keys of the defaults that are missing follow, each once -/
theorem keys_addDefaults (config defaults : List (String × Json)) :
    Assoc.keys (addDefaults config defaults)
      = Assoc.keys config ++ (Assoc.keys defaults).eraseDups.filter (· ∉ Assoc.keys config) := by
  induction defaults using List.reverseRecOn with
  | nil => exact (List.append_nil _).symm
  | append_singleton rest entry ih =>
    obtain ⟨k, x⟩ := entry
    have hmem : k ∈ Assoc.keys (addDefaults config rest) ↔ k ∈ Assoc.keys config ∨ k ∈ Assoc.keys rest := by
      rw [ih, List.mem_append, List.mem_filter, List.mem_eraseDups, decide_eq_true_iff]
      tauto
    have hlast : Assoc.keys (addDefaults config (rest ++ [(k, x)]))
        = Assoc.keys (addDefaults config rest)
          ++ if k ∈ Assoc.keys (addDefaults config rest) then [] else [k] := by
      rw [addDefaults_append, addDefaults, addDefaults]
      by_cases hk : k ∈ Assoc.keys (addDefaults config rest)
      · rw [if_pos ((Assoc.contains_iff _ _).mpr hk), if_pos hk, List.append_nil]
      · rw [if_neg fun hc => hk ((Assoc.contains_iff _ _).mp hc), Assoc.keys_put]
    rw [hlast, Assoc.keys_append, Assoc.keys_cons, Assoc.keys_nil, eraseDups_concat, List.filter_append,
      ← List.append_assoc, ← ih, if_congr hmem rfl rfl]
    by_cases hold : k ∈ Assoc.keys config <;> by_cases hmet : k ∈ Assoc.keys rest <;> simp [hold, hmet]

/-! ## the three sources -/

/-- the workspace of a node that has the state of a script, if the state loads -/
def loaded? (t : Toolchain) (n : Node) : Option Workspace :=
  (Assoc.get? t.options.scriptStateKey n.properties).bind fun state => (Workspace.ofState state).toOption

/-- the properties of a node that go into its configuration -/
def ownEntries (t : Toolchain) (n : Node) : List (String × Json) :=
  n.properties.filter fun entry => entry.1 ≠ t.options.scriptStateKey

section
variable (t : Toolchain) (n : Node)

theorem nodeConfig_eq :
    nodeConfig t n = addDefaults
      ((loaded? t n).elim (ownEntries t n) fun w =>
        Assoc.put t.options.generatedCodeKey (.string (w.compile t).code) (ownEntries t n))
      (defaultsFor t n) := by
  unfold nodeConfig nodeScript loaded?
  cases Assoc.get? t.options.scriptStateKey n.properties with
  | none => rfl
  | some state =>
    rw [Option.map_some, Option.bind_some]
    cases Workspace.ofState state <;> rfl

/-- where the entry under a key comes from: the script for the key of the code, else the node, else the class -/
theorem get?_nodeConfig (key : String) :
    Assoc.get? key (nodeConfig t n)
      = ((if key = t.options.generatedCodeKey then
            (loaded? t n).map fun w => Json.string (w.compile t).code else none).or
          (if key = t.options.scriptStateKey then none else Assoc.get? key n.properties)).or
        (Assoc.get? key (defaultsFor t n)) := by
  rw [nodeConfig_eq, get?_addDefaults]
  congr 1
  rw [← Assoc.get?_filter_ne]
  cases loaded? t n with
  | none => rw [Option.map_none, ite_self, Option.none_or, Option.elim_none, ownEntries]
  | some w =>
    rw [Option.elim_some, Option.map_some, Assoc.get?_put, ownEntries]
    by_cases hk : t.options.generatedCodeKey = key
    · rw [if_pos hk, if_pos hk.symm, Option.some_or]
    · rw [if_neg hk, if_neg (Ne.symm hk), Option.none_or]

/-- the key of the code, if there is a script and the node does not set it -/
def addedKey : List String :=
  if (loaded? t n).isSome ∧ t.options.generatedCodeKey ∉ Assoc.keys (ownEntries t n) then
    [t.options.generatedCodeKey]
  else []

theorem keys_nodeConfig :
    Assoc.keys (nodeConfig t n) = Assoc.keys (ownEntries t n) ++ addedKey t n
      ++ (Assoc.keys (defaultsFor t n)).eraseDups.filter (· ∉ Assoc.keys (ownEntries t n) ++ addedKey t n) := by
  have hbase : Assoc.keys ((loaded? t n).elim (ownEntries t n) fun w =>
      Assoc.put t.options.generatedCodeKey (.string (w.compile t).code) (ownEntries t n))
      = Assoc.keys (ownEntries t n) ++ addedKey t n := by
    unfold addedKey
    cases loaded? t n with
    | none => simp
    | some w =>
      rw [Option.elim_some, Assoc.keys_put]
      by_cases hk : t.options.generatedCodeKey ∈ Assoc.keys (ownEntries t n) <;> simp [hk]
  rw [nodeConfig_eq, keys_addDefaults, hbase]

/-- no key comes twice unless the node itself has one twice -/
theorem nodup_keys_nodeConfig :
    (Assoc.keys (nodeConfig t n)).Nodup ↔ (Assoc.keys (ownEntries t n)).Nodup := by
  have hadded : (Assoc.keys (ownEntries t n) ++ addedKey t n).Nodup ↔ (Assoc.keys (ownEntries t n)).Nodup := by
    unfold addedKey
    split
    next hnew =>
      rw [List.nodup_append]
      refine ⟨fun h => h.1, fun h => ⟨h, List.nodup_singleton _, ?_⟩⟩
      rintro a ha b hb rfl
      exact hnew.2 (List.mem_singleton.mp hb ▸ ha)
    next => rw [List.append_nil]
  rw [keys_nodeConfig, List.nodup_append, hadded]
  refine and_iff_left ⟨(nodup_eraseDups _).filter _, ?_⟩
  rintro a ha b hb rfl
  exact of_decide_eq_true (List.mem_filter.mp hb).2 ha

end

/-! ## states that do not load -/

section
variable {t : Toolchain} {n : Node} {state : Json}

theorem loaded?_of_error {cause : LoadError}
    (h : Assoc.get? t.options.scriptStateKey n.properties = some state)
    (hload : Workspace.ofState state = .error cause) : loaded? t n = none := by
  rw [loaded?, h, Option.bind_some, hload]
  rfl

theorem nodeDiagnostics_of_error {cause : LoadError}
    (h : Assoc.get? t.options.scriptStateKey n.properties = some state)
    (hload : Workspace.ofState state = .error cause) :
    nodeDiagnostics t n = [⟨n.id, .invalidScriptState, cause.message⟩] := by
  rw [nodeDiagnostics, nodeScript, h, Option.map_some, hload]
  rfl

/-- what is reported of a state tells that it does not load -/
theorem eq_of_mem_nodeDiagnostics {d : Diagnostic} (h : d ∈ nodeDiagnostics t n)
    (hkind : d.kind = .invalidScriptState) :
    d.subject = n.id ∧ ∃ state cause, Assoc.get? t.options.scriptStateKey n.properties = some state
      ∧ Workspace.ofState state = .error cause := by
  rcases mem_nodeDiagnostics h with hblock | ⟨state, cause, hstate, hload, rfl⟩
  · rw [hkind] at hblock
    cases hblock
  · exact ⟨rfl, state, cause, hstate, hload⟩

end

/-- the reports of states that do not load, for one node -/
def stateReports (t : Toolchain) (g : Graph) (id : String) : List Diagnostic :=
  (compile t g).diagnostics.filter fun d => d.kind = .invalidScriptState ∧ d.subject = id

/-- what is reported of the state of a node comes from this node -/
theorem stateReports_eq (t : Toolchain) {g : Graph} (hids : (g.nodes.map Node.id).Nodup) {n : Node}
    (hn : n ∈ g.nodes) :
    stateReports t g n.id
      = (nodeDiagnostics t n).filter fun d => d.kind = .invalidScriptState ∧ d.subject = n.id := by
  have htable : (ClassTable.ofNodes t g.nodes).diagnostics.filter
      (fun d => d.kind = .invalidScriptState ∧ d.subject = n.id) = [] := by
    refine List.filter_eq_nil_iff.mpr fun d hd hkind => ?_
    have hk := kind_of_mem_table hd
    rw [(of_decide_eq_true hkind).1] at hk
    cases hk
  have hothers : ∀ nodes : List Node, n.id ∉ nodes.map Node.id → (nodes.flatMap (nodeDiagnostics t)).filter
      (fun d => d.kind = .invalidScriptState ∧ d.subject = n.id) = [] := by
    refine fun nodes hnot => List.filter_eq_nil_iff.mpr fun d hd hkind => hnot ?_
    obtain ⟨hk, hsubject⟩ := of_decide_eq_true hkind
    obtain ⟨m, hm, hmem⟩ := List.mem_flatMap.mp hd
    rw [← hsubject, (eq_of_mem_nodeDiagnostics hmem hk).1]
    exact List.mem_map_of_mem hm
  obtain ⟨before, after, hsplit⟩ := List.append_of_mem hn
  rw [hsplit, List.map_append, List.map_cons] at hids
  obtain ⟨hbefore, hafter⟩ : n.id ∉ before.map Node.id ∧ n.id ∉ after.map Node.id := by
    have hmiddle := List.nodup_middle.mp hids
    rw [List.nodup_cons, List.mem_append, not_or] at hmiddle
    exact hmiddle.1
  show List.filter _ (_ ++ g.nodes.flatMap (nodeDiagnostics t)) = _
  rw [List.filter_append, htable, List.nil_append, hsplit, List.flatMap_append, List.flatMap_cons,
    List.filter_append, List.filter_append, hothers before hbefore, hothers after hafter, List.nil_append,
    List.append_nil]

/-! ## all together -/

/-- the key for the code has the compiled script if the node has a state that loads.  Otherwise a key other than that
of the state has the property of the node, if there is one, and else the default of the class.  The keys are those
of the properties in their order, the key for the code if it is new, and the other defaults in their order, each
once; so no key comes twice unless the node has one twice.  A state that does not load adds no key and is reported
once; nothing is reported of others -/
theorem configuration_merged (t : Toolchain) (n : Node) :
    let state := t.options.scriptStateKey
    let code := t.options.generatedCodeKey
    let own := (Assoc.keys n.properties).filter (· ≠ state)
    let added := if (loaded? t n).isSome ∧ code ∉ own then [code] else []
    (∀ key, Assoc.get? key (nodeConfig t n)
      = ((if key = code then (loaded? t n).map fun w => Json.string (w.compile t).code else none).or
          (if key = state then none else Assoc.get? key n.properties)).or (Assoc.get? key (defaultsFor t n)))
    ∧ Assoc.keys (nodeConfig t n)
      = own ++ added ++ (Assoc.keys (defaultsFor t n)).eraseDups.filter (· ∉ own ++ added)
    ∧ ((Assoc.keys (nodeConfig t n)).Nodup ↔ own.Nodup)
    ∧ (∀ v cause, Assoc.get? state n.properties = some v → Workspace.ofState v = .error cause →
      loaded? t n = none ∧ nodeDiagnostics t n = [⟨n.id, .invalidScriptState, cause.message⟩]
      ∧ ∀ g : Graph, (g.nodes.map Node.id).Nodup → n ∈ g.nodes →
        stateReports t g n.id = [⟨n.id, .invalidScriptState, cause.message⟩])
    ∧ ((∀ v, Assoc.get? state n.properties = some v → ∃ w, Workspace.ofState v = .ok w) →
      ∀ g : Graph, (g.nodes.map Node.id).Nodup → n ∈ g.nodes → stateReports t g n.id = []) := by
  intro state code own added
  have hkeys := keys_nodeConfig t n
  have hnodup := nodup_keys_nodeConfig t n
  rw [addedKey, ownEntries, Assoc.keys_filter_ne] at hkeys
  rw [ownEntries, Assoc.keys_filter_ne] at hnodup
  refine ⟨get?_nodeConfig t n, hkeys, hnodup, fun v cause hv hload => ?_,
    fun hloads g hids hn => ?_⟩
  · have hreport := nodeDiagnostics_of_error hv hload
    refine ⟨loaded?_of_error hv hload, hreport, fun g hids hn => ?_⟩
    rw [stateReports_eq t hids hn, hreport, List.filter_cons_of_pos (by simp), List.filter_nil]
  · rw [stateReports_eq t hids hn]
    refine List.filter_eq_nil_iff.mpr fun d hd hkind => ?_
    obtain ⟨-, v, cause, hv, herror⟩ := eq_of_mem_nodeDiagnostics hd (of_decide_eq_true hkind).1
    obtain ⟨w, hw⟩ := hloads v hv
    rw [hw] at herror
    cases herror

/-- a class with defaults for what a node sets, for the code and for something else -/
def sampleClass : ComponentClass :=
  ⟨"Sampler", [("mode", .string "auto"), ("generatedCode", .string "idle()"), ("rate", .ofNat 1)]⟩

def sampleSampler (properties : List (String × Json)) : Node := ⟨"s", "sampler", "", .origin, properties⟩

/-- a script that is empty, and one with two blocks of one id -/
theorem configuration_merged_sampleSampler :
    let t := Toolchain.standard.addClass "sampler" sampleClass
    let good := sampleSampler [("rate", .ofNat 2), ("blocks", .object [("blocks", .array [])])]
    let twins := Json.object [("blocks", .array [(Block.leaf "x" "text").toJson, (Block.leaf "x" "text").toJson])]
    let bad := sampleSampler [("generatedCode", .string "mine()"), ("blocks", twins), ("rate", .ofNat 2)]
    Assoc.keys (nodeConfig t good) = ["rate", "generatedCode", "mode"] ∧ (Assoc.keys (nodeConfig t good)).Nodup
    ∧ Assoc.get? "generatedCode" (nodeConfig t good) = some (.string "")
    ∧ Assoc.keys (nodeConfig t bad) = ["generatedCode", "rate", "mode"]
    ∧ Assoc.get? "generatedCode" (nodeConfig t bad) = some (.string "mine()")
    ∧ stateReports t ⟨.standard, [bad], []⟩ "s"
      = [⟨"s", .invalidScriptState,
          "Document describes an invalid structure: A block with id 'x' already exists in the workspace"⟩] := by
  intro t good twins bad
  obtain ⟨hget, hkeys, hnodup, -⟩ := configuration_merged t good
  obtain ⟨hget', hkeys', -, hfails, -⟩ := configuration_merged t bad
  obtain ⟨-, -, hreport⟩ := hfails twins (.invalid (.duplicateBlock "x")) rfl (by decide +kernel)
  refine ⟨hkeys.trans (by decide +kernel), hnodup.mpr (by decide), (hget _).trans (by decide +kernel),
    hkeys'.trans (by decide +kernel), (hget' _).trans (by decide +kernel),
    hreport _ (List.nodup_singleton _) (List.mem_singleton_self _)⟩

/-! ## the key of the state -/

/-- the state of a script is dropped, but a default under its key is not: if the code goes under another key, then
the entry under the key of the state is the default that the class has there, if any; so the key is missing exactly
if the class has no such default.  No default is taken for any other key that the node sets: it has the code of the
script, if this is where the code goes, or else what the node says -/
theorem state_missing_iff (t : Toolchain) (n : Node)
    (hkeys : t.options.scriptStateKey ≠ t.options.generatedCodeKey) :
    let state := t.options.scriptStateKey
    let code := t.options.generatedCodeKey
    (state ∉ Assoc.keys (nodeConfig t n) ↔ state ∉ Assoc.keys (defaultsFor t n))
    ∧ Assoc.get? state (nodeConfig t n) = Assoc.get? state (defaultsFor t n)
    ∧ (∀ key x, key ≠ state → Assoc.get? key n.properties = some x →
      Assoc.get? key (nodeConfig t n)
        = some ((if key = code then (loaded? t n).map fun w => Json.string (w.compile t).code else none).getD x))
    ∧ ∀ g : Graph, n ∈ g.nodes →
      ∃ i ∈ plan t (.reserving scaffoldNames) g.nodes, i.node = n ∧ i.config = nodeConfig t n := by
  intro state code
  have hstate : Assoc.get? state (nodeConfig t n) = Assoc.get? state (defaultsFor t n) := by
    rw [get?_nodeConfig, if_neg hkeys, if_pos rfl, Option.none_or, Option.none_or]
  refine ⟨?_, hstate, fun key x hkey hx => ?_, fun g hn => exists_instance _ hn⟩
  · rw [← Assoc.get?_eq_none_iff, ← Assoc.get?_eq_none_iff, hstate]
  · rw [get?_nodeConfig, if_neg hkey, hx, Option.or_some, Option.some_or]

/-- a class with a default under the key of the state, and a node with a state -/
def sampleLeak : Toolchain := Toolchain.standard.addClass "sampler" ⟨"Sampler", [("blocks", .string "none")]⟩

def sampleHolder : Node := sampleSampler [("rate", .ofNat 2), ("blocks", .object [("blocks", .array [])])]

theorem state_missing_iff_sampleHolder :
    Assoc.get? "blocks" (nodeConfig sampleLeak sampleHolder) = some (.string "none")
    ∧ "blocks" ∉ Assoc.keys (nodeConfig .standard sampleHolder) := by
  obtain ⟨-, hleak, -⟩ := state_missing_iff sampleLeak sampleHolder (by decide)
  obtain ⟨hmissing, -⟩ := state_missing_iff .standard sampleHolder (by decide)
  exact ⟨hleak.trans (by decide +kernel), hmissing.mpr (by decide)⟩

/-- a node with a state whose configuration has an entry under the key of the state -/
theorem state_key_kept :
    ¬ ∀ (t : Toolchain) (n : Node) (v : Json), t.options.scriptStateKey ≠ t.options.generatedCodeKey →
      Assoc.get? t.options.scriptStateKey n.properties = some v →
      Assoc.get? t.options.scriptStateKey (nodeConfig t n) = none := by
  intro hdropped
  have hnone := hdropped sampleLeak sampleHolder _ (by decide) rfl
  have hkept : (Assoc.get? "blocks" (nodeConfig sampleLeak sampleHolder)).isSome = true := by decide +kernel
  rw [show Assoc.get? "blocks" (nodeConfig sampleLeak sampleHolder) = none from hnone] at hkept
  cases hkept

end Program
end VisualProgram
