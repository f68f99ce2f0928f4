import VisualProgram.Proofs.Workspace.Place

/-!
# What each edit does to the contents

One statement for each edit that succeeds, on workspaces with sockets in order:

* `connectValue_contents`, `connectStatement_contents`, `connectNext_contents`, `detach_contents`
  move blocks and keep the contents;
* `addBlock_contents` adds those of the new tree, `delete_contents` takes away those of the block it
  returns, `setField_ids` keeps the ids.

`repeatedId?_eq_none_iff` says when a new tree is admitted.
-/

namespace VisualProgram.Workspace
open Block

/-! ## moving -/

theorem takeForAttach_ok {w rest : Workspace} {parent child : String} {c : Block}
    (h : w.takeForAttach parent child = .ok (c, rest)) :
    ∃ slot, w.locate? child = some slot ∧ w.take? slot = some (c, rest) := by
  unfold takeForAttach at h
  split at h
  · split at h
    · cases h
    · split at h
      · cases h
      · split at h
        next taken ht =>
          cases h
          exact Option.bind_eq_some_iff.mp ht
        · cases h
  · cases h

/-- an edit that takes a block out and hangs it under a parent moves it, and all it displaces -/
theorem attach_contents {w w' : Workspace} {parent child : String} {change : Block → Block → Block}
    {displaced : Block → List Block} (hw : w.Ordered)
    (hchange : ∀ c p : Block, c.Ordered → p.Ordered →
      (change c p).contents + contents ⟨displaced p⟩ = p.contents + c.contents
        ∧ (change c p).Ordered ∧ ∀ x ∈ displaced p, x.Ordered)
    (h : (do
      let (c, rest) ← w.takeForAttach parent child
      rest.changeParent parent (change c) displaced) = .ok w') :
    w'.contents = w.contents ∧ w'.Ordered := by
  cases ht : w.takeForAttach parent child with
  | error e =>
    rw [ht] at h
    cases h
  | ok taken =>
    obtain ⟨c, rest⟩ := taken
    rw [ht] at h
    obtain ⟨slot, -, htake⟩ := takeForAttach_ok ht
    obtain ⟨hc, hoc, hor⟩ := take?_contents hw htake
    obtain ⟨hc', ho⟩ := changeParent_contents hor (fun p hp => hchange c p hoc hp) h
    exact ⟨by rw [hc', hc, add_comm], ho⟩

theorem contents_toList (next : Option Block) : contents ⟨next.toList⟩ = nextContents next := by
  cases next with
  | none => rfl
  | some b => exact contents_singleton b

theorem connectValue_contents {w w' : Workspace} {parent socket child : String} (hw : w.Ordered)
    (h : w.connectValue parent socket child = .ok w') :
    w'.contents = w.contents ∧ w'.Ordered := by
  refine attach_contents hw (fun c p hc hp => ⟨?_, hp.setInput hc, fun x hx => ?_⟩) h
  · rw [contents_toList, contents_setInput socket c hp]
  · have hx' := hp.input? socket
    rw [Option.mem_toList.mp hx] at hx'
    exact hx'

theorem connectStatement_contents {w w' : Workspace} {parent socket child : String} (hw : w.Ordered)
    (h : w.connectStatement parent socket child = .ok w') :
    w'.contents = w.contents ∧ w'.Ordered := by
  refine attach_contents hw (fun c p hc hp =>
    ⟨?_, hp.setStatement (hc.appendOption (hp.statement? socket)), by simp⟩) h
  -- the chain that was there leaves its socket and comes back at the end of the new one
  have hset := contents_setStatement socket (c.appendOption (p.statement? socket)) hp
  rw [contents_appendOption, ← add_assoc] at hset
  rw [contents_nil, add_zero]
  exact add_right_cancel hset

theorem connectNext_contents {w w' : Workspace} {parent child : String} (hw : w.Ordered)
    (h : w.connectNext parent child = .ok w') : w'.contents = w.contents ∧ w'.Ordered := by
  refine attach_contents hw (fun c p hc hp =>
    ⟨?_, hp.setNext (orderedNext_some.mpr (hc.appendOption hp.next)), by simp⟩) h
  have hset := contents_setNext (p := p) (some (c.appendOption p.next))
  rw [nextContents_some, contents_appendOption, ← add_assoc] at hset
  rw [contents_nil, add_zero]
  exact add_right_cancel hset

theorem detach_contents {w w' : Workspace} {id : String} (hw : w.Ordered)
    (h : w.detach id = .ok w') : w'.contents = w.contents ∧ w'.Ordered := by
  unfold detach at h
  split at h
  · cases h
  · cases h
    exact ⟨rfl, hw⟩
  · split at h
    next b rest ht =>
      cases h
      obtain ⟨hc, hob, hor⟩ := take?_contents hw ht
      refine ⟨by rw [contents_append, contents_singleton, hc, add_comm], fun x hx => ?_⟩
      rcases List.mem_append.mp hx with hx | hx
      · exact hor x hx
      · rw [List.mem_singleton.mp hx]
        exact hob
    · cases h
      exact ⟨rfl, hw⟩

/-! ## deleting -/

theorem delete_ok {w w' : Workspace} {id : String} {b : Block} (h : w.delete id = .ok (b, w')) :
    ∃ (slot : Slot) (taken : Block) (rest : Workspace),
      w.locate? id = some slot ∧ w.take? slot = some (taken, rest) ∧ b = taken.setNext none
        ∧ w' = taken.next.elim rest (rest.putAt · slot) := by
  unfold delete at h
  split at h
  · cases h
  next slot hl =>
    split at h
    · cases h
    next taken rest ht =>
      split at h
      next hn =>
        cases h
        refine ⟨slot, b, w', hl, ht, ?_, by rw [hn]; rfl⟩
        cases b
        cases hn
        rfl
      next trailing hn =>
        cases h
        exact ⟨slot, taken, rest, hl, ht, rfl, by rw [hn]; rfl⟩

theorem delete_contents {w w' : Workspace} {id : String} {b : Block} (hw : w.Ordered)
    (h : w.delete id = .ok (b, w')) : w.contents = b.contents + w'.contents ∧ w'.Ordered := by
  obtain ⟨slot, taken, rest, hl, ht, rfl, rfl⟩ := delete_ok h
  obtain ⟨hc, hot, hor⟩ := take?_contents hw ht
  have hset := contents_setNext (p := taken) none
  rw [nextContents_none, add_zero] at hset
  cases hn : taken.next with
  | none =>
    rw [hn, nextContents_none, add_zero] at hset
    exact ⟨by rw [hc, hset]; rfl, hor⟩
  | some trailing =>
    rw [hn, nextContents_some] at hset
    have hotr : trailing.Ordered := orderedNext_some.mp (hn ▸ hot.next)
    obtain ⟨hp, ho⟩ := putAt_contents hor hotr (vacant_of_take? hw ht)
    refine ⟨?_, ho⟩
    rw [Option.elim_some, hp, hc, ← hset]
    ac_rfl

/-! ## adding -/

theorem contains_iff (w : Workspace) (id : String) : w.contains id = true ↔ id ∈ w.ids := by
  rw [← not_iff_not, ← find?_eq_none_iff, contains, Bool.not_eq_true, Option.isSome_eq_false_iff,
    Option.isNone_iff_eq_none]

theorem repeatedId?_eq_none_iff (w : Workspace) (seen ids : List String) :
    w.repeatedId? seen ids = none ↔ ids.Nodup ∧ ∀ id ∈ ids, id ∉ seen ∧ id ∉ w.ids := by
  induction ids generalizing seen with
  | nil => simp [repeatedId?]
  | cons id rest ih =>
    rw [repeatedId?]
    by_cases h : id ∈ seen ∨ w.contains id = true
    · rw [if_pos h]
      rw [contains_iff] at h
      simp only [reduceCtorEq, List.mem_cons, forall_eq_or_imp, false_iff, not_and]
      intro _ hid
      tauto
    · rw [if_neg h, ih]
      rw [contains_iff, not_or] at h
      simp only [List.nodup_cons, List.mem_cons, forall_eq_or_imp, not_or]
      constructor
      · rintro ⟨hnd, hall⟩
        exact ⟨⟨fun hm => (hall id hm).1.1 rfl, hnd⟩, h, fun x hx => ⟨(hall x hx).1.2, (hall x hx).2⟩⟩
      · rintro ⟨⟨hm, hnd⟩, -, hall⟩
        exact ⟨hnd, fun x hx => ⟨⟨fun e => hm (e ▸ hx), (hall x hx).1⟩, (hall x hx).2⟩⟩

/-- what is reported stands after ids that are all new, and repeats one of them or an old one -/
theorem repeatedId?_eq_some {w : Workspace} {seen ids : List String} {id : String}
    (h : w.repeatedId? seen ids = some id) :
    ∃ before after, ids = before ++ id :: after ∧ w.repeatedId? seen before = none
      ∧ (id ∈ before ∨ id ∈ seen ∨ id ∈ w.ids) := by
  induction ids generalizing seen with
  | nil => cases h
  | cons x rest ih =>
    rw [repeatedId?] at h
    by_cases hx : x ∈ seen ∨ w.contains x = true
    · rw [if_pos hx] at h
      cases h
      rw [contains_iff] at hx
      exact ⟨[], rest, rfl, rfl, Or.inr hx⟩
    · rw [if_neg hx] at h
      obtain ⟨before, after, rfl, hnone, hm⟩ := ih h
      refine ⟨x :: before, after, rfl, by rw [repeatedId?, if_neg hx, hnone], ?_⟩
      rw [List.mem_cons] at hm ⊢
      tauto

@[simp] theorem ids_append (a b : List Block) : ids ⟨a ++ b⟩ = ids ⟨a⟩ ++ ids ⟨b⟩ := by simp [ids]

@[simp] theorem ids_singleton (b : Block) : ids ⟨[b]⟩ = b.ids := by simp [ids]

theorem addBlock_ok {w w' : Workspace} {b : Block} (h : w.addBlock b = .ok w') :
    w' = ⟨w.blocks ++ [b]⟩ ∧ b.ids.Nodup ∧ ∀ id ∈ b.ids, id ∉ w.ids := by
  unfold addBlock at h
  split at h
  · cases h
  next hr =>
    cases h
    obtain ⟨hnd, hall⟩ := (repeatedId?_eq_none_iff w [] b.ids).mp hr
    exact ⟨rfl, hnd, fun id hid => (hall id hid).2⟩

theorem addBlock_contents {w w' : Workspace} {b : Block} (h : w.addBlock b = .ok w') :
    w'.contents = w.contents + b.contents := by
  obtain ⟨rfl, -, -⟩ := addBlock_ok h
  simp

/-! ## fields -/

theorem setField_ok {w w' : Workspace} {id name : String} {value : Json}
    (h : w.setField id name value = .ok w') :
    ∃ (p : Block) (P : Place), P.fill p = w ∧ P.fill (p.setField name value) = w' := by
  unfold setField at h
  split at h
  next changed hu =>
    cases h
    obtain ⟨p, P, -, hw, -, hw'⟩ := update?_eq_some hu
    exact ⟨p, P, hw, hw'⟩
  · cases h

theorem setField_ids {w w' : Workspace} {id name : String} {value : Json}
    (h : w.setField id name value = .ok w') : w'.ids = w.ids := by
  obtain ⟨p, P, rfl, rfl⟩ := setField_ok h
  have hp : recordIds (p.setField name value).records = recordIds p.records := by
    obtain ⟨i, tag, fields, inputs, statements, next⟩ := p
    simp [Block.setField, records_mk, recordIds]
  simp only [ids_eq_recordIds, Place.records_fill]
  simp only [recordIds, List.map_append] at hp ⊢
  rw [hp]

end VisualProgram.Workspace
