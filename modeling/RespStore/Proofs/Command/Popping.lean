import RespStore.Command.Set.Run
import RespStore.Proofs.Collection.DictMap
import RespStore.Proofs.Collection.RandomKey

/-!
# Popping members

Whatever is drawn, taking random members out of a set comes to an end, with as many of them as are
asked for or all that there are. The loop that does it has no bound of its own: it ends because a
random key is a key of the set, so that every turn takes a member out.
-/

namespace RespStore

namespace SetCommand

variable [Digest String] {count : Nat} {popped : List String} {s : Dict String Unit} {g : Draws}

/-- Runs of the loop that takes random members out of a set until `count` of them are out or no key
is drawn. Nothing bounds its turns: one that draws a member which is not there takes nothing out. -/
inductive Pops (count : Nat) : List String → Dict String Unit → Draws →
    List String × Dict String Unit × Draws → Prop where
  | enough {popped : List String} {s : Dict String Unit} {g : Draws} (h : count ≤ popped.length) :
      Pops count popped s g (popped, s, g)
  | empty {popped : List String} {s : Dict String Unit} {g g' : Draws} (h : popped.length < count)
      (hkey : s.randomKey g = (none, g')) : Pops count popped s g (popped, s, g')
  | turn {popped : List String} {s : Dict String Unit} {g g' : Draws} {member : String}
      {r : List String × Dict String Unit × Draws} (h : popped.length < count)
      (hkey : s.randomKey g = (some member, g'))
      (next : Pops count (popped ++ if (s.remove member).1.isSome then [member] else [])
        (s.remove member).2 g' r) : Pops count popped s g r

/-- The draws decide how the loop runs. -/
theorem Pops.unique {r r' : List String × Dict String Unit × Draws} (h : Pops count popped s g r)
    (h' : Pops count popped s g r') : r = r' := by
  induction h with
  | enough hlen =>
    cases h' with
    | enough => rfl
    | empty hlt => exact absurd hlt (Nat.not_lt.mpr hlen)
    | turn hlt => exact absurd hlt (Nat.not_lt.mpr hlen)
  | empty hlt hkey =>
    cases h' with
    | enough hlen => exact absurd hlt (Nat.not_lt.mpr hlen)
    | empty _ hkey' =>
      cases hkey.symm.trans hkey'
      rfl
    | turn _ hkey' =>
      cases hkey.symm.trans hkey'
  | turn hlt hkey _ ih =>
    cases h' with
    | enough hlen => exact absurd hlt (Nat.not_lt.mpr hlen)
    | empty _ hkey' =>
      cases hkey.symm.trans hkey'
    | turn _ hkey' next' =>
      cases hkey.symm.trans hkey'
      exact ih next'

/-- What a turn finds: an empty set, or a member that is there and can be taken out. -/
theorem randomKey_cases (hw : s.WF) (g : Draws) :
    (∃ g', s.randomKey g = (none, g') ∧ s.toFinmap.keys = ∅) ∨
    ∃ member g', s.randomKey g = (some member, g') ∧ member ∈ s.toFinmap.keys ∧
      (s.remove member).1.isSome = true := by
  have hspec := Dict.randomKey_spec hw g
  rcases hkey : s.randomKey g with ⟨_ | member, g'⟩
  · rw [hkey] at hspec
    exact .inl ⟨g', rfl, (Dict.isEmpty_iff_keys hw).mp ((Dict.isEmpty_iff hw).mpr hspec)⟩
  · rw [hkey] at hspec
    refine .inr ⟨member, g', rfl, (Dict.mem_keys_toFinmap hw).mpr hspec, ?_⟩
    rw [Dict.remove_fst]
    exact hspec

/-- A set that has been split into members that are out and those that a dictionary still holds. -/
structure Splits (S : Finset String) (popped : List String) (s : Dict String Unit) : Prop where
  wf : s.WF
  nodup : popped.Nodup
  disjoint : Disjoint popped.toFinset s.toFinmap.keys
  union : popped.toFinset ∪ s.toFinmap.keys = S

namespace Splits

variable {S : Finset String}

theorem start (hw : s.WF) : Splits s.toFinmap.keys [] s where
  wf := hw
  nodup := List.nodup_nil
  disjoint := Finset.disjoint_empty_left _
  union := Finset.empty_union _

/-- Taking a member out of the dictionary moves it to those that are out. -/
theorem turn (h : Splits S popped s) {member : String} (hmem : member ∈ s.toFinmap.keys) :
    Splits S (popped ++ [member]) (s.remove member).2 := by
  obtain ⟨hw, hmap⟩ := Dict.remove_toFinmap h.wf member
  have hkeys : (s.remove member).2.toFinmap.keys = s.toFinmap.keys.erase member := by
    rw [hmap, Finmap.keys_erase]
  have hout : (popped ++ [member]).toFinset = insert member popped.toFinset := by
    rw [List.toFinset_append, List.toFinset_cons, List.toFinset_nil, insert_empty_eq,
      Finset.union_comm, ← Finset.insert_eq]
  have hnew : member ∉ popped := fun hm =>
    Finset.disjoint_left.mp h.disjoint (List.mem_toFinset.mpr hm) hmem
  refine ⟨hw, h.nodup.append (List.nodup_singleton member) ?_, ?_, ?_⟩
  · exact List.disjoint_singleton.mpr hnew
  · rw [hout, hkeys, Finset.disjoint_insert_left]
    exact ⟨Finset.notMem_erase member _, h.disjoint.mono_right (Finset.erase_subset _ _)⟩
  · rw [hout, hkeys, Finset.insert_union, ← Finset.union_insert, Finset.insert_erase hmem]
    exact h.union

theorem subset (h : Splits S popped s) : popped.toFinset ⊆ S := h.union ▸ Finset.subset_union_left

theorem card (h : Splits S popped s) : popped.length + s.toFinmap.keys.card = S.card := by
  rw [← h.union, Finset.card_union_of_disjoint h.disjoint, List.toFinset_card_of_nodup h.nodup]

/-- The dictionary holds what is not out. -/
theorem keys_eq (h : Splits S popped s) : s.toFinmap.keys = S \ popped.toFinset := by
  rw [← h.union, Finset.union_sdiff_cancel_left h.disjoint]

end Splits

/-- Every turn keeps the set split, and at the end as many members are out as are asked for or all
that there are. -/
theorem Pops.splits {S : Finset String} {r : List String × Dict String Unit × Draws}
    (h : Pops count popped s g r) (hsplits : Splits S popped s) (hlen : popped.length ≤ count) :
    Splits S r.1 r.2.1 ∧ r.1.length = min count S.card := by
  induction h with
  | enough hge =>
    refine ⟨hsplits, ?_⟩
    have hcard := hsplits.card
    dsimp only
    omega
  | empty hlt hkey =>
    refine ⟨hsplits, ?_⟩
    have hcard := hsplits.card
    rcases randomKey_cases hsplits.wf _ with ⟨g', hkey', hempty⟩ | ⟨member, g', hkey', -⟩
    · rw [hempty, Finset.card_empty] at hcard
      dsimp only
      omega
    · rw [hkey] at hkey'
      cases hkey'
  | turn hlt hkey _ ih =>
    rcases randomKey_cases hsplits.wf _ with ⟨g', hkey', -⟩ | ⟨member, g', hkey', hmem, hsome⟩
    · rw [hkey] at hkey'
      cases hkey'
    · rw [hkey] at hkey'
      cases hkey'
      rw [if_pos hsome] at ih
      refine ih (hsplits.turn hmem) ?_
      rw [List.length_append, List.length_singleton]
      exact hlt

/-- The loop ends, and has then taken out what `popMany` takes out. -/
theorem pops_popMany (count : Nat) (hw : s.WF) (g : Draws) (popped : List String) :
    Pops (popped.length + count) popped s g
      (popped ++ (popMany count s g).1, (popMany count s g).2) := by
  induction count generalizing popped s g with
  | zero =>
    rw [popMany, List.append_nil]
    exact .enough (Nat.le_refl _)
  | succ count ih =>
    have hlt : popped.length < popped.length + (count + 1) :=
      Nat.lt_add_of_pos_right (Nat.succ_pos count)
    unfold popMany
    rcases randomKey_cases hw g with ⟨g', hkey, -⟩ | ⟨member, g', hkey, -, hsome⟩
    · rw [hkey]
      dsimp only
      rw [List.append_nil]
      exact .empty hlt hkey
    · rw [hkey]
      simp only [hsome, if_true]
      refine .turn hlt hkey ?_
      have hnext := ih (Dict.remove_toFinmap hw member).1 g' (popped ++ [member])
      rw [List.length_append, List.length_singleton, Nat.add_assoc, Nat.add_comm 1 count,
        List.append_assoc] at hnext
      rw [if_pos hsome]
      exact hnext

/-- From the start there is just one run of the loop. -/
theorem pops_iff (hw : s.WF) {r : List String × Dict String Unit × Draws} :
    Pops count [] s g r ↔ r = popMany count s g := by
  have hpops := pops_popMany count hw g []
  rw [List.length_nil, Nat.zero_add] at hpops
  constructor
  · exact fun h => h.unique hpops
  · rintro rfl
    exact hpops

/-- What is out of a set and what is left of it when as many members are taken as are asked for. -/
theorem popMany_splits (count : Nat) (hw : s.WF) (g : Draws) :
    Splits s.toFinmap.keys (popMany count s g).1 (popMany count s g).2.1 ∧
      (popMany count s g).1.length = min count s.toFinmap.keys.card :=
  ((pops_iff hw).mpr rfl).splits (.start hw) (Nat.zero_le _)

end SetCommand

end RespStore
