import Mathlib.Data.Finmap
import RespStore.Proofs.Collection.Dict

/-!
# The finite map of a dictionary

What a dictionary holds, apart from how it is laid out. Operations on many keys are stated as folds
of operations on one.
-/

namespace RespStore.Dict

variable {κ ν : Type} [DecidableEq κ] [Digest κ] {d e : Dict κ ν} {key k : κ} {v : ν}

/-- Its entries as a finite map. -/
def toFinmap (d : Dict κ ν) : Finmap fun _ : κ => ν :=
  (d.toList.map fun e => (⟨e.1, e.2⟩ : Sigma fun _ : κ => ν)).toFinmap

omit [Digest κ] in
theorem dlookup_map (k : κ) (es : List (κ × ν)) :
    List.dlookup k (es.map fun e => (⟨e.1, e.2⟩ : Sigma fun _ : κ => ν)) =
      (es.find? fun e => e.1 = k).map (·.2) := by
  induction es with
  | nil => rfl
  | cons e es ih =>
    by_cases hk : e.1 = k
    · subst hk
      simp
    · have hne : k ≠ (⟨e.1, e.2⟩ : Sigma fun _ : κ => ν).1 := Ne.symm hk
      rw [List.map_cons, List.dlookup_cons_ne _ _ hne, ih, List.find?_cons_of_neg (by simp [hk])]

theorem lookup_toFinmap (h : d.WF) (k : κ) : d.toFinmap.lookup k = d.get? k := by
  rw [toFinmap, Finmap.dlookup_list_toFinmap, dlookup_map]
  refine Option.ext fun v => ?_
  rw [lookup_eq_some_iff (keysNodup_toList h), mem_toList_iff h]

theorem mem_toFinmap (h : d.WF) : k ∈ d.toFinmap ↔ (d.get? k).isSome := by
  rw [← lookup_toFinmap h, Finmap.lookup_isSome]

theorem mem_keys_toFinmap (h : d.WF) : k ∈ d.toFinmap.keys ↔ (d.get? k).isSome := by
  rw [Finmap.mem_keys, mem_toFinmap h]

/-- A dictionary whose answers are those of a map has this map. -/
theorem toFinmap_eq (h : d.WF) {m : Finmap fun _ : κ => ν} (hm : ∀ k, d.get? k = m.lookup k) :
    d.toFinmap = m := Finmap.ext_lookup fun k => (lookup_toFinmap h k).trans (hm k)

theorem isEmpty_iff_toFinmap (h : d.WF) : d.isEmpty = true ↔ d.toFinmap = ∅ := by
  rw [isEmpty_iff h]
  constructor
  · intro hnone
    refine toFinmap_eq h fun k => ?_
    rw [hnone, Finmap.lookup_empty]
  · intro hempty k
    rw [← lookup_toFinmap h, hempty, Finmap.lookup_empty]

@[simp] theorem toFinmap_empty : (empty : Dict κ ν).toFinmap = ∅ :=
  (isEmpty_iff_toFinmap wf_empty).mp ((isEmpty_iff wf_empty).mpr get?_empty)

omit [Digest κ] in
theorem eq_empty_iff_keys {m : Finmap fun _ : κ => ν} : m = ∅ ↔ m.keys = ∅ := by
  constructor
  · rintro rfl
    exact Finmap.keys_empty
  · intro h
    refine Finmap.ext_lookup fun k => ?_
    rw [Finmap.lookup_empty, Finmap.lookup_eq_none, ← Finmap.mem_keys, h]
    exact Finset.notMem_empty k

omit [Digest κ] in
theorem lookup_insert (m : Finmap fun _ : κ => ν) :
    (m.insert key v).lookup k = if k = key then some v else m.lookup k := by
  split
  · next hk => rw [hk, Finmap.lookup_insert]
  · next hk => rw [Finmap.lookup_insert_of_ne m hk]

omit [Digest κ] in
theorem lookup_erase (m : Finmap fun _ : κ => ν) :
    (m.erase key).lookup k = if k = key then none else m.lookup k := by
  split
  · next hk => rw [hk, Finmap.lookup_erase]
  · next hk => rw [Finmap.lookup_erase_ne hk]

/-! ## Operations -/

theorem put_toFinmap (h : d.WF) (key : κ) (v : ν) :
    (d.put key v).2.WF ∧ (d.put key v).2.toFinmap = d.toFinmap.insert key v := by
  obtain ⟨hw, hget⟩ := put_spec h key v
  refine ⟨hw, toFinmap_eq hw fun k => ?_⟩
  rw [hget, lookup_insert, lookup_toFinmap h]

theorem putIfAbsent_toFinmap (h : d.WF) (key : κ) (v : ν) :
    (d.putIfAbsent key v).2.WF ∧
      (d.putIfAbsent key v).2.toFinmap =
        d.toFinmap.insert key ((d.toFinmap.lookup key).getD v) := by
  obtain ⟨hw, hget⟩ := putIfAbsent_spec h key v
  refine ⟨hw, toFinmap_eq hw fun k => ?_⟩
  rw [hget, lookup_insert, lookup_toFinmap h, lookup_toFinmap h]

theorem remove_toFinmap (h : d.WF) (key : κ) :
    (d.remove key).2.WF ∧ (d.remove key).2.toFinmap = d.toFinmap.erase key := by
  obtain ⟨hw, hget⟩ := remove_spec h key
  refine ⟨hw, toFinmap_eq hw fun k => ?_⟩
  rw [hget, lookup_erase, lookup_toFinmap h]

theorem putAll_toFinmap (h : d.WF) (entries : List (κ × ν)) :
    (d.putAll entries).2.WF ∧
      (d.putAll entries).2.toFinmap =
        entries.foldl (fun m e => m.insert e.1 e.2) d.toFinmap := by
  induction entries generalizing d with
  | nil => exact ⟨h, rfl⟩
  | cons e entries ih =>
    obtain ⟨hw, hmap⟩ := put_toFinmap h e.1 e.2
    obtain ⟨hw', hmap'⟩ := ih hw
    refine ⟨hw', hmap'.trans ?_⟩
    rw [hmap]
    rfl

theorem addAll_keys {d : Dict κ Unit} (h : d.WF) (keys : List κ) :
    (d.addAll (keys.map (·, ()))).2.WF ∧
      (d.addAll (keys.map (·, ()))).2.toFinmap.keys = d.toFinmap.keys ∪ keys.toFinset := by
  induction keys generalizing d with
  | nil => exact ⟨h, by simp [addAll]⟩
  | cons key keys ih =>
    obtain ⟨hw, hmap⟩ := putIfAbsent_toFinmap h key ()
    obtain ⟨hw', hmap'⟩ := ih hw
    refine ⟨hw', hmap'.trans ?_⟩
    rw [hmap]
    ext k
    simp only [Finset.mem_union, Finmap.mem_keys, Finmap.mem_insert, List.mem_toFinset,
      List.mem_cons]
    tauto

theorem removeAll_toFinmap (h : d.WF) (keys : List κ) :
    (d.removeAll keys).2.WF ∧
      (d.removeAll keys).2.toFinmap = keys.foldl (fun m k => m.erase k) d.toFinmap := by
  induction keys generalizing d with
  | nil => exact ⟨h, rfl⟩
  | cons key keys ih =>
    obtain ⟨hw, hmap⟩ := remove_toFinmap h key
    obtain ⟨hw', hmap'⟩ := ih hw
    refine ⟨hw', hmap'.trans ?_⟩
    rw [hmap]
    rfl

omit [Digest κ] in
theorem keys_foldl_erase (keys : List κ) (m : Finmap fun _ : κ => ν) :
    (keys.foldl (fun m k => m.erase k) m).keys = m.keys \ keys.toFinset := by
  induction keys generalizing m with
  | nil => simp
  | cons key keys ih =>
    rw [List.foldl_cons, ih, Finmap.keys_erase]
    ext k
    simp only [Finset.mem_sdiff, Finset.mem_erase, List.mem_toFinset, List.mem_cons]
    tauto

theorem removeAll_keys (h : d.WF) (keys : List κ) :
    (d.removeAll keys).2.WF ∧
      (d.removeAll keys).2.toFinmap.keys = d.toFinmap.keys \ keys.toFinset := by
  obtain ⟨hw, hmap⟩ := removeAll_toFinmap h keys
  exact ⟨hw, by rw [hmap, keys_foldl_erase]⟩

/-! ## Counts -/

omit [Digest κ] in
theorem keys_insert (m : Finmap fun _ : κ => ν) (key : κ) (v : ν) :
    (m.insert key v).keys = insert key m.keys := by
  ext k
  simp only [Finmap.mem_keys, Finmap.mem_insert, Finset.mem_insert]

omit [Digest κ] in
theorem keys_foldl_insert (entries : List (κ × ν)) (m : Finmap fun _ : κ => ν) :
    (entries.foldl (fun m e => m.insert e.1 e.2) m).keys =
      m.keys ∪ (entries.map (·.1)).toFinset := by
  induction entries generalizing m with
  | nil => exact (Finset.union_empty _).symm
  | cons e entries ih =>
    rw [List.foldl_cons, ih, keys_insert, List.map_cons, List.toFinset_cons, Finset.insert_union,
      Finset.union_insert]

omit [Digest κ] in
/-- Of the new keys the first one counts if it is new, and the others count once it is there. -/
theorem card_new_cons (key : κ) (keys : List κ) (s : Finset κ) :
    ((key :: keys).toFinset \ s).card =
      (if key ∈ s then 0 else 1) + (keys.toFinset \ insert key s).card := by
  have hrest : keys.toFinset \ insert key s = (keys.toFinset \ s).erase key := by
    ext k
    simp only [Finset.mem_sdiff, Finset.mem_insert, Finset.mem_erase]
    tauto
  rw [hrest, List.toFinset_cons]
  split
  · next hkey =>
    rw [Finset.insert_sdiff_of_mem _ hkey, Finset.erase_eq_of_notMem (by simp [hkey]), Nat.zero_add]
  · next hkey =>
    rw [Finset.insert_sdiff_of_notMem _ hkey, Nat.add_comm, Finset.card_insert_eq_ite]
    split
    · next hmem => rw [Finset.card_erase_add_one hmem]
    · next hmem => rw [Finset.erase_eq_of_notMem hmem]

omit [Digest κ] in
/-- Of the old keys the first one counts if it is there, and the others count once it is gone. -/
theorem card_old_cons (key : κ) (keys : List κ) (s : Finset κ) :
    (s ∩ (key :: keys).toFinset).card =
      (if key ∈ s then 1 else 0) + (s.erase key ∩ keys.toFinset).card := by
  have hrest : s.erase key ∩ keys.toFinset = (s ∩ keys.toFinset).erase key := by
    ext k
    simp only [Finset.mem_inter, Finset.mem_erase]
    tauto
  rw [hrest, List.toFinset_cons]
  split
  · next hkey =>
    rw [Finset.inter_insert_of_mem hkey, Nat.add_comm, Finset.card_insert_eq_ite]
    split
    · next hmem => rw [Finset.card_erase_add_one hmem]
    · next hmem => rw [Finset.erase_eq_of_notMem hmem]
  · next hkey =>
    rw [Finset.inter_insert_of_notMem hkey, Finset.erase_eq_of_notMem (by simp [hkey]),
      Nat.zero_add]

theorem mem_keys_iff_get? (h : d.WF) : k ∈ d.toFinmap.keys ↔ (d.get? k).isNone = false := by
  rw [mem_keys_toFinmap h]
  cases d.get? k <;> simp

theorem putAll_fst (h : d.WF) (entries : List (κ × ν)) :
    (d.putAll entries).1 = ((entries.map (·.1)).toFinset \ d.toFinmap.keys).card := by
  induction entries generalizing d with
  | nil => simp [putAll]
  | cons e entries ih =>
    obtain ⟨hw, hmap⟩ := put_toFinmap h e.1 e.2
    show (if (d.put e.1 e.2).1.isNone then 1 else 0) + ((d.put e.1 e.2).2.putAll entries).1 = _
    rw [ih hw, hmap, keys_insert, put_fst, List.map_cons, card_new_cons]
    simp only [mem_keys_iff_get? h]
    cases (d.get? e.1).isNone <;> rfl

theorem addAll_fst {d : Dict κ Unit} (h : d.WF) (keys : List κ) :
    (d.addAll (keys.map (·, ()))).1 = (keys.toFinset \ d.toFinmap.keys).card := by
  induction keys generalizing d with
  | nil => simp [addAll]
  | cons key keys ih =>
    obtain ⟨hw, hmap⟩ := putIfAbsent_toFinmap h key ()
    show (if (d.putIfAbsent key ()).1 then 1 else 0) +
      ((d.putIfAbsent key ()).2.addAll (keys.map (·, ()))).1 = _
    rw [ih hw, hmap, keys_insert, putIfAbsent_fst, card_new_cons]
    simp only [mem_keys_iff_get? h]
    cases (d.get? key).isNone <;> rfl

theorem removeAll_fst (h : d.WF) (keys : List κ) :
    (d.removeAll keys).1 = (d.toFinmap.keys ∩ keys.toFinset).card := by
  induction keys generalizing d with
  | nil => simp [removeAll]
  | cons key keys ih =>
    obtain ⟨hw, hmap⟩ := remove_toFinmap h key
    show (if (d.remove key).1.isSome then 1 else 0) + ((d.remove key).2.removeAll keys).1 = _
    rw [ih hw, hmap, Finmap.keys_erase, remove_fst, card_old_cons]
    simp only [mem_keys_toFinmap h]

theorem isEmpty_iff_keys (h : d.WF) : d.isEmpty = true ↔ d.toFinmap.keys = ∅ := by
  rw [isEmpty_iff h, Finset.eq_empty_iff_forall_notMem]
  refine forall_congr' fun k => ?_
  rw [mem_keys_toFinmap h, Option.not_isSome_iff_eq_none]

end RespStore.Dict
