import RespStore.Proofs.Collection.DictMap
import RespStore.Proofs.History

/-!
# Histories of a dictionary

Operation by operation, a dictionary answers what a finite map does and holds the same entries,
whatever the digest is and however many segments there are.
-/

namespace RespStore.Dict

variable {κ ν ρ : Type}

/-- An operation; `ρ` is what the computations of a caller come to. -/
inductive Operation (κ ν ρ : Type)
  | put (key : κ) (value : ν)
  | putIfAbsent (key : κ) (value : ν)
  | replace (key : κ) (value : ν)
  | remove (key : κ)
  | removeIf (key : κ) (p : ν → Bool)
  | compute (key : κ) (f : Option ν → ρ × Option ν)
  | computePair (a b : κ) (distinct : a ≠ b)
      (f : Option ν → Option ν → ρ × Option ν × Option ν)
  | clear

/-- What an operation answers. -/
inductive Answer (ν ρ : Type)
  | done
  | flag (b : Bool)
  | slot (value : Option ν)
  | result (r : ρ)

variable [DecidableEq κ]

/-- Gives a key of a map a value or none. -/
def setSlot (m : Finmap fun _ : κ => ν) (key : κ) (slot : Option ν) : Finmap fun _ : κ => ν :=
  slot.elim (m.erase key) (m.insert key)

theorem lookup_eq_ite {m : Finmap fun _ : κ => ν} {key : κ} {slot : Option ν}
    (h : m.lookup key = slot) (k : κ) :
    m.lookup k = if k = key then slot else m.lookup k := by
  split
  · next hk => rw [hk, h]
  · rfl

theorem lookup_setSlot (m : Finmap fun _ : κ => ν) (key k : κ) (slot : Option ν) :
    (setSlot m key slot).lookup k = if k = key then slot else m.lookup k := by
  cases slot with
  | none => exact lookup_erase m
  | some v => exact lookup_insert m

/-- The operation on a finite map. -/
def Operation.onMap (m : Finmap fun _ : κ => ν) :
    Operation κ ν ρ → Answer ν ρ × Finmap fun _ : κ => ν
  | put key v => (.slot (m.lookup key), m.insert key v)
  | putIfAbsent key v => if key ∈ m then (.flag false, m) else (.flag true, m.insert key v)
  | replace key v => (.slot (m.lookup key), if key ∈ m then m.insert key v else m)
  | remove key => (.slot (m.lookup key), m.erase key)
  | removeIf key p =>
    if (m.lookup key).any p then (.slot (m.lookup key), m.erase key) else (.slot none, m)
  | compute key f =>
    let (r, slot) := f (m.lookup key)
    (.result r, setSlot m key slot)
  | computePair a b _ f =>
    let (r, x, y) := f (m.lookup a) (m.lookup b)
    (.result r, setSlot (setSlot m a x) b y)
  | clear => (.done, ∅)

variable [Digest κ] {d : Dict κ ν} {m : Finmap fun _ : κ => ν}

/-- The operation on a dictionary. -/
def Operation.run (d : Dict κ ν) : Operation κ ν ρ → Answer ν ρ × Dict κ ν
  | put key v => (d.put key v).map .slot id
  | putIfAbsent key v => (d.putIfAbsent key v).map .flag id
  | replace key v => (d.replace key v).map .slot id
  | remove key => (d.remove key).map .slot id
  | removeIf key p => (d.removeIf key p).map .slot id
  | compute key f => (d.compute key f).map .result id
  | computePair a b _ f => (d.computePair a b f).map .result id
  | clear => (.done, d.clear)

/-! ## Single operations -/

/-- Well-formed, and with the entries of a map. -/
structure Holds (d : Dict κ ν) (m : Finmap fun _ : κ => ν) : Prop where
  wf : d.WF
  get? : ∀ k, d.get? k = m.lookup k

/-- A dictionary holds its own map. -/
theorem WF.holds (h : d.WF) : d.Holds d.toFinmap := ⟨h, fun k => (lookup_toFinmap h k).symm⟩

theorem Holds.mem_iff (h : d.Holds m) (key : κ) : key ∈ m ↔ (d.get? key).isSome := by
  rw [h.get?, Finmap.lookup_isSome]

/-- An operation that changes one key. -/
theorem Holds.of_update {e : Dict κ ν} {m' : Finmap fun _ : κ => ν} {key : κ} {slot : Option ν}
    (h : d.Holds m) (he : e.WF ∧ ∀ k, e.get? k = if k = key then slot else d.get? k)
    (hm : ∀ k, m'.lookup k = if k = key then slot else m.lookup k) : e.Holds m' :=
  ⟨he.1, fun k => by rw [he.2, hm, h.get?]⟩

theorem Holds.run_putIfAbsent (h : d.Holds m) (key : κ) (v : ν) :
    let c : Operation κ ν ρ := .putIfAbsent key v
    (c.run d).1 = (c.onMap m).1 ∧ (c.run d).2.Holds (c.onMap m).2 := by
  have hspec := putIfAbsent_spec h.wf key v
  have hfst : (d.putIfAbsent key v).1 = (m.lookup key).isNone := by rw [putIfAbsent_fst, h.get?]
  rw [h.get?] at hspec
  cases hk : m.lookup key with
  | none =>
    have hmem : key ∉ m := Finmap.lookup_eq_none.mp hk
    rw [hk] at hspec hfst
    simp only [Operation.onMap, if_neg hmem]
    exact ⟨congrArg Answer.flag hfst, h.of_update hspec fun _ => lookup_insert m⟩
  | some old =>
    have hmem : key ∈ m := Finmap.mem_of_lookup_eq_some hk
    rw [hk] at hspec hfst
    simp only [Operation.onMap, if_pos hmem]
    exact ⟨congrArg Answer.flag hfst, h.of_update hspec (lookup_eq_ite hk)⟩

theorem Holds.run_replace (h : d.Holds m) (key : κ) (v : ν) :
    let c : Operation κ ν ρ := .replace key v
    (c.run d).1 = (c.onMap m).1 ∧ (c.run d).2.Holds (c.onMap m).2 := by
  have hspec := replace_spec h.wf key v
  rw [h.get?] at hspec
  refine ⟨congrArg Answer.slot (replace_fst.trans (h.get? key)), ?_⟩
  cases hk : m.lookup key with
  | none =>
    have hmem : key ∉ m := Finmap.lookup_eq_none.mp hk
    rw [hk] at hspec
    simp only [Operation.onMap, if_neg hmem]
    exact h.of_update hspec (lookup_eq_ite hk)
  | some old =>
    have hmem : key ∈ m := Finmap.mem_of_lookup_eq_some hk
    rw [hk] at hspec
    simp only [Operation.onMap, if_pos hmem]
    exact h.of_update hspec fun _ => lookup_insert m

theorem Holds.run_removeIf (h : d.Holds m) (key : κ) (p : ν → Bool) :
    let c : Operation κ ν ρ := .removeIf key p
    (c.run d).1 = (c.onMap m).1 ∧ (c.run d).2.Holds (c.onMap m).2 := by
  have hspec := removeIf_spec h.wf key p
  have hfst : (d.removeIf key p).1 = (m.lookup key).filter p := by rw [removeIf_fst, h.get?]
  rw [h.get?] at hspec
  cases hk : m.lookup key with
  | none =>
    rw [hk] at hspec hfst
    simp only [Operation.onMap, hk]
    exact ⟨congrArg Answer.slot hfst, h.of_update hspec (lookup_eq_ite hk)⟩
  | some old =>
    rw [hk] at hspec hfst
    simp only [Operation.onMap, hk, Option.any_some]
    cases hp : p old with
    | true =>
      rw [Option.filter_some_neg (by simp [hp])] at hspec
      rw [Option.filter_some_pos hp] at hfst
      exact ⟨congrArg Answer.slot hfst, h.of_update hspec fun _ => lookup_erase m⟩
    | false =>
      rw [Option.filter_some_pos (by simp [hp])] at hspec
      rw [Option.filter_some_neg (by simp [hp])] at hfst
      exact ⟨congrArg Answer.slot hfst, h.of_update hspec (lookup_eq_ite hk)⟩

theorem Holds.run (h : d.Holds m) (c : Operation κ ν ρ) :
    (c.run d).1 = (c.onMap m).1 ∧ (c.run d).2.Holds (c.onMap m).2 := by
  cases c with
  | put key v =>
    exact ⟨congrArg Answer.slot (put_fst.trans (h.get? key)),
      h.of_update (put_spec h.wf key v) fun _ => lookup_insert m⟩
  | putIfAbsent key v => exact h.run_putIfAbsent key v
  | replace key v => exact h.run_replace key v
  | remove key =>
    exact ⟨congrArg Answer.slot (remove_fst.trans (h.get? key)),
      h.of_update (remove_spec h.wf key) fun _ => lookup_erase m⟩
  | removeIf key p => exact h.run_removeIf key p
  | compute key f =>
    have hfst : (d.compute key f).1 = (f (d.get? key)).1 := compute_fst f
    have hspec := compute_spec h.wf key f
    rw [h.get?] at hspec hfst
    exact ⟨congrArg Answer.result hfst, h.of_update hspec fun k => lookup_setSlot m key k _⟩
  | computePair a b hab f =>
    have hfst := computePair_fst h.wf hab f
    obtain ⟨hw, hget⟩ := computePair_spec h.wf hab f
    rw [h.get?, h.get?] at hfst hget
    simp only [Operation.run, Operation.onMap, Prod.map]
    refine ⟨congrArg Answer.result hfst, hw, fun k => (hget k).trans ?_⟩
    rw [lookup_setSlot, lookup_setSlot, h.get?]
    by_cases ha : k = a
    · rw [if_pos ha, if_neg (ha ▸ hab), if_pos ha]
    · rw [if_neg ha, if_neg ha]
  | clear =>
    refine ⟨rfl, wf_clear h.wf, fun k => ?_⟩
    show d.clear.get? k = (∅ : Finmap fun _ : κ => ν).lookup k
    rw [get?_clear, Finmap.lookup_empty]

/-! ## Histories -/

/-- All that can be seen of a dictionary is what a map has. Each entry is in the segment and the
bucket that its digest selects, and `fold` goes through the entries as `toList` does. -/
structure Shows (d : Dict κ ν) (m : Finmap fun _ : κ => ν) : Prop extends d.Holds m where
  contains : ∀ k, d.contains k = true ↔ k ∈ m
  size : d.size = m.keys.card
  isEmpty : d.isEmpty = true ↔ m = ∅
  toList_nodup : d.toList.Nodup
  mem_toList : ∀ k v, (k, v) ∈ d.toList ↔ m.lookup k = some v
  keys_nodup : d.keys.Nodup
  mem_keys : ∀ k, k ∈ d.keys ↔ k ∈ m
  fold : ∀ {σ : Type} (f : σ → κ → ν → σ) (init : σ),
    d.fold f init = d.toList.foldl (fun acc e => f acc e.1 e.2) init

theorem Holds.mem_keys_iff (h : d.Holds m) (k : κ) : k ∈ d.keys ↔ k ∈ m := by
  rw [keys, List.mem_map, h.mem_iff, Option.isSome_iff_exists]
  constructor
  · rintro ⟨⟨_, v⟩, hmem, rfl⟩
    exact ⟨v, (mem_toList_iff h.wf).mp hmem⟩
  · rintro ⟨v, hv⟩
    exact ⟨(k, v), (mem_toList_iff h.wf).mpr hv, rfl⟩

theorem Holds.size_eq (h : d.Holds m) : d.size = m.keys.card := by
  have hkeys : m.keys = d.keys.toFinset := by
    ext k
    rw [Finmap.mem_keys, List.mem_toFinset, h.mem_keys_iff]
  rw [hkeys, List.toFinset_card_of_nodup (nodup_keys h.wf), size_eq_length h.wf, keys,
    List.length_map]

theorem Holds.shows (h : d.Holds m) : d.Shows m where
  toHolds := h
  contains := fun k => (h.mem_iff k).symm
  size := h.size_eq
  isEmpty := by rw [isEmpty_iff_toFinmap h.wf, toFinmap_eq h.wf h.get?]
  toList_nodup := List.Nodup.of_map _ (keysNodup_toList h.wf)
  mem_toList := fun k v => by rw [mem_toList_iff h.wf, h.get?]
  keys_nodup := nodup_keys h.wf
  mem_keys := h.mem_keys_iff
  fold := fun f init => fold_eq_foldl f init

theorem holds_withSegments (n : Nat) : (withSegments n : Dict κ ν).Holds ∅ where
  wf := wf_withSegments n
  get? := fun k => by rw [get?_withSegments, Finmap.lookup_empty]

/-- Operations on an empty dictionary answer what they answer on an empty map, and leave a
dictionary that shows the map they leave. -/
theorem operations_refine_map (n : Nat) (cs : List (Operation κ ν ρ)) :
    let ran := History.run Operation.run (withSegments n : Dict κ ν) cs
    let mapped := History.run Operation.onMap (∅ : Finmap fun _ : κ => ν) cs
    ran.1 = mapped.1 ∧ ran.2.Shows mapped.2 := by
  obtain ⟨hanswers, hholds⟩ :=
    History.run_simulates (R := Holds) (fun _ _ c h => h.run c) (holds_withSegments n) cs
  exact ⟨hanswers, hholds.shows⟩

end RespStore.Dict
