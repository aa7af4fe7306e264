import Mathlib.Data.List.Basic
import RespStore.Proofs.Collection.Segment

/-!
# Dictionaries as finite maps

Whatever the digest is, a well-formed dictionary is determined by what `get?` answers: every
operation is stated as an update of that function, and the list of entries enumerates it once.
-/

namespace RespStore.Dict

variable {κ ν α : Type} [Digest κ] {d e : Dict κ ν} {key k : κ} {v : ν}

/-- What every operation keeps: the segments are a power of two in number and well-formed, and an
entry sits in the segment that its digest selects. -/
structure WF (d : Dict κ ν) : Prop where
  size_segments : d.segments.size = 1 <<< d.shift
  segment : ∀ (i : Nat) s, d.segments[i]? = some s → s.WF d.shift
  placed : ∀ (i : Nat) s, d.segments[i]? = some s →
    ∀ e ∈ s.entries, (digest e.1).toNat % d.segments.size = i

theorem WF.size_pos (h : d.WF) : 0 < d.segments.size := by
  rw [h.size_segments, Nat.shiftLeft_eq, Nat.one_mul]
  exact Nat.two_pow_pos _

theorem getElem?_segmentIndex (h : d.WF) (key : κ) :
    d.segments[d.segmentIndex key]? = some (d.segment key) := by
  have hlt : d.segmentIndex key < d.segments.size := Nat.mod_lt _ h.size_pos
  simp [segment, Array.getElem?_eq_getElem hlt]

theorem WF.segment_wf (h : d.WF) (key : κ) : (d.segment key).WF d.shift :=
  h.segment _ _ (getElem?_segmentIndex h key)

/-! ## The entries -/

omit [Digest κ] in
theorem mem_toList_iff_segment {e : κ × ν} :
    e ∈ d.toList ↔ ∃ (i : Nat) (s : Segment κ ν), d.segments[i]? = some s ∧ e ∈ s.entries := by
  simp only [toList, List.mem_flatMap, Array.mem_toList_iff, Array.mem_iff_getElem?]
  constructor
  · rintro ⟨s, ⟨i, hi⟩, he⟩
    exact ⟨i, s, hi, he⟩
  · rintro ⟨i, s, hi, he⟩
    exact ⟨s, ⟨i, hi⟩, he⟩

theorem mem_toList_iff [DecidableEq κ] (h : d.WF) : (k, v) ∈ d.toList ↔ d.get? k = some v := by
  rw [get?, Segment.get?_eq_some_iff (h.segment_wf k), mem_toList_iff_segment]
  constructor
  · rintro ⟨i, s, hi, he⟩
    have hk := h.placed i s hi _ he
    rw [segment, segmentIndex, hk, hi]
    exact he
  · exact fun he => ⟨_, _, getElem?_segmentIndex h k, he⟩

theorem keysNodup_toList (h : d.WF) : KeysNodup d.toList := by
  have hdisj : ∀ i s, d.segments[i]? = some s → ∀ e ∈ s.entries, d.segmentIndex e.1 = i :=
    h.placed
  rw [KeysNodup, toList, List.map_flatMap, List.nodup_flatMap]
  refine ⟨fun s hs => ?_, ?_⟩
  · obtain ⟨i, hi⟩ := Array.mem_iff_getElem?.mp (Array.mem_toList_iff.mp hs)
    exact (h.segment i s hi).nodup
  · rw [List.pairwise_iff_getElem]
    intro i j hi hj hij k hki hkj
    obtain ⟨a, ha, rfl⟩ := List.mem_map.mp hki
    obtain ⟨b, hb, hab⟩ := List.mem_map.mp hkj
    simp only [Array.length_toList] at hi hj
    have hai := hdisj i _ (Array.getElem?_eq_getElem hi) a (by simpa using ha)
    have hbj := hdisj j _ (Array.getElem?_eq_getElem hj) b (by simpa using hb)
    rw [hab] at hbj
    omega

theorem nodup_keys (h : d.WF) : d.keys.Nodup := keysNodup_toList h

omit [Digest κ] in
theorem fold_eq_foldl {σ : Type} (f : σ → κ → ν → σ) (init : σ) :
    d.fold f init = d.toList.foldl (fun acc e => f acc e.1 e.2) init := by
  rw [fold, toList, List.foldl_flatMap, Array.foldl_toList]

theorem size_eq_length (h : d.WF) : d.size = d.toList.length := by
  have hsum : ∀ (ss : List (Segment κ ν)) (n : Nat), (∀ s ∈ ss, s.count = s.entries.length) →
      ss.foldl (fun n s => n + s.count) n = n + (ss.flatMap Segment.entries).length := by
    intro ss
    induction ss with
    | nil => simp
    | cons s ss ih =>
      intro n hs
      rw [List.foldl_cons, ih _ fun t ht => hs t (List.mem_cons_of_mem s ht),
        hs s List.mem_cons_self, List.flatMap_cons, List.length_append]
      omega
  rw [size, ← Array.foldl_toList, hsum _ 0 fun s hs => ?_, Nat.zero_add, toList]
  obtain ⟨i, hi⟩ := Array.mem_iff_getElem?.mp (Array.mem_toList_iff.mp hs)
  exact (h.segment i s hi).count_eq

theorem isEmpty_iff_toList (h : d.WF) : d.isEmpty = true ↔ d.toList = [] := by
  rw [isEmpty, Array.all_eq_true_iff_forall_mem, toList, List.flatMap_eq_nil_iff]
  constructor
  · intro hall s hs
    obtain ⟨i, hi⟩ := Array.mem_iff_getElem?.mp (Array.mem_toList_iff.mp hs)
    have hc := hall s (Array.mem_toList_iff.mp hs)
    rw [(h.segment i s hi).count_eq] at hc
    exact List.length_eq_zero_iff.mp (by simpa using hc)
  · intro hall s hs
    obtain ⟨i, hi⟩ := Array.mem_iff_getElem?.mp hs
    rw [(h.segment i s hi).count_eq, hall s (Array.mem_toList_iff.mpr hs)]
    rfl

theorem isEmpty_iff [DecidableEq κ] (h : d.WF) : d.isEmpty = true ↔ ∀ k, d.get? k = none := by
  rw [isEmpty_iff_toList h]
  constructor
  · intro hnil k
    cases hk : d.get? k with
    | none => rfl
    | some v => exact absurd ((mem_toList_iff h).mpr hk) (by simp [hnil])
  · intro hall
    refine List.eq_nil_iff_forall_not_mem.mpr fun ⟨k, v⟩ hm => ?_
    rw [mem_toList_iff h, hall] at hm
    cases hm

/-! ## Empty dictionaries -/

theorem wf_of_empty (segments : Array (Segment κ ν)) (shift : Nat)
    (hsize : segments.size = 1 <<< shift)
    (h : ∀ (i : Nat) s, segments[i]? = some s → s = Segment.empty) :
    (⟨segments, shift⟩ : Dict κ ν).WF where
  size_segments := hsize
  segment := fun i s hs => h i s hs ▸ Segment.wf_empty shift
  placed := fun i s hs e he => by
    rw [h i s hs] at he
    simp [Segment.entries, Segment.empty] at he

theorem get?_of_empty [DecidableEq κ] (segments : Array (Segment κ ν)) (shift : Nat)
    (h : ∀ (i : Nat) s, segments[i]? = some s → s = Segment.empty) (k : κ) :
    (⟨segments, shift⟩ : Dict κ ν).get? k = none := by
  have : (⟨segments, shift⟩ : Dict κ ν).segment k = Segment.empty := by
    rw [segment]
    cases hs : segments[(⟨segments, shift⟩ : Dict κ ν).segmentIndex k]? with
    | none => rfl
    | some s => exact h _ s hs
  rw [get?, this]
  simp [Segment.get?, Segment.bucket, Segment.empty]

theorem wf_withSegments (n : Nat) : (withSegments n : Dict κ ν).WF :=
  wf_of_empty _ _ (by simp) fun i s hs => by
    rw [Array.getElem?_replicate] at hs
    split at hs
    · exact (Option.some.inj hs).symm
    · cases hs

@[simp] theorem get?_withSegments [DecidableEq κ] (n : Nat) (k : κ) :
    (withSegments n : Dict κ ν).get? k = none :=
  get?_of_empty _ _ (fun i s hs => by
    rw [Array.getElem?_replicate] at hs
    split at hs
    · exact (Option.some.inj hs).symm
    · cases hs) k

theorem wf_empty : (empty : Dict κ ν).WF := wf_withSegments _

@[simp] theorem get?_empty [DecidableEq κ] (k : κ) : (empty : Dict κ ν).get? k = none :=
  get?_withSegments _ k

omit [Digest κ] in
theorem eq_empty_of_map {segments : Array (Segment κ ν)} (i : Nat) (s : Segment κ ν)
    (h : (segments.map fun _ => (Segment.empty : Segment κ ν))[i]? = some s) :
    s = Segment.empty := by
  rw [Array.getElem?_map, Option.map_eq_some_iff] at h
  obtain ⟨_, _, rfl⟩ := h
  rfl

theorem wf_clear (h : d.WF) : d.clear.WF :=
  wf_of_empty _ _ (by simpa using h.size_segments) eq_empty_of_map

@[simp] theorem get?_clear [DecidableEq κ] (k : κ) : d.clear.get? k = none :=
  get?_of_empty _ _ eq_empty_of_map k

/-! ## Changing the segment of a key -/

section Change

variable [DecidableEq κ]

theorem get?_modifySegment (h : d.WF) (f : Nat → Segment κ ν → Segment κ ν) (k : κ) :
    (d.modifySegment key f).get? k =
      if d.segmentIndex k = d.segmentIndex key then (f d.shift (d.segment key)).get? d.shift k
      else d.get? k := by
  have hseg : (d.modifySegment key f).segmentIndex k = d.segmentIndex k := by
    simp [segmentIndex, modifySegment]
  rw [get?, segment, hseg]
  simp only [modifySegment, Array.getElem?_modify]
  split
  · next hi => rw [if_pos hi.symm, ← hi, getElem?_segmentIndex h key]; rfl
  · next hi => rw [if_neg (Ne.symm hi), getElem?_segmentIndex h k]; rfl

/-- A change of one key in its segment is a change of that key in the dictionary. -/
theorem modifySegment_spec (h : d.WF) {f : Nat → Segment κ ν → Segment κ ν} {r : Option ν}
    (hf : (f d.shift (d.segment key)).WF d.shift)
    (hget : ∀ k, (f d.shift (d.segment key)).get? d.shift k =
      if k = key then r else (d.segment key).get? d.shift k) :
    (d.modifySegment key f).WF ∧
      ∀ k, (d.modifySegment key f).get? k = if k = key then r else d.get? k := by
  have hold : ∀ e ∈ (f d.shift (d.segment key)).entries, d.segmentIndex e.1 = d.segmentIndex key := by
    intro e he
    by_cases hk : e.1 = key
    · rw [hk]
    · have := (Segment.get?_eq_some_iff hf).mpr he
      rw [hget, if_neg hk, Segment.get?_eq_some_iff (h.segment_wf key)] at this
      exact h.placed _ _ (getElem?_segmentIndex h key) e this
  refine ⟨⟨by simpa [modifySegment] using h.size_segments, ?_, ?_⟩, fun k => ?_⟩
  · intro i s hs
    simp only [modifySegment, Array.getElem?_modify] at hs
    split at hs
    · next hi =>
      rw [← hi, getElem?_segmentIndex h key] at hs
      exact Option.some.inj hs ▸ hf
    · exact h.segment i s hs
  · intro i s hs e he
    simp only [modifySegment, Array.getElem?_modify] at hs
    simp only [modifySegment, Array.size_modify]
    split at hs
    · next hi =>
      rw [← hi, getElem?_segmentIndex h key] at hs
      rw [← Option.some.inj hs] at he
      exact hi ▸ hold e he
    · exact h.placed i s hs e he
  · rw [get?_modifySegment h]
    split
    · next hi =>
      rw [hget]
      split
      · rfl
      · rw [get?, segment, segment, hi]
    · next hi => rw [if_neg fun hk => hi (by rw [hk])]

theorem push_spec (h : d.WF) (hk : d.get? key = none) :
    (d.push key v).WF ∧ ∀ k, (d.push key v).get? k = if k = key then some v else d.get? k :=
  modifySegment_spec h (Segment.push_spec (h.segment_wf key) hk).1
    fun _ => Segment.get?_push (h.segment_wf key) hk

theorem overwrite_spec (h : d.WF) (hk : (d.get? key).isSome) :
    (d.overwrite key v).WF ∧
      ∀ k, (d.overwrite key v).get? k = if k = key then some v else d.get? k :=
  modifySegment_spec h (Segment.wf_overwrite (h.segment_wf key))
    fun _ => Segment.get?_overwrite (h.segment_wf key) hk

theorem put_spec (h : d.WF) (key : κ) (v : ν) :
    (d.put key v).2.WF ∧ ∀ k, (d.put key v).2.get? k = if k = key then some v else d.get? k := by
  unfold put
  cases hk : d.get? key with
  | some old => exact overwrite_spec h (by rw [hk]; rfl)
  | none => exact push_spec h hk

@[simp] theorem put_fst : (d.put key v).1 = d.get? key := by
  unfold put
  cases d.get? key <;> rfl

/-- A dictionary is its own update by what it answers. -/
theorem get?_eq_ite {slot : Option ν} (h : d.get? key = slot) (k : κ) :
    d.get? k = if k = key then slot else d.get? k := by
  split
  · next hk => rw [hk, h]
  · rfl

theorem putIfAbsent_spec (h : d.WF) (key : κ) (v : ν) :
    (d.putIfAbsent key v).2.WF ∧
      ∀ k, (d.putIfAbsent key v).2.get? k =
        if k = key then some ((d.get? key).getD v) else d.get? k := by
  cases hk : d.get? key with
  | some old =>
    have heq : d.putIfAbsent key v = (false, d) := if_pos (by rw [contains, hk]; rfl)
    exact heq ▸ ⟨h, get?_eq_ite hk⟩
  | none =>
    have heq : d.putIfAbsent key v = (true, d.push key v) := if_neg (by rw [contains, hk]; simp)
    exact heq ▸ push_spec h hk

theorem putIfAbsent_fst : (d.putIfAbsent key v).1 = (d.get? key).isNone := by
  unfold putIfAbsent contains
  cases d.get? key <;> rfl

theorem replace_spec (h : d.WF) (key : κ) (v : ν) :
    (d.replace key v).2.WF ∧
      ∀ k, (d.replace key v).2.get? k =
        if k = key then (d.get? key).map fun _ => v else d.get? k := by
  unfold replace
  cases hk : d.get? key with
  | some old => exact overwrite_spec h (by rw [hk]; rfl)
  | none => exact ⟨h, get?_eq_ite hk⟩

@[simp] theorem replace_fst : (d.replace key v).1 = d.get? key := by
  unfold replace
  cases d.get? key <;> rfl

theorem removeIf_fst (p : ν → Bool) : (d.removeIf key p).1 = (d.get? key).filter p := by
  unfold removeIf
  cases d.get? key with
  | none => rfl
  | some old => cases hp : p old <;> simp [Option.filter, hp]

theorem removeIf_spec (h : d.WF) (key : κ) (p : ν → Bool) :
    (d.removeIf key p).2.WF ∧
      ∀ k, (d.removeIf key p).2.get? k =
        if k = key then (d.get? key).filter (fun v => !p v) else d.get? k := by
  cases hk : d.get? key with
  | none =>
    have heq : d.removeIf key p = (none, d) := by rw [removeIf, hk]
    exact heq ▸ ⟨h, get?_eq_ite hk⟩
  | some old =>
    cases hp : p old with
    | false =>
      have heq : d.removeIf key p = (none, d) := by simp [removeIf, hk, hp]
      exact heq ▸ ⟨h, get?_eq_ite (by simpa [Option.filter, hp] using hk)⟩
    | true =>
      have heq : d.removeIf key p =
          (some old, d.modifySegment key fun shift s => s.unlink shift key) := by
        simp [removeIf, hk, hp]
      have hnone : (some old).filter (fun v => !p v) = none := by simp [Option.filter, hp]
      have hsome : ((d.segment key).get? d.shift key).isSome := Option.isSome_of_eq_some hk
      rw [heq, hnone]
      exact modifySegment_spec (f := fun shift s => s.unlink shift key) h
        (Segment.wf_unlink (h.segment_wf key) hk)
        fun _ => Segment.get?_unlink (h.segment_wf key) hsome

theorem remove_spec (h : d.WF) (key : κ) :
    (d.remove key).2.WF ∧ ∀ k, (d.remove key).2.get? k = if k = key then none else d.get? k := by
  simpa [remove] using removeIf_spec h key fun _ => true

@[simp] theorem remove_fst : (d.remove key).1 = d.get? key := by
  unfold remove removeIf
  cases d.get? key <;> rfl

theorem restore_spec (h : d.WF) (hk : d.get? key = none) (slot : Option ν) :
    (d.restore key slot).WF ∧
      ∀ k, (d.restore key slot).get? k = if k = key then slot else d.get? k := by
  cases slot with
  | some v => exact push_spec h hk
  | none => exact ⟨h, get?_eq_ite hk⟩

theorem compute_fst (f : Option ν → α × Option ν) : (d.compute key f).1 = (f (d.get? key)).1 := by
  simp [compute]

theorem compute_spec (h : d.WF) (key : κ) (f : Option ν → α × Option ν) :
    (d.compute key f).2.WF ∧
      ∀ k, (d.compute key f).2.get? k = if k = key then (f (d.get? key)).2 else d.get? k := by
  obtain ⟨hw, hget⟩ := remove_spec h key
  obtain ⟨hw', hget'⟩ := restore_spec hw (by rw [hget, if_pos rfl]) (f (d.get? key)).2
  have heq : (d.compute key f).2 = (d.remove key).2.restore key (f (d.get? key)).2 := by
    simp [compute]
  refine ⟨heq ▸ hw', fun k => ?_⟩
  rw [heq, hget', hget]
  split <;> rfl

theorem computePair_fst {a b : κ} (h : d.WF) (hab : a ≠ b)
    (f : Option ν → Option ν → α × Option ν × Option ν) :
    (d.computePair a b f).1 = (f (d.get? a) (d.get? b)).1 := by
  simp [computePair, (remove_spec h a).2, hab.symm]

theorem computePair_spec {a b : κ} (h : d.WF) (hab : a ≠ b)
    (f : Option ν → Option ν → α × Option ν × Option ν) :
    (d.computePair a b f).2.WF ∧
      ∀ k, (d.computePair a b f).2.get? k =
        if k = a then (f (d.get? a) (d.get? b)).2.1
        else if k = b then (f (d.get? a) (d.get? b)).2.2 else d.get? k := by
  obtain ⟨hwa, hga⟩ := remove_spec h a
  obtain ⟨hwb, hgb⟩ := remove_spec hwa b
  have hb : (d.remove a).2.get? b = d.get? b := by rw [hga, if_neg hab.symm]
  generalize hr : f (d.get? a) (d.get? b) = r
  obtain ⟨hw, hg⟩ := restore_spec hwb (by rw [hgb, if_neg hab, hga, if_pos rfl]) r.2.1
  obtain ⟨hw', hg'⟩ := restore_spec hw
    (by rw [hg, if_neg hab.symm, hgb, if_pos rfl]) r.2.2
  have heq : (d.computePair a b f).2 =
      (((d.remove a).2.remove b).2.restore a r.2.1).restore b r.2.2 := by
    simp [computePair, hb, hr]
  refine ⟨heq ▸ hw', fun k => ?_⟩
  rw [heq, hg', hg, hgb, hga]
  by_cases ha : k = a
  · rw [if_neg (ha ▸ hab), if_pos ha, if_pos ha]
  · simp only [if_neg ha]
    split <;> rfl

end Change

end RespStore.Dict
