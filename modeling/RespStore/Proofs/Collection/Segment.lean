import Mathlib.Data.List.Basic
import Mathlib.Data.List.Nodup
import RespStore.Collection.Dict

/-!
# Segments as finite maps

A well-formed segment keeps every entry in the bucket that its digest selects and no key twice, so
that looking a key up is membership among the entries. Each operation is described by what it does
to the list of entries.
-/

namespace RespStore

/-! ## Lists of entries -/

section Entries

variable {κ ν : Type} {es : List (κ × ν)} {key : κ} {v : ν}

/-- The keys of a list of entries are distinct. -/
def KeysNodup (es : List (κ × ν)) : Prop := (es.map Prod.fst).Nodup

theorem KeysNodup.eq_of_mem (h : KeysNodup es) {a b : κ × ν} (ha : a ∈ es) (hb : b ∈ es)
    (hk : a.1 = b.1) : a = b := List.inj_on_of_nodup_map h ha hb hk

theorem KeysNodup.of_perm {fs : List (κ × ν)} (h : KeysNodup es) (p : es.Perm fs) :
    KeysNodup fs := ((p.map Prod.fst).nodup_iff).mp h

theorem KeysNodup.filter (h : KeysNodup es) (p : κ × ν → Bool) : KeysNodup (es.filter p) :=
  (List.filter_sublist.map Prod.fst).nodup h

/-- Looking a key up finds the one entry that it has. -/
theorem lookup_eq_some_iff [DecidableEq κ] (h : KeysNodup es) :
    (es.find? fun e => e.1 = key).map (·.2) = some v ↔ (key, v) ∈ es := by
  rw [Option.map_eq_some_iff]
  constructor
  · rintro ⟨e, he, rfl⟩
    have hk : e.1 = key := by simpa using List.find?_some he
    exact hk ▸ List.mem_of_find?_eq_some he
  · intro hm
    cases hf : es.find? fun e => e.1 = key with
    | none => exact absurd (decide_eq_true rfl) (List.find?_eq_none.mp hf _ hm)
    | some e =>
      have hk : e.1 = key := by simpa using List.find?_some hf
      exact ⟨e, rfl, by rw [h.eq_of_mem (List.mem_of_find?_eq_some hf) hm hk]⟩

theorem lookup_eq_none_iff [DecidableEq κ] :
    (es.find? fun e => e.1 = key).map (·.2) = none ↔ ∀ e ∈ es, e.1 ≠ key := by
  simp [List.find?_eq_none]

/-- Removing the first entry of a key removes every entry of it. -/
theorem KeysNodup.eraseP_eq_filter [DecidableEq κ] (h : KeysNodup es) :
    es.eraseP (fun e => e.1 = key) = es.filter fun e => e.1 ≠ key := by
  induction es with
  | nil => rfl
  | cons e es ih =>
    obtain ⟨hnot, hes⟩ := List.nodup_cons.mp h
    by_cases hk : e.1 = key
    · have hrest : es.filter (fun e => e.1 ≠ key) = es := by
        refine List.filter_eq_self.mpr fun f hf => ?_
        have : f.1 ∈ es.map Prod.fst := List.mem_map_of_mem hf
        exact decide_eq_true fun hkf => hnot (by rw [hk, ← hkf]; exact this)
      rw [List.filter_cons_of_neg (by simpa using hk), hrest]
      simp [hk]
    · rw [List.filter_cons_of_pos (by simpa using hk), ← ih hes]
      simp [hk]

end Entries

/-! ## Tables of buckets -/

namespace Segment

variable {κ ν : Type} [Digest κ] {shift : Nat} {s : Segment κ ν} {key k : κ} {v : ν}

/-- Every bucket of a table holds only entries whose digest selects it. -/
def Located (shift : Nat) (buckets : Array (List (κ × ν))) : Prop :=
  ∀ i c, buckets[i]? = some c → ∀ e ∈ c, bucketIndex shift buckets.size e.1 = i

/-- What every operation keeps. The table is absent or holds a power of two of at least four
buckets, of which the entries number at most three quarters. -/
structure WF (shift : Nat) (s : Segment κ ν) : Prop where
  located : Located shift s.buckets
  nodup : KeysNodup s.entries
  count_eq : s.count = s.entries.length
  sized : s.buckets.size = 0 ∨ ∃ n, s.buckets.size = 4 <<< n
  load : 4 * s.count ≤ 3 * s.buckets.size

theorem wf_empty (shift : Nat) : (empty : Segment κ ν).WF shift where
  located := by simp [Located, empty]
  nodup := by simp [KeysNodup, entries, empty]
  count_eq := rfl
  sized := .inl rfl
  load := Nat.le_refl 0

omit [Digest κ] in
theorem mem_entries_iff {e : κ × ν} :
    e ∈ s.entries ↔ ∃ (i : Nat) (c : List (κ × ν)), s.buckets[i]? = some c ∧ e ∈ c := by
  simp only [entries, List.mem_flatten, Array.mem_toList_iff, Array.mem_iff_getElem?]
  constructor
  · rintro ⟨c, ⟨i, hi⟩, he⟩
    exact ⟨i, c, hi, he⟩
  · rintro ⟨i, c, hi, he⟩
    exact ⟨c, ⟨i, hi⟩, he⟩

theorem mem_entries_of_mem_bucket {e : κ × ν} (h : e ∈ s.bucket shift k) : e ∈ s.entries := by
  unfold bucket at h
  cases hc : s.buckets[bucketIndex shift s.buckets.size k]? with
  | none => simp [hc] at h
  | some c => exact mem_entries_iff.mpr ⟨_, c, hc, by simpa [hc] using h⟩

/-- A key is looked for in the only bucket that may hold it. -/
theorem mem_bucket_iff (h : s.WF shift) {e : κ × ν} (hk : e.1 = k) :
    e ∈ s.bucket shift k ↔ e ∈ s.entries := by
  refine ⟨mem_entries_of_mem_bucket, fun he => ?_⟩
  obtain ⟨i, c, hc, hec⟩ := mem_entries_iff.mp he
  have hi := h.located i c hc e hec
  rw [hk] at hi
  simpa [bucket, hi, hc] using hec

/-- A chain of a segment has no key twice. -/
theorem WF.nodup_chain (h : s.WF shift) {i : Nat} {c : List (κ × ν)}
    (hc : s.buckets[i]? = some c) : KeysNodup c := by
  have hmem : c ∈ s.buckets.toList := by
    rw [Array.mem_toList_iff, Array.mem_iff_getElem?]
    exact ⟨i, hc⟩
  exact ((List.sublist_flatten_of_mem hmem).map Prod.fst).nodup h.nodup

theorem WF.nodup_bucket (h : s.WF shift) : KeysNodup (s.bucket shift k) := by
  unfold bucket
  cases hc : s.buckets[bucketIndex shift s.buckets.size k]? with
  | none => exact List.nodup_nil
  | some c => exact h.nodup_chain hc

theorem get?_eq_some_iff [DecidableEq κ] (h : s.WF shift) :
    s.get? shift k = some v ↔ (k, v) ∈ s.entries := by
  rw [get?, lookup_eq_some_iff h.nodup_bucket]
  exact mem_bucket_iff h rfl

theorem get?_eq_none_iff [DecidableEq κ] (h : s.WF shift) :
    s.get? shift k = none ↔ ∀ e ∈ s.entries, e.1 ≠ k := by
  rw [get?, lookup_eq_none_iff]
  exact ⟨fun hn e he hk => hn e ((mem_bucket_iff h hk).mpr he) hk,
    fun hn e he => hn e (mem_entries_of_mem_bucket he)⟩

/-! ## Chaining and growing -/

omit [Digest κ] in
theorem flatten_modify_cons (table : List (List (κ × ν))) (e : κ × ν) {i : Nat}
    (h : i < table.length) : ((table.modify i (e :: ·)).flatten).Perm (e :: table.flatten) := by
  induction table generalizing i with
  | nil => simp at h
  | cons c table ih =>
    cases i with
    | zero => simp
    | succ i =>
      simp only [List.modify_succ_cons, List.flatten_cons]
      exact ((ih (by simpa using h)).append_left c).trans List.perm_middle

@[simp] theorem size_chain (buckets : Array (List (κ × ν))) (e : κ × ν) :
    (chain shift buckets e).size = buckets.size := by simp [chain]

theorem bucketIndex_lt {size : Nat} (h : 0 < size) : bucketIndex shift size k < size :=
  Nat.mod_lt _ h

theorem located_chain {buckets : Array (List (κ × ν))} (h : Located shift buckets) (e : κ × ν) :
    Located shift (chain shift buckets e) := by
  intro i c hc f hf
  rw [size_chain]
  rw [chain, Array.getElem?_modify] at hc
  split at hc
  · next hi =>
    obtain ⟨c₀, hc₀, rfl⟩ := Option.map_eq_some_iff.mp hc
    rcases List.mem_cons.mp hf with rfl | hf
    · exact hi
    · exact h i c₀ hc₀ f hf
  · exact h i c hc f hf

/-- A new entry joins those of a table that is not absent. -/
theorem flatten_chain (buckets : Array (List (κ × ν))) (e : κ × ν) (h : 0 < buckets.size) :
    ((chain shift buckets e).toList.flatten).Perm (e :: buckets.toList.flatten) := by
  rw [chain, Array.toList_modify]
  exact flatten_modify_cons _ e (by simpa using bucketIndex_lt h)

/-- Entries chained one after the other join those of the table. -/
theorem foldl_chain (es : List (κ × ν)) (buckets : Array (List (κ × ν))) (h : 0 < buckets.size)
    (hl : Located shift buckets) :
    (es.foldl (chain shift) buckets).size = buckets.size ∧
      Located shift (es.foldl (chain shift) buckets) ∧
      ((es.foldl (chain shift) buckets).toList.flatten).Perm (es ++ buckets.toList.flatten) := by
  induction es generalizing buckets with
  | nil => exact ⟨rfl, hl, .refl _⟩
  | cons e es ih =>
    obtain ⟨hsize, hloc, hperm⟩ := ih _ (by simpa using h) (located_chain hl e)
    refine ⟨by simpa using hsize, hloc, hperm.trans ?_⟩
    exact ((flatten_chain buckets e h).append_left es).trans List.perm_middle

theorem located_replicate (shift n : Nat) :
    Located shift (Array.replicate n ([] : List (κ × ν))) := by
  intro i c hc
  rw [Array.getElem?_replicate] at hc
  split at hc
  · cases hc
    simp
  · cases hc

theorem grow_spec (s : Segment κ ν) (shift : Nat) (h : 0 < s.buckets.size) :
    (s.grow shift).buckets.size = 2 * s.buckets.size ∧ Located shift (s.grow shift).buckets ∧
      (s.grow shift).entries.Perm s.entries := by
  obtain ⟨hsize, hloc, hperm⟩ := foldl_chain s.entries
    (Array.replicate (2 * s.buckets.size) []) (by simpa using h) (located_replicate shift _)
  exact ⟨hsize.trans Array.size_replicate, hloc, hperm.trans (by simp)⟩

/-! ## Changing one key -/

section Change

variable [DecidableEq κ]

omit [DecidableEq κ] in
/-- The table that a new entry goes into, which is made with the first entry. -/
theorem table_spec (h : s.WF shift) (buckets : Array (List (κ × ν)))
    (hb : buckets = if s.buckets.isEmpty then Array.replicate initialBuckets [] else s.buckets) :
    Located shift buckets ∧ buckets.toList.flatten = s.entries ∧
      (∃ n, buckets.size = 4 <<< n) ∧ 4 * s.count ≤ 3 * buckets.size := by
  subst hb
  split
  · next he =>
    have he : s.buckets = #[] := by simpa using he
    have hload := h.load
    simp only [he, Array.size_empty] at hload
    refine ⟨located_replicate shift _, by simp [entries, he], ⟨0, by simp [initialBuckets]⟩, ?_⟩
    omega
  · next he =>
    refine ⟨h.located, rfl, h.sized.resolve_left fun h0 => he ?_, h.load⟩
    simpa using h0

/-- A segment whose table is well kept and holds the entries of another and a new one. -/
theorem WF.of_perm_cons {t : Segment κ ν} (h : s.WF shift) (hk : s.get? shift key = none)
    (hloc : Located shift t.buckets) (hp : t.entries.Perm ((key, v) :: s.entries))
    (hc : t.count = s.count + 1) (hsized : ∃ n, t.buckets.size = 4 <<< n)
    (hload : 4 * t.count ≤ 3 * t.buckets.size) : t.WF shift where
  located := hloc
  nodup := by
    refine KeysNodup.of_perm ?_ hp.symm
    refine List.nodup_cons.mpr ⟨fun hmem => ?_, h.nodup⟩
    obtain ⟨e, he, hek⟩ := List.mem_map.mp hmem
    exact (get?_eq_none_iff h).mp hk e he hek
  count_eq := by rw [hc, h.count_eq, hp.length_eq, List.length_cons]
  sized := .inr hsized
  load := hload

theorem push_spec (h : s.WF shift) (hk : s.get? shift key = none) :
    (s.push shift key v).WF shift ∧ (s.push shift key v).entries.Perm ((key, v) :: s.entries) := by
  unfold push
  generalize hb : (if s.buckets.isEmpty then Array.replicate initialBuckets [] else s.buckets) =
    buckets
  obtain ⟨hloc, hflat, ⟨n, hn⟩, hload⟩ := table_spec h buckets hb.symm
  have hsize : 4 ≤ buckets.size := by
    rw [hn, Nat.shiftLeft_eq]
    exact Nat.le_mul_of_pos_right 4 (Nat.two_pow_pos n)
  have hperm : ((chain shift buckets (key, v)).toList.flatten).Perm ((key, v) :: s.entries) :=
    hflat ▸ flatten_chain buckets (key, v) (by omega)
  dsimp only
  split
  · next hfull =>
    obtain ⟨hsize', hloc', hperm'⟩ := grow_spec ⟨chain shift buckets (key, v), s.count + 1⟩ shift
      (by simpa using (by omega : 0 < buckets.size))
    have hp := hperm'.trans hperm
    simp only [size_chain] at hsize'
    refine ⟨h.of_perm_cons hk hloc' hp rfl ⟨n + 1, ?_⟩ ?_, hp⟩
    · rw [hsize', hn, Nat.shiftLeft_succ]
    · change 4 * (s.count + 1) ≤ 3 * _
      omega
  · next hfree =>
    simp only [size_chain] at hfree
    refine ⟨h.of_perm_cons hk (located_chain hloc _) hperm rfl ⟨n, by simpa using hn⟩ ?_, hperm⟩
    simp only [size_chain]
    omega

omit [Digest κ] [DecidableEq κ] in
/-- Changing one bucket is changing all of them where the others stay as they are. -/
theorem modify_eq_map (buckets : Array (List (κ × ν))) (i : Nat)
    (f : List (κ × ν) → List (κ × ν))
    (h : ∀ (j : Nat) (c : List (κ × ν)), j ≠ i → buckets[j]? = some c → f c = c) :
    buckets.modify i f = buckets.map f := by
  refine Array.ext_getElem? fun j => ?_
  rw [Array.getElem?_modify, Array.getElem?_map]
  split
  · rfl
  · next hij =>
    cases hc : buckets[j]? with
    | none => rfl
    | some c => rw [Option.map_some, h j c (Ne.symm hij) hc]

omit [DecidableEq κ] in
/-- Only the bucket that a key selects may hold an entry of it. -/
theorem WF.ne_of_mem_other (h : s.WF shift) {j : Nat} {c : List (κ × ν)}
    (hj : j ≠ bucketIndex shift s.buckets.size key) (hc : s.buckets[j]? = some c) :
    ∀ e ∈ c, e.1 ≠ key :=
  fun e he hk => hj (by rw [← hk, h.located j c hc e he])

theorem entries_overwrite (h : s.WF shift) :
    (s.overwrite shift key v).entries =
      s.entries.map fun e => if e.1 = key then (key, v) else e := by
  have hmap := modify_eq_map s.buckets (bucketIndex shift s.buckets.size key)
    (fun c => c.map fun e => if e.1 = key then (key, v) else e) fun j c hj hc => by
      refine (List.map_congr_left fun e he => ?_).trans (List.map_id c)
      rw [if_neg (h.ne_of_mem_other hj hc e he)]
      rfl
  simp only [entries, overwrite, hmap, Array.toList_map, List.map_flatten]

theorem entries_unlink (h : s.WF shift) :
    (s.unlink shift key).entries = s.entries.filter fun e => e.1 ≠ key := by
  have hmap := modify_eq_map s.buckets (bucketIndex shift s.buckets.size key)
    (fun c => c.eraseP fun e => e.1 = key) fun j c hj hc => by
      refine List.eraseP_of_forall_not fun e he => ?_
      simpa using h.ne_of_mem_other hj hc e he
  simp only [entries, unlink, hmap, Array.toList_map, List.filter_flatten]
  congr 1
  refine List.map_congr_left fun c hc => ?_
  obtain ⟨i, hi⟩ := Array.mem_iff_getElem?.mp (Array.mem_toList_iff.mp hc)
  exact (h.nodup_chain hi).eraseP_eq_filter

theorem wf_overwrite (h : s.WF shift) : (s.overwrite shift key v).WF shift where
  located := by
    intro i c hc e he
    simp only [overwrite, Array.size_modify, Array.getElem?_modify] at hc ⊢
    split at hc
    · obtain ⟨c₀, hc₀, rfl⟩ := Option.map_eq_some_iff.mp hc
      obtain ⟨f, hf, rfl⟩ := List.mem_map.mp he
      have := h.located i c₀ hc₀ f hf
      split
      · next hk => rw [← this, hk]
      · exact this
    · exact h.located i c hc e he
  nodup := by
    rw [entries_overwrite h, KeysNodup, List.map_map]
    refine (List.map_congr_left fun e _ => ?_) ▸ h.nodup
    simp only [Function.comp_apply]
    split
    · next hk => exact hk
    · rfl
  count_eq := by rw [entries_overwrite h, List.length_map]; exact h.count_eq
  sized := by simpa [overwrite] using h.sized
  load := by simpa [overwrite] using h.load

/-- The entries of a segment are fewer by the one that is removed. -/
theorem length_unlink (h : s.WF shift) (hk : s.get? shift key = some v) :
    (s.entries.filter fun e => e.1 ≠ key).length = s.entries.length - 1 := by
  have hmem := (get?_eq_some_iff h).mp hk
  rw [← h.nodup.eraseP_eq_filter, List.length_eraseP_of_mem hmem (by simp)]

theorem wf_unlink (h : s.WF shift) (hk : s.get? shift key = some v) :
    (s.unlink shift key).WF shift where
  located := by
    intro i c hc e he
    simp only [unlink, Array.size_modify, Array.getElem?_modify] at hc ⊢
    split at hc
    · obtain ⟨c₀, hc₀, rfl⟩ := Option.map_eq_some_iff.mp hc
      exact h.located i c₀ hc₀ e (List.mem_of_mem_eraseP he)
    · exact h.located i c hc e he
  nodup := by rw [entries_unlink h]; exact h.nodup.filter _
  count_eq := by
    rw [entries_unlink h, length_unlink h hk, ← h.count_eq]
    rfl
  sized := by simpa [unlink] using h.sized
  load := by
    have := h.load
    simp only [unlink, Array.size_modify]
    omega

/-! ## Looking up after a change -/

theorem get?_push (h : s.WF shift) (hk : s.get? shift key = none) :
    (s.push shift key v).get? shift k = if k = key then some v else s.get? shift k := by
  obtain ⟨hw, hp⟩ := push_spec (v := v) h hk
  refine Option.ext fun w => ?_
  rw [get?_eq_some_iff hw, hp.mem_iff, List.mem_cons, Prod.mk.injEq]
  split
  · next hkk =>
    subst hkk
    have hnot : (k, w) ∉ s.entries := fun hm => (get?_eq_none_iff h).mp hk _ hm rfl
    simp [hnot, eq_comm]
  · next hkk => simp [hkk, get?_eq_some_iff h]

theorem get?_overwrite (h : s.WF shift) (hk : (s.get? shift key).isSome) :
    (s.overwrite shift key v).get? shift k = if k = key then some v else s.get? shift k := by
  obtain ⟨w, hw⟩ := Option.isSome_iff_exists.mp hk
  have hmem := (get?_eq_some_iff h).mp hw
  refine Option.ext fun x => ?_
  rw [get?_eq_some_iff (wf_overwrite h), entries_overwrite h, List.mem_map]
  split
  · next hkk =>
    subst hkk
    constructor
    · rintro ⟨e, -, he⟩
      split at he
      · exact congrArg some (Prod.mk.inj he).2
      · next hne => exact absurd (congrArg Prod.fst he) hne
    · intro hx
      exact ⟨(k, w), hmem, by rw [if_pos rfl, Option.some.inj hx]⟩
  · next hkk =>
    rw [get?_eq_some_iff h]
    constructor
    · rintro ⟨e, hm, he⟩
      split at he
      · exact absurd (Prod.mk.inj he).1.symm hkk
      · exact he ▸ hm
    · exact fun hm => ⟨(k, x), hm, if_neg hkk⟩

theorem get?_unlink (h : s.WF shift) (hk : (s.get? shift key).isSome) :
    (s.unlink shift key).get? shift k = if k = key then none else s.get? shift k := by
  obtain ⟨w, hw⟩ := Option.isSome_iff_exists.mp hk
  refine Option.ext fun x => ?_
  rw [get?_eq_some_iff (wf_unlink h hw), entries_unlink h, List.mem_filter]
  split
  · next hkk => simp [hkk]
  · next hkk => simp [hkk, get?_eq_some_iff h]

end Change

end Segment

end RespStore
