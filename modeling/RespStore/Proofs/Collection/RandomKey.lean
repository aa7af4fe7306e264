import RespStore.Proofs.Collection.Dict

/-!
# Random keys

Whatever the draws and however the entries are laid out, a random key of a well-formed dictionary is
one of its keys, and only an empty dictionary has none. The buckets that are tried at random may all
be empty, but after them every bucket is searched.
-/

namespace RespStore

namespace Draws

variable {α β : Type} {f : α → Draws → Option β × Draws} {xs : List α} {x : α} {y : β} {g : Draws}

/-- A result is that of one of the values tried. -/
theorem exists_of_first_eq_some (h : (first f xs g).1 = some y) :
    ∃ x ∈ xs, ∃ g', (f x g').1 = some y := by
  induction xs generalizing g with
  | nil => cases h
  | cons x xs ih =>
    rw [first] at h
    split at h
    · next z g' hz =>
      exact ⟨x, List.mem_cons_self, g, (congrArg Prod.fst hz).trans h⟩
    · obtain ⟨x', hx', hf⟩ := ih h
      exact ⟨x', List.mem_cons_of_mem x hx', hf⟩

/-- There is a result if one of the values has one whatever is drawn before it. -/
theorem first_isSome (hx : x ∈ xs) (h : ∀ g, (f x g).1.isSome = true) :
    (first f xs g).1.isSome = true := by
  induction xs generalizing g with
  | nil => cases hx
  | cons x' xs ih =>
    rw [first]
    split
    · rfl
    · next g' hnone =>
      rcases List.mem_cons.mp hx with rfl | hx
      · have := h g
        rw [hnone] at this
        cases this
      · exact ih hx

/-- Going round from any start comes by every position. -/
theorem exists_wrapped {i n : Nat} (hi : i < n) (start : Nat) :
    ∃ j ∈ List.range n, (start + j) % n = i := by
  have hn : 0 < n := Nat.zero_lt_of_lt hi
  refine ⟨(i + (n - start % n)) % n, List.mem_range.mpr (Nat.mod_lt _ hn), ?_⟩
  have hlt := Nat.mod_lt start hn
  have hround : start % n + (i + (n - start % n)) = i + n := by omega
  rw [Nat.add_mod_mod, ← Nat.mod_add_mod, hround, Nat.add_mod_right, Nat.mod_eq_of_lt hi]

end Draws

namespace Segment

variable {κ ν : Type} {s : Segment κ ν} {es : List (κ × ν)} {i : Nat} {k : κ} {g : Draws}

theorem mem_of_randomInChain (h : (randomInChain es g).1 = some k) : ∃ e ∈ es, e.1 = k := by
  unfold randomInChain at h
  split at h
  · cases h
  · obtain ⟨e, he, rfl⟩ := Option.map_eq_some_iff.mp h
    exact ⟨e, List.mem_of_getElem? he, rfl⟩

theorem randomInChain_isSome (h : es ≠ []) (g : Draws) : (randomInChain es g).1.isSome = true := by
  have hlt := g.below_lt (List.length_pos_iff.mpr h)
  rw [randomInChain, if_neg (by simpa using h)]
  show ((es[(g.below es.length).1]?).map Prod.fst).isSome = true
  rw [List.getElem?_eq_getElem hlt]
  rfl

theorem mem_of_randomInBucket (h : (s.randomInBucket i g).1 = some k) :
    ∃ e ∈ s.entries, e.1 = k := by
  obtain ⟨e, he, rfl⟩ := mem_of_randomInChain h
  cases hc : s.buckets[i]? with
  | none =>
    rw [hc] at he
    cases he
  | some es =>
    rw [hc] at he
    exact ⟨e, mem_entries_iff.mpr ⟨i, es, hc, he⟩, rfl⟩

theorem randomInBucket_isSome (hc : s.buckets[i]? = some es) (hne : es ≠ []) (g : Draws) :
    (s.randomInBucket i g).1.isSome = true := by
  rw [randomInBucket, hc]
  exact randomInChain_isSome hne g

theorem mem_of_randomKey (h : (s.randomKey g).1 = some k) : ∃ e ∈ s.entries, e.1 = k := by
  unfold randomKey at h
  split at h
  · cases h
  · dsimp only at h
    split at h
    · next key g' hprobe =>
      have hfirst := (congrArg Prod.fst hprobe).trans h
      obtain ⟨_, -, g'', hk⟩ := Draws.exists_of_first_eq_some hfirst
      exact mem_of_randomInBucket hk
    · obtain ⟨j, -, g'', hk⟩ := Draws.exists_of_first_eq_some h
      exact mem_of_randomInBucket hk

theorem randomKey_isSome [Digest κ] {shift : Nat} (h : s.WF shift) (hne : s.entries ≠ [])
    (g : Draws) : (s.randomKey g).1.isSome = true := by
  obtain ⟨e, he⟩ := List.exists_mem_of_ne_nil _ hne
  obtain ⟨i, es, hc, hec⟩ := mem_entries_iff.mp he
  have hi : i < s.buckets.size := (Array.getElem?_eq_some_iff.mp hc).1
  have hcount : s.count ≠ 0 := by
    rw [h.count_eq]
    exact List.length_eq_zero_iff.not.mpr hne
  rw [randomKey, if_neg hcount]
  dsimp only
  split
  · rfl
  · next g' _ =>
    -- the search passes the bucket that holds the entry, whatever it starts from
    obtain ⟨j, hj, hwrap⟩ := Draws.exists_wrapped hi (g'.below s.buckets.size).1
    refine Draws.first_isSome hj fun g => ?_
    rw [hwrap]
    exact randomInBucket_isSome hc (List.ne_nil_of_mem hec) g

end Segment

namespace Dict

variable {κ ν : Type} {d : Dict κ ν} {k : κ} {g : Draws}

/-- The segments are visited from a random one on. -/
theorem randomKey_eq (d : Dict κ ν) (g₀ : Draws) :
    d.randomKey g₀ =
      Draws.first (fun i g =>
          ((d.segments[((g₀.below d.segments.size).1 + i) % d.segments.size]?).getD
            Segment.empty).randomKey g)
        (List.range d.segments.size) (g₀.below d.segments.size).2 := rfl

/-- A random key is there. -/
theorem mem_of_randomKey (h : (d.randomKey g).1 = some k) : ∃ e ∈ d.toList, e.1 = k := by
  rw [randomKey_eq] at h
  generalize (g.below d.segments.size).1 = start at h
  obtain ⟨i, -, g', hk⟩ := Draws.exists_of_first_eq_some h
  cases hs : d.segments[(start + i) % d.segments.size]? with
  | none =>
    rw [hs] at hk
    cases hk
  | some s =>
    rw [hs] at hk
    obtain ⟨e, he, rfl⟩ := Segment.mem_of_randomKey hk
    exact ⟨e, mem_toList_iff_segment.mpr ⟨_, s, hs, he⟩, rfl⟩

/-- A dictionary that is not empty has a random key. -/
theorem randomKey_isSome [Digest κ] (h : d.WF) (hne : d.toList ≠ []) (g : Draws) :
    (d.randomKey g).1.isSome = true := by
  obtain ⟨e, he⟩ := List.exists_mem_of_ne_nil _ hne
  obtain ⟨i, s, hs, hes⟩ := mem_toList_iff_segment.mp he
  have hi : i < d.segments.size := (Array.getElem?_eq_some_iff.mp hs).1
  obtain ⟨j, hj, hwrap⟩ := Draws.exists_wrapped hi (g.below d.segments.size).1
  rw [randomKey_eq]
  refine Draws.first_isSome hj fun g => ?_
  rw [hwrap, hs]
  exact Segment.randomKey_isSome (h.segment i s hs) (List.ne_nil_of_mem hes) g

variable [Digest κ]

theorem randomKey_eq_none_iff (h : d.WF) : (d.randomKey g).1 = none ↔ d.toList = [] := by
  constructor
  · intro hnone
    by_contra hne
    have hsome := randomKey_isSome h hne g
    rw [hnone] at hsome
    cases hsome
  · intro hnil
    refine Option.eq_none_iff_forall_ne_some.mpr fun k hk => ?_
    obtain ⟨e, he, -⟩ := mem_of_randomKey hk
    rw [hnil] at he
    cases he

/-- No number is drawn from an empty range: there are segments, and a segment with entries has
buckets. -/
theorem WF.ranges_nonempty (h : d.WF) :
    0 < d.segments.size ∧
      ∀ (i : Nat) s, d.segments[i]? = some s → s.count ≠ 0 → 0 < s.buckets.size := by
  refine ⟨h.size_pos, fun i s hs hcount => ?_⟩
  have hload := (h.segment i s hs).load
  omega

/-- Random keys are sound: none of an empty dictionary, and of any other one that it has. -/
theorem randomKey_spec [DecidableEq κ] (h : d.WF) (g : Draws) :
    match (d.randomKey g).1 with
    | none => ∀ k, d.get? k = none
    | some k => (d.get? k).isSome = true := by
  cases hk : (d.randomKey g).1 with
  | none => exact (isEmpty_iff h).mp ((isEmpty_iff_toList h).mpr ((randomKey_eq_none_iff h).mp hk))
  | some k =>
    obtain ⟨⟨_, v⟩, he, rfl⟩ := mem_of_randomKey hk
    exact Option.isSome_of_eq_some ((mem_toList_iff h).mp he)

end Dict

end RespStore
