import RespStore.Proofs.Collection.DictHistory
import RespStore.Proofs.Collection.RandomKey

/-!
# What can be drawn

Every key of a dictionary is the random key for some outcome of the draws, whatever has been drawn
before. Three draws are enough: the segment of the key, its bucket at the first try, and its place
in the chain of the bucket.
-/

namespace RespStore

namespace Draws

variable {g g' : Draws} {m n : Nat} {ms ns : List Nat}

/-- After `n` draws. -/
def skip (g : Draws) (n : Nat) : Draws := { g with used := g.used + n }

/-- The numbers that are drawn next. -/
def Gives : Draws → List Nat → Prop
  | _, [] => True
  | g, n :: ns => g.next.1 = n ∧ Gives g.next.2 ns

/-- The same past, and then `ns` before anything else. -/
def redraw (g : Draws) (ns : List Nat) : Draws :=
  { g with supply := fun i => if i < g.used then g.supply i else ns.getD (i - g.used) 0 }

/-- Nothing that has been drawn is different. -/
structure SamePast (g g' : Draws) : Prop where
  used : g'.used = g.used
  supply : ∀ i < g.used, g'.supply i = g.supply i

theorem skip_skip (g : Draws) (m n : Nat) : (g.skip m).skip n = g.skip (m + n) := by
  rw [skip, skip, skip, Nat.add_assoc]

theorem gives_cons : g.Gives (n :: ns) ↔ g.next.1 = n ∧ (g.skip 1).Gives ns := Iff.rfl

theorem gives_append :
    g.Gives (ms ++ ns) ↔ g.Gives ms ∧ (g.skip ms.length).Gives ns := by
  induction ms generalizing g with
  | nil => exact iff_and_self.mpr fun _ => trivial
  | cons m ms ih =>
    rw [List.cons_append, List.length_cons, gives_cons, gives_cons, ih, skip_skip, Nat.add_comm 1,
      and_assoc]

/-- Numbers that are drawn next are in the supply from where it stands on. -/
theorem gives_of_supply (h : ∀ i n, ns[i]? = some n → g.supply (g.used + i) = n) : g.Gives ns := by
  induction ns generalizing g with
  | nil => trivial
  | cons n ns ih =>
    refine ⟨h 0 n rfl, ih fun i k hk => ?_⟩
    show g.supply (g.used + 1 + i) = k
    rw [Nat.add_assoc, Nat.add_comm 1 i]
    exact h (i + 1) k hk

theorem samePast_redraw (g : Draws) (ns : List Nat) : g.SamePast (g.redraw ns) :=
  ⟨rfl, fun _ hi => if_pos hi⟩

/-- Whatever has been drawn, any numbers may come next. -/
theorem gives_redraw (g : Draws) (ns : List Nat) : (g.redraw ns).Gives ns := by
  refine gives_of_supply fun i n hn => ?_
  have hnext : ¬g.used + i < g.used := Nat.not_lt.mpr (Nat.le_add_right _ _)
  show (if g.used + i < g.used then _ else ns.getD (g.used + i - g.used) 0) = n
  rw [if_neg hnext, Nat.add_sub_cancel_left, List.getD, hn, Option.getD_some]

/-- A number in the range is drawn as it is. -/
theorem below_of_next (h : g.next.1 = n) (hn : n < m) : g.below m = (n, g.next.2) := by
  rw [below, h, Nat.mod_eq_of_lt hn]

/-- The first value that is tried may have the result. -/
theorem first_of_head {α β : Type} {f : α → Draws → Option β × Draws} {x : α} {y : β}
    (h : f x g = (some y, g')) (xs : List α) : first f (x :: xs) g = (some y, g') := by
  rw [first, h]

end Draws

namespace Segment

variable {κ ν : Type} {s : Segment κ ν} {es : List (κ × ν)} {e : κ × ν} {i j : Nat} {g : Draws}

theorem randomInChain_of_next (hj : es[j]? = some e) (hg : g.next.1 = j) :
    randomInChain es g = (some e.1, g.next.2) := by
  have hlt : j < es.length := (List.getElem?_eq_some_iff.mp hj).1
  have hne : ¬es.isEmpty = true := by
    rw [List.isEmpty_iff_length_eq_zero]
    exact Nat.ne_of_gt (Nat.zero_lt_of_lt hlt)
  rw [randomInChain, if_neg hne, Draws.below_of_next hg hlt]
  show ((es[j]?).map Prod.fst, _) = _
  rw [hj, Option.map_some]

/-- An entry is drawn if its bucket is tried first and then its place in the chain comes up. -/
theorem randomKey_of_gives (hcount : s.count ≠ 0) (hi : s.buckets[i]? = some es)
    (hj : es[j]? = some e) (hg : g.Gives [i, j]) : s.randomKey g = (some e.1, g.next.2.next.2) := by
  have hlt : i < s.buckets.size := (Array.getElem?_eq_some_iff.mp hi).1
  obtain ⟨hbucket, hplace, -⟩ := hg
  have hdraw : g.below s.buckets.size = (i, g.next.2) := Draws.below_of_next hbucket hlt
  have hprobe : Draws.first
      (fun _ g => s.randomInBucket (g.below s.buckets.size).1 (g.below s.buckets.size).2)
      (List.replicate randomProbes ()) g = (some e.1, g.next.2.next.2) := by
    refine Draws.first_of_head ?_ (List.replicate 7 ())
    rw [hdraw, randomInBucket, hi, Option.getD_some]
    exact randomInChain_of_next hj hplace
  rw [randomKey, if_neg hcount]
  dsimp only
  rw [hprobe]

end Segment

namespace Dict

variable {κ ν ρ : Type} [Digest κ] [DecidableEq κ] {d : Dict κ ν} {k : κ}

/-- For each key there are draws that make it the random key. -/
theorem exists_draws (h : d.WF) (hk : (d.get? k).isSome = true) :
    ∃ ns, ∀ g : Draws, g.Gives ns → d.randomKey g = (some k, g.skip ns.length) := by
  obtain ⟨v, hv⟩ := Option.isSome_iff_exists.mp hk
  obtain ⟨i, s, hs, he⟩ := mem_toList_iff_segment.mp ((mem_toList_iff h).mpr hv)
  obtain ⟨b, es, hb, hes⟩ := Segment.mem_entries_iff.mp he
  obtain ⟨j, hj⟩ := List.mem_iff_getElem?.mp hes
  have hlt : i < d.segments.size := (Array.getElem?_eq_some_iff.mp hs).1
  have hcount : s.count ≠ 0 := by
    rw [(h.segment i s hs).count_eq]
    exact Nat.ne_of_gt (List.length_pos_of_mem he)
  refine ⟨[i, b, j], fun g hg => ?_⟩
  obtain ⟨hstart, hrest⟩ := hg
  obtain ⟨n, hn⟩ := Nat.exists_eq_add_one_of_ne_zero (Nat.ne_of_gt h.size_pos)
  rw [randomKey_eq, Draws.below_of_next hstart hlt, hn, List.range_succ_eq_map, ← hn]
  refine Draws.first_of_head ?_ _
  show ((d.segments[(i + 0) % d.segments.size]?).getD Segment.empty).randomKey g.next.2 = _
  rw [Nat.add_zero, Nat.mod_eq_of_lt hlt, hs, Option.getD_some,
    Segment.randomKey_of_gives hcount hb hj hrest]
  rfl

/-- What is drawn from a dictionary that has the keys of a map. Whatever comes up is a key of the
map, and nothing comes up only if the map is empty; each key comes up for some draws, whatever has
been drawn before. No number is drawn from an empty range. -/
structure DrawsFrom (d : Dict κ ν) (m : Finmap fun _ : κ => ν) : Prop extends d.Holds m where
  none_iff : ∀ g, (d.randomKey g).1 = none ↔ m = ∅
  mem : ∀ g k, (d.randomKey g).1 = some k → k ∈ m
  exists_draws : ∀ g, ∀ k ∈ m, ∃ g', Draws.SamePast g g' ∧ (d.randomKey g').1 = some k
  segments : 0 < d.segments.size
  buckets : ∀ (i : Nat) s, d.segments[i]? = some s → s.count ≠ 0 → 0 < s.buckets.size

theorem Holds.drawsFrom {m : Finmap fun _ : κ => ν} (h : d.Holds m) : d.DrawsFrom m where
  toHolds := h
  none_iff := fun g => by
    rw [randomKey_eq_none_iff h.wf, ← isEmpty_iff_toList h.wf, isEmpty_iff_toFinmap h.wf,
      toFinmap_eq h.wf h.get?]
  mem := fun g k hk => by
    have hspec := randomKey_spec h.wf g
    rw [hk] at hspec
    exact (h.mem_iff k).mpr hspec
  exists_draws := fun g k hk => by
    obtain ⟨ns, hns⟩ := exists_draws h.wf ((h.mem_iff k).mp hk)
    exact ⟨g.redraw ns, g.samePast_redraw ns, congrArg Prod.fst (hns _ (g.gives_redraw ns))⟩
  segments := h.wf.ranges_nonempty.1
  buckets := h.wf.ranges_nonempty.2

/-- Whatever the digest is and whatever operations have come before, a random key is drawn from the
keys that they leave in an empty map. -/
theorem operations_drawsFrom (n : Nat) (cs : List (Operation κ ν ρ)) :
    (History.run Operation.run (withSegments n : Dict κ ν) cs).2.DrawsFrom
      (History.run Operation.onMap (∅ : Finmap fun _ : κ => ν) cs).2 := by
  obtain ⟨-, hholds⟩ :=
    History.run_simulates (R := Holds) (fun _ _ c h => h.run c) (holds_withSegments n) cs
  exact hholds.drawsFrom

end Dict

end RespStore
