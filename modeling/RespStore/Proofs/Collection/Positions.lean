import RespStore.Collection.IndexRange
import RespStore.Number.IntFormat

/-!
# Positions

A condition on positions selects elements of a list. The two positions to which an index range
resolves select what the indexes say in exact integers, and resolving them takes no more than 64
bits.
-/

namespace RespStore

variable {α : Type} {p q : Nat → Bool} {xs ys : List α}

/-- The elements at the positions that `p` accepts, in order. -/
def atPositions (p : Nat → Bool) (xs : List α) : List α :=
  (xs.zipIdx.filter fun e => p e.2).map (·.1)

@[simp] theorem atPositions_nil (p : Nat → Bool) : atPositions p ([] : List α) = [] := rfl

theorem atPositions_cons (p : Nat → Bool) (x : α) (xs : List α) :
    atPositions p (x :: xs) =
      if p 0 then x :: atPositions (fun i => p (i + 1)) xs
      else atPositions (fun i => p (i + 1)) xs := by
  unfold atPositions
  rw [List.zipIdx_cons', List.filter_cons, List.filter_map]
  split <;> simp [Function.comp_def]

theorem atPositions_congr (h : ∀ i < xs.length, p i = q i) :
    atPositions p xs = atPositions q xs := by
  refine congrArg (List.map _) (List.filter_congr fun e he => ?_)
  exact h e.2 (List.snd_lt_of_mem_zipIdx he)

theorem atPositions_append (p : Nat → Bool) (xs ys : List α) :
    atPositions p (xs ++ ys) =
      atPositions p xs ++ atPositions (fun i => p (xs.length + i)) ys := by
  induction xs generalizing p with
  | nil => simp
  | cons x xs ih =>
    rw [List.cons_append, atPositions_cons, atPositions_cons, ih]
    have hshift : ∀ i, xs.length + i + 1 = xs.length + 1 + i := fun i => Nat.add_right_comm ..
    simp only [List.length_cons, hshift]
    split <;> rfl

theorem atPositions_eq_self (h : ∀ i < xs.length, p i = true) : atPositions p xs = xs := by
  refine (congrArg (List.map Prod.fst) (List.filter_eq_self.mpr fun e he => ?_)).trans ?_
  · exact h e.2 (List.snd_lt_of_mem_zipIdx he)
  · exact List.zipIdx_map_fst 0 xs

theorem atPositions_eq_nil (h : ∀ i < xs.length, p i = false) : atPositions p xs = [] := by
  refine congrArg (List.map Prod.fst) (List.filter_eq_nil_iff.mpr fun e he => ?_)
  exact Bool.eq_false_iff.mp (h e.2 (List.snd_lt_of_mem_zipIdx he))

/-- A condition takes an element or its negation does. -/
theorem length_atPositions_add (p : Nat → Bool) (xs : List α) :
    (atPositions p xs).length + (atPositions (fun i => !p i) xs).length = xs.length := by
  induction xs generalizing p with
  | nil => rfl
  | cons x xs ih =>
    have ih := ih fun i => p (i + 1)
    rw [atPositions_cons, atPositions_cons]
    cases p 0 <;> simp <;> omega

theorem atPositions_reverse (p : Nat → Bool) (xs : List α) :
    atPositions p xs.reverse = (atPositions (fun i => p (xs.length - 1 - i)) xs).reverse := by
  induction xs generalizing p with
  | nil => rfl
  | cons x xs ih =>
    rw [List.reverse_cons, atPositions_append, ih, atPositions_cons, atPositions_cons]
    have hshift : ∀ i, xs.length - 1 - i = xs.length + 1 - 1 - (i + 1) := fun i => by omega
    simp only [List.length_cons, List.length_reverse, hshift]
    split <;> simp_all

/-! ## Index ranges -/

/-- The position that an index stands for, in exact integers: a negative one counts from the end. -/
def exactPosition (size : Nat) (i : Int) : Int := if 0 ≤ i then i else size + i

/-- A position is from the start to the stop of a range. -/
def between (start stop : Int) (size i : Nat) : Bool :=
  exactPosition size start ≤ i ∧ i ≤ exactPosition size stop

/-- A range resolves to the first and the last of the positions that it selects. -/
theorem between_iff {start stop : Int} {size i : Nat} (hi : i < size) :
    between start stop size i = true ↔
      ∃ range, resolveRange? start stop size = some range ∧ range.1 ≤ i ∧ i ≤ range.2 := by
  have hstart : (if start < 0 then max (size + start) 0 else start) ≤ (i : Int) ↔
      exactPosition size start ≤ i := by
    unfold exactPosition
    split <;> split <;> omega
  have hstop : (i : Int) ≤ (if stop < 0 then size + stop else min stop (size - 1)) ↔
      i ≤ exactPosition size stop := by
    unfold exactPosition
    split <;> split <;> omega
  unfold between resolveRange?
  rw [decide_eq_true_iff, ← hstart, ← hstop]
  generalize (if start < 0 then max (size + start) 0 else start) = first
  generalize (if stop < 0 then size + stop else min stop (size - 1)) = last
  dsimp only
  split
  · simp
    omega
  · simp
    omega

/-- Nothing is selected by a range that does not resolve. -/
theorem between_of_none {start stop : Int} {size i : Nat} (hi : i < size)
    (h : resolveRange? start stop size = none) : between start stop size i = false := by
  rw [Bool.eq_false_iff, Ne, between_iff hi, h]
  rintro ⟨_, hrange, -⟩
  cases hrange

theorem between_of_some {start stop : Int} {size i : Nat} {range : Nat × Nat} (hi : i < size)
    (h : resolveRange? start stop size = some range) :
    between start stop size i = decide (range.1 ≤ i ∧ i ≤ range.2) := by
  rw [Bool.eq_iff_iff, between_iff hi, h, decide_eq_true_iff]
  simp

theorem resolveRange?_bounds {start stop : Int} {size first last : Nat}
    (h : resolveRange? start stop size = some (first, last)) : first ≤ last ∧ last < size := by
  simp only [resolveRange?, Option.ite_none_left_eq_some, Option.some.injEq, Prod.mk.injEq] at h
  omega

/-- A condition that holds in the middle of a list, and only there. -/
theorem atPositions_middle (before inside after : List α)
    (hp : ∀ i < (before ++ (inside ++ after)).length,
      p i = decide (before.length ≤ i ∧ i < before.length + inside.length)) :
    atPositions p (before ++ (inside ++ after)) = inside ∧
      atPositions (fun i => !p i) (before ++ (inside ++ after)) = before ++ after := by
  simp only [List.length_append] at hp
  have hbefore : ∀ i < before.length, p i = false := fun i hi => by
    rw [hp i (by omega), decide_eq_false_iff_not]
    omega
  have hinside : ∀ i < inside.length, p (before.length + i) = true := fun i hi => by
    rw [hp _ (by omega), decide_eq_true_iff]
    omega
  have hafter : ∀ i < after.length, p (before.length + (inside.length + i)) = false :=
      fun i hi => by
    rw [hp _ (by omega), decide_eq_false_iff_not]
    omega
  simp only [atPositions_append]
  constructor
  · rw [atPositions_eq_nil hbefore, atPositions_eq_self hinside, atPositions_eq_nil hafter,
      List.nil_append, List.append_nil]
  · rw [atPositions_eq_self fun i hi => by rw [hbefore i hi]; rfl,
      atPositions_eq_nil fun i hi => by rw [hinside i hi]; rfl,
      atPositions_eq_self fun i hi => by rw [hafter i hi]; rfl, List.nil_append]

/-- What a range selects follows each other, from the first position to the last. -/
theorem atPositions_between {start stop : Int} {range : Nat × Nat}
    (h : resolveRange? start stop xs.length = some range) :
    atPositions (between start stop xs.length) xs =
        (xs.drop range.1).take (range.2 - range.1 + 1) ∧
      atPositions (fun i => !between start stop xs.length i) xs =
        xs.take range.1 ++ xs.drop (range.2 + 1) := by
  obtain ⟨first, last⟩ := range
  obtain ⟨hle, hlt⟩ := resolveRange?_bounds h
  have hbetween := fun i (hi : i < xs.length) => between_of_some hi h
  generalize between start stop xs.length = p at hbetween
  have hsplit : xs.take first ++ ((xs.drop first).take (last - first + 1) ++
      xs.drop (last + 1)) = xs := by
    have hrest := List.take_append_drop (last - first + 1) (xs.drop first)
    rw [List.drop_drop, show first + (last - first + 1) = last + 1 by omega] at hrest
    rw [hrest, List.take_append_drop]
  have hmiddle := atPositions_middle (p := p) (xs.take first)
    ((xs.drop first).take (last - first + 1)) (xs.drop (last + 1))
  rw [hsplit] at hmiddle
  refine hmiddle fun i hi => ?_
  rw [hbetween i hi, decide_eq_decide, List.length_take, List.length_take, List.length_drop]
  omega

theorem sliceRange_eq (start stop : Int) (xs : List α) :
    sliceRange start stop xs = atPositions (between start stop xs.length) xs := by
  unfold sliceRange
  cases h : resolveRange? start stop xs.length with
  | none => exact (atPositions_eq_nil fun i hi => between_of_none hi h).symm
  | some range => exact (atPositions_between h).1.symm

/-! ## Fixed width -/

/-- Where a range starts, in integers of a format; nothing if a step overflows. -/
def startFixed? (f : IntFormat) (start size : Int) : Option Int :=
  if start < 0 then (f.add? size start).map (max · 0) else some start

/-- Where a range stops. -/
def stopFixed? (f : IntFormat) (stop size : Int) : Option Int :=
  if stop < 0 then f.add? size stop else (f.add? size (-1)).map (min stop ·)

/-- How a range resolves in integers of a format, with no result if a step overflows. -/
def resolveFixed? (f : IntFormat) (start stop : Int) (size : Nat) :
    Option (Option (Nat × Nat)) := do
  let size ← f.check? size
  let start ← startFixed? f start size
  let stop ← stopFixed? f stop size
  return if stop < start ∨ size ≤ start ∨ stop < 0 then none else some (start.toNat, stop.toNat)

theorem int64_check? {n : Int} (hl : -9223372036854775808 ≤ n) (hu : n ≤ 9223372036854775807) :
    IntFormat.int64.check? n = some n :=
  IntFormat.check?_eq_some_iff.mpr ⟨rfl, hl, hu⟩

/-- With 64 bits for the size, no step of resolving 64-bit indexes overflows. -/
theorem resolveFixed?_int64 (start stop : Int64) {size : Nat} (h : IntFormat.int64.Fits size) :
    resolveFixed? .int64 start.toInt stop.toInt size =
      some (resolveRange? start.toInt stop.toInt size) := by
  have hsize : (size : Int) ≤ 9223372036854775807 := h.2
  have hstart := start.le_toInt
  have hstop := stop.le_toInt
  have hfirst : startFixed? .int64 start.toInt size =
      some (if start.toInt < 0 then max (size + start.toInt) 0 else start.toInt) := by
    unfold startFixed?
    split
    · rw [IntFormat.add?, int64_check? (by omega) (by omega)]
      rfl
    · rfl
  have hlast : stopFixed? .int64 stop.toInt size =
      some (if stop.toInt < 0 then size + stop.toInt else min stop.toInt (size - 1)) := by
    unfold stopFixed?
    split
    · rw [IntFormat.add?, int64_check? (by omega) (by omega)]
    · rw [IntFormat.add?, int64_check? (by omega) (by omega)]
      rfl
  simp only [resolveFixed?, int64_check? (show _ ≤ (size : Int) by omega) hsize, hfirst, hlast,
    Option.bind_eq_bind, Option.bind_some]
  rfl

end RespStore
