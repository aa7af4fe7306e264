import RespStore.Keyspace.Store
import RespStore.Proofs.Keyspace.Write

/-!
# Views of the store

What shows at a time of each database, by its number. Databases that a store does not have are
empty.
-/

namespace RespStore.Store

variable {s : Store} {db : Db} {i j now : Nat}

def size (s : Store) : Nat := s.databases.size

@[simp] theorem size_setDb : (s.setDb i db).size = s.size := Array.size_setIfInBounds

theorem db_setDb (h : i < s.size) : (s.setDb i db).db j = if j = i then db else s.db j := by
  have hi : i < s.databases.size := h
  unfold setDb Store.db db?
  rw [Array.getElem?_setIfInBounds]
  by_cases hij : i = j
  · subst hij
    rw [if_pos rfl, if_pos hi, if_pos rfl]
    rfl
  · rw [if_neg hij, if_neg (Ne.symm hij)]

theorem select?_eq (i : Nat) :
    s.select? i = if i < s.size then .ok i else .error .dbIndexOutOfRange := by
  unfold select? size
  by_cases hi : i < s.databases.size
  · rw [if_pos hi, if_pos ⟨Int.natCast_nonneg i, Int.ofNat_lt.mpr hi⟩]
    rfl
  · rw [if_neg hi, if_neg fun h => hi (Int.ofNat_lt.mp h.2)]

theorem size_new (n : Nat) : (new n).size = max n 1 := Array.size_replicate

theorem db_new (n i : Nat) : (new n).db i = Db.empty := by
  unfold new db db?
  rw [Array.getElem?_replicate]
  split
  · rfl
  · rfl

@[simp] theorem size_flushAll : s.flushAll.size = s.size := Array.size_map ..

theorem db_flushAll (i : Nat) :
    s.flushAll.db i = if i < s.size then (s.db i).flush else Db.empty := by
  unfold flushAll db db? size
  rw [Array.getElem?_map]
  split
  · next hi => rw [Array.getElem?_eq_getElem hi]; rfl
  · next hi => rw [Array.getElem?_eq_none (Nat.le_of_not_lt hi)]; rfl

/-! ## Views -/

variable [Digest String]

/-- Every database is well-formed. -/
def WF (s : Store) : Prop := ∀ i, (s.db i).WF

/-- What shows of each database. -/
def view (s : Store) (now : Nat) : Nat → View := fun i => (s.db i).view now

theorem WF.setDb (h : s.WF) (hi : i < s.size) (hdb : db.WF) : (s.setDb i db).WF := by
  intro j
  rw [db_setDb hi]
  split
  · exact hdb
  · exact h j

theorem view_setDb (hi : i < s.size) :
    (s.setDb i db).view now = Function.update (s.view now) i (db.view now) := by
  funext j
  rw [view, db_setDb hi]
  by_cases hj : j = i
  · subst hj
    rw [if_pos rfl, Function.update_self]
  · rw [if_neg hj, Function.update_of_ne hj]
    rfl

theorem flushAll_spec (h : s.WF) (now : Nat) :
    s.flushAll.WF ∧ s.flushAll.view now = fun _ => View.empty := by
  constructor
  · intro i
    rw [db_flushAll]
    split
    · exact (Db.flush_spec (h i) now).1
    · exact Db.wf_empty
  · funext i
    rw [view, db_flushAll]
    split
    · exact (Db.flush_spec (h i) now).2
    · exact Db.view_empty

theorem wf_new (n : Nat) : (new n).WF := by
  intro i
  rw [db_new]
  exact Db.wf_empty

/-! ## Active expiry -/

theorem expireRounds_evicts (now rounds : Nat) (db : Db) (g : Draws) :
    Db.Evicts now db (expireRounds now rounds db g).2.1 := by
  induction rounds generalizing db g with
  | zero => exact .rfl
  | succ rounds ih =>
    have hsample := Db.expireSample_evicts now expirySamples db g
    unfold expireRounds
    split
    next n db' g' heq =>
      rw [heq] at hsample
      split
      · exact hsample
      · exact hsample.trans (ih db' g')

theorem expireAll_evicts (now : Nat) (dbs : List Db) (g : Draws) (i : Nat) :
    Db.Evicts now (dbs[i]?.getD .empty) ((expireAll now dbs g).2.1[i]?.getD .empty) := by
  induction dbs generalizing g i with
  | nil => exact .rfl
  | cons db dbs ih =>
    cases i with
    | zero => exact expireRounds_evicts now expiryRounds db g
    | succ i => exact ih _ i

theorem length_expireAll (now : Nat) (dbs : List Db) (g : Draws) :
    (expireAll now dbs g).2.1.length = dbs.length := by
  induction dbs generalizing g with
  | nil => rfl
  | cons db dbs ih => exact congrArg Nat.succ (ih _)

theorem expireCycle_evicts (s : Store) (now : Nat) (g : Draws) (i : Nat) :
    Db.Evicts now (s.db i) ((s.expireCycle now g).2.1.db i) := by
  have hall := expireAll_evicts now s.databases.toList g i
  rw [Array.getElem?_toList] at hall
  show Db.Evicts now _ (((expireAll now s.databases.toList g).2.1.toArray[i]?).getD .empty)
  rw [List.getElem?_toArray]
  exact hall

theorem size_expireCycle (s : Store) (now : Nat) (g : Draws) :
    (s.expireCycle now g).2.1.size = s.size := by
  show (expireAll now s.databases.toList g).2.1.toArray.size = _
  rw [List.size_toArray, length_expireAll, Array.length_toList]
  rfl

/-- A pass of active expiry does not show. -/
theorem expireCycle_spec (h : s.WF) (now : Nat) (g : Draws) :
    (s.expireCycle now g).2.1.WF ∧ (s.expireCycle now g).2.1.view now = s.view now ∧
      (s.expireCycle now g).2.1.size = s.size := by
  have hdb := fun i => (expireCycle_evicts s now g i).unchanged (h i)
  exact ⟨fun i => (hdb i).1, funext fun i => (hdb i).2, size_expireCycle s now g⟩

/-- Passes of active expiry, each at its own reading of the clock and with its own draws. -/
def expireCycles (s : Store) : List (Nat × Draws) → Store
  | [] => s
  | (now, g) :: passes => (s.expireCycle now g).2.1.expireCycles passes

/-- However many passes there are, they drop nothing that is live after them. -/
theorem expireCycles_evicts {passes : List (Nat × Draws)} (h : ∀ p ∈ passes, p.1 ≤ now) (s : Store)
    (i : Nat) : Db.Evicts now (s.db i) ((s.expireCycles passes).db i) := by
  induction passes generalizing s with
  | nil => exact .rfl
  | cons p passes ih =>
    obtain ⟨hp, hpasses⟩ := List.forall_mem_cons.mp h
    exact ((expireCycle_evicts s p.1 p.2 i).mono hp).trans (ih hpasses _)

theorem size_expireCycles (s : Store) (passes : List (Nat × Draws)) :
    (s.expireCycles passes).size = s.size := by
  induction passes generalizing s with
  | nil => rfl
  | cons p passes ih => exact (ih _).trans (size_expireCycle s p.1 p.2)

end RespStore.Store
