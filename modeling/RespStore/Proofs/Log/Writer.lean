import RespStore.Log.Writer

/-!
# What a log file holds

Records appended for databases come to a file of requests, in which a request that selects a
database stands wherever the database changes.
-/

namespace RespStore.Log.Writer

/-- Appends records, each for a database of its own. -/
def appendEach (w : Writer) (ps : List (Nat × Request)) : Writer :=
  ps.foldl (fun w p => w.append p.1 p.2) w

/-- The requests that records come to after one for the database `selected`. -/
def requests : Option Nat → List (Nat × Request) → List Request
  | _, [] => []
  | selected, (db, r) :: ps =>
    if selected = some db then r :: requests (some db) ps
    else selectRecord db :: r :: requests (some db) ps

variable {w : Writer} {db : Nat} {r : Request} {ps qs : List (Nat × Request)}

@[simp] theorem appendEach_nil : w.appendEach [] = w := rfl

@[simp] theorem appendEach_cons : w.appendEach ((db, r) :: ps) = (w.append db r).appendEach ps := rfl

theorem appendEach_append : w.appendEach (ps ++ qs) = (w.appendEach ps).appendEach qs :=
  List.foldl_append

theorem appendAll_eq (w : Writer) (db : Nat) (rs : List Request) :
    w.appendAll db rs = w.appendEach (rs.map (db, ·)) := by
  rw [appendEach, List.foldl_map]
  rfl

theorem contents_appendEach (w : Writer) (ps : List (Nat × Request)) :
    (w.appendEach ps).contents = w.contents ++ (requests w.selected ps).flatMap encode := by
  induction ps generalizing w with
  | nil => exact (List.append_nil _).symm
  | cons p ps ih =>
    obtain ⟨db, r⟩ := p
    have hentry : w.entry db r ++ (requests (some db) ps).flatMap encode =
        (requests w.selected ((db, r) :: ps)).flatMap encode := by
      rw [entry, requests]
      split
      · rfl
      · rw [List.append_assoc]
        rfl
    rw [appendEach_cons, ih, ← hentry]
    exact List.append_assoc ..

/-- The bytes of a file that had nothing in it. -/
theorem contents_openFile (policy : SyncPolicy) (ps : List (Nat × Request)) :
    ((openFile [] policy).appendEach ps).contents = (requests none ps).flatMap encode :=
  contents_appendEach _ ps

theorem mem_requests {selected : Option Nat} (h : r ∈ requests selected ps) :
    (∃ p ∈ ps, r = selectRecord p.1) ∨ ∃ p ∈ ps, r = p.2 := by
  induction ps generalizing selected with
  | nil => cases h
  | cons p ps ih =>
    obtain ⟨db, r'⟩ := p
    have hrest : ∀ {selected}, r ∈ requests selected ps →
        (∃ p ∈ (db, r') :: ps, r = selectRecord p.1) ∨ ∃ p ∈ (db, r') :: ps, r = p.2 := by
      intro selected hr
      rcases ih hr with ⟨p, hp, rfl⟩ | ⟨p, hp, rfl⟩
      · exact .inl ⟨p, List.mem_cons_of_mem _ hp, rfl⟩
      · exact .inr ⟨p, List.mem_cons_of_mem _ hp, rfl⟩
    rw [requests] at h
    split at h
    · rcases List.mem_cons.mp h with rfl | hr
      · exact .inr ⟨(db, r), List.mem_cons_self, rfl⟩
      · exact hrest hr
    · rcases List.mem_cons.mp h with rfl | hr
      · exact .inl ⟨(db, r'), List.mem_cons_self, rfl⟩
      · rcases List.mem_cons.mp hr with rfl | hr
        · exact .inr ⟨(db, r), List.mem_cons_self, rfl⟩
        · exact hrest hr

theorem mem_requests_of_mem {selected : Option Nat} {p : Nat × Request} (h : p ∈ ps) :
    p.2 ∈ requests selected ps := by
  induction ps generalizing selected with
  | nil => cases h
  | cons q ps ih =>
    obtain ⟨db, r⟩ := q
    rw [requests]
    rcases List.mem_cons.mp h with rfl | hp
    · split
      · exact List.mem_cons_self
      · exact List.mem_cons_of_mem _ List.mem_cons_self
    · split
      · exact List.mem_cons_of_mem _ (ih hp)
      · exact List.mem_cons_of_mem _ (List.mem_cons_of_mem _ (ih hp))

end RespStore.Log.Writer
