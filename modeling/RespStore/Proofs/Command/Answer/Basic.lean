import Mathlib.Data.Finset.Sort
import Mathlib.Data.List.Flatten
import Mathlib.Data.String.Basic
import RespStore.Proofs.Keyspace.Write

/-!
# Answers

What a command replies is worked out from what shows of its database, without a look at slots,
segments and heights. Commands that list what has no order may list it in any order, so their
replies are compared up to it.
-/

namespace RespStore

/-- Texts in alphabetical order. -/
def alphabetical (texts : Finset String) : List String := texts.sort

theorem mem_alphabetical {texts : Finset String} {text : String} :
    text ∈ alphabetical texts ↔ text ∈ texts := Finset.mem_sort _

theorem nodup_alphabetical (texts : Finset String) : (alphabetical texts).Nodup :=
  Finset.sort_nodup _ _

/-! ## Replies up to order -/

namespace Frame

def wrongType : Frame := .error StoreError.wrongType.message

/-- The same frame, or two arrays of the same groups of `n` items, one group after the other in any
order. -/
inductive Shuffled (n : Nat) : Frame → Frame → Prop
  | same (f : Frame) : Shuffled n f f
  | groups {gs hs : List (List Frame)} (hlength : ∀ g ∈ gs, g.length = n) (h : gs.Perm hs) :
    Shuffled n (.array gs.flatten) (.array hs.flatten)

namespace Shuffled

variable {n : Nat} {r r' r'' : Frame} {α β : Type}

theorem symm (h : Shuffled n r r') : Shuffled n r' r := by
  cases h with
  | same => exact .same _
  | groups hlength h => exact .groups (fun g hg => hlength g (h.mem_iff.mpr hg)) h.symm

/-- Items fall into groups in one way only. -/
theorem eq_of_flatten_eq (hn : n ≠ 0) {gs hs : List (List Frame)} (hgs : ∀ g ∈ gs, g.length = n)
    (hhs : ∀ g ∈ hs, g.length = n) (h : gs.flatten = hs.flatten) : gs = hs := by
  have hlengths : ∀ {gs : List (List Frame)}, (∀ g ∈ gs, g.length = n) →
      gs.map List.length = List.replicate gs.length n := fun hgs =>
    List.map_eq_replicate_iff.mpr hgs
  have hcount : gs.length * n = hs.length * n := by
    have hlen := congrArg List.length h
    rwa [List.length_flatten, List.length_flatten, hlengths hgs, hlengths hhs,
      List.sum_replicate_nat, List.sum_replicate_nat] at hlen
  refine List.eq_iff_flatten_eq.mpr ⟨h, ?_⟩
  rw [hlengths hgs, hlengths hhs, Nat.eq_of_mul_eq_mul_right (Nat.pos_of_ne_zero hn) hcount]

theorem trans (hn : n ≠ 0) (h : Shuffled n r r') (h' : Shuffled n r' r'') : Shuffled n r r'' := by
  cases h with
  | same => exact h'
  | @groups gs hs hgs h =>
    generalize hr : Frame.array hs.flatten = r' at h'
    cases h' with
    | same =>
      subst hr
      exact .groups hgs h
    | @groups is js his h' =>
      have hhs : ∀ g ∈ hs, g.length = n := fun g hg => hgs g (h.mem_iff.mpr hg)
      obtain rfl := eq_of_flatten_eq hn hhs his (Frame.array.inj hr)
      exact .groups hgs (h.trans h')

theorem ofList (f : α → Frame) {xs ys : List α} (h : xs.Perm ys) :
    Shuffled 1 (.ofList f xs) (.ofList f ys) := by
  have hflatten : ∀ xs : List α, (xs.map fun x => [f x]).flatten = xs.map f := fun xs => by
    induction xs with
    | nil => rfl
    | cons x xs ih => exact congrArg (f x :: ·) ih
  have hgroups : Shuffled 1 (.array (xs.map fun x => [f x]).flatten)
      (.array (ys.map fun x => [f x]).flatten) := groups
    (fun g hg => by obtain ⟨x, -, rfl⟩ := List.mem_map.mp hg; rfl) (h.map _)
  rwa [hflatten, hflatten] at hgroups

theorem ofPairs (f : α → Frame) (g : β → Frame) {ps qs : List (α × β)} (h : ps.Perm qs) :
    Shuffled 2 (.ofPairs f g ps) (.ofPairs f g qs) := by
  have hgroups : Shuffled 2 (.array (ps.map fun p => [f p.1, g p.2]).flatten)
      (.array (qs.map fun p => [f p.1, g p.2]).flatten) := groups
    (fun g hg => by obtain ⟨x, -, rfl⟩ := List.mem_map.mp hg; rfl) (h.map _)
  rwa [← List.flatMap_def, ← List.flatMap_def] at hgroups

end Shuffled

end Frame

/-! ## Answers from one entry -/

namespace Entry

variable {α : Type}

/-- What is answered for an entry: `absent` if there is none, and an error if its content is not of
the kind that `get` takes. -/
def answer (get : Content → Option α) (absent : Frame) (f : α → Frame) (slot : Option Entry) :
    Frame :=
  slot.elim absent fun e => (get e.content).elim .wrongType f

variable {get : Content → Option α} {absent : Frame} {f : α → Frame} {e : Entry} {x : α}

theorem answer_of_some (h : get e.content = some x) : answer get absent f (some e) = f x := by
  rw [answer, Option.elim_some, h, Option.elim_some]

theorem answer_of_none (h : get e.content = none) :
    answer get absent f (some e) = .wrongType := by
  rw [answer, Option.elim_some, h, Option.elim_none]

end Entry

namespace Value

variable [Digest String] {α β : Type} {as : Value → Except StoreError α} {get : Content → Option β}
  {Good : α → Prop} {abs : α → β} {slot : Option Value} {absent : Frame} {f : β → Frame}
  {R : Frame → Frame → Prop}

/-- A reply that takes values of one kind is an answer to the entry. -/
theorem slot_answers (reply : Option Value → Frame)
    (has : ∀ {v : Value}, v.data.WF → v.ReadsAs as get Good abs) (hnone : R (reply none) absent)
    (hsome : ∀ v x, as v = .ok x → Good x → R (reply (some v)) (f (abs x)))
    (herror : ∀ v, as v = .error .wrongType → R (reply (some v)) .wrongType)
    (hslot : SlotWF slot) : R (reply slot) (Entry.answer get absent f (slot.map entry)) := by
  cases slot with
  | none => exact hnone
  | some v =>
    rcases has (hslot v rfl) with ⟨x, hx, hgood, hget⟩ | ⟨herr, hget⟩
    · rw [show Entry.answer get absent f ((some v).map entry) = _ from Entry.answer_of_some hget]
      exact hsome v x hx hgood
    · rw [show Entry.answer get absent f ((some v).map entry) = _ from Entry.answer_of_none hget]
      exact herror v herr

end Value

namespace Db

open Value

variable [Digest String] {α β : Type} {as : Value → Except StoreError α} {get : Content → Option β}
  {Good : α → Prop} {abs : α → β} {db : Db} {now : Nat} {key : String} {absent : Frame}
  {f : β → Frame} {R : Frame → Frame → Prop}

theorem reading_fst (db : Db) (now : Nat) (key : String) (absent : Frame)
    (f : Value → Except StoreError Frame) :
    (db.reading now key absent f).1 = (db.slot now key).elim absent fun v => .ofExcept (f v) := by
  rw [← get_fst, reading]
  rcases db.get now key with ⟨_ | v, db'⟩ <;> rfl

/-- Reading a key answers what `f` makes of its content. -/
theorem reading_answers (h : db.WF) (has : ∀ {v : Value}, v.data.WF → v.ReadsAs as get Good abs)
    {g : α → Frame} (hrefl : ∀ r, R r r) (hg : ∀ x, Good x → R (g x) (f (abs x))) :
    R (db.reading now key absent fun v => (as v).map g).1
      (Entry.answer get absent f (db.view now key)) := by
  rw [reading_fst]
  refine slot_answers (fun slot => slot.elim absent fun v => .ofExcept ((as v).map g)) has
    (hrefl absent) ?_ ?_ (h.slot now key)
  · intro v x hx hgood
    show R (.ofExcept ((as v).map g)) _
    rw [hx]
    exact hg x hgood
  · intro v herr
    show R (.ofExcept ((as v).map g)) _
    rw [herr]
    exact hrefl _

/-- The same for a reply that is settled by the content. -/
theorem reading_eq (h : db.WF) (has : ∀ {v : Value}, v.data.WF → v.ReadsAs as get Good abs)
    {g : α → Frame} (hg : ∀ x, Good x → g x = f (abs x)) :
    (db.reading now key absent fun v => (as v).map g).1 =
      Entry.answer get absent f (db.view now key) :=
  reading_answers h has (R := Eq) (fun _ => rfl) hg

/-- An edit that begins by reading the value of its key answers what its result, as `shown`, is for
the content. -/
theorem edit_answers {γ : Type} (h : db.WF)
    (has : ∀ {v : Value}, v.data.WF → v.ReadsAs as get Good abs) {shown : γ → Frame}
    {g : Option Value → Except StoreError (γ × Option Value)}
    {next : Value → α → Except StoreError (γ × Option Value)}
    (hg : ∀ v, g (some v) = as v >>= next v)
    (hnone : Frame.ofExcept (((g none).map (·.1)).map shown) = absent)
    (hnext : ∀ v x, Good x → Frame.ofExcept (((next v x).map (·.1)).map shown) = f (abs x)) :
    Frame.ofExcept ((db.edit now key g).1.map shown) =
      Entry.answer get absent f (db.view now key) := by
  rw [edit_fst]
  refine slot_answers (fun slot => Frame.ofExcept (((g slot).map (·.1)).map shown)) has (R := Eq)
    hnone ?_ ?_ (h.slot now key)
  · intro v x hx hgood
    rw [hg, hx]
    exact hnext v x hgood
  · intro v herr
    rw [hg, herr]
    rfl

/-- The same for an edit that replies. -/
theorem replying_answers (h : db.WF) (has : ∀ {v : Value}, v.data.WF → v.ReadsAs as get Good abs)
    {g : Option Value → Except StoreError (Frame × Option Value)}
    {next : Value → α → Except StoreError (Frame × Option Value)}
    (hg : ∀ v, g (some v) = as v >>= next v)
    (hnone : Frame.ofExcept ((g none).map (·.1)) = absent)
    (hnext : ∀ v x, Good x → Frame.ofExcept ((next v x).map (·.1)) = f (abs x)) :
    (db.replying now key g).1 = Entry.answer get absent f (db.view now key) := by
  have hid : ∀ r : Except StoreError Frame, r.map id = r := by
    rintro (e | r) <;> rfl
  have hedit : Frame.ofExcept ((db.edit now key g).1.map id) =
      Entry.answer get absent f (db.view now key) :=
    edit_answers h has hg (by rw [hid, hnone]) fun v x hgood => by rw [hid, hnext v x hgood]
  rw [hid] at hedit
  exact hedit

end Db

end RespStore
