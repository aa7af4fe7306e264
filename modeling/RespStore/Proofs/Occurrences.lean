import RespStore.Proofs.Clients
import RespStore.Proofs.Collection.Positions
import RespStore.Proofs.Command.OneKey
import RespStore.Text.Fingerprint

/-!
# Occurrences in a list

Removing a value takes its first occurrences or its last ones, as many as are asked for and there
are. Which ones these are is told by how many others come before or after them.
-/

namespace RespStore

variable {value : Bytes} {m : Nat} {xs : List Bytes} {i : Nat}

/-- A position holds a value that fewer than `m` positions before it hold. -/
def amongFirst (value : Bytes) (m : Nat) (xs : List Bytes) (i : Nat) : Bool :=
  xs[i]? = some value ∧ (xs.take i).count value < m

/-- A position holds a value that fewer than `m` positions after it hold. -/
def amongLast (value : Bytes) (m : Nat) (xs : List Bytes) (i : Nat) : Bool :=
  xs[i]? = some value ∧ (xs.drop (i + 1)).count value < m

theorem amongFirst_cons_succ (x : Bytes) :
    amongFirst value m (x :: xs) (i + 1) =
      decide (xs[i]? = some value ∧
        (xs.take i).count value + (if x = value then 1 else 0) < m) := by
  simp [amongFirst, List.count_cons]

/-- In the list the other way round, the first ones are the last ones. -/
theorem amongFirst_reverse (hi : i < xs.length) :
    amongFirst value m xs.reverse (xs.length - 1 - i) = amongLast value m xs i := by
  have hindex : xs.length - 1 - (xs.length - 1 - i) = i := by omega
  have hafter : xs.length - (xs.length - 1 - i) = i + 1 := by omega
  rw [amongFirst, amongLast, List.getElem?_reverse (by omega), hindex, List.take_reverse, hafter,
    List.count_reverse]

/-- The occurrences before an occurrence, it, and those after it. -/
theorem count_eq_of_getElem? (h : xs[i]? = some value) :
    xs.count value = (xs.take i).count value + ((xs.drop (i + 1)).count value + 1) := by
  obtain ⟨hi, hx⟩ := List.getElem?_eq_some_iff.mp h
  calc xs.count value
    _ = (xs.take i ++ xs.drop i).count value := by rw [List.take_append_drop]
    _ = (xs.take i).count value + ((xs.drop (i + 1)).count value + 1) := by
      rw [List.drop_eq_getElem_cons hi, hx, List.count_append, List.count_cons_self]

/-- No more occurrences are among the first than there are. -/
theorem amongFirst_min : amongFirst value (min m (xs.count value)) xs = amongFirst value m xs := by
  funext i
  refine decide_eq_decide.mpr (and_congr_right fun h => ?_)
  have := count_eq_of_getElem? h
  omega

theorem amongLast_min : amongLast value (min m (xs.count value)) xs = amongLast value m xs := by
  funext i
  refine decide_eq_decide.mpr (and_congr_right fun h => ?_)
  have := count_eq_of_getElem? h
  omega

namespace LinkedList

theorem eraseUpTo_eq (value : Bytes) (m : Nat) (xs : List Bytes) :
    eraseUpTo value m xs =
      (min m (xs.count value), atPositions (fun i => !amongFirst value m xs i) xs) := by
  induction xs generalizing m with
  | nil => simp
  | cons x xs ih =>
    cases m with
    | zero =>
      rw [eraseUpTo_zero, Nat.zero_min, atPositions_eq_self]
      simp [amongFirst]
    | succ m =>
      rw [eraseUpTo, atPositions_cons, ih, ih]
      simp only [amongFirst_cons_succ]
      by_cases hx : x = value
      · subst hx
        simp [amongFirst]
      · simp [amongFirst, hx]

/-- What is erased and what is left are all that there was. -/
theorem length_eraseUpTo_add (value : Bytes) (m : Nat) (xs : List Bytes) :
    (eraseUpTo value m xs).2.length + (eraseUpTo value m xs).1 = xs.length := by
  induction xs generalizing m with
  | nil => simp
  | cons x xs ih =>
    cases m with
    | zero => simp
    | succ m =>
      have hfewer := ih m
      have hsame := ih (m + 1)
      rw [eraseUpTo]
      split <;> simp only [List.length_cons] <;> omega

theorem length_eraseValues_add (xs : List Bytes) (value : Bytes) (count : Int) :
    (eraseValues xs value count).2.length + (eraseValues xs value count).1 = xs.length := by
  unfold eraseValues
  dsimp only
  split
  · rw [List.length_reverse, length_eraseUpTo_add, List.length_reverse]
  · exact length_eraseUpTo_add ..

theorem eraseValues_eq (xs : List Bytes) (value : Bytes) (count : Int) :
    let n := xs.count value
    let m := if count = 0 then n else min count.natAbs n
    let erased := if count < 0 then amongLast value m xs else amongFirst value m xs
    eraseValues xs value count = (m, atPositions (fun i => !erased i) xs) := by
  -- a limit that is no count asks for more than there are
  have hlimit : min (if count = 0 then xs.length else count.natAbs) (xs.count value) =
      if count = 0 then xs.count value else min count.natAbs (xs.count value) := by
    rw [apply_ite (min · (xs.count value))]
    exact congrArg (ite _ · _) (Nat.min_eq_right List.count_le_length)
  unfold eraseValues
  dsimp only
  rw [← hlimit]
  generalize (if count = 0 then xs.length else count.natAbs) = limit
  simp only [eraseUpTo_eq, amongFirst_min, amongLast_min]
  split
  · rw [List.count_reverse, atPositions_reverse, List.reverse_reverse]
    refine congrArg (Prod.mk _) (atPositions_congr fun i hi => ?_)
    rw [amongFirst_reverse hi]
  · rfl

end LinkedList

namespace Command

variable [Digest String] [Matcher] {now : Nat} {s : Session} {k : Keyspace} {key : String}
  {items : List Bytes}

theorem remove_reply (h : k.store.WF)
    (hkey : (k.store.view now s.selected).items? key = some items) (count : Int64) (value : Bytes) :
    ((list (.remove key count value)).run now s k).reply =
      .count (LinkedList.eraseValues items value count.toInt).1 := by
  refine (list_reply h _).trans (Entry.answer_of_read (f := fun items =>
    Frame.count (LinkedList.eraseValues items value count.toInt).1) hkey ?_)
  simp [LinkedList.eraseValues]

theorem remove_view (h : k.store.WF) (hs : s.selected < k.store.size)
    (hkey : (k.store.view now s.selected).items? key = some items) (count : Int64) (value : Bytes) :
    ((list (.remove key count value)).run now s k).keyspace.store.view now =
      View.replace (k.store.view now) s.selected key (Entry.store (k.store.view now s.selected key)
        (.list (LinkedList.eraseValues items value count.toInt).2)) := by
  have hran := list_ran now h hs (c := .remove key count value) trivial
  refine hran.view_edit rfl
    (F := fun items => .list (LinkedList.eraseValues items value count.toInt).2) rfl
    (.inr ⟨rfl, ?_⟩) hkey
  simp [LinkedList.eraseValues, Content.isEmpty]

/-- A removal takes the first occurrences of a value, or with a negative count the last ones, or
with a count of zero all of them. What is left keeps its order and its deadline, and the key goes
if nothing is. -/
theorem remove_occurrences (h : k.store.WF) (hs : s.selected < k.store.size)
    (hkey : (k.store.view now s.selected).items? key = some items) (count : Int64) (value : Bytes) :
    let n := items.count value
    let m := if count.toInt = 0 then n else min count.toInt.natAbs n
    let erased := if count.toInt < 0 then amongLast value m items else amongFirst value m items
    let left := atPositions (fun i => !erased i) items
    let e := (list (.remove key count value)).run now s k
    e.reply = .count m ∧ left.length + m = items.length ∧ e.keyspace.store.view now =
      View.replace (k.store.view now) s.selected key
        (if left = [] then none
        else some ⟨.list left, (k.store.view now s.selected key).bind (·.expiresAt)⟩) := by
  intro n m erased left e
  have heq : LinkedList.eraseValues items value count.toInt = (m, left) :=
    LinkedList.eraseValues_eq items value count.toInt
  refine ⟨?_, ?_, ?_⟩
  · rw [remove_reply h hkey, heq]
  · have hlength := LinkedList.length_eraseValues_add items value count.toInt
    rwa [heq] at hlength
  · rw [remove_view h hs hkey, heq, Entry.store_list]

end Command

namespace Clients

/-- A list with a deadline, in which one item occurs three times. -/
def repeating : Clients :=
  ((new 1 ⟨fun _ => 0, 0⟩).request 0 5
    (.ofList .text ["RPUSH", "l", "a", "b", "a", "a"])).request 0 6
    (.ofList .text ["PEXPIRE", "l", "1000"])

/-- The last two of three occurrences are removed. -/
theorem repeating_removed :
    let k := repeating.keyspace
    let s := repeating.sessions 0
    let e := (Command.list (.remove "l" (-2) [97])).run 7 s k
    k.store.WF ∧ s.selected < k.store.size ∧
      k.store.view 7 s.selected "l" = some ⟨.list [[97], [98], [97], [97]], some 1006⟩ ∧
      e.reply = .count 2 ∧ e.keyspace.store.view 7 =
        View.replace (k.store.view 7) s.selected "l" (some ⟨.list [[97], [98]], some 1006⟩) := by
  intro k s e
  have hreachable : Reachable 1 repeating := ((Reachable.new _).request 0 5 _).request 0 6 _
  have hwf : k.store.WF := hreachable.sound.wf
  have hs : s.selected < k.store.size := hreachable.sound.selected_lt 0
  have hview : k.store.view 7 s.selected "l" =
      some ⟨.list [[97], [98], [97], [97]], some 1006⟩ := by decide +kernel
  have hkey : (k.store.view 7 s.selected).items? "l" = some [[97], [98], [97], [97]] :=
    congrArg (Change.read _ _) hview
  obtain ⟨hreply, -, hleft⟩ := Command.remove_occurrences hwf hs hkey (-2) [97]
  refine ⟨hwf, hs, hview, hreply, hleft.trans ?_⟩
  rw [hview]
  rfl

end Clients

end RespStore
