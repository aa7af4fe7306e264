import RespStore.Proofs.Clients
import RespStore.Proofs.Command.OneKey
import RespStore.Text.Fingerprint

/-!
# Moving an element from list to list

Moving the last element of a list to the front of another list is popping it and pushing it there.
No element is lost, and where the two lists are one, it is rotated.
-/

namespace RespStore

namespace View

variable {v : View} {now : Nat} {source destination : String} {items others : List Bytes}
  {x : Bytes} {deadline : Option Nat}

/-- What is no list as a destination is none as a source. -/
theorem read_of_items?_eq_none {key : String} (h : v.items? key = none) :
    Change.read Content.list? none (v key) = none := by
  unfold items? at h
  cases hv : v key with
  | none => rfl
  | some e =>
    rw [hv] at h
    exact h

theorem change_pop (h : v.Live now) (hsource : v source = some ⟨.list items, deadline⟩) :
    v.change now source (.pop .right 1) =
      Function.update v source (Entry.store (v source) (.list items.dropLast)) := by
  refine change_edit h (x := items) (by rw [hsource]; rfl) ?_
  rw [List.dropLast_eq_take]
  rfl

theorem change_push (h : v.Live now) (hdestination : v.items? destination = some others) :
    v.change now destination (.push .left [x]) =
      Function.update v destination (Entry.store (v destination) (.list (x :: others))) :=
  change_edit h hdestination rfl

theorem change_rotate (h : v.Live now) (hsource : v source = some ⟨.list items, deadline⟩)
    (hlast : items.getLast? = some x) :
    v.change now source .rotate =
      Function.update v source (some ⟨.list (x :: items.dropLast), deadline⟩) := by
  refine (change_edit h (x := items) (by rw [hsource]; rfl) rfl).trans ?_
  rw [hlast, hsource]
  rfl

/-- A move takes the element away under one key and puts it under the other one. -/
theorem move_eq_update (h : v.Live now) (hsource : v source = some ⟨.list items, deadline⟩)
    (hdestination : v.items? destination = some others) (hlast : items.getLast? = some x) :
    v.move now source destination = Function.update
      (Function.update v source (Entry.store (v source) (.list items.dropLast))) destination
      (Entry.store (v destination) (.list (x :: others))) := by
  rw [move_of_lists hsource hlast hdestination]
  simp only [write, Entry.filter_store (h.filter_eq _)]

/-- The other key is as it was when the element is pushed there. -/
theorem move_eq_change (h : v.Live now) (hne : source ≠ destination)
    (hsource : v source = some ⟨.list items, deadline⟩)
    (hdestination : v.items? destination = some others) (hlast : items.getLast? = some x) :
    v.move now source destination =
      (v.change now source (.pop .right 1)).change now destination (.push .left [x]) := by
  have hpop := change_pop h hsource
  have hother : (v.change now source (.pop .right 1)) destination = v destination := by
    rw [hpop, Function.update_of_ne (Ne.symm hne)]
  have hothers : (v.change now source (.pop .right 1)).items? destination = some others := by
    rw [items?, hother]
    exact hdestination
  have hlive : (v.change now source (.pop .right 1)).Live now := h.write
  rw [move_eq_update h hsource hdestination hlast, change_push hlive hothers, hother, hpop]

/-- What both keys hold after a move. -/
theorem items?_of_moved {vs : Nat → View} {i : Nat} {deadline' : Option Nat}
    (hne : source ≠ destination)
    (h : v = replace (replace vs i source
      (if items = [] then none else some ⟨.list items, deadline⟩)) i destination
      (some ⟨.list others, deadline'⟩) i) :
    v.items? source = some items ∧ v.items? destination = some others := by
  rw [replace, Function.update_self, replace, Function.update_self] at h
  subst h
  constructor
  · rw [items?, Function.update_of_ne hne, Function.update_self]
    split
    · next hnil => rw [hnil]; rfl
    · rfl
  · rw [items?, Function.update_self]
    rfl

end View

namespace ListCommand

variable {v : View} {now : Nat} {source destination : String}

theorem answer_popPush (v : View) (source destination : String) :
    answer v (.popPush source destination) = moveAnswer (v source) (v destination) := by
  simp only [answer]
  split
  · next heq =>
    subst heq
    cases hv : v source with
    | none => rfl
    | some e =>
      obtain ⟨c, deadline⟩ := e
      cases c <;> rfl
  · rfl

theorem moveAnswer_of_list {items others : List Bytes} {deadline : Option Nat}
    {slot : Option Entry} (h : Change.read Content.list? (some []) slot = some others) :
    moveAnswer (some ⟨.list items, deadline⟩) slot = .ofOption .bulk items.getLast? := by
  simp only [moveAnswer, h]
  rfl

theorem moveAnswer_of_wrongType {slot slot' : Option Entry} (hpresent : slot ≠ none)
    (h : Change.read Content.list? (some []) slot = none ∨
      Change.read Content.list? (some []) slot' = none) :
    moveAnswer slot slot' = .wrongType := by
  obtain ⟨e, rfl⟩ := Option.ne_none_iff_exists'.mp hpresent
  unfold moveAnswer
  cases hread : Content.list? e.content with
  | none => exact Entry.answer_of_none hread
  | some items =>
    refine (Entry.answer_of_some hread).trans ?_
    rw [h.resolve_left (by simp [Change.read, hread])]

/-- Nothing is written if there is nothing to move or no list to move it to. -/
theorem write_popPush_of_none (hlive : v.Live now)
    (h : Change.read Content.list? none (v source) = none ∨ v.items? destination = none) :
    (write (.popPush source destination)).apply now v = v := by
  simp only [write]
  split
  · next heq =>
    subst heq
    have hread := h.elim id View.read_of_items?_eq_none
    exact View.change_self hlive (Change.edit_of_read_none hread)
  · exact move_of_none h

end ListCommand

namespace Command

variable [Digest String] [Matcher] {now : Nat} {s : Session} {k : Keyspace} {source destination : String}
  {items others : List Bytes} {x : Bytes} {deadline : Option Nat}

theorem popPush_reply (h : k.store.WF) (source destination : String) :
    ((list (.popPush source destination)).run now s k).reply =
      ListCommand.moveAnswer (k.store.view now s.selected source)
        (k.store.view now s.selected destination) :=
  (list_reply h _).trans (ListCommand.answer_popPush _ source destination)

theorem popPush_view (h : k.store.WF) (hs : s.selected < k.store.size)
    (source destination : String) :
    ((list (.popPush source destination)).run now s k).keyspace.store.view now =
      Function.update (k.store.view now) s.selected
        ((ListCommand.write (.popPush source destination)).apply now
          (k.store.view now s.selected)) :=
  (list_ran now h hs (c := .popPush source destination) trivial).view_write rfl

/-- Neither a source that is absent nor a key that holds something else than a list is changed. -/
theorem popPush_view_of_none (h : k.store.WF) (hs : s.selected < k.store.size)
    (hnone : Change.read Content.list? none (k.store.view now s.selected source) = none ∨
      (k.store.view now s.selected).items? destination = none) :
    ((list (.popPush source destination)).run now s k).keyspace.store.view now =
      k.store.view now := by
  have hlive : (k.store.view now s.selected).Live now := Db.view_live
  rw [popPush_view h hs, ListCommand.write_popPush_of_none hlive hnone, Function.update_eq_self]

/-- The views after a pop and then a push. -/
theorem pop_push_view (h : k.store.WF) (hs : s.selected < k.store.size)
    (source destination : String) (x : Bytes) :
    let popped := (list (.pop .right source none)).run now s k
    ((list (.push .left destination [x])).run now s popped.keyspace).keyspace.store.view now =
      Function.update (k.store.view now) s.selected
        (((k.store.view now s.selected).change now source (.pop .right 1)).change now destination
          (.push .left [x])) := by
  intro popped
  have hpop := list_ran now h hs (c := .pop .right source none) trivial
  have hsize : s.selected < popped.keyspace.store.size := hs.trans_eq run_size.symm
  have hpush := list_ran now hpop.wf hsize (c := .push .left destination [x])
    (List.cons_ne_nil x [])
  rw [hpush.view_write rfl, hpop.view_write rfl, Function.update_self, Function.update_idem]
  rfl

theorem pop_reply (h : k.store.WF)
    (hsource : k.store.view now s.selected source = some ⟨.list items, deadline⟩)
    (hlast : items.getLast? = some x) :
    ((list (.pop .right source none)).run now s k).reply = .bulk x := by
  refine (list_reply h _).trans ((congrArg (Entry.answer _ _ _) hsource).trans ?_)
  refine (Entry.answer_of_some (x := items) rfl).trans ?_
  rw [← List.head?_reverse] at hlast
  show Frame.ofOption .bulk (items.reverse.take 1).head? = _
  rw [List.head?_take, if_neg Nat.one_ne_zero, hlast]
  rfl

omit [Matcher] in
theorem getLast?_of_view (h : k.store.WF)
    (hsource : k.store.view now s.selected source = some ⟨.list items, deadline⟩) :
    ∃ x, items.getLast? = some x := by
  have hnonempty := (h s.selected).view_nonempty now source _ hsource
  cases hlast : items.getLast? with
  | some x => exact ⟨x, rfl⟩
  | none =>
    rw [List.getLast?_eq_none_iff.mp hlast] at hnonempty
    cases hnonempty

/-- A list that moves to itself is rotated. -/
theorem rotate_run (h : k.store.WF) (hs : s.selected < k.store.size)
    (hsource : k.store.view now s.selected source = some ⟨.list items, deadline⟩)
    (hlast : items.getLast? = some x) :
    let e := (list (.popPush source source)).run now s k
    e.reply = .bulk x ∧ e.keyspace.store.view now =
      View.replace (k.store.view now) s.selected source
        (some ⟨.list (x :: items.dropLast), deadline⟩) := by
  have hlive : (k.store.view now s.selected).Live now := Db.view_live
  constructor
  · rw [popPush_reply h, hsource, ListCommand.moveAnswer_of_list rfl, hlast]
    rfl
  · rw [popPush_view h hs, View.replace, ← View.change_rotate hlive hsource hlast,
      ListCommand.write, if_pos rfl]
    rfl

/-- An element that moves to another list is popped and then pushed. -/
theorem move_run (h : k.store.WF) (hs : s.selected < k.store.size) (hne : source ≠ destination)
    (hsource : k.store.view now s.selected source = some ⟨.list items, deadline⟩)
    (hdestination : (k.store.view now s.selected).items? destination = some others)
    (hlast : items.getLast? = some x) :
    let v := k.store.view now s.selected
    let e := (list (.popPush source destination)).run now s k
    let popped := (list (.pop .right source none)).run now s k
    let pushed := (list (.push .left destination [x])).run now s popped.keyspace
    e.reply = .bulk x ∧ popped.reply = .bulk x ∧
      e.keyspace.store.view now = pushed.keyspace.store.view now ∧
      e.keyspace.store.view now = View.replace
        (View.replace (k.store.view now) s.selected source
          (if items.dropLast = [] then none else some ⟨.list items.dropLast, deadline⟩))
        s.selected destination
        (some ⟨.list (x :: others), (v destination).bind (·.expiresAt)⟩) := by
  intro v e popped pushed
  have hlive : v.Live now := Db.view_live
  have hview : e.keyspace.store.view now = Function.update (k.store.view now) s.selected
      (v.move now source destination) := by
    rw [popPush_view h hs, ListCommand.write, if_neg hne]
    rfl
  refine ⟨?_, pop_reply h hsource hlast, ?_, ?_⟩
  · rw [popPush_reply h, hsource, ListCommand.moveAnswer_of_list hdestination, hlast]
    rfl
  · rw [hview, View.move_eq_change hlive hne hsource hdestination hlast]
    exact (pop_push_view h hs source destination x).symm
  · rw [hview, View.move_eq_update hlive hsource hdestination hlast, Entry.store_list,
      show v source = _ from hsource, View.replace, View.replace, Function.update_self,
      Function.update_idem]
    rfl

variable (now) in
/-- With nothing to move, or with something else than a list under a key, nothing changes. The last
element of a list moves to its own front, or to the front of another list, as if it were popped and
then pushed: the deadlines stay, a list without elements goes, a new one has no deadline, and both
lists together have the elements that they had. -/
theorem popPush_moves (h : k.store.WF) (hs : s.selected < k.store.size)
    (source destination : String) :
    let views := k.store.view now
    let v := views s.selected
    let e := (list (.popPush source destination)).run now s k
    (v source = none → e.reply = .null ∧ e.keyspace.store.view now = views) ∧
    (v source ≠ none → v.items? source = none ∨ v.items? destination = none →
      e.reply = .wrongType ∧ e.keyspace.store.view now = views) ∧
    ∀ items deadline, v source = some ⟨.list items, deadline⟩ →
      ∃ x, items = items.dropLast ++ [x] ∧
        (source = destination → e.reply = .bulk x ∧ e.keyspace.store.view now =
          View.replace views s.selected source (some ⟨.list (x :: items.dropLast), deadline⟩)) ∧
        (source ≠ destination → ∀ others, v.items? destination = some others →
          let popped := (list (.pop .right source none)).run now s k
          let pushed := (list (.push .left destination [x])).run now s popped.keyspace
          let left := if items.dropLast = [] then none else some ⟨.list items.dropLast, deadline⟩
          let longer := some ⟨.list (x :: others), (v destination).bind (·.expiresAt)⟩
          e.reply = .bulk x ∧ popped.reply = .bulk x ∧
            e.keyspace.store.view now = pushed.keyspace.store.view now ∧
            e.keyspace.store.view now = View.replace (View.replace views s.selected source left)
              s.selected destination longer ∧
            ∃ kept gained, (e.keyspace.store.view now s.selected).items? source = some kept ∧
              (e.keyspace.store.view now s.selected).items? destination = some gained ∧
              (kept ++ gained).Perm (items ++ others)) := by
  intro views v e
  refine ⟨fun habsent => ?_, fun hpresent hnone => ?_, fun items deadline hsource => ?_⟩
  · refine ⟨?_, popPush_view_of_none h hs (.inl (congrArg (Change.read _ _) habsent))⟩
    exact (popPush_reply h source destination).trans
      (congrArg (ListCommand.moveAnswer · (v destination)) habsent)
  · refine ⟨?_, popPush_view_of_none h hs (hnone.imp View.read_of_items?_eq_none id)⟩
    exact (popPush_reply h source destination).trans
      (ListCommand.moveAnswer_of_wrongType hpresent hnone)
  · obtain ⟨x, hlast⟩ := getLast?_of_view h hsource
    have hitems : items.dropLast ++ [x] = items := List.dropLast_append_getLast? x hlast
    refine ⟨x, hitems.symm, ?_, fun hne others hdestination => ?_⟩
    · rintro rfl
      exact rotate_run h hs hsource hlast
    · obtain ⟨hreply, hpopped, hpushed, hview⟩ := move_run h hs hne hsource hdestination hlast
      obtain ⟨hkept, hgained⟩ := View.items?_of_moved hne (congrFun hview s.selected)
      have hall : items.dropLast ++ x :: others = items ++ others := by
        rw [← List.singleton_append, ← List.append_assoc, hitems]
      exact ⟨hreply, hpopped, hpushed, hview, _, _, hkept, hgained, List.Perm.of_eq hall⟩

end Command

namespace Clients

/-- A list with a deadline, and nothing under another key. -/
def queued : Clients :=
  ((new 1 ⟨fun _ => 0, 0⟩).request 0 5 (.ofList .text ["RPUSH", "q", "a", "b"])).request 0 6
    (.ofList .text ["PEXPIRE", "q", "1000"])

/-- The list keeps its deadline, and the new list has none. -/
theorem queued_moves :
    let k := queued.keyspace
    let s := queued.sessions 0
    let v := k.store.view 7 s.selected
    let e := (Command.list (.popPush "q" "r")).run 7 s k
    k.store.WF ∧ s.selected < k.store.size ∧ "q" ≠ "r" ∧
      v "q" = some ⟨.list [[97], [98]], some 1006⟩ ∧ v.items? "r" = some [] ∧
      e.reply = .bulk [98] ∧ e.keyspace.store.view 7 =
        View.replace (View.replace (k.store.view 7) s.selected "q"
          (some ⟨.list [[97]], some 1006⟩)) s.selected "r" (some ⟨.list [[98]], none⟩) := by
  intro k s v e
  have hreachable : Reachable 1 queued := ((Reachable.new _).request 0 5 _).request 0 6 _
  have hwf : k.store.WF := hreachable.sound.wf
  have hs : s.selected < k.store.size := hreachable.sound.selected_lt 0
  have hviews : v "q" = some ⟨.list [[97], [98]], some 1006⟩ ∧ v "r" = none := by decide +kernel
  have hne : "q" ≠ "r" := by decide
  have hempty : v.items? "r" = some [] := congrArg (Change.read _ _) hviews.2
  obtain ⟨-, -, hmoves⟩ := Command.popPush_moves 7 hwf hs "q" "r"
  obtain ⟨x, hitems, -, hmove⟩ := hmoves _ _ hviews.1
  obtain rfl : [98] = x := by simpa using hitems
  obtain ⟨hreply, -, -, hview, -⟩ := hmove hne [] hempty
  refine ⟨hwf, hs, hne, hviews.1, hempty, hreply, hview.trans ?_⟩
  rw [show k.store.view 7 s.selected "r" = none from hviews.2]
  rfl

end Clients

end RespStore
