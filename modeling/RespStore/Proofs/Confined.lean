import RespStore.Proofs.Clients
import RespStore.Proofs.Command.Named
import RespStore.Text.Fingerprint

/-!
# What commands leave alone

Of all that shows from its time on, a command changes at most what is under the keys that it names in
the database of its session, and leaves most deadlines as they are.
-/

namespace RespStore

namespace Command

/-- Whether a command that has replied so may have changed the deadline of a key that is there. -/
def Redates (reply : Frame) : Command → Prop
  | string (.set _ _ _ _) => reply = .ok
  | c => c.redates = true

variable [Digest String] {now : Nat} {s : Session} {k : Keyspace} {c : Command} {e : Effect}
  {popped : List String}

/-- What a command leaves alone of all that shows from its time on, in a session of its own. -/
structure Confined (c : Command) (now : Nat) (s : Session) (k : Keyspace) (e : Effect) : Prop where
  size : e.keyspace.store.size = k.store.size
  selected : e.session.selected < e.keyspace.store.size
  others : c ≠ .server .flushAll → ∀ j ≠ s.selected, ∀ t, now ≤ t →
    (e.keyspace.store.db j).view t = (k.store.db j).view t
  unnamed : c.clears = false → ∀ key ∉ c.named, ∀ t, now ≤ t →
    (e.keyspace.store.db s.selected).view t key = (k.store.db s.selected).view t key
  cleared : c.clears = true → ∀ t, now ≤ t →
    (e.keyspace.store.db s.selected).view t = View.empty
  clearedAll : c = .server .flushAll → ∀ j t, now ≤ t →
    (e.keyspace.store.db j).view t = View.empty
  deadlines : ¬ c.Redates e.reply → ∀ j key before after,
    (k.store.db j).view now key = some before → (e.keyspace.store.db j).view now key = some after →
      after.expiresAt = before.expiresAt

theorem view_eq_empty_of_view_eq {db : Db} {t : Nat} (ht : now ≤ t)
    (h : db.view now = View.empty) : db.view t = View.empty := by
  rw [← Db.cut_view ht, h]
  rfl

omit [Digest String] in
theorem effect_self {i : Nat} {vs : Nat → View} (h : c ≠ .server .flushAll) :
    c.effect now popped i vs i = (c.write now popped).apply now (vs i) := by
  rw [effect, isFlushAll_eq_false h]
  exact Function.update_self ..

omit [Digest String] in
theorem effect_of_ne {i j : Nat} {vs : Nat → View} (h : c ≠ .server .flushAll) (hj : j ≠ i) :
    c.effect now popped i vs j = vs j := by
  rw [effect, isFlushAll_eq_false h]
  exact Function.update_of_ne hj _ _

variable [Matcher]

/-- A string that is not stored leaves everything as it is. -/
theorem Ran.view_of_not_stored {key : String} {value : Bytes} {condition : SetCondition}
    {expiry : Option Expiry}
    (h : Ran now s k (.string (.set key value condition expiry)) popped
      (run (.string (.set key value condition expiry)) now s k))
    (hreply : (run (.string (.set key value condition expiry)) now s k).reply ≠ .ok) :
    (run (.string (.set key value condition expiry)) now s k).keyspace.store.view now =
      k.store.view now := by
  rcases StringCommand.set_reply (k.store.db s.selected) now k.draws key value condition expiry with
    ⟨m, hm⟩ | ⟨deadline, -, hwrite, ⟨-, hkept⟩ | ⟨hok, -⟩⟩
  · exact (h.refused m hm).1
  · have hflush : Command.string (.set key value condition expiry) ≠ .server .flushAll := nofun
    refine h.view.trans (funext fun j => ?_)
    by_cases hj : j = s.selected
    · subst hj
      refine (effect_self hflush).trans ?_
      show (StringCommand.write now _).apply now _ = _
      rw [hwrite]
      exact View.change_self Db.view_live hkept
    · exact effect_of_ne hflush hj
  · exact absurd hok hreply

/-- A key keeps its deadline under a command that does not change deadlines. -/
theorem Ran.expiresAt (h : Ran now s k c popped (c.run now s k))
    (hredates : ¬ c.Redates (c.run now s k).reply) {j : Nat} {key : String} {before after : Entry}
    (hbefore : k.store.view now j key = some before)
    (hafter : (c.run now s k).keyspace.store.view now j key = some after) :
    after.expiresAt = before.expiresAt := by
  have hsame : (c.run now s k).keyspace.store.view now = k.store.view now →
      after.expiresAt = before.expiresAt := by
    intro heq
    rw [heq, hbefore] at hafter
    rw [Option.some.inj hafter]
  cases hc : c.redates with
  | false =>
    rw [h.view] at hafter
    by_cases hflush : c = .server .flushAll
    · rw [hflush] at hafter
      cases hafter
    · by_cases hj : j = s.selected
      · subst hj
        rw [effect_self hflush] at hafter
        exact (write_retains hc).expiresAt hbefore hafter
      · rw [effect_of_ne hflush hj, hbefore] at hafter
        rw [Option.some.inj hafter]
  | true =>
    rcases c with c | c | c | c | c | c | c
    case string =>
      cases c with
      | set key value condition expiry => exact hsame (h.view_of_not_stored hredates)
      | _ => exact absurd hc hredates
    all_goals exact absurd hc hredates

theorem Ran.confined (h : Ran now s k c popped (c.run now s k)) :
    c.Confined now s k (c.run now s k) where
  size := run_size
  selected := h.selected.trans_eq run_size.symm
  others := fun hc j hj t ht => funext fun key =>
    Db.view_later ht (congrFun ((congrFun h.view j).trans (effect_of_ne hc hj)) key)
  unnamed := fun hc key hkey t ht => by
    have hall : c ≠ .server .flushAll := by
      rintro rfl
      cases hc
    have hview := (congrFun h.view s.selected).trans (effect_self hall)
    refine Db.view_later ht ((congrFun hview key).trans ?_)
    exact Write.apply_of_notMem (write_ne_clear hc) fun hw => hkey (keys_write c hw)
  cleared := fun hc t ht => by
    refine view_eq_empty_of_view_eq ht ((congrFun h.view s.selected).trans ?_)
    rcases eq_of_clears hc with rfl | rfl
    · exact effect_self nofun
    · rfl
  clearedAll := fun hc j t ht => by
    refine view_eq_empty_of_view_eq ht ((congrFun h.view j).trans ?_)
    rw [hc]
    rfl
  deadlines := fun hc j key before after hbefore hafter => h.expiresAt hc hbefore hafter

omit [Matcher] in
/-- A command that only reads changes nothing that shows. -/
theorem Ran.view_of_readsOnly (h : Ran now s k c popped e) (hc : c.ReadsOnly) (j : Nat) {t : Nat}
    (ht : now ≤ t) : (e.keyspace.store.db j).view t = (k.store.db j).view t := by
  have hview := h.view.trans (effect_of_nothing hc.keeps (hc.nothing now popped))
  exact funext fun key => Db.view_later ht (congrFun (congrFun hview j) key)

end Command

namespace Clients

variable [Digest String] [Matcher] {n : Nat} {x : Clients}

/-- Wherever clients have come to, a command of one of them runs in a database that there is, and
keeps to the keys that it names there; one that the table does not flag as writing changes nothing
at all. -/
theorem Reachable.command_confined (h : Reachable n x) (client now : Nat) {frame : Frame}
    {c : Command} (hc : Command.ofFrame frame = .ok c) :
    let s := x.sessions client
    let e := c.run now s x.keyspace
    s.selected < x.keyspace.store.size ∧ c.Confined now s x.keyspace e ∧
      ∃ spec, CommandSpec.ofRequest? frame = some spec ∧
        (spec.write = false → ∀ j t, now ≤ t →
          (e.keyspace.store.db j).view t = (x.keyspace.store.db j).view t) := by
  obtain ⟨popped, hran⟩ := h.sound.exists_ran client now hc
  obtain ⟨spec, hspec, hfits⟩ := Command.exists_fits_of_ofFrame hc
  refine ⟨h.sound.selected_lt client, hran.confined, spec, hspec, fun hread j t ht => ?_⟩
  exact hran.view_of_readsOnly (hfits.readsOnly hread) j ht

end Clients

namespace Clients

/-- A string with a deadline, and a client in another database. -/
def dated : Clients :=
  ((new 2 ⟨fun _ => 0, 0⟩).request 0 5 (.ofList .text ["SET", "k", "v", "PX", "1000"])).request 1 6
    (.ofList .text ["SELECT", "1"])

/-- The deadline outlives an appending of the first client. -/
theorem append_confined :
    let s := dated.sessions 0
    let c := Command.string (.append "k" [119])
    let e := c.run 7 s dated.keyspace
    Command.ofFrame (.ofList .text ["APPEND", "k", "w"]) = .ok c ∧
      (dated.keyspace.store.db 0).view 7 "k" = some ⟨.string [118], some 1005⟩ ∧
      (e.keyspace.store.db 0).view 7 "k" = some ⟨.string [118, 119], some 1005⟩ ∧
      s.selected < dated.keyspace.store.size ∧ c.Confined 7 s dated.keyspace e ∧
      ∃ spec, CommandSpec.ofRequest? (.ofList .text ["APPEND", "k", "w"]) = some spec ∧
        (spec.write = false → ∀ j t, 7 ≤ t →
          (e.keyspace.store.db j).view t = (dated.keyspace.store.db j).view t) := by
  have hreachable : Reachable 2 dated := ((Reachable.new _).request 0 5 _).request 1 6 _
  have hc : Command.ofFrame (.ofList .text ["APPEND", "k", "w"]) =
      .ok (.string (.append "k" [119])) := rfl
  exact ⟨hc, by decide +kernel, by decide +kernel, hreachable.command_confined 0 7 hc⟩

end Clients

end RespStore
