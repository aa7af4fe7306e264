import RespStore.Proofs.Clients
import RespStore.Proofs.Command.Answer.Command
import RespStore.Text.Fingerprint

/-!
# What has expired

Values past their deadlines stay in their databases until they are met or a pass of active expiry
drops them. No client can tell, save by counting keys or drawing one.
-/

namespace RespStore

variable [Digest String] {now t : Nat} {s : Session} {k k' : Keyspace} {c : Command}

open Keyspace

/-- Passes of active expiry do not show, now or later. -/
theorem Keyspace.agree_expireCycles (h : k.store.WF) {passes : List (Nat × Draws)}
    (hpasses : ∀ p ∈ passes, p.1 ≤ now) (g : Draws) :
    Agree now k ⟨k.store.expireCycles passes, g⟩ where
  wf := h
  wf' := fun i => (Store.expireCycles_evicts hpasses k.store i (h i)).1
  size := (Store.size_expireCycles k.store passes).symm
  view := funext fun i =>
    ((Store.expireCycles_evicts hpasses k.store i).unchanged (h i)).2.symm

namespace Command

variable [Matcher]

/-- Keyspaces that differ only in what has expired give the same replies, save when keys are counted
or drawn, and differ in nothing else after a command, if it draws the same members of sets. What has
expired is dropped when it is met and by any number of passes, and nothing else is. -/
theorem expired_unseen {frame : Frame} (h : Agree now k k') (hs : s.selected < k.store.size)
    (hc : Command.ofFrame frame = .ok c)
    (hdrawn : c.drawn now (k.store.db s.selected) k.draws =
      c.drawn now (k'.store.db s.selected) k'.draws) :
    let e := c.run now s k
    let e' := c.run now s k'
    (c ≠ .server .dbSize → c ≠ .key .randomKey → c.SameReply e.reply e'.reply) ∧
      e.session = e'.session ∧ (∀ t, now ≤ t → Agree t e.keyspace e'.keyspace) ∧
      (∀ i key, Db.Evicts now (k.store.db i) ((k.store.db i).get now key).2) ∧
      ∀ passes : List (Nat × Draws), (∀ p ∈ passes, p.1 ≤ now) →
        ∀ i, Db.Evicts now (k.store.db i) ((k.store.expireCycles passes).db i) := by
  obtain ⟨spec, -, hfits⟩ := exists_fits_of_ofFrame hc
  refine ⟨?_, same_session h, ?_, ?_, ?_⟩
  · exact fun hsize hrandom => sameReply h hfits.proper hsize hrandom hdrawn
  · exact fun t ht => (agree_run h hs hfits.proper hdrawn).mono ht
  · exact fun i key => Db.get_evicts _ now key
  · exact fun passes hpasses i => Store.expireCycles_evicts hpasses k.store i

end Command

end RespStore

namespace RespStore

/-- A string past its deadline and a set, in the keyspace of a client. -/
def leftover : Keyspace :=
  (((Clients.new 1 ⟨fun n => n, 0⟩).request 0 5 (.ofList .text ["SET", "k", "v", "PX", "10"])).request
    0 6 (.ofList .text ["SADD", "s", "a", "b"])).keyspace

/-- The same after a pass of active expiry. -/
def swept : Keyspace := ⟨leftover.store.expireCycles [(100, ⟨fun n => n, 0⟩)], ⟨fun _ => 1, 0⟩⟩

/-- A list is begun where the string has expired, whether it has been dropped or not. -/
theorem Command.push_unseen :
    let c := Command.list (.push .right "k" [[119]])
    let e := c.run 100 .new leftover
    let e' := c.run 100 .new swept
    Command.ofFrame (.ofList .text ["RPUSH", "k", "w"]) = .ok c ∧
      (leftover.store.db 0).size = 2 ∧ (swept.store.db 0).size = 1 ∧
      Keyspace.Agree 100 leftover swept ∧ e.reply = .count 1 ∧ e'.reply = .count 1 ∧
      (c ≠ .server .dbSize → c ≠ .key .randomKey → c.SameReply e.reply e'.reply) ∧
      e.session = e'.session ∧ (∀ t, 100 ≤ t → Keyspace.Agree t e.keyspace e'.keyspace) ∧
      (∀ i key, Db.Evicts 100 (leftover.store.db i) ((leftover.store.db i).get 100 key).2) ∧
      ∀ passes : List (Nat × Draws), (∀ p ∈ passes, p.1 ≤ 100) →
        ∀ i, Db.Evicts 100 (leftover.store.db i) ((leftover.store.expireCycles passes).db i) := by
  have hreachable : Clients.Reachable 1 _ :=
    ((Clients.Reachable.new ⟨fun n => n, 0⟩).request 0 5
      (.ofList .text ["SET", "k", "v", "PX", "10"])).request 0 6 (.ofList .text ["SADD", "s", "a", "b"])
  have hwf : leftover.store.WF := hreachable.sound.wf
  have hagree : Keyspace.Agree 100 leftover swept :=
    Keyspace.agree_expireCycles hwf (by simp) _
  have hc : Command.ofFrame (.ofList .text ["RPUSH", "k", "w"]) =
      .ok (.list (.push .right "k" [[119]])) := rfl
  have hs : Session.new.selected < leftover.store.size := by decide +kernel
  exact ⟨hc, by decide +kernel, by decide +kernel, hagree, rfl, rfl,
    expired_unseen hagree hs hc rfl⟩

end RespStore
