import RespStore.Proofs.Command.Answer.Hash
import RespStore.Proofs.Command.Answer.Key
import RespStore.Proofs.Command.Answer.List
import RespStore.Proofs.Command.Answer.Set
import RespStore.Proofs.Command.Answer.SortedSet
import RespStore.Proofs.Command.Answer.String
import RespStore.Proofs.Command.Run

/-!
# Commands on keyspaces that show the same

All that shows settles what a command replies and leaves behind, apart from what it draws at random.
The two commands that count or draw keys themselves, those included that no longer show, are left
out of the replies.
-/

namespace RespStore

def Content.encoding : Content → String
  | string bytes =>
    if (readInt64? bytes).isSome then "int"
    else if bytes.length ≤ Value.embeddedLimit then "embstr"
    else "raw"
  | list _ => "linkedlist"
  | hash _ => "hashtable"
  | set _ => "hashtable"
  | sortedSet _ => "skiplist"

theorem Value.encoding_eq [Digest String] (v : Value) :
    v.encoding = v.entry.content.encoding := by
  obtain ⟨d, t⟩ := v
  cases d <;> rfl

variable [Digest String] {now t : Nat} {s : Session} {k k' : Keyspace} {c : Command}

/-- Two keyspaces that show the same from a time on. -/
structure Keyspace.Agree (now : Nat) (k k' : Keyspace) : Prop where
  wf : k.store.WF
  wf' : k'.store.WF
  size : k.store.size = k'.store.size
  view : k.store.view now = k'.store.view now

namespace Keyspace.Agree

theorem mono (h : Agree now k k') (ht : now ≤ t) : Agree t k k' where
  wf := h.wf
  wf' := h.wf'
  size := h.size
  view := funext fun i => funext fun key =>
    Db.view_later ht (congrFun (congrFun h.view i) key)

/-- What shows settles an answer. -/
theorem answer_eq (h : Agree now k k') (i : Nat) (answer : View → Frame) {r r' : Frame}
    (hr : r = answer ((k.store.db i).view now)) (hr' : r' = answer ((k'.store.db i).view now)) :
    r = r' :=
  hr.trans ((congrArg answer (congrFun h.view i)).trans hr'.symm)

end Keyspace.Agree

namespace Command

/-- The replies to a command are the same, up to the order in which it lists what has none. -/
def SameReply : Command → Frame → Frame → Prop
  | key (.matching _) | set (.listing _) => Frame.Shuffled 1
  | hash (.listing part _) => Frame.Shuffled part.width
  | _ => Eq

/-- The members of a set that a command draws at random. -/
def drawn (now : Nat) (db : Db) (g : Draws) : Command → List String
  | set c => c.drawn now db g
  | _ => []

open Keyspace

/-! ## Replies -/

theorem runServer_reply (h : Agree now k k') {c : ServerCommand} (hc : c ≠ .dbSize) :
    (runServer now s k c).reply = (runServer now s k' c).reply := by
  cases c with
  | dbSize => exact absurd rfl hc
  | select i =>
    rw [runSelect_eq, runSelect_eq, h.size]
    split <;> rfl
  | objectEncoding name =>
    have hreply : ∀ k : Keyspace, (runServer now s k (.objectEncoding name)).reply =
        .ofOption (fun e : Entry => .text e.content.encoding)
          (k.store.view now s.selected name) := by
      intro k
      show Frame.ofOption (fun v => .text v.encoding) ((k.store.db s.selected).get now name).1 =
        .ofOption _ (((k.store.db s.selected).slot now name).map Value.entry)
      rw [Db.get_fst]
      cases (k.store.db s.selected).slot now name with
      | none => rfl
      | some v => exact congrArg Frame.text v.encoding_eq
    rw [hreply, hreply, h.view]
  | _ => rfl

variable [Matcher]

theorem key_sameReply (h : Agree now k k') {c : KeyCommand} (hc : c ≠ .randomKey) :
    (key c).SameReply ((key c).run now s k).reply ((key c).run now s k').reply := by
  have hview := congrFun h.view s.selected
  have hsettled : ∀ r, c.answer? now (k.store.view now s.selected) = some r →
      ((key c).run now s k).reply = ((key c).run now s k').reply := by
    intro r hr
    have hreply := c.run_answer (h.wf s.selected) k.draws hr
    rw [hview] at hr
    exact hreply.trans (c.run_answer (h.wf' s.selected) k'.draws hr).symm
  cases c with
  | matching pattern =>
    exact KeyCommand.matching_shuffled (h.wf s.selected) (h.wf' s.selected) hview pattern k.draws
      k'.draws
  | randomKey => exact absurd rfl hc
  | _ => exact hsettled _ rfl

theorem hash_sameReply (h : Agree now k k') (c : HashCommand) :
    (hash c).SameReply ((hash c).run now s k).reply ((hash c).run now s k').reply := by
  have hsettled : c.lists = false →
      ((hash c).run now s k).reply = ((hash c).run now s k').reply := fun hl =>
    h.answer_eq s.selected c.answer (c.run_answer (h.wf _) k.draws hl)
      (c.run_answer (h.wf' _) k'.draws hl)
  cases c with
  | listing part key =>
    have hlist := HashCommand.listing_shuffled now (h.wf s.selected) k.draws part key
    have hlist' := HashCommand.listing_shuffled now (h.wf' s.selected) k'.draws part key
    rw [show (k.store.db s.selected).view now = _ from congrFun h.view s.selected] at hlist
    exact hlist.trans part.width_ne_zero hlist'.symm
  | _ => exact hsettled rfl

theorem set_sameReply (h : Agree now k k') (c : SetCommand)
    (hdrawn : c.drawn now (k.store.db s.selected) k.draws =
      c.drawn now (k'.store.db s.selected) k'.draws) :
    (set c).SameReply ((set c).run now s k).reply ((set c).run now s k').reply := by
  have hsettled : c.lists = false →
      ((set c).run now s k).reply = ((set c).run now s k').reply := by
    refine fun hl => h.answer_eq s.selected
      (fun v => c.answer (c.drawn now (k.store.db s.selected) k.draws) v)
      (c.run_answer (h.wf _) k.draws hl) ?_
    rw [hdrawn]
    exact c.run_answer (h.wf' _) k'.draws hl
  cases c with
  | listing key =>
    have hlist := SetCommand.listing_shuffled now (h.wf s.selected) k.draws key
    have hlist' := SetCommand.listing_shuffled now (h.wf' s.selected) k'.draws key
    rw [show (k.store.db s.selected).view now = _ from congrFun h.view s.selected] at hlist
    exact hlist.trans Nat.one_ne_zero hlist'.symm
  | _ => exact hsettled rfl

/-- What does not show makes no difference to a reply. -/
theorem sameReply (h : Agree now k k') (hc : c.Proper) (hsize : c ≠ .server .dbSize)
    (hrandom : c ≠ .key .randomKey)
    (hdrawn : c.drawn now (k.store.db s.selected) k.draws =
      c.drawn now (k'.store.db s.selected) k'.draws) :
    c.SameReply (c.run now s k).reply (c.run now s k').reply := by
  cases c with
  | server c => exact runServer_reply h fun hdb => hsize (congrArg server hdb)
  | key c => exact key_sameReply h fun hkey => hrandom (congrArg key hkey)
  | string c =>
    exact h.answer_eq s.selected (c.answer now) (c.run_answer (h.wf _) k.draws)
      (c.run_answer (h.wf' _) k'.draws)
  | list c =>
    exact h.answer_eq s.selected c.answer (c.run_answer (h.wf _) k.draws)
      (c.run_answer (h.wf' _) k'.draws)
  | hash c => exact hash_sameReply h c
  | set c => exact set_sameReply h c hdrawn
  | sortedSet c =>
    exact h.answer_eq s.selected c.answer (c.run_answer (h.wf _) k.draws hc)
      (c.run_answer (h.wf' _) k'.draws hc)

/-! ## What is left behind -/

theorem same_session (h : Agree now k k') :
    (c.run now s k).session = (c.run now s k').session := by
  cases hselect : c.isSelect with
  | false => rw [run_session hselect, run_session hselect]
  | true =>
    rcases c with c | c | c | c | c | c | c
    case server =>
      cases c with
      | select i =>
        show (runServer now s k (.select i)).session = (runServer now s k' (.select i)).session
        rw [runSelect_eq, runSelect_eq, h.size]
        split <;> rfl
      | _ => cases hselect
    all_goals cases hselect

omit [Matcher] in
theorem same_taken
    (hdrawn : c.drawn now (k.store.db s.selected) k.draws =
      c.drawn now (k'.store.db s.selected) k'.draws) :
    c.taken now (k.store.db s.selected) k.draws =
      c.taken now (k'.store.db s.selected) k'.draws := by
  cases c with
  | set c =>
    cases c with
    | pop key count => exact hdrawn
    | _ => rfl
  | _ => rfl

/-- Keyspaces that show the same do so again after a command. -/
theorem agree_run (h : Agree now k k') (hs : s.selected < k.store.size) (hc : c.Proper)
    (hdrawn : c.drawn now (k.store.db s.selected) k.draws =
      c.drawn now (k'.store.db s.selected) k'.draws) :
    Agree now (c.run now s k).keyspace (c.run now s k').keyspace := by
  have hran := run_taken now h.wf hs hc
  have hran' := run_taken now h.wf' (h.size ▸ hs) hc
  refine ⟨hran.wf, hran'.wf, run_size.trans (h.size.trans run_size.symm), ?_⟩
  rw [hran.view, hran'.view, same_taken hdrawn, h.view]

end Command

end RespStore
