import RespStore.Proofs.Clients
import RespStore.Proofs.Command.Answer.Hash
import RespStore.Proofs.Command.Answer.String
import RespStore.Proofs.Command.OneKey
import RespStore.Proofs.History
import RespStore.Text.Fingerprint

/-!
# Counters

Integers that are kept as decimal texts, under keys or in the fields of hashes. Whatever the changes
are and whichever of them fail, a counter stands where exact arithmetic takes it.
-/

namespace RespStore

/-- A change of a counter. -/
inductive Counting where
  | incr
  | decr
  | incrBy (amount : Int64)
  | decrBy (amount : Int64)
  deriving DecidableEq, Repr

namespace Counting

variable {n : Int} {c : Counting} {cs : List Counting}

/-- What a change adds. -/
def delta : Counting → Int
  | incr => 1
  | decr => -1
  | incrBy amount => amount.toInt
  | decrBy amount => -amount.toInt

/-- Whether a counter at `n` can be changed. The least amount is never taken away, as 64 bits do not
hold its negative. -/
def Succeeds (n : Int) (c : Counting) : Prop :=
  c ≠ decrBy Int64.minValue ∧ IntFormat.int64.Fits (n + c.delta)

instance : Decidable (c.Succeeds n) := inferInstanceAs (Decidable (_ ∧ _))

/-- What a change of a counter at `n` comes to, unless it fails, and where the counter stands
then. -/
def count (n : Int) (c : Counting) : Option Int × Int :=
  if c.Succeeds n then (some (n + c.delta), n + c.delta) else (none, n)

/-- What the changes that succeeded have added. -/
def gained : List Counting → List (Option Int) → Int
  | c :: cs, result :: results => (if result.isSome then c.delta else 0) + gained cs results
  | _, _ => 0

/-- What is replied to a change. -/
def reply (result : Option Int) : Frame :=
  result.elim (.error StoreError.overflow.message) fun n => .integer (Int64.ofInt n)

def onKey (key : String) : Counting → StringCommand
  | incr => .incr key
  | decr => .decr key
  | incrBy amount => .incrBy key amount
  | decrBy amount => .decrBy key amount

theorem count_of_succeeds (h : c.Succeeds n) : c.count n = (some (n + c.delta), n + c.delta) :=
  if_pos h

theorem count_of_fails (h : ¬c.Succeeds n) : c.count n = (none, n) := if_neg h

theorem run_count_of_succeeds (h : c.Succeeds n) (cs : List Counting) :
    History.run count n (c :: cs) =
      (some (n + c.delta) :: (History.run count (n + c.delta) cs).1,
        (History.run count (n + c.delta) cs).2) := by
  rw [History.run, count_of_succeeds h]

theorem run_count_of_fails (h : ¬c.Succeeds n) (cs : List Counting) :
    History.run count n (c :: cs) =
      (none :: (History.run count n cs).1, (History.run count n cs).2) := by
  rw [History.run, count_of_fails h]

/-- A counter ends at the sum of where it began and the changes that succeeded. -/
theorem run_count_snd (n : Int) (cs : List Counting) :
    (History.run count n cs).2 = n + gained cs (History.run count n cs).1 := by
  induction cs generalizing n with
  | nil => exact (Int.add_zero n).symm
  | cons c cs ih =>
    by_cases h : c.Succeeds n
    · rw [run_count_of_succeeds h, ih, Int.add_assoc]
      rfl
    · rw [run_count_of_fails h, ih, gained, Option.isSome_none, if_neg Bool.false_ne_true,
        Int.zero_add]

/-- Changes that all fail leave a counter where it is. -/
theorem run_count_snd_of_fails (h : (History.run count n cs).1.any (·.isSome) = false) :
    (History.run count n cs).2 = n := by
  induction cs with
  | nil => rfl
  | cons c cs ih =>
    by_cases hc : c.Succeeds n
    · rw [run_count_of_succeeds hc] at h
      cases h
    · rw [run_count_of_fails hc] at h ⊢
      exact ih h

/-- Every result is a 64-bit integer. -/
theorem fits_of_mem_run_count {r : Int} (h : some r ∈ (History.run count n cs).1) :
    IntFormat.int64.Fits r := by
  induction cs generalizing n with
  | nil => cases h
  | cons c cs ih =>
    by_cases hc : c.Succeeds n
    · rw [run_count_of_succeeds hc] at h
      rcases List.mem_cons.mp h with hr | hr
      · cases hr
        exact hc.2
      · exact ih hr
    · rw [run_count_of_fails hc] at h
      exact ih ((List.mem_cons.mp h).resolve_left nofun)

end Counting

/-! ## Places of counters -/

/-- A place for an integer in the entry of a key, which has to be readable to be changed. -/
structure Counter where
  /-- Where the counter stands, if there is an integer. -/
  stands : Option Entry → Option Int
  /-- The content with another integer. -/
  content : Option Entry → Int → Content
  stands_content : ∀ slot m n t, stands slot = some m → IntFormat.int64.Fits n →
    stands (some ⟨content slot n, t⟩) = some n
  content_content : ∀ slot l m n t, stands slot = some l →
    content (some ⟨content slot m, t⟩) n = content slot n
  isEmpty_content : ∀ slot n, (content slot n).isEmpty = false

namespace Counter

variable {x : Counter} {slot : Option Entry} {m n : Int} {results : List (Option Int)}

def put (x : Counter) (slot : Option Entry) (n : Int) : Option Entry :=
  some ⟨x.content slot n, slot.bind (·.expiresAt)⟩

/-- What changes leave of an entry: a new integer, or the same entry if all of them failed. -/
def left (x : Counter) (slot : Option Entry) (results : List (Option Int)) (n : Int) :
    Option Entry :=
  if results.any (·.isSome) then x.put slot n else slot

theorem put_put (h : x.stands slot = some n) (l m : Int) :
    x.put (x.put slot l) m = x.put slot m := by
  rw [put, put, x.content_content slot n l m _ h]
  rfl

/-- What is left of an entry shows when the entry does. -/
theorem filter_left {now : Nat} (h : slot.filter (·.isLive now) = slot) :
    (x.left slot results n).filter (·.isLive now) = x.left slot results n := by
  unfold left
  split
  · refine Option.filter_eq_some_iff.mpr ⟨rfl, ?_⟩
    cases slot with
    | none => rfl
    | some e => exact (Option.filter_eq_some_iff.mp h).2
  · exact h

/-- Changes leave of what one change has left what all of them leave. -/
theorem left_left {c : Counting} {cs : List Counting} (h : x.stands slot = some n) :
    let one := c.count n
    let others := History.run Counting.count one.2 cs
    x.left (x.left slot [one.1] one.2) others.1 others.2 =
      x.left slot (one.1 :: others.1) others.2 := by
  by_cases hc : c.Succeeds n
  · rw [Counting.count_of_succeeds hc]
    show x.left (x.put slot (n + c.delta)) _ _ = x.put slot _
    unfold left
    split
    · exact put_put h _ _
    · next hnone => rw [Counting.run_count_snd_of_fails (Bool.eq_false_iff.mpr hnone)]
  · rw [Counting.count_of_fails hc]
    rfl

theorem stands_left {c : Counting} (h : x.stands slot = some n) :
    x.stands (x.left slot [(c.count n).1] (c.count n).2) = some (c.count n).2 := by
  by_cases hc : c.Succeeds n
  · rw [Counting.count_of_succeeds hc]
    exact x.stands_content slot n _ _ h hc.2
  · rw [Counting.count_of_fails hc]
    exact h

end Counter

/-- Runs a command at a time, in a session that it does not change. -/
def Command.runAt [Digest String] [Matcher] (s : Session) (k : Keyspace) (p : Nat × Command) :
    Frame × Keyspace :=
  let e := p.2.run p.1 s k
  (e.reply, e.keyspace)

namespace Counter

variable [Digest String] [Matcher] {ε : Type} {x : Counter} {s : Session} {key : String}
  {command : ε → Command} {change : ε → Counting}

/-- A command changes a counter under a key as exact arithmetic does, and nothing else. -/
def Steps (x : Counter) (s : Session) (key : String) (command : ε → Command)
    (change : ε → Counting) : Prop :=
  ∀ (k : Keyspace) slot n now e, k.store.WF → s.selected < k.store.size →
    k.store.view now s.selected key = slot → x.stands slot = some n →
    let ran := (command e).run now s k
    let one := (change e).count n
    ran.reply = Counting.reply one.1 ∧ ran.keyspace.store.WF ∧
      ∀ t, k.store.view t s.selected key = slot → ran.keyspace.store.view t =
        View.replace (k.store.view t) s.selected key (x.left slot [one.1] one.2)

/-- Commands that run one after the other, each at a time at which the entry of the key still shows
or its absence does, reply the exact results, and leave the exact sum of where the counter began and
the changes that succeeded. -/
def Exact (x : Counter) (s : Session) (k : Keyspace) (key : String) (command : ε → Command)
    (change : ε → Counting) : Prop :=
  ∀ slot n (steps : List (Nat × ε)), x.stands slot = some n →
    (∀ p ∈ steps, k.store.view p.1 s.selected key = slot) →
    let ran := History.run (Command.runAt s) k (steps.map fun p => (p.1, command p.2))
    let changes := steps.map fun p => change p.2
    let counted := History.run Counting.count n changes
    ran.1 = counted.1.map Counting.reply ∧
      (∀ r, some r ∈ counted.1 → (Int64.ofInt r).toInt = r) ∧
      counted.2 = n + Counting.gained changes counted.1 ∧
      ∀ t, k.store.view t s.selected key = slot → ran.2.store.view t =
        View.replace (k.store.view t) s.selected key (x.left slot counted.1 counted.2)

theorem Steps.run (h : x.Steps s key command change) {k : Keyspace} (hk : k.store.WF)
    (hs : s.selected < k.store.size) {slot : Option Entry} {n : Int} (hn : x.stands slot = some n)
    {steps : List (Nat × ε)} (hsteps : ∀ p ∈ steps, k.store.view p.1 s.selected key = slot) :
    let ran := History.run (Command.runAt s) k (steps.map fun p => (p.1, command p.2))
    let counted := History.run Counting.count n (steps.map fun p => change p.2)
    ran.1 = counted.1.map Counting.reply ∧
      ∀ t, k.store.view t s.selected key = slot → ran.2.store.view t =
        View.replace (k.store.view t) s.selected key (x.left slot counted.1 counted.2) := by
  induction steps generalizing k slot n with
  | nil =>
    refine ⟨rfl, fun t ht => ?_⟩
    subst ht
    exact (View.replace_self _ _ key).symm
  | cons p steps ih =>
    obtain ⟨hnow, hrest⟩ := List.forall_mem_cons.mp hsteps
    obtain ⟨hreply, hwf, hview⟩ := h k slot n p.1 p.2 hk hs hnow hn
    have hshows : ∀ t, k.store.view t s.selected key = slot →
        ((command p.2).run p.1 s k).keyspace.store.view t s.selected key =
          x.left slot [((change p.2).count n).1] ((change p.2).count n).2 := by
      intro t ht
      rw [hview t ht, View.replace_apply]
    obtain ⟨hreplies, hviews⟩ := ih hwf (hs.trans_eq Command.run_size.symm) (stands_left hn)
      fun q hq => hshows q.1 (hrest q hq)
    refine ⟨congr (congrArg List.cons hreply) hreplies, fun t ht => ?_⟩
    refine (hviews t (hshows t ht)).trans ?_
    rw [hview t ht, left_left hn, View.replace_replace]
    rfl

theorem Steps.exact (h : x.Steps s key command change) {k : Keyspace} (hk : k.store.WF)
    (hs : s.selected < k.store.size) : x.Exact s k key command change := by
  intro slot n steps hn hsteps ran changes counted
  obtain ⟨hreplies, hviews⟩ := h.run hk hs hn hsteps
  exact ⟨hreplies, fun r hr => toInt_ofInt_of_fits (Counting.fits_of_mem_run_count hr),
    Counting.run_count_snd n changes, hviews⟩

end Counter

/-! ## Strings and fields of hashes -/

theorem parse?_ofInt_of_fits {n : Int} (h : IntFormat.int64.Fits n) :
    IntFormat.int64.parse? (Decimal.ofInt n) = some n := by
  rw [IntFormat.int64_parse?_ofInt, IntFormat.check?, if_pos h]

namespace Counter

/-- The string under a key, which counts from zero if the key is absent. -/
def string : Counter where
  stands := Change.read Content.integer? (some 0)
  content := fun _ n => .string (Decimal.ofInt n)
  stands_content := fun _ _ _ _ _ h => parse?_ofInt_of_fits h
  content_content := fun _ _ _ _ _ _ => rfl
  isEmpty_content := fun _ _ => rfl

/-- A field of the hash under a key. A key that is absent has no fields, and a field that is absent
counts from zero. -/
def field (name : String) : Counter where
  stands := fun slot => (Change.read Content.hash? (some ∅) slot).bind fun fields =>
    (fields.lookup name).elim (some 0) IntFormat.int64.parse?
  content := fun slot n => .hash
    (((Change.read Content.hash? (some ∅) slot).getD ∅).insert name (Decimal.ofInt n))
  stands_content := fun _ _ _ _ _ h => by
    simp only [Change.read, Option.elim_some, Content.hash?, Option.bind_some,
      Finmap.lookup_insert, parse?_ofInt_of_fits h]
  content_content := fun _ _ _ _ _ _ => congrArg Content.hash (Finmap.insert_insert _)
  isEmpty_content := fun _ _ => Content.isEmpty_hash_insert ..

variable {α : Type} {x : Counter} {slot : Option Entry} {n : Int} {c : Counting}
  {results : List (Option Int)} {get : Content → Option α} {absent : Option α}
  {f : α → Option Content} {y : α}

/-- An edit that adds within 64 bits changes a counter. -/
theorem edit_eq_left (hread : Change.read get absent slot = some y)
    (hf : f y = (IntFormat.int64.add? n c.delta).map (x.content slot))
    (hc : c ≠ .decrBy Int64.minValue) :
    Change.edit get absent f slot = x.left slot [(c.count n).1] (c.count n).2 := by
  by_cases hfits : IntFormat.int64.Fits (n + c.delta)
  · rw [IntFormat.add?, IntFormat.check?, if_pos hfits] at hf
    rw [Change.edit_of_some hread hf, Counting.count_of_succeeds ⟨hc, hfits⟩, Entry.store,
      x.isEmpty_content]
    rfl
  · rw [IntFormat.add?, IntFormat.check?, if_neg hfits] at hf
    rw [Change.edit_of_refused hread hf, Counting.count_of_fails fun h => hfits h.2]
    rfl

theorem incrBy_eq_left {slot : Option Entry} (hn : string.stands slot = some n)
    (hc : c ≠ .decrBy Int64.minValue) :
    Change.incrBy c.delta slot = string.left slot [(c.count n).1] (c.count n).2 :=
  edit_eq_left hn rfl hc

theorem incrField_eq_left {name : String} {slot : Option Entry}
    (hn : (field name).stands slot = some n) (hc : c ≠ .decrBy Int64.minValue) :
    Change.incrField name c.delta slot = (field name).left slot [(c.count n).1] (c.count n).2 := by
  obtain ⟨fields, hfields, hlookup⟩ := Option.bind_eq_some_iff.mp hn
  have hcontent : (field name).content slot = fun m =>
      .hash (fields.insert name (Decimal.ofInt m)) := by
    funext m
    simp only [field, hfields, Option.getD_some]
  refine edit_eq_left hfields ?_ hc
  rw [hcontent, Change.fieldSum?, hlookup, Option.bind_some]

/-- What is left of an entry shows at any time at which the entry does. -/
theorem write_left {v : View} {t : Nat} {key : String} (h : v.Live t) :
    v.write t key (x.left (v key) results n) =
      Function.update v key (x.left (v key) results n) := by
  rw [View.write, filter_left (h.filter_eq key)]

end Counter

/-! ## Commands on counters -/

namespace Counting

variable {n : Int} {c : Counting} {slot : Option Entry}

theorem sumReply_eq (hc : c ≠ decrBy Int64.minValue) :
    StringCommand.sumReply c.delta n = reply (c.count n).1 := by
  unfold StringCommand.sumReply
  by_cases hfits : IntFormat.int64.Fits (n + c.delta)
  · rw [count_of_succeeds ⟨hc, hfits⟩, IntFormat.add?, IntFormat.check?, if_pos hfits]
    rfl
  · rw [count_of_fails fun h => hfits h.2, IntFormat.add?, IntFormat.check?, if_neg hfits]
    rfl

theorem incrAnswer_eq (hn : Counter.string.stands slot = some n)
    (hc : c ≠ decrBy Int64.minValue) :
    StringCommand.incrAnswer c.delta slot = reply (c.count n).1 := by
  rw [← sumReply_eq hc]
  cases slot with
  | none =>
    cases hn
    rfl
  | some e =>
    obtain ⟨bytes, hbytes, hparse⟩ := Option.bind_eq_some_iff.mp hn
    rw [StringCommand.incrAnswer, Entry.answer_of_some hbytes, hparse]
    rfl

theorem incrReply_eq {name : String} {fields : Finmap fun _ : String => Bytes}
    (hn : (fields.lookup name).elim (some 0) IntFormat.int64.parse? = some n)
    (hc : c ≠ decrBy Int64.minValue) :
    HashCommand.incrReply name c.delta fields = reply (c.count n).1 := by
  have hsum : HashCommand.incremented (fields.lookup name) c.delta =
      (IntFormat.int64.add? n c.delta).elim (.error .overflow) .ok := by
    unfold HashCommand.incremented
    cases hlookup : fields.lookup name with
    | none =>
      rw [hlookup] at hn
      cases hn
      dsimp only [pure, Except.pure, bind, Except.bind]
      cases IntFormat.int64.add? 0 c.delta <;> rfl
    | some bytes =>
      rw [hlookup] at hn
      simp only [show IntFormat.int64.parse? bytes = some n from hn]
      dsimp only [pure, Except.pure, bind, Except.bind]
      cases IntFormat.int64.add? n c.delta <;> rfl
  rw [← sumReply_eq hc, HashCommand.incrReply, hsum, StringCommand.sumReply]
  cases IntFormat.int64.add? n c.delta <;> rfl

end Counting

namespace Counter

variable [Digest String] {db : Db} {now t : Nat} {key : String} {c : Counting} {g : Draws}

/-- A change of a counter under a key of one database, as exact arithmetic has it. -/
def StepsIn (x : Counter) (now : Nat) (db : Db) (key : String) (c : Counting) (o : Outcome) :
    Prop :=
  ∀ n, x.stands (db.view now key) = some n →
    let one := c.count n
    o.reply = Counting.reply one.1 ∧ o.db.WF ∧
      ∀ t, db.view t key = db.view now key → o.db.view t =
        Function.update (db.view t) key (x.left (db.view now key) [one.1] one.2)

theorem runIncr_stepsIn (h : db.WF) (hc : c ≠ .decrBy Int64.minValue) :
    let ran := StringCommand.runIncr now db key c.delta
    string.StepsIn now db key c ⟨ran.1, ran.2, g⟩ := by
  intro ran n hn one
  refine ⟨?_, (StringCommand.runIncr_performs h c.delta).wf, fun t ht => ?_⟩
  · exact (StringCommand.runIncr_answer h c.delta).trans (Counting.incrAnswer_eq hn hc)
  · obtain ⟨f, hf, hedit⟩ := StringCommand.exists_incrBy_edit c.delta
    show (db.incrBy now key .int64 c.delta).2.view t = _
    rw [hedit, hf.view_edit h, incrBy_eq_left hn hc, ← ht, write_left Db.view_live]

theorem onKey_stepsIn [Matcher] (h : db.WF) (c : Counting) :
    string.StepsIn now db key c ((c.onKey key).run now db g) := by
  by_cases hc : c = .decrBy Int64.minValue
  · subst hc
    intro n _
    rw [Counting.count_of_fails fun hs => hs.1 rfl]
    refine ⟨rfl, h, fun t ht => ?_⟩
    show db.view t = Function.update (db.view t) key (db.view now key)
    rw [← ht, Function.update_eq_self]
  · cases c with
    | decrBy amount =>
      have hmin : amount ≠ Int64.minValue := fun hmin => hc (congrArg _ hmin)
      rw [Counting.onKey, StringCommand.run]
      simp only [if_neg hmin]
      exact runIncr_stepsIn h hc
    | _ => exact runIncr_stepsIn h hc

theorem incrBy_stepsIn (h : db.WF) (name : String) (amount : Int64) :
    (field name).StepsIn now db key (.incrBy amount)
      ((HashCommand.incrBy key name amount).run now db g) := by
  intro n hn one
  have hc : Counting.incrBy amount ≠ .decrBy Int64.minValue := nofun
  refine ⟨?_, (HashCommand.run_performs h g (.incrBy key name amount) trivial).wf, fun t ht => ?_⟩
  · obtain ⟨fields, hfields, hlookup⟩ := Option.bind_eq_some_iff.mp hn
    rw [HashCommand.run_answer h g (.incrBy key name amount) rfl, HashCommand.answer,
      Entry.answer_of_read hfields rfl]
    exact Counting.incrReply_eq (c := .incrBy amount) hlookup hc
  · show (HashCommand.runIncrBy now db key name amount.toInt).2.view t = _
    have hrespects := HashCommand.incrField_respects name amount.toInt
    have hleft := incrField_eq_left hn hc
    rw [Counting.delta] at hleft
    rw [HashCommand.runIncrBy, hrespects.view_replying h, hleft, ← ht, write_left Db.view_live]

/-- What holds of one database holds of it among the others. -/
theorem Steps.of_stepsIn [Matcher] {ε : Type} {x : Counter} {s : Session} {command : ε → Command}
    {change : ε → Counting} {f : ε → Nat → Db → Draws → Outcome}
    (hf : ∀ e now (k : Keyspace), (command e).run now s k = Command.inDb s k (f e now))
    (h : ∀ e now (db : Db) g, db.WF → x.StepsIn now db key (change e) (f e now db g)) :
    x.Steps s key command change := by
  intro k slot n now e hk hs hslot hn ran one
  have hran : ran = Command.inDb s k (f e now) := hf e now k
  subst hslot
  obtain ⟨hreply, hwf, hview⟩ := h e now (k.store.db s.selected) k.draws (hk _) n hn
  rw [hran]
  refine ⟨hreply, hk.setDb hs hwf, fun t ht => ?_⟩
  show (k.store.setDb s.selected _).view t = _
  rw [Store.view_setDb hs, hview t ht]
  rfl

end Counter

/-- Counters are exact, whether they are strings or fields of hashes. -/
theorem Command.counters_exact [Digest String] [Matcher] {s : Session} {k : Keyspace} (h : k.store.WF)
    (hs : s.selected < k.store.size) (key : String) :
    Counter.string.Exact s k key (fun c => .string (c.onKey key)) id ∧
      ∀ name, (Counter.field name).Exact s k key
        (fun amount => .hash (.incrBy key name amount)) .incrBy := by
  refine ⟨?_, fun name => ?_⟩
  · refine (Counter.Steps.of_stepsIn (f := fun c now db g => (c.onKey key).run now db g)
      (fun _ _ _ => rfl) fun c now db g hw => ?_).exact h hs
    exact Counter.onKey_stepsIn hw c
  · refine (Counter.Steps.of_stepsIn
      (f := fun amount now db g => (HashCommand.incrBy key name amount).run now db g)
      (fun _ _ _ => rfl) fun amount now db g hw => ?_).exact h hs
    exact Counter.incrBy_stepsIn hw name amount

namespace Clients

/-- A string with a deadline that reads as an integer, though it is not written as one. -/
def counting : Clients :=
  (new 1 ⟨fun _ => 0, 0⟩).request 0 5 (.ofList .text ["SET", "n", "+007", "PX", "1000"])

/-- Two of four changes of a string are beyond 64 bits, and one of two of a new field. -/
theorem counting_exact :
    let k := counting.keyspace
    let s := counting.sessions 0
    let ran := History.run (Command.runAt s) k
    let overflow := Frame.error StoreError.overflow.message
    k.store.WF ∧ s.selected < k.store.size ∧
      k.store.view 9 s.selected "n" = some ⟨.string [43, 48, 48, 55], some 1005⟩ ∧
      (ran [(7, .string (.incr "n")), (8, .string (.incrBy "n" Int64.maxValue)),
        (8, .string (.decrBy "n" Int64.minValue)), (9, .string (.decr "n"))]).1 =
          [.integer 8, overflow, overflow, .integer 7] ∧
      (ran [(7, .string (.incr "n")), (8, .string (.incrBy "n" Int64.maxValue)),
        (8, .string (.decrBy "n" Int64.minValue)), (9, .string (.decr "n"))]).2.store.view 9 =
          View.replace (k.store.view 9) s.selected "n" (some ⟨.string [55], some 1005⟩) ∧
      (ran [(7, .hash (.incrBy "h" "f" Int64.minValue)), (8, .hash (.incrBy "h" "f" (-1)))]).1 =
        [.integer Int64.minValue, overflow] := by
  intro k s ran overflow
  have hreachable : Reachable 1 counting := (Reachable.new _).request 0 5 _
  have hwf : k.store.WF := hreachable.sound.wf
  have hs : s.selected < k.store.size := hreachable.sound.selected_lt 0
  have hviews : ∀ t ∈ [7, 8, 9],
      k.store.view t s.selected "n" = some ⟨.string [43, 48, 48, 55], some 1005⟩ ∧
        k.store.view t s.selected "h" = none := by decide +kernel
  have hview : k.store.view 9 s.selected "n" = some ⟨.string [43, 48, 48, 55], some 1005⟩ :=
    (hviews 9 (by decide)).1
  have hcounted : History.run Counting.count 7
      [.incr, .incrBy Int64.maxValue, .decrBy Int64.minValue, .decr] =
      ([some 8, none, none, some 7], 7) := by decide
  have hwritten : Counter.string.left (some ⟨.string [43, 48, 48, 55], some 1005⟩)
      [some 8, none, none, some 7] 7 = some ⟨.string [55], some 1005⟩ := by decide +kernel
  have hfield : History.run Counting.count 0 [.incrBy Int64.minValue, .incrBy (-1)] =
      ([some (-9223372036854775808), none], -9223372036854775808) := by decide
  obtain ⟨hreplies, -, -, hleft⟩ := (Command.counters_exact hwf hs "n").1
    (some ⟨.string [43, 48, 48, 55], some 1005⟩) 7
    [(7, .incr), (8, .incrBy Int64.maxValue), (8, .decrBy Int64.minValue), (9, .decr)]
    (by decide) (fun p hp => (hviews p.1 (by revert p; decide)).1)
  obtain ⟨hfields, -⟩ := (Command.counters_exact hwf hs "h").2 "f" none 0
    [(7, Int64.minValue), (8, -1)] (by decide) (fun p hp => (hviews p.1 (by revert p; decide)).2)
  refine ⟨hwf, hs, hview, hreplies.trans ?_, (hleft 9 hview).trans ?_, hfields.trans ?_⟩
  · exact congrArg (fun p => p.1.map Counting.reply) hcounted
  · refine congrArg (View.replace (k.store.view 9) s.selected "n") ?_
    exact (congrArg (fun p => Counter.string.left _ p.1 p.2) hcounted).trans hwritten
  · exact congrArg (fun p => p.1.map Counting.reply) hfield

end Clients

end RespStore
