import RespStore.Proofs.Command.Answer.Hash
import RespStore.Proofs.Command.Answer.Key
import RespStore.Proofs.Command.Answer.Set
import RespStore.Proofs.Command.Named
import RespStore.Proofs.Elements
import RespStore.Proofs.IndexRanges
import RespStore.Proofs.Insertions
import RespStore.Proofs.Occurrences

/-!
# Replies that count

A command that adds elements to a collection or takes some away replies how many more or fewer there
are, whichever arguments it repeats. A deletion replies how many keys fewer there are.
-/

namespace RespStore

namespace Entry

/-- How many elements the collection of a key has. A key that is absent has none. -/
def size (slot : Option Entry) : Nat := (slot.bind (·.content.card?)).getD 0

theorem size_store (slot : Option Entry) (c : Content) : size (store slot c) = c.card?.getD 0 := by
  unfold store
  cases hc : c.isEmpty with
  | true =>
    rw [Content.isEmpty_iff.mp hc]
    rfl
  | false => rfl

end Entry

/-- A kind of collections: how they are read, and how many elements they have. -/
structure CollectionKind where
  Elements : Type
  get : Content → Option Elements
  empty : Elements
  card : Elements → Nat
  card_empty : card empty = 0
  card?_eq : ∀ c x, get c = some x → c.card? = some (card x)

namespace CollectionKind

def list : CollectionKind where
  Elements := List Bytes
  get := Content.list?
  empty := []
  card := List.length
  card_empty := rfl
  card?_eq := by
    rintro (_ | _ | _ | _ | _) _ ⟨⟩
    rfl

def hash : CollectionKind where
  Elements := Finmap fun _ : String => Bytes
  get := Content.hash?
  empty := ∅
  card := fun fields => fields.keys.card
  card_empty := rfl
  card?_eq := by
    rintro (_ | _ | _ | _ | _) _ ⟨⟩
    rfl

def set : CollectionKind where
  Elements := Finset String
  get := Content.set?
  empty := ∅
  card := Finset.card
  card_empty := rfl
  card?_eq := by
    rintro (_ | _ | _ | _ | _) _ ⟨⟩
    rfl

def sortedSet : CollectionKind where
  Elements := List Element
  get := Content.sortedSet?
  empty := []
  card := List.length
  card_empty := rfl
  card?_eq := by
    rintro (_ | _ | _ | _ | _) _ ⟨⟩
    rfl

variable {K : CollectionKind} {slot : Option Entry} {x : K.Elements}

/-- The elements of a key that is absent or has a collection of the kind. -/
def read? (K : CollectionKind) (slot : Option Entry) : Option K.Elements :=
  Change.read K.get (some K.empty) slot

theorem size_eq (h : K.read? slot = some x) : Entry.size slot = K.card x := by
  cases slot with
  | none =>
    cases h
    exact K.card_empty.symm
  | some e =>
    show e.content.card?.getD 0 = _
    rw [K.card?_eq e.content x h]
    rfl

end CollectionKind

namespace Command

/-- The collection to which a command adds, if its reply counts what it has added. -/
def gains? : Command → Option (String × CollectionKind)
  | set (.add name _) => some (name, .set)
  | hash (.set name _) => some (name, .hash)
  | sortedSet (.add name options _) => if options.changed then none else some (name, .sortedSet)
  | _ => none

/-- The collection from which a command takes away, if its reply counts what it has taken. -/
def loses? : Command → Option (String × CollectionKind)
  | set (.remove name _) => some (name, .set)
  | hash (.del name _) => some (name, .hash)
  | list (.remove name _ _) => some (name, .list)
  | sortedSet (.remove name _) => some (name, .sortedSet)
  | sortedSet (.removeByScore name _) => some (name, .sortedSet)
  | sortedSet (.removeByRank name _ _) => some (name, .sortedSet)
  | _ => none

/-- What a command is to insert into a sorted set. -/
def insertion? : Command → Option (String × InsertOptions × List (Binary64 × String))
  | sortedSet (.add name options entries) => some (name, options, entries)
  | _ => none

theorem eq_of_insertion? {c : Command} {key : String} {options : InsertOptions}
    {entries : List (Binary64 × String)} (h : c.insertion? = some (key, options, entries)) :
    c = sortedSet (.add key options entries) := by
  unfold insertion? at h
  split at h <;> cases h
  rfl

variable [Digest String] [Matcher] {now : Nat} {s : Session} {k : Keyspace} {c : Command}
  {popped : List String} {e : Effect} {key : String} {K : CollectionKind}

/-- What an effect has made of a collection: its reply counts how the size has changed, or tells that
the key has something else, which is then left as it is. -/
def Tallies (now : Nat) (s : Session) (k : Keyspace) (e : Effect) (key : String)
    (K : CollectionKind) (changes : Nat → Nat → Nat → Prop) : Prop :=
  let before := k.store.view now s.selected key
  let after := e.keyspace.store.view now s.selected key
  (∀ x, K.read? before = some x →
    ∃ n, e.reply = .count n ∧ changes (Entry.size before) (Entry.size after) n) ∧
  (K.read? before = none →
    e.reply = .wrongType ∧ e.keyspace.store.view now = k.store.view now)

omit [Matcher] in
/-- An edit tallies if its reply is worked out from the elements that it finds. -/
theorem Ran.tallies (h : Ran now s k c popped e) (hflush : c.isFlushAll = false)
    {absent : Option K.Elements} {F : K.Elements → Content} {f : K.Elements → Frame}
    {none' : Frame} {changes : Nat → Nat → Nat → Prop}
    (hwrite : c.write now popped = .change key (Change.edit K.get absent fun x => some (F x)))
    (hreply : e.reply = Entry.answer K.get none' f (k.store.view now s.selected key))
    (hnone : none' = f K.empty)
    (habsent : absent = some K.empty ∨ absent = none ∧ (F K.empty).isEmpty = true)
    (hcounts : ∀ x, K.read? (k.store.view now s.selected key) = some x →
      ∃ n, f x = .count n ∧ changes (K.card x) ((F x).card?.getD 0) n) :
    Tallies now s k e key K changes := by
  constructor
  · intro x hx
    obtain ⟨n, hn, hchanges⟩ := hcounts x hx
    refine ⟨n, (hreply.trans (Entry.answer_of_read hx hnone)).trans hn, ?_⟩
    rw [h.view_edit hflush hwrite habsent hx, View.replace_apply, Entry.size_store,
      CollectionKind.size_eq hx]
    exact hchanges
  · intro hread
    cases hslot : k.store.view now s.selected key with
    | none =>
      rw [hslot] at hread
      cases hread
    | some old =>
      rw [hslot] at hread hreply
      rw [Entry.answer_of_none hread] at hreply
      exact ⟨hreply, (h.refused _ hreply).1⟩

/-! ## Gains -/

/-- The size after is the size before and what is counted. -/
def Gain (before after n : Nat) : Prop := after = before + n

omit [Digest String] [Matcher] in
theorem gain_union (a b : Finset String) : Gain a.card (a ∪ b).card (b \ a).card := by
  rw [Gain, Finset.union_comm, ← Finset.card_sdiff_add_card, Nat.add_comm]

omit [Digest String] [Matcher] in
theorem gain_putAll (pairs : List (String × Bytes)) (fields : Finmap fun _ : String => Bytes) :
    Gain fields.keys.card (pairs.foldl (fun m e => m.insert e.1 e.2) fields).keys.card
      ((pairs.map (·.1)).toFinset \ fields.keys).card := by
  rw [Dict.keys_foldl_insert]
  exact gain_union _ _

variable (now) in
theorem add_tallies (h : k.store.WF) (hs : s.selected < k.store.size) {members : List String}
    (hp : (set (.add key members)).Proper) :
    Tallies now s k ((set (.add key members)).run now s k) key .set Gain := by
  refine (run_ran now h hs hp nofun).tallies rfl
    (F := fun m : Finset String => .set (m ∪ members.toFinset)) rfl
    (SetCommand.run_answer (h _) k.draws (.add key members) rfl) ?_ (.inl rfl)
    fun m _ => ⟨_, rfl, ?_⟩
  · exact congrArg (fun m => Frame.count (Finset.card m)) (Finset.sdiff_empty ..).symm
  · exact gain_union m _

variable (now) in
theorem putFields_tallies (h : k.store.WF) (hs : s.selected < k.store.size)
    {pairs : List (String × Bytes)} (hp : (hash (.set key pairs)).Proper) :
    Tallies now s k ((hash (.set key pairs)).run now s k) key .hash Gain := by
  refine (run_ran now h hs hp nofun).tallies rfl
    (F := fun fields : Finmap _ => .hash (pairs.foldl (fun m e => m.insert e.1 e.2) fields)) rfl
    (HashCommand.run_answer (h _) k.draws (.set key pairs) rfl) ?_ (.inl rfl)
    fun fields _ => ⟨_, rfl, ?_⟩
  · exact congrArg (fun m => Frame.count (Finset.card m)) (Finset.sdiff_empty ..).symm
  · exact gain_putAll pairs fields

omit [Matcher] in
/-- The members of a sorted set that shows are distinct. -/
theorem keysNodup_of_elements? {db : Db} (h : db.WF) {es : List Element}
    (hes : (db.view now).elements? key = some es) : KeysNodup es := by
  rcases SortedSetCommand.members_reads (h.slot now key) with ⟨t, -, hw, hread⟩ | ⟨-, hread⟩
  · obtain rfl := Option.some.inj (hes.symm.trans hread)
    exact hw.keysNodup
  · cases hes.symm.trans hread

omit [Digest String] [Matcher] in
/-- An insertion leaves an absent key alone if it can only move members. -/
theorem putScores_absent (options : InsertOptions) (entries : List (Binary64 × String)) :
    let absent : Option (List Element) := if options.onlyExisting then none else some []
    absent = some [] ∨ absent = none ∧
      (Content.sortedSet (entries.foldl (Element.putIf options) [])).isEmpty = true := by
  intro absent
  cases hexisting : options.onlyExisting with
  | true =>
    refine .inr ⟨if_pos hexisting, ?_⟩
    rw [Element.foldl_putIf_nil hexisting]
    rfl
  | false => exact .inl (if_neg (by rw [hexisting]; exact Bool.false_ne_true))

variable (now) in
theorem putScores_tallies (h : k.store.WF) (hs : s.selected < k.store.size)
    {options : InsertOptions} (hoptions : options.changed = false)
    {entries : List (Binary64 × String)} (hp : (sortedSet (.add key options entries)).Proper) :
    Tallies now s k ((sortedSet (.add key options entries)).run now s k) key .sortedSet Gain := by
  refine (run_ran now h hs hp nofun).tallies rfl
    (F := fun es : List Element => .sortedSet (entries.foldl (Element.putIf options) es)) rfl
    (SortedSetCommand.run_answer (h _) k.draws (.add key options entries) hp) ?_
    (putScores_absent options entries) fun es hes => ⟨_, rfl, ?_⟩
  · refine congrArg Frame.count ?_
    split
    · next hexisting =>
      have hnil : KeysNodup ([] : List Element) := List.nodup_nil
      have hlength := Element.length_foldl_putIf hnil hoptions entries
      rw [Element.foldl_putIf_nil hexisting] at hlength
      exact hlength.trans (Nat.zero_add _)
    · rfl
  · exact Element.length_foldl_putIf (keysNodup_of_elements? (h s.selected) hes) hoptions entries

omit [Digest String] [Matcher] in
/-- What a sorted set has after it has been stored, whether a key is left or not. -/
theorem read?_store_sortedSet (slot : Option Entry) (es : List Element) :
    CollectionKind.sortedSet.read? (Entry.store slot (.sortedSet es)) = some es := by
  cases es <;> rfl

variable (now) in
/-- What an insertion leaves of the scores, and of a key that is absent. -/
theorem add_inserts (h : k.store.WF) (hs : s.selected < k.store.size) {options : InsertOptions}
    {entries : List (Binary64 × String)} (hp : (sortedSet (.add key options entries)).Proper)
    {es : List Element} (hes : (k.store.view now s.selected).elements? key = some es) :
    let after :=
      ((sortedSet (.add key options entries)).run now s k).keyspace.store.view now s.selected
    ∃ es', after.elements? key = some es' ∧ Element.Inserts options entries es es' ∧
      (options.onlyExisting = true → k.store.view now s.selected key = none →
        after key = none) := by
  intro after
  have hview := (run_ran now h hs hp nofun).view_edit rfl
    (F := fun es : List Element => .sortedSet (entries.foldl (Element.putIf options) es)) rfl
    (putScores_absent options entries) hes
  have hafter : after key = Entry.store (k.store.view now s.selected key)
      (.sortedSet (entries.foldl (Element.putIf options) es)) :=
    (congrFun (congrFun hview s.selected) key).trans (View.replace_apply ..)
  refine ⟨_, ?_, Element.inserts_foldl_putIf (keysNodup_of_elements? (h _) hes) options hp, ?_⟩
  · rw [View.elements?, hafter]
    exact read?_store_sortedSet _ _
  · intro hexisting hnone
    rw [View.elements?, hnone] at hes
    cases hes
    rw [hafter, Element.foldl_putIf_nil hexisting]
    rfl

/-! ## Losses -/

/-- The size before is the size after and what is counted. -/
def Loss (before after n : Nat) : Prop := after + n = before

omit [Digest String] [Matcher] in
theorem loss_sdiff (a b : Finset String) : Loss a.card (a \ b).card (a ∩ b).card :=
  Finset.card_sdiff_add_card_inter a b

omit [Digest String] [Matcher] in
theorem loss_removeAll (names : List String) (fields : Finmap fun _ : String => Bytes) :
    Loss fields.keys.card (names.foldl (fun m k => m.erase k) fields).keys.card
      (fields.keys ∩ names.toFinset).card := by
  rw [Dict.keys_foldl_erase]
  exact loss_sdiff _ _

variable (now) in
theorem removeMembers_tallies (h : k.store.WF) (hs : s.selected < k.store.size)
    (members : List String) :
    Tallies now s k ((set (.remove key members)).run now s k) key .set Loss := by
  refine (run_ran now (c := set (.remove key members)) h hs trivial nofun).tallies rfl
    (F := fun m : Finset String => .set (m \ members.toFinset)) rfl
    (SetCommand.run_answer (h _) k.draws (.remove key members) rfl) ?_ (.inr ⟨rfl, ?_⟩)
    fun m _ => ⟨_, rfl, ?_⟩
  · exact congrArg (fun m => Frame.count (Finset.card m)) (Finset.empty_inter _).symm
  · exact decide_eq_true (Finset.empty_sdiff _)
  · exact loss_sdiff m _

variable (now) in
theorem removeFields_tallies (h : k.store.WF) (hs : s.selected < k.store.size)
    (names : List String) :
    Tallies now s k ((hash (.del key names)).run now s k) key .hash Loss := by
  refine (run_ran now (c := hash (.del key names)) h hs trivial nofun).tallies rfl
    (F := fun fields : Finmap _ => .hash (names.foldl (fun m k => m.erase k) fields)) rfl
    (HashCommand.run_answer (h _) k.draws (.del key names) rfl) ?_ (.inr ⟨rfl, ?_⟩)
    fun fields _ => ⟨_, rfl, ?_⟩
  · exact congrArg (fun m => Frame.count (Finset.card m)) (Finset.empty_inter _).symm
  · refine decide_eq_true (Dict.eq_empty_iff_keys.mpr ?_)
    exact (Dict.keys_foldl_erase names ∅).trans (Finset.empty_sdiff _)
  · exact loss_removeAll names fields

variable (now) in
theorem removeItem_tallies (h : k.store.WF) (hs : s.selected < k.store.size) (count : Int64)
    (value : Bytes) :
    Tallies now s k ((list (.remove key count value)).run now s k) key .list Loss := by
  have hnil : LinkedList.eraseValues [] value count.toInt = (0, []) := by
    simp [LinkedList.eraseValues]
  refine (list_ran now (c := .remove key count value) h hs trivial).tallies rfl
    (F := fun items : List Bytes => .list (LinkedList.eraseValues items value count.toInt).2) rfl
    (list_reply h (.remove key count value)) ?_ (.inr ⟨rfl, ?_⟩) fun items _ => ⟨_, rfl, ?_⟩
  · exact congrArg (fun p => Frame.count p.1) hnil.symm
  · exact congrArg (fun p => p.2.isEmpty) hnil
  · exact LinkedList.length_eraseValues_add items value count.toInt

/-- What keeps of a sorted set no more elements than it has. -/
theorem keepScores_tallies (h : k.store.WF) (hs : s.selected < k.store.size)
    {c : SortedSetCommand} (hp : c.Proper) {f : List Element → List Element}
    (hf : ∀ es, (f es).length ≤ es.length) (hwrite : c.write = .change key (.keepScores f))
    (hanswer : ∀ v, c.answer v = Entry.answer Content.sortedSet? (.count 0)
      (SortedSetCommand.removedReply f) (v key)) :
    Tallies now s k ((sortedSet c).run now s k) key .sortedSet Loss := by
  have hnil : f [] = [] := List.eq_nil_of_length_eq_zero (Nat.le_zero.mp (hf []))
  refine (sortedSet_ran now h hs hp).tallies (K := .sortedSet) rfl
    (F := fun es : List Element => .sortedSet (f es)) hwrite
    ((SortedSetCommand.run_answer (h _) k.draws c hp).trans (hanswer _)) ?_ (.inr ⟨rfl, ?_⟩)
    fun es _ => ⟨_, rfl, ?_⟩
  · exact congrArg (fun es => Frame.count (0 - List.length es)) hnil.symm
  · exact congrArg List.isEmpty hnil
  · exact Nat.add_sub_of_le (hf es)

omit [Digest String] [Matcher] in
theorem length_foldl_without_le (names : List String) (es : List Element) :
    (names.foldl (fun es m => Element.without m es) es).length ≤ es.length := by
  induction names generalizing es with
  | nil => exact Nat.le_refl _
  | cons name names ih => exact (ih _).trans (List.length_filter_le _ _)

omit [Digest String] [Matcher] in
theorem length_outsideRanks_le (start stop : Int) (es : List Element) :
    (SortedSetCommand.outsideRanks start stop es).length ≤ es.length := by
  rw [SortedSetCommand.outsideRanks_eq]
  exact Nat.le.intro
    ((Nat.add_comm _ _).trans (length_atPositions_add (between start stop es.length) es))

/-! ## Deletions -/

omit [Digest String] [Matcher] in
/-- Deleting keys leaves the others. -/
theorem apply_deletes (names : List String) (v : View) (name : String) :
    (Write.puts (names.map fun name => (name, none))).apply now v name =
      if name ∈ names then none else v name := by
  induction names generalizing v with
  | nil => rfl
  | cons deleted names ih =>
    refine (ih (v.write now deleted none)).trans ?_
    by_cases hname : name = deleted
    · subst hname
      rw [View.write_apply, if_pos List.mem_cons_self]
      split <;> rfl
    · rw [View.write_of_ne hname]
      simp only [List.mem_cons, hname, false_or]

variable (now) in
/-- A deletion counts the keys that it takes away of those that show. -/
theorem del_counts (h : k.store.WF) (hs : s.selected < k.store.size) (names : List String) :
    let e := (Command.key (.del names)).run now s k
    ∃ n, e.reply = .count n ∧ Loss ((k.store.db s.selected).keys now "*").length
      ((e.keyspace.store.db s.selected).keys now "*").length n := by
  intro e
  have hran : Ran now s k (.key (.del names)) [] e := run_ran now h hs trivial nofun
  have hview : (e.keyspace.store.db s.selected).view now = (Write.puts _).apply now _ :=
    (congrFun (hran.view_write rfl) s.selected).trans (Function.update_self ..)
  have hnodup := (KeyCommand.keys_spec (h s.selected) now "*").1
  have hnodup' := (KeyCommand.keys_spec (hran.wf s.selected) now "*").1
  have hkept : ((e.keyspace.store.db s.selected).keys now "*").toFinset =
      ((k.store.db s.selected).keys now "*").toFinset \ names.toFinset := by
    ext name
    rw [Finset.mem_sdiff, List.mem_toFinset, List.mem_toFinset, List.mem_toFinset,
      KeyCommand.mem_keys_all (hran.wf _), KeyCommand.mem_keys_all (h _), hview, apply_deletes]
    split
    · next hname => exact ⟨nofun, fun hkept => absurd hname hkept.2⟩
    · next hname => exact (and_iff_left hname).symm
  have hgone : (names.toFinset.filter fun name => (k.store.view now s.selected name).isSome) =
      ((k.store.db s.selected).keys now "*").toFinset ∩ names.toFinset := by
    ext name
    rw [Finset.mem_filter, Finset.mem_inter, List.mem_toFinset, List.mem_toFinset,
      KeyCommand.mem_keys_all (h _)]
    exact and_comm
  refine ⟨_, KeyCommand.run_answer (c := .del names) (h _) k.draws rfl, ?_⟩
  rw [← List.toFinset_card_of_nodup hnodup, ← List.toFinset_card_of_nodup hnodup', hkept]
  exact (congrArg (Loss _ _) (congrArg Finset.card hgone)).mpr (loss_sdiff _ _)

/-! ## Commands that count -/

variable (now) in
theorem gains_tally (h : k.store.WF) (hs : s.selected < k.store.size) (hp : c.Proper)
    (hc : c.gains? = some (key, K)) : Tallies now s k (c.run now s k) key K Gain := by
  unfold gains? at hc
  split at hc
  · cases hc
    exact add_tallies now h hs hp
  · cases hc
    exact putFields_tallies now h hs hp
  · next name options entries =>
    cases hoptions : options.changed with
    | true =>
      rw [hoptions] at hc
      cases hc
    | false =>
      rw [hoptions] at hc
      cases hc
      exact putScores_tallies now h hs hoptions hp
  · cases hc

variable (now) in
theorem losses_tally (h : k.store.WF) (hs : s.selected < k.store.size) (hp : c.Proper)
    (hc : c.loses? = some (key, K)) : Tallies now s k (c.run now s k) key K Loss := by
  unfold loses? at hc
  split at hc <;> cases hc
  · exact removeMembers_tallies now h hs _
  · exact removeFields_tallies now h hs _
  · exact removeItem_tallies now h hs _ _
  · exact keepScores_tallies h hs hp (length_foldl_without_le _) rfl fun _ => rfl
  · exact keepScores_tallies h hs hp (fun _ => List.length_filter_le _ _) rfl fun _ => rfl
  · exact keepScores_tallies h hs hp (length_outsideRanks_le _ _) rfl fun _ => rfl

end Command

namespace Clients

variable [Digest String] [Matcher] {n : Nat} {x : Clients}

/-- Whatever has been run before, and whichever arguments are repeated, a reply that counts elements
or keys tells by how many there are more or fewer. An insertion into a sorted set keeps to its
options, and of the scores that it gives a member the last one counts. -/
theorem Reachable.replies_count (h : Reachable n x) (client now : Nat) {frame : Frame}
    {c : Command} (hc : Command.ofFrame frame = .ok c) :
    let s := x.sessions client
    let k := x.keyspace
    let e := c.run now s k
    let before := k.store.view now s.selected
    let after := e.keyspace.store.view now s.selected
    (∀ key K, c.gains? = some (key, K) → Command.Tallies now s k e key K Command.Gain) ∧
    (∀ key K, c.loses? = some (key, K) → Command.Tallies now s k e key K Command.Loss) ∧
    (∀ keys, c = .key (.del keys) →
      ∃ m, e.reply = .count m ∧ Command.Loss ((k.store.db s.selected).keys now "*").length
        ((e.keyspace.store.db s.selected).keys now "*").length m) ∧
    ∀ key options entries, c = .sortedSet (.add key options entries) →
      ∀ es, before.elements? key = some es →
        ∃ es', after.elements? key = some es' ∧ Element.Inserts options entries es es' ∧
          (options.onlyExisting = true → before key = none → after key = none) := by
  intro s k e before after
  have hwf : k.store.WF := h.sound.wf
  have hs : s.selected < k.store.size := h.sound.selected_lt client
  obtain ⟨spec, -, hfits⟩ := Command.exists_fits_of_ofFrame hc
  have hp : c.Proper := hfits.proper
  refine ⟨fun key K => Command.gains_tally now hwf hs hp,
    fun key K => Command.losses_tally now hwf hs hp, ?_, ?_⟩
  · rintro keys rfl
    exact Command.del_counts now hwf hs keys
  · rintro key options entries rfl es hes
    exact Command.add_inserts now hwf hs hp hes

end Clients

namespace Clients

/-- A sorted set of one element, and a string past its deadline. -/
def sparse : Clients :=
  ((new 1 ⟨fun _ => 0, 0⟩).request 0 5 (.ofList .text ["ZADD", "z", "1", "a"])).request 0 6
    (.ofList .text ["SET", "k", "v", "PXAT", "7"])

/-- Twice a member that is there and twice a new one, and twice a key that is there and one that has
expired. -/
theorem sparse_counted :
    let s := sparse.sessions 0
    let k := sparse.keyspace
    let one : Binary64 := ⟨0x3ff0000000000000⟩
    let two : Binary64 := ⟨0x4000000000000000⟩
    let entries := [(two, "a"), (one, "a"), (one, "b"), (two, "b")]
    let add := Command.sortedSet (.add "z" ⟨false, false, false⟩ entries)
    let del := Command.key (.del ["z", "k", "z"])
    let zadd : Frame := .ofList .text ["ZADD", "z", "2", "a", "1", "a", "1", "b", "2", "b"]
    Reachable 1 sparse ∧ Command.ofFrame zadd = .ok add ∧
      Command.ofFrame (.ofList .text ["DEL", "z", "k", "z"]) = .ok del ∧
      (k.store.view 8 s.selected).elements? "z" = some [("a", one)] ∧
      ((k.store.db s.selected).keys 8 "*").length = 1 ∧
      (∃ m, (add.run 8 s k).reply = .count m ∧ Command.Gain 1
        (Entry.size ((add.run 8 s k).keyspace.store.view 8 s.selected "z")) m) ∧
      (∃ es, ((add.run 8 s k).keyspace.store.view 8 s.selected).elements? "z" = some es ∧
        Element.Inserts ⟨false, false, false⟩ entries [("a", one)] es) ∧
      ∃ m, (del.run 8 s k).reply = .count m ∧ Command.Loss 1
        (((del.run 8 s k).keyspace.store.db s.selected).keys 8 "*").length m := by
  intro s k one two entries add del zadd
  have hreachable : Reachable 1 sparse := ((Reachable.new _).request 0 5 _).request 0 6 _
  have hread : (Command.ofFrame zadd).toOption.bind Command.insertion? =
      some ("z", ⟨false, false, false⟩, entries) := by decide +kernel
  have hadd : Command.ofFrame zadd = .ok add := by
    cases hc : Command.ofFrame zadd with
    | error e =>
      rw [hc] at hread
      cases hread
    | ok c =>
      rw [hc] at hread
      rw [Command.eq_of_insertion? hread]
  have hdel : Command.ofFrame (.ofList .text ["DEL", "z", "k", "z"]) = .ok del := rfl
  have hviews : (k.store.view 8 s.selected).elements? "z" = some [("a", one)] ∧
      ((k.store.db s.selected).keys 8 "*").length = 1 := by decide +kernel
  obtain ⟨hgain, -, -, hinserts⟩ := hreachable.replies_count 0 8 hadd
  obtain ⟨-, -, hloss, -⟩ := hreachable.replies_count 0 8 hdel
  obtain ⟨es, hes, hafter, -⟩ := hinserts "z" _ _ rfl _ hviews.1
  obtain ⟨m, hm, hcounts⟩ := hloss _ rfl
  obtain ⟨gained, hreply, hgained⟩ := (hgain "z" .sortedSet rfl).1 _ hviews.1
  rw [CollectionKind.size_eq (K := .sortedSet) hviews.1] at hgained
  rw [hviews.2] at hcounts
  exact ⟨hreachable, hadd, hdel, hviews.1, hviews.2, ⟨gained, hreply, hgained⟩, ⟨es, hes, hafter⟩,
    m, hm, hcounts⟩

end Clients

end RespStore
