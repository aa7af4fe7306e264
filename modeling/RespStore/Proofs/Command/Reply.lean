import RespStore.Command.Run
import RespStore.Proofs.Frame.RoundTrip
import RespStore.Proofs.Keyspace.Db

/-!
# Replies of commands

What a command replies on its own account is written in lines: client data are sent with their
lengths, and the texts are names and messages of the program.
-/

namespace RespStore

namespace Frame

variable {α β : Type} {f g : α → Frame}

@[simp] theorem oneLine_bulk (payload : Bytes) : (bulk payload).OneLine := nofun

@[simp] theorem oneLine_integer (n : Int64) : (integer n).OneLine := nofun

@[simp] theorem oneLine_null : null.OneLine := nofun

@[simp] theorem oneLine_emptyArray : (array []).OneLine := oneLine_array.mpr nofun

@[simp] theorem oneLine_ok : ok.OneLine := by
  rintro s ⟨⟩
  exact Bytes.isLine_of_cr_notMem (of_decide_eq_true rfl)

@[simp] theorem oneLine_text (s : String) : (text s).OneLine := oneLine_bulk _

@[simp] theorem oneLine_count (n : Nat) : (count n).OneLine := oneLine_integer _

@[simp] theorem oneLine_ofBool (b : Bool) : (ofBool b).OneLine := oneLine_integer _

@[simp] theorem oneLine_number (x : Binary64) : (number x).OneLine := oneLine_bulk _

theorem oneLine_ofOption (h : ∀ x, (f x).OneLine) (x : Option α) : (ofOption f x).OneLine := by
  cases x with
  | none => exact oneLine_null
  | some x => exact h x

theorem oneLine_ofList (h : ∀ x, (f x).OneLine) (xs : List α) : (ofList f xs).OneLine :=
  oneLine_array.mpr (List.forall_mem_map.mpr fun x _ => h x)

theorem oneLine_ofPairs {g : β → Frame} (hf : ∀ x, (f x).OneLine) (hg : ∀ x, (g x).OneLine)
    (ps : List (α × β)) : (ofPairs f g ps).OneLine := by
  refine oneLine_array.mpr fun item hitem => ?_
  obtain ⟨p, -, hp⟩ := List.mem_flatMap.mp hitem
  rcases List.mem_pair.mp hp with rfl | rfl
  · exact hf _
  · exact hg _

end Frame

theorem StoreError.isLine_message (e : StoreError) : Bytes.IsLine (Utf8.encode e.message) := by
  apply Bytes.isLine_of_cr_notMem
  cases e <;> exact of_decide_eq_true rfl

open RespStore.Frame

theorem StoreError.oneLine (e : StoreError) : (error e.message).OneLine :=
  oneLine_error e.isLine_message

/-! ## Reading and replacing values -/

/-- Whatever a computation comes to has a reply in lines. -/
def RepliesInLines {α : Type} (reply : α → Frame) (r : Except StoreError α) : Prop :=
  ∀ x, r = .ok x → (reply x).OneLine

namespace RepliesInLines

variable {α β : Type} {reply : α → Frame}

theorem ofExcept {r : Except StoreError Frame} (h : RepliesInLines id r) :
    (Frame.ofExcept r).OneLine := by
  cases r with
  | ok f => exact h f rfl
  | error e => exact e.oneLine

theorem error (e : StoreError) : RepliesInLines reply (.error e) := nofun

theorem pure {x : α} (h : (reply x).OneLine) : RepliesInLines reply (.ok x) := by
  rintro _ ⟨⟩
  exact h

theorem bind {r : Except StoreError β} {f : β → Except StoreError α}
    (h : ∀ x, RepliesInLines reply (f x)) : RepliesInLines reply (r >>= f) := by
  cases r with
  | ok x => exact h x
  | error e => exact error e

theorem map {f : β → Frame} (h : ∀ x, (f x).OneLine) {r : Except StoreError β} :
    RepliesInLines id (r.map f) := by
  cases r with
  | ok x => exact pure (h x)
  | error e => exact error e

end RepliesInLines

namespace Db

variable [Digest String] {db : Db} {now : Nat} {key : String}

theorem oneLine_reading {absent : Frame} {f : Value → Except StoreError Frame}
    (habsent : absent.OneLine) (h : ∀ v, RepliesInLines id (f v)) :
    (db.reading now key absent f).1.OneLine := by
  unfold reading
  split
  · exact habsent
  · exact (h _).ofExcept

theorem oneLine_edit {α : Type} {shown : α → Frame}
    {f : Option Value → Except StoreError (α × Option Value)}
    (h : ∀ slot, RepliesInLines (shown ·.1) (f slot)) :
    RepliesInLines shown (db.edit now key f).1 := by
  rw [edit_fst]
  generalize hr : f (db.slot now key) = r
  cases r with
  | ok x => exact .pure (h _ x hr)
  | error e => exact .error e

theorem oneLine_replying {f : Option Value → Except StoreError (Frame × Option Value)}
    (h : ∀ slot, RepliesInLines (·.1) (f slot)) : (db.replying now key f).1.OneLine :=
  (oneLine_edit h).ofExcept

theorem oneLine_computePair {a b : String}
    {f : Option Value → Option Value → Except StoreError Frame × Option Value × Option Value}
    (h : ∀ x y, RepliesInLines id (f x y).1) : RepliesInLines id (db.computePair now a b f).1 :=
  h _ _

end Db

/-! ## Commands -/

theorem CommandError.oneLine_badExpireTime {name : String}
    (h : Ascii.cr ∉ Utf8.encode (badExpireTime name).message) :
    (Frame.error (badExpireTime name).message).OneLine :=
  oneLine_error (Bytes.isLine_of_cr_notMem h)

theorem Value.oneLine_typeName (v : Option Value) :
    (simple (v.elim "none" Value.typeName)).OneLine := by
  rintro s ⟨⟩
  apply Bytes.isLine_of_cr_notMem
  cases v with
  | none => exact of_decide_eq_true rfl
  | some v =>
    obtain ⟨data, expiresAt⟩ := v
    cases data <;> exact of_decide_eq_true rfl

variable [Digest String] {db : Db} {g : Draws} {now : Nat}

theorem KeyCommand.oneLine_run [Matcher] (c : KeyCommand) : (c.run now db g).reply.OneLine := by
  cases c with
  | del keys => exact oneLine_count _
  | «exists» keys => exact oneLine_count _
  | type key => exact Value.oneLine_typeName _
  | matching pattern => exact oneLine_ofList oneLine_text _
  | randomKey => exact oneLine_ofOption oneLine_text _
  | expire unit key amount =>
    dsimp only [run]
    split
    · refine CommandError.oneLine_badExpireTime ?_
      cases unit <;> exact of_decide_eq_true rfl
    · exact oneLine_ofBool _
  | ttl key => exact oneLine_integer _
  | pttl key => exact oneLine_integer _
  | persist key => exact oneLine_ofBool _

theorem StringCommand.oneLine_runSet (key : String) (value : Bytes) (condition : SetCondition)
    (deadline : Option Nat) : (runSet now db key value condition deadline).1.OneLine := by
  unfold runSet
  dsimp only
  split
  · exact oneLine_ok
  · exact oneLine_null

theorem StringCommand.oneLine_readAll (keys : List String) :
    ∀ f ∈ (readAll now keys db).1, f.OneLine := by
  induction keys generalizing db with
  | nil => exact nofun
  | cons key keys ih => exact List.forall_mem_cons.mpr ⟨oneLine_ofOption oneLine_bulk _, ih⟩

theorem StringCommand.oneLine_runIncr (key : String) (delta : Int) :
    (runIncr now db key delta).1.OneLine := by
  have h : ∀ n, (integer (Int64.ofInt n)).OneLine := fun n => oneLine_integer _
  exact (RepliesInLines.map h).ofExcept

theorem StringCommand.oneLine_run (c : StringCommand) : (c.run now db g).reply.OneLine := by
  cases c with
  | get key =>
    dsimp only [run]
    exact Db.oneLine_reading oneLine_null fun v => .map oneLine_bulk
  | set key value condition expiry =>
    cases expiry with
    | none => exact oneLine_runSet key value condition none
    | some expiry =>
      dsimp only [run]
      split
      · refine CommandError.oneLine_badExpireTime ?_
        exact of_decide_eq_true rfl
      · exact oneLine_runSet key value condition _
  | setnx key value => exact oneLine_ofBool _
  | getdel key =>
    dsimp only [run]
    refine Db.oneLine_replying fun slot => ?_
    cases slot with
    | none => exact .pure oneLine_null
    | some v => exact .bind fun bytes => .pure (oneLine_bulk bytes)
  | mget keys => exact oneLine_array.mpr (oneLine_readAll keys)
  | mset pairs => exact oneLine_ok
  | incr key => exact oneLine_runIncr key 1
  | decr key => exact oneLine_runIncr key (-1)
  | incrBy key delta => exact oneLine_runIncr key _
  | decrBy key delta =>
    dsimp only [run]
    split
    · exact StoreError.overflow.oneLine
    · exact oneLine_runIncr key _
  | incrByFloat key delta => exact (RepliesInLines.map oneLine_number).ofExcept
  | append key value =>
    dsimp only [run, runAppend]
    exact Db.oneLine_replying fun slot => .bind fun current => .pure (oneLine_count _)
  | strlen key =>
    dsimp only [run]
    exact Db.oneLine_reading (oneLine_count 0) fun v => .map fun bytes => oneLine_count _

omit [Digest String] in
theorem ListCommand.oneLine_moveTail (x y : Option Value) :
    RepliesInLines (·.1) (moveTail x y) := by
  cases x with
  | none => exact .pure oneLine_null
  | some v =>
    refine .bind fun src => .bind fun dst => ?_
    dsimp only
    split
    · exact .pure oneLine_null
    · exact .pure (oneLine_bulk _)

theorem ListCommand.oneLine_runMove (source destination : String) :
    (runMove now db source destination).1.OneLine := by
  dsimp only [runMove]
  refine RepliesInLines.ofExcept (Db.oneLine_computePair fun x y => ?_)
  have hlines := oneLine_moveTail x y
  generalize moveTail x y = r at hlines
  cases r with
  | ok moved => exact .pure (hlines moved rfl)
  | error e => exact .error e

theorem ListCommand.oneLine_run (c : ListCommand) : (c.run now db g).reply.OneLine := by
  cases c with
  | push place key values =>
    dsimp only [run, runPush]
    exact Db.oneLine_replying fun slot => .bind fun l => .pure (oneLine_count _)
  | pop place key count =>
    dsimp only [run, runPop]
    refine Db.oneLine_replying fun slot => ?_
    cases slot with
    | none => exact .pure oneLine_null
    | some v =>
      refine .bind fun l => ?_
      cases count with
      | none => exact .pure (oneLine_ofOption oneLine_bulk _)
      | some count => exact .pure (oneLine_ofList oneLine_bulk _)
  | length key =>
    dsimp only [run]
    exact Db.oneLine_reading (oneLine_count 0) fun v => .map fun l => oneLine_count _
  | range key start stop =>
    dsimp only [run]
    exact Db.oneLine_reading oneLine_emptyArray fun v => .map fun l => oneLine_ofList oneLine_bulk _
  | index key i =>
    dsimp only [run]
    exact Db.oneLine_reading oneLine_null fun v => .map fun l => oneLine_ofOption oneLine_bulk _
  | set key i value =>
    dsimp only [run, runSet]
    refine Db.oneLine_replying fun slot => ?_
    cases slot with
    | none => exact .error _
    | some v =>
      refine .bind fun l => ?_
      cases l.index? i.toInt with
      | none => exact .error _
      | some id => exact .pure oneLine_ok
  | insert side key pivot value =>
    dsimp only [run, runInsert]
    refine Db.oneLine_replying fun slot => ?_
    cases slot with
    | none => exact .pure (oneLine_integer _)
    | some v =>
      refine .bind fun l => ?_
      split
      · exact .pure (oneLine_integer _)
      · exact .pure (oneLine_count _)
  | remove key count value =>
    dsimp only [run, runRemove]
    refine Db.oneLine_replying fun slot => ?_
    cases slot with
    | none => exact .pure (oneLine_count _)
    | some v => exact .bind fun l => .pure (oneLine_count _)
  | popPush source destination =>
    dsimp only [run]
    split
    · dsimp only [runRotate]
      refine Db.oneLine_replying fun slot => ?_
      cases slot with
      | none => exact .pure oneLine_null
      | some v => exact .bind fun l => .pure (oneLine_ofOption oneLine_bulk _)
    · exact oneLine_runMove source destination

omit [Digest String] in
theorem HashCommand.oneLine_listingReply (h : Dict String Bytes) (part : HashPart) :
    (listingReply h part).OneLine := by
  cases part with
  | both => exact oneLine_ofPairs oneLine_text oneLine_bulk _
  | fields => exact oneLine_ofList (fun _ => oneLine_text _) _
  | values => exact oneLine_ofList (fun _ => oneLine_bulk _) _

theorem HashCommand.oneLine_run (c : HashCommand) : (c.run now db g).reply.OneLine := by
  cases c with
  | set key pairs =>
    dsimp only [run, runSet]
    exact Db.oneLine_replying fun slot => .bind fun h => .pure (oneLine_count _)
  | get key field =>
    dsimp only [run]
    exact Db.oneLine_reading oneLine_null fun v => .map fun h => oneLine_ofOption oneLine_bulk _
  | del key fields =>
    dsimp only [run, runDel]
    refine Db.oneLine_replying fun slot => ?_
    cases slot with
    | none => exact .pure (oneLine_count _)
    | some v => exact .bind fun h => .pure (oneLine_count _)
  | «exists» key field =>
    dsimp only [run]
    exact Db.oneLine_reading (oneLine_count 0) fun v => .map fun h => oneLine_ofBool _
  | length key =>
    dsimp only [run]
    exact Db.oneLine_reading (oneLine_count 0) fun v => .map fun h => oneLine_count _
  | listing part key =>
    dsimp only [run]
    exact Db.oneLine_reading oneLine_emptyArray fun v => .map fun h => oneLine_listingReply h part
  | incrBy key field delta =>
    dsimp only [run, runIncrBy]
    exact Db.oneLine_replying fun slot => .bind fun h => .bind fun n => .pure (oneLine_integer _)

omit [Digest String] in
theorem SetCommand.oneLine_chosen (s : Dict String Unit) (count : Option Int64) (g : Draws) :
    (chosen s count g).1.OneLine := by
  cases count with
  | none => exact oneLine_ofOption oneLine_text _
  | some n => exact oneLine_ofList oneLine_text _

theorem SetCommand.oneLine_runPop (key : String) (count : Option Nat) :
    (runPop now db g key count).reply.OneLine := by
  dsimp only [runPop]
  split
  · cases count with
    | none => exact oneLine_ofOption oneLine_text _
    | some n => exact oneLine_ofList oneLine_text _
  · next e _ => exact e.oneLine

theorem SetCommand.oneLine_runRandom (key : String) (count : Option Int64) :
    (runRandom now db g key count).reply.OneLine := by
  unfold runRandom
  split
  · cases count with
    | none => exact oneLine_null
    | some n => exact oneLine_emptyArray
  · split
    · next e _ => exact e.oneLine
    · exact oneLine_chosen _ count g

theorem SetCommand.oneLine_run (c : SetCommand) : (c.run now db g).reply.OneLine := by
  cases c with
  | add key members =>
    dsimp only [run, runAdd]
    exact Db.oneLine_replying fun slot => .bind fun s => .pure (oneLine_count _)
  | remove key members =>
    dsimp only [run, runRemove]
    refine Db.oneLine_replying fun slot => ?_
    cases slot with
    | none => exact .pure (oneLine_count _)
    | some v => exact .bind fun s => .pure (oneLine_count _)
  | contains key member =>
    dsimp only [run]
    exact Db.oneLine_reading (oneLine_count 0) fun v => .map fun s => oneLine_ofBool _
  | size key =>
    dsimp only [run]
    exact Db.oneLine_reading (oneLine_count 0) fun v => .map fun s => oneLine_count _
  | listing key =>
    dsimp only [run]
    exact Db.oneLine_reading oneLine_emptyArray fun v => .map fun s => oneLine_ofList oneLine_text _
  | pop key count => exact oneLine_runPop key count
  | random key count => exact oneLine_runRandom key count

omit [Digest String] in
theorem SortedSetCommand.oneLine_elementsReply (withScores : Bool)
    (elements : List (String × Binary64)) : (elementsReply withScores elements).OneLine := by
  cases withScores with
  | true => exact oneLine_ofPairs oneLine_text oneLine_number _
  | false => exact oneLine_ofList (fun _ => oneLine_text _) _

theorem SortedSetCommand.oneLine_removing (key : String) (f : SortedSet → Nat × SortedSet) :
    (removing now db key f).1.OneLine := by
  refine Db.oneLine_replying fun slot => ?_
  cases slot with
  | none => exact .pure (oneLine_count _)
  | some v => exact .bind fun s => .pure (oneLine_count _)

theorem SortedSetCommand.oneLine_runAdd (key : String) (options : InsertOptions)
    (entries : List (Binary64 × String)) :
    (runAdd now db g key options entries).reply.OneLine := by
  dsimp only [runAdd]
  split
  · exact oneLine_count _
  · next e _ => exact e.oneLine

theorem SortedSetCommand.oneLine_runIncrBy (key : String) (delta : Binary64) (member : String) :
    (runIncrBy now db g key delta member).reply.OneLine := by
  dsimp only [runIncrBy]
  refine Db.oneLine_replying fun slot => .bind fun s => ?_
  split
  · exact .error _
  · exact .pure (oneLine_number _)

theorem SortedSetCommand.oneLine_run (c : SortedSetCommand) : (c.run now db g).reply.OneLine := by
  cases c with
  | add key options entries => exact oneLine_runAdd key options entries
  | incrBy key delta member => exact oneLine_runIncrBy key delta member
  | score key member =>
    dsimp only [run]
    exact Db.oneLine_reading oneLine_null fun v => .map fun s => oneLine_ofOption oneLine_number _
  | remove key names =>
    dsimp only [run]
    exact oneLine_removing key _
  | size key =>
    dsimp only [run]
    exact Db.oneLine_reading (oneLine_count 0) fun v => .map fun s => oneLine_count _
  | rank reverse key member =>
    dsimp only [run]
    exact Db.oneLine_reading oneLine_null fun v => .map fun s => oneLine_ofOption oneLine_count _
  | range reverse key start stop withScores =>
    dsimp only [run]
    exact Db.oneLine_reading oneLine_emptyArray fun v => .map fun s =>
      oneLine_elementsReply withScores _
  | rangeByScore key r withScores limit =>
    dsimp only [run]
    exact Db.oneLine_reading oneLine_emptyArray fun v => .map fun s =>
      oneLine_elementsReply withScores _
  | count key r =>
    dsimp only [run]
    exact Db.oneLine_reading (oneLine_count 0) fun v => .map fun s => oneLine_count _
  | removeByScore key r =>
    dsimp only [run]
    exact oneLine_removing key _
  | removeByRank key start stop =>
    dsimp only [run]
    exact oneLine_removing key _

namespace CommandSpec

omit [Digest String] in
theorem oneLine_describe (spec : CommandSpec) : (describe spec).OneLine := by
  have hmode : (simple (if spec.write then "write" else "readonly")).OneLine := by
    rintro s ⟨⟩
    apply Bytes.isLine_of_cr_notMem
    cases spec.write <;> exact of_decide_eq_true rfl
  have hmodes : (array [simple (if spec.write then "write" else "readonly")]).OneLine :=
    oneLine_array.mpr (List.forall_mem_singleton.mpr hmode)
  refine oneLine_array.mpr ?_
  simp only [List.forall_mem_cons]
  exact ⟨oneLine_text _, oneLine_integer _, hmodes, oneLine_integer _, oneLine_integer _,
    oneLine_integer _, nofun⟩

end CommandSpec

namespace Command

theorem oneLine_runServer (s : Session) (k : Keyspace) (c : ServerCommand) :
    (runServer now s k c).reply.OneLine := by
  cases c with
  | ping payload =>
    cases payload with
    | none =>
      rintro s ⟨⟩
      exact Bytes.isLine_of_cr_notMem (of_decide_eq_true rfl)
    | some payload => exact oneLine_bulk _
  | echo payload => exact oneLine_bulk _
  | select i =>
    dsimp only [runServer]
    split
    · exact oneLine_ok
    · next e _ => exact e.oneLine
  | quit => exact oneLine_ok
  | dbSize => exact oneLine_count _
  | flushDb => exact oneLine_ok
  | flushAll => exact oneLine_ok
  | commandList => exact oneLine_ofList CommandSpec.oneLine_describe _
  | commandCount => exact oneLine_count _
  | commandInfo names =>
    exact oneLine_ofList (fun _ => oneLine_ofOption CommandSpec.oneLine_describe _) _
  | commandDocs => exact oneLine_emptyArray
  | objectEncoding name => exact oneLine_ofOption (fun _ => oneLine_text _) _

/-- Every text that a command replies is a line. -/
theorem oneLine_run [Matcher] (s : Session) (k : Keyspace) (c : Command) :
    (c.run now s k).reply.OneLine := by
  cases c with
  | server c => exact oneLine_runServer s k c
  | key c => exact c.oneLine_run
  | string c => exact c.oneLine_run
  | list c => exact c.oneLine_run (g := k.draws)
  | hash c => exact c.oneLine_run (g := k.draws)
  | set c => exact c.oneLine_run
  | sortedSet c => exact c.oneLine_run

end Command

end RespStore
