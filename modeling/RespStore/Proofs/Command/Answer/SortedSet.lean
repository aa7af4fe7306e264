import RespStore.Proofs.Collection.SortedSetHistory
import RespStore.Proofs.Collection.SortedSetRange
import RespStore.Proofs.Command.Answer.Basic
import RespStore.Proofs.Command.SortedSet

/-!
# Answers of commands on sorted sets

Every answer is worked out from the ascending list of the elements. A removal answers how many
elements fewer there are, and an insertion counts one entry after the other, as an earlier entry may
have added the member of a later one.
-/

namespace RespStore

/-- A member that is there is there once. -/
theorem Element.length_without {es : List Element} (h : KeysNodup es) (member : String) :
    (if (scoreOf member es).isSome then 1 else 0) + (without member es).length = es.length := by
  cases hm : scoreOf member es with
  | none =>
    rw [without_eq_self hm]
    exact Nat.zero_add _
  | some x =>
    have herase := List.length_eraseP_add_one (p := fun e => decide (e.1 = member))
      ((lookup_eq_some_iff h).mp hm) (decide_eq_true rfl)
    rw [h.eraseP_eq_filter] at herase
    exact (Nat.add_comm _ _).trans herase

namespace SortedSetCommand

open Element

/-- What an insertion counts for one entry. -/
def counted (options : InsertOptions) (es : List Element) (entry : Binary64 × String) : Nat :=
  match scoreOf entry.2 es with
  | some current =>
    if options.onlyNew || current.equal entry.1 then 0 else if options.changed then 1 else 0
  | none => if options.onlyExisting then 0 else 1

/-- What an insertion counts. -/
def inserted (options : InsertOptions) : List (Binary64 × String) → List Element → Nat
  | [], _ => 0
  | entry :: rest, es =>
    counted options es entry + inserted options rest (putIf options es entry)

/-- What is replied when `delta` is added to the score of a member. -/
def incrReply (delta : Binary64) (member : String) (es : List Element) : Frame :=
  let x := (scoreOf member es).getD .zero + delta
  if x.isNaN then .error StoreError.scoreNaN.message else .number x

/-- What is replied when only what `f` keeps is left. -/
def removedReply (f : List Element → List Element) (es : List Element) : Frame :=
  .count (es.length - (f es).length)

/-- What is replied to a command. -/
def answer (v : View) : SortedSetCommand → Frame
  | add key options entries => Entry.answer Content.sortedSet?
      (.count (if options.onlyExisting then 0 else inserted options entries []))
      (fun es => .count (inserted options entries es)) (v key)
  | incrBy key delta member => Entry.answer Content.sortedSet? (incrReply delta member [])
      (incrReply delta member) (v key)
  | score key member => Entry.answer Content.sortedSet? .null
      (fun es => .ofOption .number (scoreOf member es)) (v key)
  | remove key names => Entry.answer Content.sortedSet? (.count 0)
      (removedReply fun es => names.foldl (fun es m => without m es) es) (v key)
  | size key => Entry.answer Content.sortedSet? (.count 0) (fun es => .count es.length) (v key)
  | rank reverse key member => Entry.answer Content.sortedSet? .null
      (fun es => .ofOption .count ((directed reverse es).findIdx? fun e => e.1 = member)) (v key)
  | range reverse key start stop withScores => Entry.answer Content.sortedSet? (.array [])
      (fun es => elementsReply withScores
        (sliceRange start.toInt stop.toInt (directed reverse es))) (v key)
  | rangeByScore key r withScores limit => Entry.answer Content.sortedSet? (.array [])
      (fun es => elementsReply withScores (limited limit (es.filter fun e => r.contains e.2)))
      (v key)
  | count key r => Entry.answer Content.sortedSet? (.count 0)
      (fun es => .count (es.filter fun e => r.contains e.2).length) (v key)
  | removeByScore key r => Entry.answer Content.sortedSet? (.count 0)
      (removedReply fun es => es.filter fun e => !r.contains e.2) (v key)
  | removeByRank key start stop => Entry.answer Content.sortedSet? (.count 0)
      (removedReply (outsideRanks start.toInt stop.toInt)) (v key)

variable [Digest String] {db : Db} {now : Nat} {key : String} {s : SortedSet}

open Db Value

/-! ## Insertions -/

/-- What an insertion has counted so far. -/
def Insertion.total (options : InsertOptions) (i : Insertion) : Nat :=
  if options.changed then i.added + i.moved else i.added

theorem total_step (options : InsertOptions) {i : Insertion} (hw : i.members.WF)
    (entry : Binary64 × String) :
    (i.step options entry).total options =
      i.total options + counted options i.members.toList entry := by
  obtain ⟨x, member⟩ := entry
  unfold Insertion.step counted
  dsimp only
  rw [← hw.score?_eq member]
  cases i.members.score? member with
  | none =>
    dsimp only
    split
    · rfl
    · unfold Insertion.total
      dsimp only
      split <;> omega
  | some current =>
    dsimp only
    split
    · rfl
    · unfold Insertion.total
      dsimp only
      split <;> omega

theorem total_foldl_step (options : InsertOptions) {entries : List (Binary64 × String)}
    (hx : ∀ e ∈ entries, e.1.isNaN = false) {i : Insertion} (hw : i.members.WF) :
    (entries.foldl (Insertion.step options) i).total options =
      i.total options + inserted options entries i.members.toList := by
  induction entries generalizing i with
  | nil => rfl
  | cons e entries ih =>
    obtain ⟨he, hrest⟩ := List.forall_mem_cons.mp hx
    obtain ⟨hw', hl⟩ := step_spec options hw he
    rw [List.foldl_cons, ih hrest hw', total_step options hw, hl, inserted, Nat.add_assoc]

/-- An insertion counts from nothing on. -/
theorem total_eq_inserted (g : Draws) (options : InsertOptions)
    {entries : List (Binary64 × String)} (hx : ∀ e ∈ entries, e.1.isNaN = false) (hw : s.WF) :
    (entries.foldl (Insertion.step options) ⟨s, 0, 0, g⟩).total options =
      inserted options entries s.toList := by
  have htotal := total_foldl_step options hx (i := ⟨s, 0, 0, g⟩) hw
  rwa [show Insertion.total options ⟨s, 0, 0, g⟩ = 0 by unfold Insertion.total; split <;> rfl,
    Nat.zero_add] at htotal

theorem runAdd_answer (h : db.WF) (g : Draws) {options : InsertOptions}
    {entries : List (Binary64 × String)} (hx : ∀ e ∈ entries, e.1.isNaN = false) :
    (runAdd now db g key options entries).reply =
      answer (db.view now) (.add key options entries) := by
  have hreply : (runAdd now db g key options entries).reply =
      .ofExcept ((db.edit now key (addEdit g options entries)).1.map fun r => .count r.1) := by
    rw [runAdd_eq]
    cases (db.edit now key (addEdit g options entries)).1 <;> rfl
  rw [hreply]
  refine edit_answers h asSortedSet_reads (fun _ => rfl) ?_ ?_
  · rw [addEdit]
    cases options.onlyExisting with
    | true => rfl
    | false =>
      have hnew := total_eq_inserted g options hx SortedSet.wf_empty
      rw [SortedSet.toList_empty] at hnew
      exact congrArg Frame.count hnew
  · exact fun v s hw => congrArg Frame.count (total_eq_inserted g options hx hw)

theorem incr_answer (hw : s.WF) (slot : Option Value) (delta : Binary64) (member : String)
    (height : Nat) :
    Frame.ofExcept (Except.map (·.1) (match s.incr member delta height with
      | (none, _) => throw .scoreNaN
      | (some x, s) => return ((.number x : Frame), Value.store slot (.sortedSet s)))) =
      incrReply delta member s.toList := by
  rw [incrReply, ← hw.score?_eq, SortedSet.incr]
  cases ((s.score? member).getD .zero + delta).isNaN <;> rfl

theorem runIncrBy_answer (h : db.WF) (g : Draws) (delta : Binary64) (member : String) :
    (runIncrBy now db g key delta member).reply =
      answer (db.view now) (.incrBy key delta member) := by
  show (db.replying now key fun slot => do
    match (← members slot).incr member delta g.height.1 with
    | (none, _) => throw .scoreNaN
    | (some x, s) => return (.number x, Value.store slot (.sortedSet s))).1 = _
  refine replying_answers h asSortedSet_reads (fun _ => rfl) ?_ ?_
  · refine (incr_answer SortedSet.wf_empty none delta member g.height.1).trans ?_
    rw [SortedSet.toList_empty]
  · exact fun v s hw => incr_answer hw (some v) delta member g.height.1

/-! ## Removals -/

/-- A function on sorted sets counts the elements that it takes away. -/
def CountsLost (f : SortedSet → Nat × SortedSet) : Prop :=
  ∀ s, s.WF → (f s).1 + (f s).2.toList.length = s.toList.length

theorem removing_answer (h : db.WF) {f : SortedSet → Nat × SortedSet}
    {F : List Element → List Element} (hf : Removes f F) (hcounts : CountsLost f) :
    (removing now db key f).1 =
      Entry.answer Content.sortedSet? (.count 0) (removedReply F) (db.view now key) := by
  refine replying_answers h asSortedSet_reads (fun _ => rfl) rfl fun v s hw => ?_
  have hcount := hcounts s hw
  rw [(hf s hw).2] at hcount
  refine congrArg Frame.count ?_
  show (f s).1 = _
  omega

theorem removeAll_countsLost (names : List String) : CountsLost (removeAll names) := by
  induction names with
  | nil => exact fun s _ => Nat.zero_add _
  | cons name names ih =>
    intro s hw
    obtain ⟨hw', hl, hfound⟩ := hw.remove_spec name
    have hrest := ih _ hw'
    have hlost := length_without hw.keysNodup name
    rw [hl] at hrest
    rw [removeAll]
    dsimp only
    rw [hfound]
    omega

theorem removeRangeByScore_countsLost (r : ScoreRange) : CountsLost (·.removeRangeByScore r) := by
  intro s hw
  obtain ⟨-, hl, hcount⟩ := hw.removeRangeByScore_spec r
  dsimp only
  rw [hcount, hl]
  exact (List.length_eq_length_filter_add _).symm

theorem removeByRank_countsLost (start stop : Int) : CountsLost (removeByRankFrom start stop) := by
  intro s hw
  unfold removeByRankFrom
  cases resolveRange? start stop s.size with
  | none => exact Nat.zero_add _
  | some range =>
    obtain ⟨-, hl, hcount⟩ := hw.removeRangeByRank_spec range.1 range.2
    dsimp only
    rw [hcount, hl]
    simp only [List.length_drop, List.length_take, List.length_append]
    omega

/-! ## Commands -/

theorem rangeElements_eq (hw : s.WF) (reverse : Bool) (start stop : Int) :
    rangeElements s reverse start stop = sliceRange start stop (directed reverse s.toList) := by
  have hlength : (directed reverse s.toList).length = s.toList.length := by
    cases reverse <;> simp [directed]
  unfold rangeElements sliceRange
  rw [hw.size_eq_length, hlength]
  cases hrange : resolveRange? start stop s.toList.length with
  | none => rfl
  | some range =>
    obtain ⟨hle, hlt⟩ := resolveRange?_bounds hrange
    dsimp only
    rw [hw.rangeByRank_eq, if_pos hlt, List.drop_take, Nat.sub_add_comm hle]

theorem run_answer (h : db.WF) (g : Draws) (c : SortedSetCommand) (hc : c.Proper) :
    (c.run now db g).reply = c.answer (db.view now) := by
  cases c with
  | add key options entries => exact runAdd_answer h g hc
  | incrBy key delta member => exact runIncrBy_answer h g delta member
  | score key member => exact reading_eq h asSortedSet_reads fun s hw => by rw [hw.score?_eq]
  | remove key names => exact removing_answer h (removeAll_removes names) (removeAll_countsLost names)
  | size key => exact reading_eq h asSortedSet_reads fun s hw => by rw [hw.size_eq_length]
  | rank reverse key member => exact reading_eq h asSortedSet_reads fun s hw => by rw [hw.rank?_eq]
  | range reverse key start stop withScores =>
    exact reading_eq h asSortedSet_reads fun s hw => by rw [rangeElements_eq hw]
  | rangeByScore key r withScores limit =>
    exact reading_eq h asSortedSet_reads fun s hw => by rw [hw.rangeByScore_eq]
  | count key r => exact reading_eq h asSortedSet_reads fun s hw => by rw [hw.count_eq]
  | removeByScore key r =>
    exact removing_answer h (removeRangeByScore_removes r) (removeRangeByScore_countsLost r)
  | removeByRank key start stop =>
    exact removing_answer h (removeByRank_removes _ _) (removeByRank_countsLost _ _)

end SortedSetCommand

end RespStore
