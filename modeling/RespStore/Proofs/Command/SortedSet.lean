import RespStore.Command.SortedSet.Run
import RespStore.Proofs.Collection.Positions
import RespStore.Proofs.Keyspace.Write

/-!
# Writes of commands on sorted sets
-/

namespace RespStore

namespace Element

/-- Adds or moves a member if the options let it. -/
def putIf (options : InsertOptions) (es : List Element) (entry : Binary64 × String) :
    List Element :=
  let barred :=
    if (scoreOf entry.2 es).isSome then options.onlyNew else options.onlyExisting
  if barred then es else put entry.2 entry.1 es

theorem put_ne_nil (member : String) (x : Binary64) (es : List Element) :
    put member x es ≠ [] := by
  unfold put
  split
  · next h =>
    rintro rfl
    cases h
  · exact List.append_ne_nil_of_right_ne_nil _ (List.cons_ne_nil _ _)

end Element

namespace Change

/-- Adds and moves members; nothing can be moved in a sorted set that is absent. -/
def putScores (options : InsertOptions) (entries : List (Binary64 × String)) : Change :=
  edit Content.sortedSet? (if options.onlyExisting then none else some []) fun es =>
    some (.sortedSet (entries.foldl (Element.putIf options) es))

def incrScore (delta : Binary64) (member : String) : Change :=
  edit Content.sortedSet? (some []) fun es =>
    let x := (Element.scoreOf member es).getD .zero + delta
    if x.isNaN then none else some (.sortedSet (Element.put member x es))

/-- Keeps of a sorted set what `f` keeps. -/
def keepScores (f : List Element → List Element) : Change :=
  edit Content.sortedSet? none fun es => some (.sortedSet (f es))

end Change

namespace SortedSetCommand

/-- The elements outside of a range of positions. -/
def outsideRanks (start stop : Int) (es : List Element) : List Element :=
  match resolveRange? start stop es.length with
  | some (first, last) => es.take first ++ es.drop (last + 1)
  | none => es

/-- What a command writes to its database. -/
def write : SortedSetCommand → Write
  | add key options entries => .change key (.putScores options entries)
  | incrBy key delta member => .change key (.incrScore delta member)
  | remove key members =>
    .change key (.keepScores fun es => members.foldl (fun es m => Element.without m es) es)
  | removeByScore key r => .change key (.keepScores fun es => es.filter fun e => !r.contains e.2)
  | removeByRank key start stop => .change key (.keepScores (outsideRanks start.toInt stop.toInt))
  | score _ _ | size _ | rank _ _ _ | range _ _ _ _ _ | rangeByScore _ _ _ _ | count _ _ => .nothing

/-- Scores and bounds are numbers. -/
def Proper : SortedSetCommand → Prop
  | add _ _ entries => ∀ e ∈ entries, e.1.isNaN = false
  | removeByScore _ r => r.Proper
  | _ => True

variable [Digest String] {db : Db} {now : Nat} {key : String} {s : SortedSet}

open Db Value

theorem sortedSet_isEmpty (hw : s.WF) : (Data.sortedSet s).content.isEmpty = s.isEmpty := by
  rw [Bool.eq_iff_iff, hw.isEmpty_iff]
  exact List.isEmpty_iff

theorem sortedSet_wf (hw : s.WF) (hne : s.toList ≠ []) : (Data.sortedSet s).WF where
  sound := hw
  nonempty := by simpa [Data.content, Content.isEmpty] using hne

/-! ## Insertions -/

theorem step_spec (options : InsertOptions) {i : Insertion} (hw : i.members.WF)
    {entry : Binary64 × String} (hx : entry.1.isNaN = false) :
    (i.step options entry).members.WF ∧
      (i.step options entry).members.toList =
        Element.putIf options i.members.toList entry := by
  obtain ⟨x, member⟩ := entry
  have hscore := hw.score?_eq member
  have hput : ∀ height, (i.members.insert member x height).2.WF ∧
      (i.members.insert member x height).2.toList = Element.put member x i.members.toList :=
    hw.insert_spec hx member
  unfold Insertion.step Element.putIf
  dsimp only
  rw [← hscore]
  cases hm : i.members.score? member with
  | none =>
    dsimp only [Option.isSome_none]
    cases options.onlyExisting with
    | true => exact ⟨hw, rfl⟩
    | false => exact hput _
  | some current =>
    dsimp only [Option.isSome_some]
    cases options.onlyNew with
    | true => exact ⟨hw, rfl⟩
    | false =>
      cases hequal : current.equal x with
      | false => exact hput _
      | true =>
        -- a member with an equal score stays where it is
        have hsame : Element.put member x i.members.toList = i.members.toList := by
          rw [Element.put, ← hscore, hm, Option.any_some, hequal, if_pos rfl]
        exact ⟨hw, hsame.symm⟩

theorem foldl_step_spec (options : InsertOptions) {entries : List (Binary64 × String)}
    (hx : ∀ e ∈ entries, e.1.isNaN = false) {i : Insertion} (hw : i.members.WF) :
    (entries.foldl (Insertion.step options) i).members.WF ∧
      (entries.foldl (Insertion.step options) i).members.toList =
        entries.foldl (Element.putIf options) i.members.toList := by
  induction entries generalizing i with
  | nil => exact ⟨hw, rfl⟩
  | cons e entries ih =>
    obtain ⟨he, hrest⟩ := List.forall_mem_cons.mp hx
    obtain ⟨hw', hl⟩ := step_spec options hw he
    obtain ⟨hw'', hl'⟩ := ih hrest hw'
    refine ⟨hw'', hl'.trans ?_⟩
    rw [hl]
    rfl

/-- What an insertion does to the value of its key. -/
def addEdit (g : Draws) (options : InsertOptions) (entries : List (Binary64 × String))
    (slot : Option Value) : Except StoreError ((Nat × Draws) × Option Value) := do
  if slot.isNone && options.onlyExisting then return ((0, g), none)
  else
    let i := entries.foldl (Insertion.step options) ⟨← members slot, 0, 0, g⟩
    let n := if options.changed then i.added + i.moved else i.added
    return ((n, i.draws), Value.storeUnless i.members.isEmpty slot (.sortedSet i.members))

theorem members_reads {slot : Option Value} (hslot : SlotWF slot) :
    (∃ s, members slot = .ok s ∧ s.WF ∧
      Change.read Content.sortedSet? (some []) (slot.map entry) = some s.toList) ∨
    (members slot = .error .wrongType ∧
      Change.read Content.sortedSet? (some []) (slot.map entry) = none) :=
  slot_reads asSortedSet_reads .empty SortedSet.wf_empty SortedSet.toList_empty hslot

theorem addEdit_respects (g : Draws) (options : InsertOptions)
    {entries : List (Binary64 × String)} (hx : ∀ e ∈ entries, e.1.isNaN = false) :
    EditRespects (addEdit g options entries) (.putScores options entries) := by
  intro slot hslot
  by_cases hbarred : slot = none ∧ options.onlyExisting = true
  · obtain ⟨rfl, honly⟩ := hbarred
    simp only [addEdit, Option.isNone_none, honly, Bool.and_self, if_true]
    refine ⟨slotWF_none, (Change.edit_of_read_none ?_).symm⟩
    rw [honly]
    rfl
  · have hno : (slot.isNone && options.onlyExisting) = false := by
      simpa [Option.isNone_iff_eq_none] using hbarred
    have habsent : Change.read Content.sortedSet?
        (if options.onlyExisting then none else some []) (slot.map entry) =
        Change.read Content.sortedSet? (some []) (slot.map entry) := by
      cases slot with
      | none => simp_all [Change.read]
      | some v => rfl
    unfold addEdit
    rw [hno]
    rcases members_reads hslot with ⟨s, hs, hw, hread⟩ | ⟨he, hread⟩
    · obtain ⟨hw', hl⟩ := foldl_step_spec options hx (i := ⟨s, 0, 0, g⟩) hw
      simp only [hs]
      refine storeUnless_edits (habsent.trans hread) ?_ hw' (sortedSet_isEmpty hw')
      exact congrArg (fun es => some (Content.sortedSet es)) hl.symm
    · simp only [he]
      exact Change.edit_of_read_none (habsent.trans hread)

theorem runAdd_eq (now : Nat) (db : Db) (g : Draws) (key : String) (options : InsertOptions)
    (entries : List (Binary64 × String)) :
    runAdd now db g key options entries =
      match (db.edit now key (addEdit g options entries)).1 with
      | .ok (n, g') => ⟨.count n, (db.edit now key (addEdit g options entries)).2, g'⟩
      | .error e => ⟨.error e.message, (db.edit now key (addEdit g options entries)).2, g⟩ := (rfl)

theorem runAdd_performs (h : db.WF) (g : Draws) (options : InsertOptions)
    {entries : List (Binary64 × String)} (hx : ∀ e ∈ entries, e.1.isNaN = false) :
    Performs now db (runAdd now db g key options entries).reply
      (runAdd now db g key options entries).db (.change key (.putScores options entries)) := by
  have hfst := edit_fst db now key (addEdit g options entries)
  have hadd := addEdit_respects g options hx
  rw [runAdd_eq]
  cases hr : addEdit g options entries (db.slot now key) with
  | error e =>
    rw [hr] at hfst
    rw [hfst]
    refine edit_performs h hadd fun r hok => ?_
    rw [hr] at hok
    cases hok
  | ok r =>
    rw [hr] at hfst
    rw [hfst]
    exact edit_performs h hadd fun _ _ => nofun

theorem incrScore_respects (delta : Binary64) (member : String) (height : Nat) :
    ReplyRespects (fun slot => do
      match (← members slot).incr member delta height with
      | (none, _) => throw .scoreNaN
      | (some x, s) => return (.number x, Value.store slot (.sortedSet s)))
      (.incrScore delta member) := by
  intro slot hslot
  rcases members_reads hslot with ⟨s, hs, hw, hread⟩ | ⟨he, hread⟩
  · have hscore := hw.score?_eq member
    cases hnan : ((s.score? member).getD .zero + delta).isNaN with
    | true =>
      have hincr : s.incr member delta height = (none, s) := if_pos hnan
      simp only [hs, bind, Except.bind, hincr]
      refine Change.edit_of_refused hread ?_
      rw [← hscore]
      exact if_pos hnan
    | false =>
      have hincr : s.incr member delta height =
          (some ((s.score? member).getD .zero + delta),
            (s.insert member ((s.score? member).getD .zero + delta) height).2) :=
        if_neg (by rw [hnan]; exact Bool.false_ne_true)
      obtain ⟨hw', hl⟩ := hw.insert_spec hnan member height
      simp only [hs, bind, Except.bind, hincr]
      refine ⟨store_edits hread ?_ (sortedSet_wf hw' (hl ▸ Element.put_ne_nil _ _ _)), nofun⟩
      rw [← hscore, Data.content, hl]
      exact if_neg (by rw [hnan]; exact Bool.false_ne_true)
  · simp only [he]
    exact Change.edit_of_read_none hread

/-! ## Removals -/

/-- A function on sorted sets keeps of the elements what `F` keeps. -/
def Removes (f : SortedSet → Nat × SortedSet) (F : List Element → List Element) : Prop :=
  ∀ s, s.WF → (f s).2.WF ∧ (f s).2.toList = F s.toList

theorem removing_performs (h : db.WF) {f : SortedSet → Nat × SortedSet}
    {F : List Element → List Element} (hf : Removes f F) :
    Performs now db (removing now db key f).1 (removing now db key f).2
      (.change key (.keepScores F)) := by
  refine replying_performs h ?_
  intro slot hslot
  cases slot with
  | none => exact ⟨⟨slotWF_none, rfl⟩, nofun⟩
  | some v =>
    rcases some_reads asSortedSet_reads hslot with ⟨s, hs, hw, hread⟩ | ⟨he, hread⟩
    · obtain ⟨hw', hl⟩ := hf s hw
      simp only [hs]
      refine ⟨storeUnless_edits hread ?_ hw' (sortedSet_isEmpty hw'), nofun⟩
      exact congrArg (fun es => some (Content.sortedSet es)) hl.symm
    · simp only [he]
      exact Change.edit_of_read_none hread

theorem removeAll_removes (names : List String) :
    Removes (removeAll names) fun es => names.foldl (fun es m => Element.without m es) es := by
  induction names with
  | nil => exact fun s hw => ⟨hw, rfl⟩
  | cons name names ih =>
    intro s hw
    obtain ⟨hw', hl, -⟩ := hw.remove_spec name
    obtain ⟨hw'', hl'⟩ := ih _ hw'
    refine ⟨hw'', hl'.trans ?_⟩
    rw [hl]
    rfl

theorem removeByRank_removes (start stop : Int) :
    Removes (removeByRankFrom start stop) (outsideRanks start stop) := by
  intro s hw
  unfold removeByRankFrom outsideRanks
  rw [← hw.size_eq_length]
  cases hr : resolveRange? start stop s.size with
  | none => exact ⟨hw, rfl⟩
  | some range =>
    obtain ⟨hw', hl, -⟩ := hw.removeRangeByRank_spec range.1 range.2
    rw [Nat.max_eq_right (Nat.le_succ_of_le (resolveRange?_bounds hr).1)] at hl
    exact ⟨hw', hl⟩

theorem removeRangeByScore_removes (r : ScoreRange) :
    Removes (·.removeRangeByScore r) fun es => es.filter fun e => !r.contains e.2 := by
  intro s hw
  obtain ⟨hw', hl, -⟩ := hw.removeRangeByScore_spec r
  exact ⟨hw', hl⟩

/-! ## Commands -/

theorem run_performs (h : db.WF) (g : Draws) (c : SortedSetCommand) (hc : c.Proper) :
    Performs now db (c.run now db g).reply (c.run now db g).db c.write := by
  cases c with
  | add key options entries => exact runAdd_performs h g options hc
  | incrBy key delta member =>
    exact replying_performs h (incrScore_respects delta member g.height.1)
  | score key member => exact reading_performs h _ _
  | remove key names => exact removing_performs h (removeAll_removes names)
  | size key => exact reading_performs h _ _
  | rank reverse key member => exact reading_performs h _ _
  | range reverse key start stop withScores => exact reading_performs h _ _
  | rangeByScore key r withScores limit => exact reading_performs h _ _
  | count key r => exact reading_performs h _ _
  | removeByScore key r => exact removing_performs h (removeRangeByScore_removes r)
  | removeByRank key start stop =>
    exact removing_performs h (removeByRank_removes start.toInt stop.toInt)

end SortedSetCommand

end RespStore
