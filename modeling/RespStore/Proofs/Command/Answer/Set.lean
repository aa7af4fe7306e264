import RespStore.Proofs.Collection.DictHistory
import RespStore.Proofs.Collection.RandomDraw
import RespStore.Proofs.Command.Answer.Basic
import RespStore.Proofs.Command.Set

/-!
# Answers of commands on sets

A listing of a set is stated in alphabetical order; the reply has it in some order. What a command
draws at random is up to the draws, and its reply tells no more than what it has drawn.
-/

namespace RespStore.SetCommand

/-- What is replied when members are chosen at random: an array if a count is given, otherwise one
member. -/
def chosenReply (count : Option Int64) (drawn : List String) : Frame :=
  count.elim (.ofOption .text drawn.head?) fun _ => .ofList .text drawn

/-- What is replied to a command that has drawn some members. -/
def answer (drawn : List String) (v : View) : SetCommand → Frame
  | add key members => Entry.answer Content.set? (.count members.toFinset.card)
      (fun s => .count (members.toFinset \ s).card) (v key)
  | remove key members => Entry.answer Content.set? (.count 0)
      (fun s => .count (s ∩ members.toFinset).card) (v key)
  | contains key member => Entry.answer Content.set? (.count 0)
      (fun s => .ofBool (decide (member ∈ s))) (v key)
  | size key => Entry.answer Content.set? (.count 0) (fun s => .count s.card) (v key)
  | listing key => Entry.answer Content.set? (.array [])
      (fun s => .ofList .text (alphabetical s)) (v key)
  | pop key count => Entry.answer Content.set? (popReply count []) (fun _ => popReply count drawn)
      (v key)
  | random key count => Entry.answer Content.set? (if count.isSome then .array [] else .null)
      (fun _ => chosenReply count drawn) (v key)

/-- Whether a reply lists what has no order. -/
def lists : SetCommand → Bool
  | listing _ => true
  | _ => false

/-! ## Choosing at random -/

section Samples

variable {α : Type} {xs ys : List α} {count : Nat}

theorem sample_succ_fst {i : Nat} {g g' : Draws} (hi : i < xs.length)
    (hdraw : g.below xs.length = (i, g')) :
    (sample (count + 1) xs g).1 = xs[i] :: (sample count (xs.eraseIdx i) g').1 := by
  have hne : ¬xs.isEmpty = true := by
    rw [List.isEmpty_iff_length_eq_zero]
    omega
  rw [sample, if_neg hne, hdraw]
  show (xs[i]?).toList ++ (sample count (xs.eraseIdx i) g').1 = _
  rw [List.getElem?_eq_getElem hi]
  rfl

/-- A sample has no member twice, and as many of them as it can. -/
theorem sample_subperm (count : Nat) (xs : List α) (g : Draws) :
    (sample count xs g).1.Subperm xs ∧ (sample count xs g).1.length = min count xs.length := by
  induction count generalizing xs g with
  | zero => exact ⟨List.nil_subperm, (Nat.zero_min _).symm⟩
  | succ count ih =>
    cases xs with
    | nil => exact ⟨List.nil_subperm, (Nat.min_zero _).symm⟩
    | cons x rest =>
      obtain ⟨i, g', hdraw⟩ : ∃ i g', g.below (x :: rest).length = (i, g') := ⟨_, _, rfl⟩
      have hi : i < (x :: rest).length := by
        have hlt := g.below_lt (List.length_pos_of_ne_nil (List.cons_ne_nil x rest))
        rwa [hdraw] at hlt
      obtain ⟨hsub, hlength⟩ := ih ((x :: rest).eraseIdx i) g'
      rw [sample_succ_fst hi hdraw]
      constructor
      · exact ((List.subperm_cons _).mpr hsub).trans (List.getElem_cons_eraseIdx_perm hi).subperm
      · rw [List.length_cons, hlength, List.length_eraseIdx_of_lt hi, List.length_cons]
        omega

/-- What a sample can be, it is if the right places are drawn. -/
theorem exists_gives_sample (hsub : ys.Subperm xs) (hlength : ys.length = min count xs.length) :
    ∃ ns, ∀ g : Draws, g.Gives ns → (sample count xs g).1 = ys := by
  induction count generalizing xs ys with
  | zero =>
    rw [Nat.zero_min] at hlength
    exact ⟨[], fun g _ => (List.eq_nil_of_length_eq_zero hlength).symm⟩
  | succ count ih =>
    cases ys with
    | nil =>
      rw [List.length_nil] at hlength
      have hxs : xs = [] := List.eq_nil_of_length_eq_zero (by omega)
      exact ⟨[], fun g _ => by rw [hxs]; rfl⟩
    | cons y ys =>
      obtain ⟨i, hi, rfl⟩ := List.getElem_of_mem (hsub.subset List.mem_cons_self)
      have hrest : ys.Subperm (xs.eraseIdx i) :=
        (List.subperm_cons _).mp (hsub.trans (List.getElem_cons_eraseIdx_perm hi).symm.subperm)
      rw [List.length_cons] at hlength
      obtain ⟨ns, hns⟩ := ih hrest (by rw [List.length_eraseIdx_of_lt hi]; omega)
      refine ⟨i :: ns, fun g hg => ?_⟩
      rw [sample_succ_fst hi (Draws.below_of_next hg.1 hi), hns _ hg.2]

/-- Samples are all that can be taken without repetition, in any order and whatever has been drawn. -/
theorem exists_sample_iff (g : Draws) :
    (∃ g', g.SamePast g' ∧ (sample count xs g').1 = ys) ↔
      ys.Subperm xs ∧ ys.length = min count xs.length := by
  constructor
  · rintro ⟨g', -, rfl⟩
    exact sample_subperm count xs g'
  · rintro ⟨hsub, hlength⟩
    obtain ⟨ns, hns⟩ := exists_gives_sample hsub hlength
    exact ⟨g.redraw ns, g.samePast_redraw ns, hns _ (g.gives_redraw ns)⟩

end Samples

variable [Digest String]

/-- The members of a set that are chosen at random. -/
def picked (s : Dict String Unit) (count : Option Int64) (g : Draws) : List String :=
  match count with
  | none => (s.randomKey g).1.toList
  | some n =>
    (if 0 ≤ n then sample n.toInt.toNat s.keys g else choices s.keys n.toInt.natAbs g).1

/-- The members that a command draws at random. -/
def drawn (now : Nat) (db : Db) (g : Draws) : SetCommand → List String
  | pop key count => popped count g (db.slot now key)
  | random key count => (setIn? (db.slot now key)).elim [] fun s => picked s count g
  | _ => []

variable {db : Db} {now : Nat} {key : String}

open Db Value

theorem runAdd_answer (h : db.WF) (members : List String) :
    (runAdd now db key members).1 = Entry.answer Content.set? (.count members.toFinset.card)
      (fun s => .count (members.toFinset \ s).card) (db.view now key) := by
  refine replying_answers h asSet_reads (fun _ => rfl) ?_ ?_
  · refine congrArg Frame.count ((Dict.addAll_fst Dict.wf_empty members).trans ?_)
    rw [Dict.toFinmap_empty, Finmap.keys_empty, Finset.sdiff_empty]
  · exact fun v s hw => congrArg Frame.count (Dict.addAll_fst hw members)

theorem runRemove_answer (h : db.WF) (members : List String) :
    (runRemove now db key members).1 = Entry.answer Content.set? (.count 0)
      (fun s => .count (s ∩ members.toFinset).card) (db.view now key) := by
  exact replying_answers h asSet_reads (fun _ => rfl) rfl fun v s hw =>
    congrArg Frame.count (Dict.removeAll_fst hw members)

omit [Digest String] in
theorem chosen_fst (s : Dict String Unit) (count : Option Int64) (g : Draws) :
    (chosen s count g).1 = chosenReply count (picked s count g) := by
  cases count with
  | none =>
    show Frame.ofOption .text (s.randomKey g).1 = .ofOption .text (s.randomKey g).1.toList.head?
    cases (s.randomKey g).1 <;> rfl
  | some n => rfl

theorem runPop_answer (h : db.WF) (g : Draws) (count : Option Nat) :
    (runPop now db g key count).reply =
      answer (drawn now db g (.pop key count)) (db.view now) (.pop key count) := by
  have hslot := h.slot now key
  rw [runPop_eq, edit_fst]
  show _ = Entry.answer Content.set? _ (fun _ => popReply count (popped count g (db.slot now key)))
    ((db.slot now key).map entry)
  generalize db.slot now key = slot at hslot ⊢
  cases slot with
  | none => rfl
  | some v =>
    rcases asSet_reads (hslot v rfl) with ⟨s, hs, -, hget⟩ | ⟨herr, hget⟩
    · refine Eq.trans ?_ (Entry.answer_of_some (e := v.entry) hget).symm
      simp only [popEdit, popped, setIn?, Option.bind_some, hs, bind, Except.bind]
      rfl
    · refine Eq.trans ?_ (Entry.answer_of_none (e := v.entry) hget).symm
      simp only [popEdit, herr, bind, Except.bind]
      rfl

theorem runRandom_answer (h : db.WF) (g : Draws) (count : Option Int64) :
    (runRandom now db g key count).reply =
      answer (drawn now db g (.random key count)) (db.view now) (.random key count) := by
  have hslot := h.slot now key
  show _ = Entry.answer Content.set? _ (fun _ => chosenReply count
    ((setIn? (db.slot now key)).elim [] fun s => picked s count g)) ((db.slot now key).map entry)
  rw [runRandom]
  rw [← get_fst] at hslot ⊢
  generalize db.get now key = found at hslot ⊢
  obtain ⟨_ | v, db'⟩ := found
  · rfl
  · rcases asSet_reads (hslot v rfl) with ⟨s, hs, -, hget⟩ | ⟨herr, hget⟩
    · refine Eq.trans ?_ (Entry.answer_of_some (e := v.entry) hget).symm
      simp only [setIn?, Option.bind_some, hs]
      exact chosen_fst s count g
    · refine Eq.trans ?_ (Entry.answer_of_none (e := v.entry) hget).symm
      simp only [herr]
      rfl

theorem run_answer (h : db.WF) (g : Draws) (c : SetCommand) (hc : c.lists = false) :
    (c.run now db g).reply = c.answer (c.drawn now db g) (db.view now) := by
  cases c with
  | add key members => exact runAdd_answer h members
  | remove key members => exact runRemove_answer h members
  | contains key member =>
    refine reading_eq h asSet_reads fun s hw => congrArg Frame.ofBool ?_
    rw [Bool.eq_iff_iff, decide_eq_true_iff, Dict.mem_keys_toFinmap hw, Dict.contains]
  | size key => exact reading_eq h asSet_reads fun s hw => by rw [hw.holds.size_eq]
  | listing key => cases hc
  | pop key count => exact runPop_answer h g count
  | random key count => exact runRandom_answer h g count

variable (now) in
/-- A listing has what is listed, in some order. -/
theorem listing_shuffled (h : db.WF) (g : Draws) (key : String) :
    Frame.Shuffled 1 (run now db g (.listing key)).reply
      (answer [] (db.view now) (.listing key)) := by
  refine reading_answers h asSet_reads .same fun s hw => .ofList _ ?_
  refine (List.perm_ext_iff_of_nodup hw.holds.shows.keys_nodup (nodup_alphabetical _)).mpr ?_
  intro member
  rw [hw.holds.shows.mem_keys, mem_alphabetical, Finmap.mem_keys]

end RespStore.SetCommand
