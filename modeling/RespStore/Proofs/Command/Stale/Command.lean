import RespStore.Proofs.Command.Stale.Move

/-!
# Commands that tell a deadline that passes
-/

namespace RespStore.Command

open Change

variable {v : View} {t t₁ t₂ : Nat} {c : Command}

/-- When a command tells, on a view, whether it runs before or after the deadlines of the keys that
are stale at a time. All others leave the same to be seen at that time. -/
def TellsStale (t : Nat) (v : View) : Command → Prop
  | key (.persist k) => v.Stale t k
  | key (.expire unit k n) =>
    (∃ d, unit.deadline? .int64 n.toInt t = some d ∧ t < d.toNat) ∧ v.Stale t k
  | string (.set k _ condition expiry) =>
    (condition ≠ .always ∧
      ∀ e, expiry = some e → ∃ d, StringCommand.Expiry.deadline? e t = some d ∧ t < max 1 d) ∧
      v.Stale t k
  | string (.setnx k _) | string (.incr k) | string (.decr k) | string (.incrBy k _)
  | string (.append k _) => v.Stale t k
  | string (.decrBy k n) => n ≠ Int64.minValue ∧ v.Stale t k
  | string (.incrByFloat k x) => (Binary64.zero + x).isFinite = true ∧ v.Stale t k
  | list (.push _ k _) => v.Stale t k
  | list (.popPush source destination) =>
    source ≠ destination ∧ v.TellsMove t source destination
  | hash (.set k _) | hash (.incrBy k _ _) => v.Stale t k
  | set (.add k _) => v.Stale t k
  | sortedSet (.add k options entries) =>
    (options.onlyExisting = false ∧ entries ≠ []) ∧ v.Stale t k
  | sortedSet (.incrBy k x _) => (Binary64.zero + x).isNaN = false ∧ v.Stale t k
  | _ => False

/-- What shows at a later time is the same whether a write is done before or then. -/
def Agrees (t₁ t₂ : Nat) (v : View) (w : Write) : Prop :=
  (w.apply t₁ v).cut t₂ = w.apply t₂ (v.cut t₂)

theorem agrees_nothing : Agrees t₁ t₂ v .nothing := rfl

theorem agrees_clear : Agrees t₁ t₂ v .clear := rfl

theorem agrees_of_forgets (ht : t₁ ≤ t₂) {key : String} {F : Change} (hF : F.Forgets t₂) :
    Agrees t₁ t₂ v (.change key F) := hF.change_cut ht

theorem agrees_iff_of_tells (ht : t₁ ≤ t₂) {key : String} {F : Change} (hF : F.Tells t₂) :
    Agrees t₁ t₂ v (.change key F) ↔ ¬v.Stale t₂ key := hF.change_cut_iff ht

theorem agrees_iff {P : Prop} (ht : t₁ ≤ t₂) {key : String} {F : Change}
    (htells : P → F.Tells t₂) (hforgets : ¬P → F.Forgets t₂) :
    Agrees t₁ t₂ v (.change key F) ↔ ¬(P ∧ v.Stale t₂ key) := change_cut_iff htells hforgets ht

theorem key_agrees_iff (ht : t₁ ≤ t₂) (c : KeyCommand) :
    Agrees t₁ t₂ v (c.write t₂) ↔ ¬(key c).TellsStale t₂ v := by
  cases c with
  | persist k => exact agrees_iff_of_tells ht setDeadline_none_tells
  | expire unit k n =>
    rw [KeyCommand.write, TellsStale]
    cases hd : unit.deadline? .int64 n.toInt t₂ with
    | none =>
      refine iff_of_true agrees_nothing ?_
      rintro ⟨⟨_, ⟨⟩, _⟩, _⟩
    | some d =>
      have hone : (∃ d', some d = some d' ∧ t₂ < d'.toNat) ↔ t₂ < d.toNat := by simp
      rw [hone]
      exact agrees_iff ht setDeadline_tells setDeadline_forgets
  | del keys => exact iff_of_true (View.cut_puts ht _) id
  | _ => exact iff_of_true agrees_nothing id

/-- A string stored under a condition, with a deadline that is still to come or none. -/
theorem set_agrees_iff (ht : t₁ ≤ t₂) (k : String) (value : Bytes) (condition : SetCondition)
    (expiry : Option Expiry) :
    Agrees t₁ t₂ v (StringCommand.write t₂ (.set k value condition expiry)) ↔
      ¬(string (.set k value condition expiry)).TellsStale t₂ v := by
  have hdeadline : ∀ deadline, Agrees t₁ t₂ v (.change k (.setString value condition deadline)) ↔
      ¬((condition ≠ .always ∧ Ahead t₂ deadline) ∧ v.Stale t₂ k) := by
    intro deadline
    refine agrees_iff ht (fun h => setString_tells h.1 h.2) fun h => ?_
    by_cases hc : condition = .always
    · rw [hc]
      exact setString_always_forgets value deadline
    · exact setString_forgets fun hahead => h ⟨hc, hahead⟩
  rw [TellsStale]
  cases expiry with
  | none =>
    have hahead : Ahead t₂ none := nofun
    have hnone : ∀ e, (none : Option Expiry) = some e →
        ∃ d, StringCommand.Expiry.deadline? e t₂ = some d ∧ t₂ < max 1 d := nofun
    rw [StringCommand.write, hdeadline, iff_true_intro hahead, iff_true_intro hnone]
  | some e =>
    rw [StringCommand.write]
    cases hd : StringCommand.Expiry.deadline? e t₂ with
    | none =>
      refine iff_of_true agrees_nothing ?_
      rintro ⟨⟨-, h⟩, -⟩
      obtain ⟨d, hsome, -⟩ := h e rfl
      rw [hd] at hsome
      cases hsome
    | some d =>
      have hone : (∀ e', some e = some e' →
          ∃ d, StringCommand.Expiry.deadline? e' t₂ = some d ∧ t₂ < max 1 d) ↔ Ahead t₂ (some d) := by
        simp [Ahead, hd]
      rw [hone]
      exact hdeadline (some d)

theorem string_agrees_iff (ht : t₁ ≤ t₂) (c : StringCommand) :
    Agrees t₁ t₂ v (c.write t₂) ↔ ¬(string c).TellsStale t₂ v := by
  cases c with
  | set k value condition expiry => exact set_agrees_iff ht k value condition expiry
  | setnx k value =>
    exact agrees_iff_of_tells ht (setString_tells nofun nofun)
  | getdel k => exact iff_of_true (agrees_of_forgets ht takeString_forgets) id
  | mset pairs => exact iff_of_true (View.cut_puts ht _) id
  | incr k => exact agrees_iff_of_tells ht (incrBy_tells (by decide))
  | decr k => exact agrees_iff_of_tells ht (incrBy_tells (by decide))
  | incrBy k n => exact agrees_iff_of_tells ht (incrBy_tells (IntFormat.int64_fits_toInt n))
  | decrBy k n =>
    rw [StringCommand.write, TellsStale]
    by_cases hn : n = Int64.minValue
    · rw [if_pos hn]
      exact iff_of_true agrees_nothing fun h => h.1 hn
    · rw [if_neg hn, agrees_iff_of_tells ht (incrBy_tells (IntFormat.int64_fits_neg_toInt hn)),
        and_iff_right hn]
  | incrByFloat k x => exact agrees_iff ht incrByFloat_tells incrByFloat_forgets
  | append k value => exact agrees_iff_of_tells ht (append_tells value)
  | _ => exact iff_of_true agrees_nothing id

theorem list_agrees_iff (ht : t₁ ≤ t₂)
    (hne : ∀ key e, v key = some e → e.content.isEmpty = false) (c : ListCommand) (hc : c.Proper) :
    Agrees t₁ t₂ v c.write ↔ ¬(list c).TellsStale t₂ v := by
  cases c with
  | push place k values => exact agrees_iff_of_tells ht (push_tells place hc)
  | pop place k count => exact iff_of_true (agrees_of_forgets ht (edit_forgets rfl)) id
  | set k i value => exact iff_of_true (agrees_of_forgets ht (edit_forgets rfl)) id
  | insert side k pivot value => exact iff_of_true (agrees_of_forgets ht (edit_forgets rfl)) id
  | remove k count value => exact iff_of_true (agrees_of_forgets ht (edit_forgets rfl)) id
  | popPush source destination =>
    rw [ListCommand.write, TellsStale]
    by_cases hsame : source = destination
    · rw [if_pos hsame]
      exact iff_of_true (agrees_of_forgets ht (edit_forgets rfl)) fun h => h.1 hsame
    · rw [if_neg hsame, and_iff_right hsame]
      exact View.move_cut_iff ht hne
  | _ => exact iff_of_true agrees_nothing id

theorem hash_agrees_iff (ht : t₁ ≤ t₂) (c : HashCommand) (hc : c.Proper) :
    Agrees t₁ t₂ v c.write ↔ ¬(hash c).TellsStale t₂ v := by
  cases c with
  | set k pairs => exact agrees_iff_of_tells ht (putFields_tells hc)
  | incrBy k field n =>
    exact agrees_iff_of_tells ht (incrField_tells field (IntFormat.int64_fits_toInt n))
  | del k fields => exact iff_of_true (agrees_of_forgets ht (edit_forgets rfl)) id
  | _ => exact iff_of_true agrees_nothing id

theorem set_command_agrees_iff (ht : t₁ ≤ t₂) (c : SetCommand) (hc : c.Proper) :
    Agrees t₁ t₂ v (c.write []) ↔ ¬(set c).TellsStale t₂ v := by
  cases c with
  | add k members => exact agrees_iff_of_tells ht (addMembers_tells hc)
  | remove k members => exact iff_of_true (agrees_of_forgets ht (edit_forgets rfl)) id
  | pop k count => exact iff_of_true (agrees_of_forgets ht (edit_forgets rfl)) id
  | _ => exact iff_of_true agrees_nothing id

theorem sortedSet_agrees_iff (ht : t₁ ≤ t₂) (c : SortedSetCommand) :
    Agrees t₁ t₂ v c.write ↔ ¬(sortedSet c).TellsStale t₂ v := by
  cases c with
  | add k options entries =>
    exact agrees_iff ht (fun h => putScores_tells h.1 h.2) putScores_forgets
  | incrBy k x member => exact agrees_iff ht (incrScore_tells member) (incrScore_forgets member)
  | remove k members => exact iff_of_true (agrees_of_forgets ht (edit_forgets rfl)) id
  | removeByScore k r => exact iff_of_true (agrees_of_forgets ht (edit_forgets rfl)) id
  | removeByRank k start stop => exact iff_of_true (agrees_of_forgets ht (edit_forgets rfl)) id
  | _ => exact iff_of_true agrees_nothing id

/-- A command leaves the same to be seen at a later time, whether it runs before or then, just when
it does not tell. -/
theorem agrees_iff_not_tellsStale (ht : t₁ ≤ t₂)
    (hne : ∀ key e, v key = some e → e.content.isEmpty = false) (hc : c.Proper) (hl : c.Loggable) :
    (((c.write t₁ []).apply t₁ v).cut t₂ = (c.write t₂ []).apply t₂ (v.cut t₂)) ↔
      ¬c.TellsStale t₂ v := by
  rw [hl.timeless t₁ t₂]
  cases c with
  | server c => cases c <;> first | exact iff_of_true agrees_nothing id | exact iff_of_true agrees_clear id
  | key c => exact key_agrees_iff ht c
  | string c => exact string_agrees_iff ht c
  | list c => exact list_agrees_iff ht hne c hc
  | hash c => exact hash_agrees_iff ht c hc
  | set c => exact set_command_agrees_iff ht c hc
  | sortedSet c => exact sortedSet_agrees_iff ht c

end RespStore.Command
