import RespStore.Proofs.Command.Named

/-!
# Writes that do not look at the clock

Only a command that counts a deadline from now depends on the time at which it runs. All that sets
no deadline writes the same at any two times with no deadline in between.
-/

namespace RespStore

/-- A string stored without a deadline has none; what stays in its place keeps its own. -/
theorem Change.setString_keeps (value : Bytes) (condition : SetCondition) :
    (Change.setString value condition none).Keeps := by
  intro slot e h
  have hnew : ∀ x : Entry, some x = some ⟨.string value, none⟩ → x.expiresAt = none := by
    rintro x ⟨⟩
    rfl
  cases condition with
  | always => exact .inl (hnew e h.symm)
  | ifAbsent =>
    cases slot with
    | none => exact .inl (hnew e h.symm)
    | some old =>
      cases h
      exact .inr rfl
  | ifPresent =>
    cases slot with
    | none => cases h
    | some old => exact .inl (hnew e h.symm)

namespace KeyCommand

variable {c : KeyCommand} {now : Nat}

theorem write_keeps (hc : ∀ unit key n, c ≠ .expire unit key n) : (c.write now).Keeps := by
  cases c with
  | expire unit key n => exact absurd rfl (hc unit key n)
  | del keys =>
    intro e he x hx
    obtain ⟨key, -, rfl⟩ := List.mem_map.mp he
    cases hx
  | persist key =>
    intro slot e he
    obtain ⟨old, -, rfl⟩ := Option.map_eq_some_iff.mp he
    exact .inl rfl
  | _ => trivial

theorem write_timeless (hc : ∀ unit key n, c ≠ .expire unit key n) (t : Nat) :
    c.write now = c.write t := by
  cases c with
  | expire unit key n => exact absurd rfl (hc unit key n)
  | _ => rfl

end KeyCommand

namespace StringCommand

variable {c : StringCommand} {now : Nat}

theorem write_keeps (hc : ∀ key value condition e, c ≠ .set key value condition (some e)) :
    (c.write now).Keeps := by
  cases c with
  | set key value condition expiry =>
    cases expiry with
    | none => exact Change.setString_keeps value condition
    | some e => exact absurd rfl (hc key value condition e)
  | setnx key value => exact Change.setString_keeps value .ifAbsent
  | getdel key =>
    rintro (_ | ⟨c, t⟩) e he
    · cases he
    · cases c <;> cases he <;> exact .inr rfl
  | mset pairs =>
    intro e he x hx
    obtain ⟨p, -, rfl⟩ := List.mem_map.mp he
    cases hx
    rfl
  | incr key => exact Change.edit_keeps _ _ _
  | decr key => exact Change.edit_keeps _ _ _
  | incrBy key delta => exact Change.edit_keeps _ _ _
  | decrBy key delta =>
    rw [write]
    split
    · trivial
    · exact Change.edit_keeps _ _ _
  | incrByFloat key delta => exact Change.edit_keeps _ _ _
  | append key value => exact Change.edit_keeps _ _ _
  | _ => trivial

theorem write_timeless (hc : ∀ key value condition e, c ≠ .set key value condition (some e))
    (t : Nat) : c.write now = c.write t := by
  cases c with
  | set key value condition expiry =>
    cases expiry with
    | none => rfl
    | some e => exact absurd rfl (hc key value condition e)
  | _ => rfl

end StringCommand

namespace Command

/-- A command that a log puts down as it came, if at all. -/
def Plain (c : Command) : Prop :=
  c.rewriting = .none ∨ ∃ key value condition, c = .string (.set key value condition none)

variable {c : Command}

theorem Plain.ne_expire (h : c.Plain) (unit : TimeUnit) (key : String) (n : Int64) :
    c ≠ .key (.expire unit key n) := by
  rintro rfl
  rcases h with h | ⟨_, _, _, h⟩
  · cases h
  · cases h

theorem Plain.ne_set (h : c.Plain) (key : String) (value : Bytes) (condition : SetCondition)
    (e : Expiry) : c ≠ .string (.set key value condition (some e)) := by
  rintro rfl
  rcases h with h | ⟨_, _, _, h⟩
  · cases h
  · cases h

theorem Plain.ne_pop (h : c.Plain) (key : String) (count : Option Nat) :
    c ≠ .set (.pop key count) := by
  rintro rfl
  rcases h with h | ⟨_, _, _, h⟩
  · cases h
  · cases h

/-- Only two commands give a key a deadline that it has not had. -/
theorem write_keeps (hexpire : ∀ unit name n, c ≠ .key (.expire unit name n))
    (hset : ∀ name value condition e, c ≠ .string (.set name value condition (some e)))
    (now : Nat) (popped : List String) : (c.write now popped).Keeps := by
  cases c with
  | server c => cases c <;> trivial
  | key c => exact c.write_keeps fun unit k n hc => hexpire unit k n (congrArg key hc)
  | string c =>
    exact c.write_keeps fun k value condition e hc => hset k value condition e (congrArg string hc)
  | list c => exact c.write_retains.keeps
  | hash c => exact c.write_retains.keeps
  | set c => exact (c.write_retains popped).keeps
  | sortedSet c => exact c.write_retains.keeps

theorem Plain.keeps (h : c.Plain) (now : Nat) (popped : List String) :
    (c.write now popped).Keeps := write_keeps h.ne_expire h.ne_set now popped

theorem Plain.timeless (h : c.Plain) (now t : Nat) (popped : List String) :
    c.write now popped = c.write t [] := by
  cases c with
  | key c =>
    exact c.write_timeless (fun unit k n hc => h.ne_expire unit k n (congrArg key hc)) t
  | string c =>
    exact c.write_timeless (fun k value condition e hc =>
      h.ne_set k value condition e (congrArg string hc)) t
  | set c =>
    cases c with
    | pop key count => exact absurd rfl (h.ne_pop key count)
    | _ => rfl
  | server c => cases c <;> rfl
  | list c => rfl
  | hash c => rfl
  | sortedSet c => rfl

/-- A command that a log may hold: it selects no database, draws nothing and does not look at the
clock. -/
structure Loggable (c : Command) : Prop where
  stays : c.isSelect = false
  drawless : c.rewriting ≠ .removal
  timeless : ∀ now t, c.write now [] = c.write t []

theorem Plain.loggable (h : c.Plain) (hstays : c.isSelect = false) : c.Loggable where
  stays := hstays
  drawless := by
    rcases h with h | ⟨_, _, _, rfl⟩
    · rw [h]
      exact nofun
    · exact nofun
  timeless := fun now t => h.timeless now t []

end Command

end RespStore
