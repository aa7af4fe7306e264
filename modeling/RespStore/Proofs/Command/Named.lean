import RespStore.Proofs.Command.Write

/-!
# What writes leave alone

A command writes to keys that it names. Content that it puts under a key that is there has the old
deadline, unless the command stores strings afresh or is about deadlines.
-/

namespace RespStore

namespace View

variable {v : View} {now : Nat} {key k : String} {slot : Option Entry}

theorem write_of_ne (h : k ≠ key) : (v.write now key slot) k = v k := Function.update_of_ne h _ _

/-- A move does nothing, or stores content under two keys. -/
theorem move_cases (v : View) (now : Nat) (source destination : String) :
    v.move now source destination = v ∨ ∃ c c', v.move now source destination =
      (v.write now source (Entry.store (v source) c)).write now destination
        (Entry.store (v destination) c') := by
  unfold move
  split
  · split
    · exact .inr ⟨_, _, rfl⟩
    · exact .inl rfl
  · exact .inl rfl

end View

/-- Whatever a change puts in the place of an entry has its deadline. -/
def Change.Retains (F : Change) : Prop :=
  ∀ slot e, F slot = some e → e.expiresAt = slot.bind (·.expiresAt)

theorem Change.edit_retains {α : Type} (get : Content → Option α) (absent : Option α)
    (f : α → Option Content) : (edit get absent f).Retains := fun _ _ => expiresAt_edit

theorem Change.setString_retains (value : Bytes) :
    (Change.setString value .ifAbsent none).Retains := by
  rintro (_ | old) e he
  · cases he
    rfl
  · cases he
    rfl

theorem Change.takeString_retains : Change.takeString.Retains := by
  rintro (_ | ⟨c, t⟩) e he
  · cases he
  · cases c <;> cases he <;> rfl

namespace Write

variable {w : Write} {v : View} {now : Nat} {key : String} {e e' : Entry}

/-- The keys to which a write gives an entry or none; clearing gives none to any. -/
def keys : Write → List String
  | nothing | clear => []
  | change key _ => [key]
  | puts entries => entries.map (·.1)
  | move source destination => [source, destination]

/-- A key that is not written to keeps what it has. -/
theorem apply_of_notMem (hclear : w ≠ .clear) (h : key ∉ w.keys) : w.apply now v key = v key := by
  cases w with
  | nothing => rfl
  | clear => exact absurd rfl hclear
  | change k F => exact View.write_of_ne (List.mem_singleton.not.mp h)
  | puts entries =>
    show entries.foldl _ v key = _
    induction entries generalizing v with
    | nil => rfl
    | cons p entries ih =>
      obtain ⟨hp, hrest⟩ := not_or.mp (List.mem_cons.not.mp h)
      exact (ih nofun hrest).trans (View.write_of_ne hp)
  | move source destination =>
    obtain ⟨hs, hd⟩ := not_or.mp (List.mem_cons.not.mp h)
    show v.move now source destination key = _
    rcases View.move_cases v now source destination with hsame | ⟨c, c', hmoved⟩
    · rw [hsame]
    · rw [hmoved, View.write_of_ne (List.mem_singleton.not.mp hd), View.write_of_ne hs]

/-- What is written to a key that is there has its deadline. -/
def Retains : Write → Prop
  | change _ F => F.Retains
  | puts entries => ∀ e ∈ entries, e.2 = none
  | _ => True

theorem Retains.keeps (hw : w.Retains) : w.Keeps := by
  cases w with
  | change key F => exact fun slot e he => .inr (hw slot e he)
  | puts entries =>
    intro e he x hx
    rw [hw e he] at hx
    cases hx
  | _ => trivial

variable (now key) in
/-- Keys that only lose their entries. -/
theorem puts_none (entries : List (String × Option Entry)) (h : ∀ e ∈ entries, e.2 = none)
    (v : View) : (puts entries).apply now v key = none ∨ (puts entries).apply now v key = v key := by
  induction entries generalizing v with
  | nil => exact .inr rfl
  | cons p entries ih =>
    obtain ⟨hp, hrest⟩ := List.forall_mem_cons.mp h
    rcases ih hrest (v.write now p.1 p.2) with hnone | hsame
    · exact .inl hnone
    · by_cases hk : key = p.1
      · left
        refine hsame.trans ?_
        rw [hk, hp, View.write_apply]
        rfl
      · exact .inr (hsame.trans (View.write_of_ne hk))

/-- A key that is there before and after a write keeps its deadline. -/
theorem Retains.expiresAt (hw : w.Retains) (he : v key = some e)
    (he' : w.apply now v key = some e') : e'.expiresAt = e.expiresAt := by
  have hsame : v key = some e' → e'.expiresAt = e.expiresAt := by
    intro h
    rw [Option.some.inj (h.symm.trans he)]
  -- what is written in the place of an entry, and is not dropped at once
  have hwritten : ∀ {slot : Option Entry},
      (∀ x, slot = some x → x.expiresAt = (v key).bind (·.expiresAt)) →
      slot.filter (·.isLive now) = some e' → e'.expiresAt = e.expiresAt := by
    intro slot hslot h
    rw [hslot e' (Option.filter_eq_some_iff.mp h).1, he]
    rfl
  by_cases hkey : key ∈ w.keys
  case neg =>
    by_cases hclear : w = .clear
    · rw [hclear] at he'
      cases he'
    · exact hsame ((apply_of_notMem hclear hkey).symm.trans he')
  cases w with
  | nothing => cases hkey
  | clear => cases hkey
  | change k F =>
    obtain rfl : key = k := List.mem_singleton.mp hkey
    exact hwritten (hw _) (View.write_apply.symm.trans he')
  | puts entries =>
    rcases puts_none now key entries hw v with hnone | hkept
    · rw [hnone] at he'
      cases he'
    · exact hsame (hkept.symm.trans he')
  | move source destination =>
    have hstore : ∀ c, ∀ x, Entry.store (v key) c = some x →
        x.expiresAt = (v key).bind (·.expiresAt) := fun c x => Entry.expiresAt_store
    change v.move now source destination key = some e' at he'
    rcases View.move_cases v now source destination with heq | ⟨c, c', heq⟩
    · rw [heq] at he'
      exact hsame he'
    · rw [heq] at he'
      by_cases hd : key = destination
      · subst hd
        exact hwritten (hstore _) (View.write_apply.symm.trans he')
      · rw [View.write_of_ne hd] at he'
        by_cases hs : key = source
        · subst hs
          exact hwritten (hstore _) (View.write_apply.symm.trans he')
        · exact hsame ((View.write_of_ne hs).symm.trans he')

end Write

/-! ## Commands -/

namespace KeyCommand

/-- The keys that a command names. -/
def named : KeyCommand → List String
  | del keys | .exists keys => keys
  | type key | expire _ key _ | ttl key | pttl key | persist key => [key]
  | matching _ | randomKey => []

theorem keys_write (now : Nat) (c : KeyCommand) : (c.write now).keys ⊆ c.named := by
  cases c with
  | del keys =>
    intro k hk
    obtain ⟨p, hp, rfl⟩ := List.mem_map.mp hk
    obtain ⟨key, hkey, rfl⟩ := List.mem_map.mp hp
    exact hkey
  | expire unit key amount =>
    rw [write]
    split
    · exact List.nil_subset _
    · exact List.Subset.refl _
  | persist key => exact List.Subset.refl _
  | _ => exact List.nil_subset _

end KeyCommand

namespace StringCommand

/-- The keys that a command names. -/
def named : StringCommand → List String
  | get key | set key _ _ _ | setnx key _ | getdel key | incr key | decr key | incrBy key _
  | decrBy key _ | incrByFloat key _ | append key _ | strlen key => [key]
  | mget keys => keys
  | mset pairs => pairs.map (·.1)

theorem keys_write (now : Nat) (c : StringCommand) : (c.write now).keys ⊆ c.named := by
  cases c with
  | get key => exact List.nil_subset _
  | mget keys => exact List.nil_subset _
  | strlen key => exact List.nil_subset _
  | set key value condition expiry =>
    cases expiry with
    | none => exact List.Subset.refl _
    | some expiry =>
      rw [write]
      split
      · exact List.nil_subset _
      · exact List.Subset.refl _
  | mset pairs =>
    show (pairs.map _).map _ ⊆ pairs.map _
    rw [List.map_map]
    exact List.Subset.refl _
  | decrBy key delta =>
    rw [write]
    split
    · exact List.nil_subset _
    · exact List.Subset.refl _
  | _ => exact List.Subset.refl _

end StringCommand

namespace ListCommand

/-- The keys that a command names. -/
def named : ListCommand → List String
  | push _ key _ | pop _ key _ | length key | range key _ _ | index key _ | set key _ _
  | insert _ key _ _ | remove key _ _ => [key]
  | popPush source destination => [source, destination]

theorem keys_write (c : ListCommand) : c.write.keys ⊆ c.named := by
  cases c with
  | popPush source destination =>
    rw [write]
    split
    · exact List.cons_subset_cons _ (List.nil_subset _)
    · exact List.Subset.refl _
  | length key => exact List.nil_subset _
  | range key start stop => exact List.nil_subset _
  | index key i => exact List.nil_subset _
  | _ => exact List.Subset.refl _

theorem write_retains (c : ListCommand) : c.write.Retains := by
  cases c with
  | push place key values => exact Change.edit_retains _ _ _
  | pop place key count => exact Change.edit_retains _ _ _
  | set key i value => exact Change.edit_retains _ _ _
  | insert side key pivot value => exact Change.edit_retains _ _ _
  | remove key count value => exact Change.edit_retains _ _ _
  | popPush source destination =>
    rw [write]
    split
    · exact Change.edit_retains _ _ _
    · trivial
  | _ => trivial

end ListCommand

namespace HashCommand

/-- The key that a command names. -/
def named : HashCommand → List String
  | set key _ | get key _ | del key _ | .exists key _ | length key | listing _ key
  | incrBy key _ _ => [key]

theorem keys_write (c : HashCommand) : c.write.keys ⊆ c.named := by
  cases c with
  | set key pairs => exact List.Subset.refl _
  | del key fields => exact List.Subset.refl _
  | incrBy key field delta => exact List.Subset.refl _
  | _ => exact List.nil_subset _

theorem write_retains (c : HashCommand) : c.write.Retains := by
  cases c with
  | set key pairs => exact Change.edit_retains _ _ _
  | del key fields => exact Change.edit_retains _ _ _
  | incrBy key field delta => exact Change.edit_retains _ _ _
  | _ => trivial

end HashCommand

namespace SetCommand

/-- The key that a command names. -/
def named : SetCommand → List String
  | add key _ | remove key _ | contains key _ | size key | listing key | pop key _
  | random key _ => [key]

theorem keys_write (popped : List String) (c : SetCommand) : (c.write popped).keys ⊆ c.named := by
  cases c with
  | add key members => exact List.Subset.refl _
  | remove key members => exact List.Subset.refl _
  | pop key count => exact List.Subset.refl _
  | _ => exact List.nil_subset _

theorem write_retains (popped : List String) (c : SetCommand) : (c.write popped).Retains := by
  cases c with
  | add key members => exact Change.edit_retains _ _ _
  | remove key members => exact Change.edit_retains _ _ _
  | pop key count => exact Change.edit_retains _ _ _
  | _ => trivial

end SetCommand

namespace SortedSetCommand

/-- The key that a command names. -/
def named : SortedSetCommand → List String
  | add key _ _ | incrBy key _ _ | score key _ | remove key _ | size key | rank _ key _
  | range _ key _ _ _ | rangeByScore key _ _ _ | count key _ | removeByScore key _
  | removeByRank key _ _ => [key]

theorem keys_write (c : SortedSetCommand) : c.write.keys ⊆ c.named := by
  cases c with
  | add key options entries => exact List.Subset.refl _
  | incrBy key delta member => exact List.Subset.refl _
  | remove key members => exact List.Subset.refl _
  | removeByScore key r => exact List.Subset.refl _
  | removeByRank key start stop => exact List.Subset.refl _
  | _ => exact List.nil_subset _

theorem write_retains (c : SortedSetCommand) : c.write.Retains := by
  cases c with
  | add key options entries => exact Change.edit_retains _ _ _
  | incrBy key delta member => exact Change.edit_retains _ _ _
  | remove key members => exact Change.edit_retains _ _ _
  | removeByScore key r => exact Change.edit_retains _ _ _
  | removeByRank key start stop => exact Change.edit_retains _ _ _
  | _ => trivial

end SortedSetCommand

namespace Command

variable {c : Command} {now : Nat} {popped : List String}

/-- The keys that a command names. -/
def named : Command → List String
  | server (.objectEncoding name) => [name]
  | server _ => []
  | key c => c.named
  | string c => c.named
  | list c => c.named
  | hash c => c.named
  | set c => c.named
  | sortedSet c => c.named

theorem keys_write (c : Command) : (c.write now popped).keys ⊆ c.named := by
  cases c with
  | server c => cases c <;> exact List.nil_subset _
  | key c => exact c.keys_write now
  | string c => exact c.keys_write now
  | list c => exact c.keys_write
  | hash c => exact c.keys_write
  | set c => exact c.keys_write popped
  | sortedSet c => exact c.keys_write

/-- The commands that clear databases. -/
def clears : Command → Bool
  | server .flushDb | server .flushAll => true
  | _ => false

theorem eq_of_clears (h : c.clears = true) : c = .server .flushDb ∨ c = .server .flushAll := by
  rcases c with c | c | c | c | c | c | c
  case server =>
    cases c with
    | flushDb => exact .inl rfl
    | flushAll => exact .inr rfl
    | _ => cases h
  all_goals cases h

theorem isFlushAll_eq_false (h : c ≠ .server .flushAll) : c.isFlushAll = false := by
  rcases c with c | c | c | c | c | c | c
  case server =>
    cases c with
    | flushAll => exact absurd rfl h
    | _ => rfl
  all_goals rfl

theorem write_ne_clear (h : c.clears = false) : c.write now popped ≠ .clear := by
  cases c with
  | server c =>
    cases c with
    | flushDb => cases h
    | _ => rintro ⟨⟩
  | key c =>
    cases c with
    | expire unit key amount =>
      show KeyCommand.write now (.expire unit key amount) ≠ _
      rw [KeyCommand.write]
      split <;> rintro ⟨⟩
    | _ => rintro ⟨⟩
  | string c =>
    cases c with
    | set key value condition expiry =>
      cases expiry with
      | none => rintro ⟨⟩
      | some expiry =>
        show StringCommand.write now (.set key value condition (some expiry)) ≠ _
        rw [StringCommand.write]
        split <;> rintro ⟨⟩
    | decrBy key delta =>
      show StringCommand.write now (.decrBy key delta) ≠ _
      rw [StringCommand.write]
      split <;> rintro ⟨⟩
    | _ => rintro ⟨⟩
  | list c =>
    cases c with
    | popPush source destination =>
      show ListCommand.write (.popPush source destination) ≠ _
      rw [ListCommand.write]
      split <;> rintro ⟨⟩
    | _ => rintro ⟨⟩
  | hash c => cases c <;> rintro ⟨⟩
  | set c => cases c <;> rintro ⟨⟩
  | sortedSet c => cases c <;> rintro ⟨⟩

/-- The commands that store strings over what was there, and those that set or lift deadlines. -/
def redates : Command → Bool
  | key (.expire _ _ _) | key (.persist _) => true
  | string (.set _ _ _ _) | string (.mset _) => true
  | _ => false

theorem write_retains (h : c.redates = false) : (c.write now popped).Retains := by
  cases c with
  | server c => cases c <;> trivial
  | key c =>
    cases c with
    | expire unit key amount => cases h
    | persist key => cases h
    | del keys =>
      intro e he
      obtain ⟨key, -, rfl⟩ := List.mem_map.mp he
      rfl
    | _ => trivial
  | string c =>
    cases c with
    | set key value condition expiry => cases h
    | mset pairs => cases h
    | setnx key value => exact Change.setString_retains value
    | getdel key => exact Change.takeString_retains
    | incr key => exact Change.edit_retains _ _ _
    | decr key => exact Change.edit_retains _ _ _
    | incrBy key delta => exact Change.edit_retains _ _ _
    | decrBy key delta =>
      show (StringCommand.write now (.decrBy key delta)).Retains
      rw [StringCommand.write]
      split
      · trivial
      · exact Change.edit_retains _ _ _
    | incrByFloat key delta => exact Change.edit_retains _ _ _
    | append key value => exact Change.edit_retains _ _ _
    | _ => trivial
  | list c => exact c.write_retains
  | hash c => exact c.write_retains
  | set c => exact c.write_retains popped
  | sortedSet c => exact c.write_retains

end Command

end RespStore
