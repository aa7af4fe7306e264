import RespStore.Command.Key.Run
import RespStore.Proofs.Command.Answer.Key
import RespStore.Proofs.Text.Glob

/-!
# Keys by prefix

What a literal prefix and a star ask for. The star alone asks for every key. After a prefix it runs
within one component of a key only, so a key with a slash after the prefix is left out.
-/

namespace RespStore

/-- The texts that match a literal prefix with a star are those that go on from the prefix without
a slash. -/
theorem LawfulMatcher.prefix_iff [Matcher] [LawfulMatcher] {p : String}
    (h : ∀ c ∈ p.toList, c ∉ Matcher.special) (text : String) :
    Matcher.isMatch (p ++ "*") text = true ↔ ∃ rest, text = p ++ rest ∧ '/' ∉ rest.toList := by
  obtain ⟨cs, rfl⟩ : ∃ cs, p = String.ofList cs := ⟨p.toList, String.ofList_toList.symm⟩
  rw [String.toList_ofList] at h
  induction cs generalizing text with
  | nil => simpa using star_iff text
  | cons c cs ih =>
    obtain ⟨hc, hcs⟩ := List.forall_mem_cons.mp h
    have hcons : String.ofList (c :: cs) = String.singleton c ++ String.ofList cs := by
      rw [String.singleton_eq_ofList, ← String.ofList_append]
      rfl
    have hcs' : ∀ d ∈ (String.ofList cs).toList, d ∉ Matcher.special := by
      rwa [String.toList_ofList]
    -- The character is one of the text as well, and what follows it matches the rest of the prefix.
    rw [hcons, literal_iff hc hcs']
    simp only [ih _ hcs]
    constructor
    · rintro ⟨_, rfl, rest, rfl, hrest⟩
      exact ⟨rest, String.append_assoc.symm, hrest⟩
    · rintro ⟨rest, rfl, hrest⟩
      exact ⟨String.ofList cs ++ rest, String.append_assoc, rest, rfl, hrest⟩

namespace Db

section

variable [Digest String] [Matcher] [LawfulMatcher] {db : Db} {now : Nat} {p : String}

theorem mem_keys_prefix_iff {key : String} (h : db.WF) (hp : p ≠ "")
    (hlit : ∀ c ∈ p.toList, c ∉ Matcher.special) :
    key ∈ db.keys now (p ++ "*") ↔
      (db.view now key).isSome = true ∧ ∃ rest, key = p ++ rest ∧ '/' ∉ rest.toList := by
  have hne : p ++ "*" ≠ "*" := fun heq => hp (by simpa using congrArg String.toList heq)
  rw [(KeyCommand.keys_spec h now _).2, beq_eq_false_iff_ne.mpr hne, Bool.false_or,
    LawfulMatcher.prefix_iff hlit]

/-- A literal prefix with a star answers each live key that goes on from the prefix without a slash,
once, and no other key; the star alone answers each live key once. The database stays as it is. -/
theorem matching_prefix_spec (h : db.WF) (now : Nat) (g : Draws) (hp : p ≠ "")
    (hlit : ∀ c ∈ p.toList, c ∉ Matcher.special) :
    (∃ keys, KeyCommand.run now db g (.matching (p ++ "*")) = ⟨.ofList .text keys, db, g⟩ ∧
      keys.Nodup ∧ ∀ key, key ∈ keys ↔
        (db.view now key).isSome = true ∧ ∃ rest, key = p ++ rest ∧ '/' ∉ rest.toList) ∧
      ∃ keys, KeyCommand.run now db g (.matching "*") = ⟨.ofList .text keys, db, g⟩ ∧
        keys.Nodup ∧ ∀ key, key ∈ keys ↔ (db.view now key).isSome = true :=
  ⟨⟨db.keys now (p ++ "*"), rfl, (KeyCommand.keys_spec h now _).1,
      fun _ => mem_keys_prefix_iff h hp hlit⟩,
    ⟨db.keys now "*", rfl, (KeyCommand.keys_spec h now _).1, fun _ => KeyCommand.mem_keys_all h⟩⟩

end

/-- Two keys with one prefix, one of them with a slash after it. -/
def slashed : Db :=
  (empty.set "user:1" ⟨.string [], none⟩).set "user/1" ⟨.string [], none⟩

theorem wf_slashed : slashed.WF := by
  have hstring : (⟨.string [], none⟩ : Value).data.WF := ⟨trivial, rfl⟩
  exact (set_spec (set_spec wf_empty hstring _ 0).1 hstring _ 0).1

/-- The prefix leaves out the key with the slash. -/
theorem slashed_left_out :
    slashed.WF ∧ (slashed.view 5 "user:1").isSome = true ∧ (slashed.view 5 "user/1").isSome = true ∧
      ∀ g, ∃ keys, KeyCommand.run 5 slashed g (.matching "user*") =
        ⟨.ofList .text keys, slashed, g⟩ ∧ "user:1" ∈ keys ∧ "user/1" ∉ keys := by
  have hcolon : (slashed.view 5 "user:1").isSome = true := by decide +kernel
  have hslash : (slashed.view 5 "user/1").isSome = true := by decide +kernel
  refine ⟨wf_slashed, hcolon, hslash, fun g => ?_⟩
  have huser : ∀ c ∈ "user".toList, c ∉ Matcher.special := by simp [Matcher.special]
  obtain ⟨⟨keys, hrun, -, hmem⟩, -⟩ := matching_prefix_spec wf_slashed 5 g (by decide) huser
  refine ⟨keys, hrun, (hmem _).mpr ⟨hcolon, ":1", rfl, by decide⟩, fun hin => ?_⟩
  obtain ⟨-, rest, hkey, hrest⟩ := (hmem _).mp hin
  have hrest' : rest = "/1" := (String.append_right_inj "user").mp hkey.symm
  exact hrest (hrest' ▸ by decide)

end Db

end RespStore
