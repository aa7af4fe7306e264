import RespStore.Proofs.Command.Answer.String
import RespStore.Proofs.Command.OneKey
import RespStore.Proofs.Number.Binary64.Text
import RespStore.Text.Fingerprint

/-!
# Floats that are written and read back

A float is replied and stored as its text, by name, with an exponent or plainly. Every text is read back as
the same bits, so a float under a key is the one that was replied when it was stored.
-/

namespace RespStore.StringCommand

theorem incrFloatAnswer_eq (delta : Binary64) (slot : Option Entry) :
    (∃ m, incrFloatAnswer delta slot = .error m) ∨
      ∃ x, Change.read Content.float? (some .zero) slot = some x ∧
        incrFloatAnswer delta slot = floatSumReply delta x := by
  cases slot with
  | none => exact .inr ⟨_, rfl, rfl⟩
  | some e =>
    have hread : Change.read Content.float? (some .zero) (some e) = e.content.float? := rfl
    rw [hread, Content.float?, incrFloatAnswer]
    cases hbytes : e.content.string? with
    | none => exact .inl ⟨_, Entry.answer_of_none hbytes⟩
    | some bytes =>
      rw [Entry.answer_of_some hbytes, Option.bind_some]
      cases (Binary64.read? bytes).filter (·.isFinite) with
      | none => exact .inl ⟨_, rfl⟩
      | some x => exact .inr ⟨x, rfl, rfl⟩

variable [Digest String] {db : Db} {now : Nat} {key : String}

/-- What is not refused is a finite sum, and its text is replied and stored. -/
theorem incrByFloat_stores (h : db.WF) (g : Draws) (delta : Binary64)
    (hreply : ∀ m, (run now db g (.incrByFloat key delta)).reply ≠ .error m) :
    ∃ x, Change.read Content.float? (some .zero) (db.view now key) = some x ∧
      (x + delta).isFinite = true ∧
      (run now db g (.incrByFloat key delta)).reply = .bulk (x + delta).text ∧
      (run now db g (.incrByFloat key delta)).db.view now key =
        some ⟨.string (x + delta).text, (db.view now key).bind (·.expiresAt)⟩ := by
  have hanswer : (run now db g (.incrByFloat key delta)).reply = incrFloatAnswer delta (db.view now key) :=
    run_answer h g _
  rcases incrFloatAnswer_eq delta (db.view now key) with ⟨m, hm⟩ | ⟨x, hread, hsum⟩
  · exact absurd (hanswer.trans hm) (hreply m)
  · by_cases hfinite : (x + delta).isFinite = true
    · have hview : (run now db g (.incrByFloat key delta)).db.view now =
          (db.view now).change now key (.incrByFloat delta) :=
        (run_performs h g (.incrByFloat key delta)).view
      rw [floatSumReply, if_pos hfinite] at hsum
      refine ⟨x, hread, hfinite, hanswer.trans hsum, ?_⟩
      rw [hview, Change.incrByFloat, View.change_edit Db.view_live hread (if_pos hfinite),
        Function.update_self]
      rfl
    · rw [floatSumReply, if_neg hfinite] at hsum
      exact absurd (hanswer.trans hsum) (hreply _)

/-- Every number that is no NaN is written in one of three forms and read back as the same bits. So what
INCRBYFLOAT replies and stores is the text of a sum, and whoever reads it reads that sum. -/
theorem floats_read_back :
    (∀ x : Binary64, x.isNaN = false →
      ∃ bs, Binary64.Form x bs ∧ x.text = (if x.isNegative then Ascii.minus :: bs else bs) ∧
        Binary64.readNumber? x.text = some x) ∧
    ∀ (db : Db) (now : Nat) (g : Draws) (key : String) (delta : Binary64), db.WF →
      (∀ m, (run now db g (.incrByFloat key delta)).reply ≠ .error m) →
      ∃ x, Change.read Content.float? (some .zero) (db.view now key) = some x ∧
        (run now db g (.incrByFloat key delta)).reply = .bulk (x + delta).text ∧
        (run now db g (.incrByFloat key delta)).db.view now key =
          some ⟨.string (x + delta).text, (db.view now key).bind (·.expiresAt)⟩ ∧
        Binary64.readNumber? (x + delta).text = some (x + delta) ∧
        Content.float? (.string (x + delta).text) = some (x + delta) := by
  refine ⟨fun x hx => ?_, fun db now g key delta h hreply => ?_⟩
  · exact ⟨_, Binary64.form_unsignedText hx, if_neg (Bool.not_eq_true _ ▸ hx),
      Binary64.readNumber?_text hx⟩
  · obtain ⟨x, hread, hfinite, hbulk, hview⟩ := incrByFloat_stores h g delta hreply
    have hnumber : (x + delta).isNaN = false := Binary64.isNaN_of_isFinite hfinite
    refine ⟨x, hread, hbulk, hview, Binary64.readNumber?_text hnumber, ?_⟩
    show (Binary64.read? (x + delta).text).filter (·.isFinite) = _
    rw [Binary64.read?_text hnumber, Option.filter_some, hfinite]
    rfl

/-- The negative number next to zero, and a tenth, which no fraction of powers of two is. -/
def least : Binary64 := .ofMagnitude true 1

def tenth : Binary64 := .ofDecimal false 1 (-1)

/-- Written with an exponent of three digits, and stored plainly under a key that was absent. -/
theorem least_tenth_read_back :
    (least.isNaN = false ∧ least.text = Utf8.encode "-5e-324" ∧
      Binary64.readNumber? (Utf8.encode "-5e-324") = some least) ∧
    (∀ m, (run 5 Db.empty ⟨fun _ => 0, 0⟩ (.incrByFloat "k" tenth)).reply ≠ .error m) ∧
    (run 5 Db.empty ⟨fun _ => 0, 0⟩ (.incrByFloat "k" tenth)).reply = .bulk (Utf8.encode "0.1") ∧
    (run 5 Db.empty ⟨fun _ => 0, 0⟩ (.incrByFloat "k" tenth)).db.view 5 "k" =
      some ⟨.string (Utf8.encode "0.1"), none⟩ ∧
    Content.float? (.string (Utf8.encode "0.1")) = some tenth := by
  have hleast : least.isNaN = false := by decide +kernel
  have hleastText : least.text = Utf8.encode "-5e-324" := by decide +kernel
  obtain ⟨-, -, -, hread⟩ := floats_read_back.1 least hleast
  rw [hleastText] at hread
  have hsum : Binary64.zero + tenth = tenth := by decide +kernel
  have hfinite : (Binary64.zero + tenth).isFinite = true := by decide +kernel
  have htext : tenth.text = Utf8.encode "0.1" := by decide +kernel
  have hview : Db.empty.view 5 "k" = none := congrFun Db.view_empty "k"
  have hanswer : (run 5 Db.empty ⟨fun _ => 0, 0⟩ (.incrByFloat "k" tenth)).reply =
      .number (.zero + tenth) := by
    rw [run_answer Db.wf_empty]
    show incrFloatAnswer tenth (Db.empty.view 5 "k") = _
    rw [hview, incrFloatAnswer, Entry.answer, Option.elim_none, floatSumReply, if_pos hfinite]
  have hreply : ∀ m, (run 5 Db.empty ⟨fun _ => 0, 0⟩ (.incrByFloat "k" tenth)).reply ≠ .error m := by
    intro m hm
    rw [hanswer] at hm
    cases hm
  obtain ⟨x, hx, hbulk, hstored, -, hfloat⟩ :=
    floats_read_back.2 Db.empty 5 ⟨fun _ => 0, 0⟩ "k" tenth Db.wf_empty hreply
  rw [hview] at hx hstored
  obtain rfl : Binary64.zero = x := Option.some.inj hx
  rw [hsum, htext] at hbulk hstored hfloat
  exact ⟨⟨hleast, hleastText, hread⟩, hreply, hbulk, hstored, hfloat⟩

end RespStore.StringCommand
