import Mathlib.Data.List.Infix
import RespStore.Bytes

/-!
# Lines

The first line of a byte string ends at its first CR LF. What follows the CR LF has no part in the
line, so bytes that come later change nothing about a line that has ended.
-/

namespace RespStore.Bytes

variable {bs line rest : Bytes} {b : UInt8} {n m : Nat}

/-- Holds no CR LF, and so may be a line. -/
def IsLine (bs : Bytes) : Prop := ¬crlf <:+: bs

instance (bs : Bytes) : Decidable (IsLine bs) := inferInstanceAs (Decidable ¬crlf <:+: bs)

theorem isLine_cons :
    IsLine (b :: bs) ↔ ¬(b = Ascii.cr ∧ bs.head? = some Ascii.lf) ∧ IsLine bs := by
  have hhead : crlf <+: b :: bs ↔ b = Ascii.cr ∧ bs.head? = some Ascii.lf := by
    cases bs <;> simp [crlf, List.cons_prefix_cons, eq_comm]
  rw [IsLine, List.infix_cons_iff, hhead, not_or]
  rfl

theorem isLine_nil : IsLine [] := fun h => absurd h.length_le (by decide)

theorem isLine_of_cr_notMem (h : Ascii.cr ∉ bs) : IsLine bs := fun hin =>
  h (hin.mem List.mem_cons_self)

theorem isLine_append_of_cr_notMem {xs : Bytes} (h : Ascii.cr ∉ xs) (bs : Bytes) :
    IsLine (xs ++ bs) ↔ IsLine bs := by
  induction xs with
  | nil => rfl
  | cons x xs ih =>
    obtain ⟨hx, hxs⟩ := not_or.mp (mt List.mem_cons.mpr h)
    rw [List.cons_append, isLine_cons, ih hxs]
    exact and_iff_right fun hcr => hx hcr.1.symm

theorem isLine_append_of_lf_notMem {ys : Bytes} (h : Ascii.lf ∉ ys) (bs : Bytes) :
    IsLine (bs ++ ys) ↔ IsLine bs := by
  induction bs with
  | nil => exact iff_of_true (fun hin => h (hin.mem (by decide))) isLine_nil
  | cons b bs ih =>
    have hhead : (bs ++ ys).head? = some Ascii.lf ↔ bs.head? = some Ascii.lf := by
      cases bs with
      | nil => exact iff_of_false (fun hy => h (List.mem_of_head? hy)) nofun
      | cons => rfl
    rw [List.cons_append, isLine_cons, isLine_cons, ih, hhead]

/-- Neither begins nor ends a CR LF. -/
structure Inert (bs : Bytes) : Prop where
  ne_nil : bs ≠ []
  cr : Ascii.cr ∉ bs
  lf : Ascii.lf ∉ bs

/-- Parts that may stand for each other in a line. -/
inductive LikeParts : Bytes → Bytes → Prop where
  | same (b : UInt8) : LikeParts [b] [b]
  | inert {xs ys : Bytes} (hx : Inert xs) (hy : Inert ys) : LikeParts xs ys

theorem LikeParts.isLine_flatten {xss yss : List Bytes} (h : List.Forall₂ LikeParts xss yss) :
    IsLine xss.flatten ↔ IsLine yss.flatten := by
  suffices hboth : (xss.flatten.head? = some Ascii.lf ↔ yss.flatten.head? = some Ascii.lf) ∧
      (IsLine xss.flatten ↔ IsLine yss.flatten) from hboth.2
  induction h with
  | nil => exact ⟨Iff.rfl, Iff.rfl⟩
  | cons hparts _ ih =>
    rw [List.flatten_cons, List.flatten_cons]
    cases hparts with
    | same b =>
      refine ⟨Iff.rfl, ?_⟩
      rw [List.singleton_append, List.singleton_append, isLine_cons, isLine_cons, ih.1, ih.2]
    | inert hx hy =>
      rw [isLine_append_of_cr_notMem hx.cr, isLine_append_of_cr_notMem hy.cr]
      refine ⟨iff_of_false ?_ ?_, ih.2⟩
      · exact fun hhead => hx.lf (List.mem_of_head? (by rwa [List.head?_append_of_ne_nil _ hx.ne_nil] at hhead))
      · exact fun hhead => hy.lf (List.mem_of_head? (by rwa [List.head?_append_of_ne_nil _ hy.ne_nil] at hhead))

theorem crlfIndexFrom_of_isLine (h : IsLine line) (n : Nat) (rest : Bytes) :
    crlfIndexFrom n (line ++ crlf ++ rest) = some (n + line.length) := by
  induction line generalizing n with
  | nil => rfl
  | cons b line ih =>
    obtain ⟨hb, hline⟩ := isLine_cons.mp h
    obtain ⟨c, cs, hcs, hc⟩ : ∃ c cs, line ++ crlf ++ rest = c :: cs ∧
        ¬(b = Ascii.cr ∧ c = Ascii.lf) := by
      cases line with
      | nil => exact ⟨_, _, rfl, fun h => absurd h.2 (by decide)⟩
      | cons c line => exact ⟨_, _, rfl, fun h => hb ⟨h.1, by rw [h.2]; rfl⟩⟩
    have hstep : crlfIndexFrom n (b :: line ++ crlf ++ rest) =
        crlfIndexFrom (n + 1) (line ++ crlf ++ rest) := by
      rw [List.cons_append, List.cons_append, hcs, crlfIndexFrom, if_neg hc]
    rw [hstep, ih hline, List.length_cons, Nat.add_assoc, Nat.add_comm 1]

theorem isLine_of_crlfIndexFrom (h : crlfIndexFrom n bs = none) : IsLine bs := by
  fun_induction crlfIndexFrom n bs with
  | case1 => exact isLine_nil
  | case2 n b => exact isLine_cons.mpr ⟨by simp, isLine_nil⟩
  | case3 => cases h
  | case4 n b c rest hbc ih => exact isLine_cons.mpr ⟨by simpa using hbc, ih h⟩

theorem exists_isLine_of_crlfIndexFrom (h : crlfIndexFrom n bs = some m) :
    ∃ line rest, IsLine line ∧ bs = line ++ crlf ++ rest ∧ m = n + line.length := by
  fun_induction crlfIndexFrom n bs with
  | case1 => cases h
  | case2 => cases h
  | case3 n b c rest hbc =>
    obtain ⟨rfl, rfl⟩ := hbc
    exact ⟨[], rest, isLine_nil, rfl, (Option.some.inj h).symm⟩
  | case4 n b c rest hbc ih =>
    obtain ⟨line, tail, hline, hcons, rfl⟩ := ih h
    refine ⟨b :: line, tail, isLine_cons.mpr ⟨?_, hline⟩, by rw [hcons]; rfl, ?_⟩
    · rintro ⟨rfl, hlf⟩
      cases line with
      | nil => cases hlf
      | cons d line =>
        cases hcons
        exact hbc ⟨rfl, Option.some.inj hlf⟩
    · rw [List.length_cons]
      omega

/-- The first line of a byte string and the bytes behind its end. -/
theorem splitLine?_eq_some_iff :
    splitLine? bs = some (line, rest) ↔ IsLine line ∧ bs = line ++ crlf ++ rest := by
  have hsplit : ∀ line rest : Bytes, IsLine line →
      splitLine? (line ++ crlf ++ rest) = some (line, rest) := by
    intro line rest h
    have htake : (line ++ crlf ++ rest).take line.length = line := by
      rw [List.append_assoc, List.take_left]
    have hdrop : (line ++ crlf ++ rest).drop (line.length + 2) = rest := by
      have hlen : (line ++ crlf).length = line.length + 2 := by rw [List.length_append]; rfl
      rw [← hlen, List.drop_left]
    rw [splitLine?, crlfIndexFrom_of_isLine h, Nat.zero_add, Option.map_some, htake, hdrop]
  constructor
  · intro h
    obtain ⟨m, hm, -⟩ := Option.map_eq_some_iff.mp h
    obtain ⟨line', rest', hline, rfl, -⟩ := exists_isLine_of_crlfIndexFrom hm
    rw [hsplit line' rest' hline] at h
    cases h
    exact ⟨hline, rfl⟩
  · rintro ⟨hline, rfl⟩
    exact hsplit line rest hline

theorem splitLine?_eq_none_iff : splitLine? bs = none ↔ IsLine bs := by
  constructor
  · intro h
    exact isLine_of_crlfIndexFrom (Option.map_eq_none_iff.mp h)
  · intro h
    cases hs : splitLine? bs with
    | none => rfl
    | some split =>
      obtain ⟨-, rfl⟩ := splitLine?_eq_some_iff.mp hs
      exact absurd ⟨split.1, split.2, rfl⟩ h

theorem crlfIndexFrom_of_splitLine? (h : splitLine? bs = some (line, rest)) :
    crlfIndexFrom 0 bs = some line.length := by
  obtain ⟨hline, rfl⟩ := splitLine?_eq_some_iff.mp h
  rw [crlfIndexFrom_of_isLine hline, Nat.zero_add]

theorem drop_of_splitLine? (h : splitLine? (bs.drop n) = some (line, rest)) :
    bs.drop (n + line.length + 2) = rest := by
  obtain ⟨-, hdrop⟩ := splitLine?_eq_some_iff.mp h
  have hlen : (line ++ crlf).length = line.length + 2 := List.length_append
  rw [Nat.add_assoc, ← List.drop_drop, hdrop, ← hlen, List.drop_left]

/-- A line that has ended stays as it is, whatever follows. -/
theorem splitLine?_append_right (h : splitLine? bs = some (line, rest)) (more : Bytes) :
    splitLine? (bs ++ more) = some (line, rest ++ more) := by
  obtain ⟨hline, rfl⟩ := splitLine?_eq_some_iff.mp h
  exact splitLine?_eq_some_iff.mpr ⟨hline, List.append_assoc _ _ _⟩

end RespStore.Bytes
