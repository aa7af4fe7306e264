import RespStore.Proofs.Protocol.Decoder
import RespStore.Proofs.Protocol.Inline

/-!
# Inline requests

What the decoder makes of an inline line: the arguments that the grammar derives the line from, or a
refusal if there are none. In double quotes, with escapes, every list of arguments has a line, and
comes back from it unchanged.
-/

namespace RespStore

namespace Inline

variable {b : UInt8} {text value : Bytes} {args : List Bytes}

/-- A byte as it is written in double quotes. -/
def escape (b : UInt8) : Bytes :=
  if b = Ascii.lf then [Ascii.backslash, 110]
  else if b = Ascii.cr then [Ascii.backslash, 114]
  else if b = Ascii.tab then [Ascii.backslash, 116]
  else if b = Ascii.doubleQuote ∨ b = Ascii.backslash then [Ascii.backslash, b]
  else [b]

def quote (a : Bytes) : Bytes := Ascii.doubleQuote :: (a.flatMap escape ++ [Ascii.doubleQuote])

/-- A line for the arguments. -/
def write : List Bytes → Bytes
  | [] => []
  | [a] => quote a
  | a :: args => quote a ++ Ascii.space :: write args

/-- A byte is written behind a backslash or as itself, and never as a line end. -/
theorem escape_cases (b : UInt8) :
    (∃ c, escape b = [Ascii.backslash, c] ∧ Escape c b ∧ c ≠ Ascii.lf ∧ c ≠ Ascii.cr) ∨
      escape b = [b] ∧ b ≠ Ascii.doubleQuote ∧ b ≠ Ascii.backslash ∧ b ≠ Ascii.lf ∧
        b ≠ Ascii.cr := by
  by_cases hlf : b = Ascii.lf
  · subst hlf
    exact .inl ⟨110, rfl, .lf, by decide⟩
  by_cases hcr : b = Ascii.cr
  · subst hcr
    exact .inl ⟨114, rfl, .cr, by decide⟩
  by_cases htab : b = Ascii.tab
  · subst htab
    exact .inl ⟨116, rfl, .tab, by decide⟩
  by_cases hself : b = Ascii.doubleQuote ∨ b = Ascii.backslash
  · have hescape : Escape b b := by
      rcases hself with rfl | rfl <;> exact .other (by decide) (by decide) (by decide)
    have hwritten : escape b = [Ascii.backslash, b] := by
      simp only [escape, hlf, hcr, htab, hself, if_true, if_false]
    exact .inl ⟨b, hwritten, hescape, hlf, hcr⟩
  · obtain ⟨hquote, hslash⟩ := not_or.mp hself
    have hwritten : escape b = [b] := by simp only [escape, hlf, hcr, htab, hself, if_false]
    exact .inr ⟨hwritten, hquote, hslash, hlf, hcr⟩

theorem quoted_escape_append (b : UInt8) (h : Quoted Ascii.doubleQuote text value) :
    Quoted Ascii.doubleQuote (escape b ++ text) (b :: value) := by
  rcases escape_cases b with ⟨c, hb, hescape, -⟩ | ⟨hb, hquote, hslash, -⟩
  · rw [hb]
    exact .escape rfl hescape h
  · rw [hb]
    exact .literal hquote (fun _ => hslash) h

theorem quoted_flatMap_escape (a : Bytes) : Quoted Ascii.doubleQuote (a.flatMap escape) a := by
  induction a with
  | nil => exact .nil
  | cons b a ih => exact quoted_escape_append b ih

theorem argument_quote (a : Bytes) : Argument (quote a) a :=
  .quoted (.inl rfl) (quoted_flatMap_escape a)

theorem line_write (args : List Bytes) : Line (write args) args := by
  fun_induction write args with
  | case1 => exact .nil
  | case2 a => exact List.append_nil (quote a) ▸ .argument (argument_quote a) ends_nil .nil
  | case3 a args _ ih => exact .argument (argument_quote a) (ends_cons.mpr rfl) (.blank rfl ih)

theorem not_lineEnd_of_mem_escape {c : UInt8} (h : c ∈ escape b) :
    c ≠ Ascii.lf ∧ c ≠ Ascii.cr := by
  rcases escape_cases b with ⟨e, hb, -, hlf, hcr⟩ | ⟨hb, -, -, hlf, hcr⟩
  · rw [hb, List.mem_pair] at h
    rcases h with rfl | rfl
    · decide
    · exact ⟨hlf, hcr⟩
  · rw [hb, List.mem_singleton] at h
    exact h ▸ ⟨hlf, hcr⟩

theorem not_lineEnd_of_mem_quote {a : Bytes} {c : UInt8} (h : c ∈ quote a) :
    c ≠ Ascii.lf ∧ c ≠ Ascii.cr := by
  rw [quote, List.mem_cons, List.mem_append, List.mem_flatMap, List.mem_singleton] at h
  rcases h with rfl | ⟨b, -, hc⟩ | rfl
  · decide
  · exact not_lineEnd_of_mem_escape hc
  · decide

theorem not_lineEnd_of_mem_write {c : UInt8} (h : c ∈ write args) :
    c ≠ Ascii.lf ∧ c ≠ Ascii.cr := by
  fun_induction write args with
  | case1 => cases h
  | case2 a => exact not_lineEnd_of_mem_quote h
  | case3 a args _ ih =>
    rcases List.mem_append.mp h with h | h
    · exact not_lineEnd_of_mem_quote h
    · rcases List.mem_cons.mp h with rfl | h
      · decide
      · exact ih h

theorem exists_write_eq_cons (h : args ≠ []) : ∃ text, write args = Ascii.doubleQuote :: text := by
  cases args with
  | nil => exact absurd rfl h
  | cons a args => cases args <;> exact ⟨_, rfl⟩

end Inline

namespace Decoder

variable {line rest : Bytes} {args : List Bytes} {d : Decoder}

theorem chomp_of_notMem (h : Ascii.cr ∉ line) : chomp line = line :=
  if_neg fun hlast => h (List.mem_of_getLast? hlast)

theorem chomp_append_cr (line : Bytes) : chomp (line ++ [Ascii.cr]) = line := by
  rw [chomp, if_pos List.getLast?_concat, List.dropLast_concat]

/-- A line that the grammar derives from arguments is those arguments. -/
theorem decodeInline_of_derived (hline : Ascii.lf ∉ line) (h : Inline.Line (chomp line) args)
    (d : Decoder) (rest : Bytes) :
    d.decodeInline (line ++ Ascii.lf :: rest) = ⟨d, rest, .ok (some args)⟩ := by
  rw [decodeInline_of_line hline, Inline.split?_eq_some_iff.mpr h]

theorem decodeInline_of_not_derived (hline : Ascii.lf ∉ line)
    (h : ∀ args, ¬Inline.Line (chomp line) args) (d : Decoder) (rest : Bytes) :
    d.decodeInline (line ++ Ascii.lf :: rest) = d.fail rest .unbalancedQuotes := by
  have hsplit : Inline.split? (chomp line) = none :=
    Option.eq_none_iff_forall_ne_some.mpr fun args hargs =>
      h args (Inline.split?_eq_some_iff.mp hargs)
  rw [decodeInline_of_line hline, hsplit]

/-- Every list of arguments comes back from its line. -/
theorem decodeInline_write (d : Decoder) (args : List Bytes) {ending : Bytes}
    (hending : ending = [Ascii.lf] ∨ ending = Bytes.crlf) (rest : Bytes) :
    d.decodeInline (Inline.write args ++ ending ++ rest) = ⟨d, rest, .ok (some args)⟩ := by
  have hlf : Ascii.lf ∉ Inline.write args := fun h => (Inline.not_lineEnd_of_mem_write h).1 rfl
  have hcr : Ascii.cr ∉ Inline.write args := fun h => (Inline.not_lineEnd_of_mem_write h).2 rfl
  rcases hending with rfl | rfl
  · rw [List.append_assoc]
    refine decodeInline_of_derived hlf ?_ d rest
    rw [chomp_of_notMem hcr]
    exact Inline.line_write args
  · have hsplit : Inline.write args ++ Bytes.crlf ++ rest =
        (Inline.write args ++ [Ascii.cr]) ++ Ascii.lf :: rest := by simp [Bytes.crlf]
    have hline : Ascii.lf ∉ Inline.write args ++ [Ascii.cr] := fun h =>
      (List.mem_append.mp h).elim hlf (by decide)
    rw [hsplit]
    refine decodeInline_of_derived hline ?_ d rest
    rw [chomp_append_cr]
    exact Inline.line_write args

theorem decode_write (hd : d.pending = none) (hargs : args ≠ []) {ending : Bytes}
    (hending : ending = [Ascii.lf] ∨ ending = Bytes.crlf) (rest : Bytes) :
    d.decode (Inline.write args ++ ending ++ rest) = ⟨d, rest, .ok (some args)⟩ := by
  have hread := decodeInline_write d args hending rest
  obtain ⟨text, htext⟩ := Inline.exists_write_eq_cons hargs
  rw [htext, List.cons_append, List.cons_append] at hread ⊢
  have hany : d.decodeAny (Ascii.doubleQuote :: (text ++ ending ++ rest)) =
      ⟨d, rest, .ok (some args)⟩ := by
    rw [← hread, eq_new hd]
    exact decodeAny_inline (show some Ascii.doubleQuote ≠ some Ascii.star by decide)
  rw [decode_eq (List.cons_ne_nil _ _), hany]
  cases args with
  | nil => exact absurd rfl hargs
  | cons a args => rfl

/-- The scanner reads one grammar. A line that the grammar derives from arguments is decoded as
those arguments, any other line is refused, and either way the line is consumed. Every list of
arguments can be sent in double quotes. -/
theorem decodeInline_grammar :
    (∀ line args, Inline.split? line = some args ↔ Inline.Line line args) ∧
      (∀ (d : Decoder) (line rest : Bytes), Ascii.lf ∉ line →
        (∀ args, Inline.Line (chomp line) args →
          d.decodeInline (line ++ Ascii.lf :: rest) = ⟨d, rest, .ok (some args)⟩) ∧
        ((∀ args, ¬Inline.Line (chomp line) args) →
          d.decodeInline (line ++ Ascii.lf :: rest) = d.fail rest .unbalancedQuotes)) ∧
      ∀ (d : Decoder) (args : List Bytes) (ending rest : Bytes),
        ending = [Ascii.lf] ∨ ending = Bytes.crlf →
          d.decodeInline (Inline.write args ++ ending ++ rest) = ⟨d, rest, .ok (some args)⟩ ∧
            (d.pending = none → args ≠ [] →
              d.decode (Inline.write args ++ ending ++ rest) = ⟨d, rest, .ok (some args)⟩) :=
  ⟨fun _ _ => Inline.split?_eq_some_iff,
    fun d _ rest hline => ⟨fun _ h => decodeInline_of_derived hline h d rest,
      fun h => decodeInline_of_not_derived hline h d rest⟩,
    fun d args _ rest hending => ⟨decodeInline_write d args hending rest,
      fun hd hargs => decode_write hd hargs hending rest⟩⟩

/-- Escapes, an empty argument, a quote within a bare word and a stray carriage return; and a quote
that something other than a blank follows. -/
theorem quotes_decoded :
    (∀ d rest, decodeInline d (Utf8.encode "SET a\"b \"\\\"\\n\"\r ''\r" ++ Ascii.lf :: rest) =
        ⟨d, rest, .ok (some [Utf8.encode "SET", Utf8.encode "a\"b", Utf8.encode "\"\n", []])⟩) ∧
      (∀ d rest, decodeInline d (Utf8.encode "SET \"a\"b" ++ Ascii.lf :: rest) =
        d.fail rest .unbalancedQuotes) ∧
      ∀ rest, decode (new 40) (Inline.write [Utf8.encode "\r\n", []] ++ Bytes.crlf ++ rest) =
        ⟨new 40, rest, .ok (some [Utf8.encode "\r\n", []])⟩ := by
  obtain ⟨hsplit, hdecode, hwrite⟩ := decodeInline_grammar
  refine ⟨fun d rest => ?_, fun d rest => ?_, fun rest => ?_⟩
  · exact (hdecode d _ rest (by decide +kernel)).1 _ ((hsplit _ _).mp (by decide +kernel))
  · refine (hdecode d _ rest (by decide +kernel)).2 fun args hargs => ?_
    have hnone : Inline.split? (chomp (Utf8.encode "SET \"a\"b")) = none := by decide +kernel
    rw [← hsplit, hnone] at hargs
    cases hargs
  · exact (hwrite (new 40) _ Bytes.crlf rest (.inr rfl)).2 rfl (List.cons_ne_nil _ _)

end Decoder

end RespStore
