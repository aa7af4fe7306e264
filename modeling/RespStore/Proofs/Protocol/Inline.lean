import RespStore.Protocol.Inline

/-!
# The grammar of inline requests

An inline line is a sequence of arguments with blanks around them: double-quoted strings with
escapes, single-quoted strings without, and bare words. The scanner finds the arguments of a line
just when the grammar derives the line from them. What a state of the scanner demands of the rest
of the line is what the next byte leaves of the grammar, so one byte at a time serves both
directions.
-/

namespace RespStore.Inline

/-- What a byte after a backslash stands for. -/
inductive Escape : UInt8 → UInt8 → Prop where
  | lf : Escape 110 Ascii.lf
  | cr : Escape 114 Ascii.cr
  | tab : Escape 116 Ascii.tab
  | other {b : UInt8} (hlf : b ≠ 110) (hcr : b ≠ 114) (htab : b ≠ 116) : Escape b b

/-- What stands between two quotes. Only double quotes know escapes. -/
inductive Quoted (quote : UInt8) : Bytes → Bytes → Prop where
  | nil : Quoted quote [] []
  | literal {b : UInt8} {text value : Bytes} (hquote : b ≠ quote)
      (hslash : quote = Ascii.doubleQuote → b ≠ Ascii.backslash) (h : Quoted quote text value) :
      Quoted quote (b :: text) (b :: value)
  | escape {b c : UInt8} {text value : Bytes} (hquote : quote = Ascii.doubleQuote)
      (hescape : Escape b c) (h : Quoted quote text value) :
      Quoted quote (Ascii.backslash :: b :: text) (c :: value)

def IsQuote (b : UInt8) : Prop := b = Ascii.doubleQuote ∨ b = Ascii.singleQuote

/-- Every byte of a bare word but the first may be a quote. -/
inductive Argument : Bytes → Bytes → Prop where
  | quoted {quote : UInt8} {text value : Bytes} (hquote : IsQuote quote)
      (h : Quoted quote text value) : Argument (quote :: (text ++ [quote])) value
  | bare {b : UInt8} {text : Bytes} (hquote : ¬IsQuote b)
      (h : ∀ c ∈ b :: text, Ascii.isBlank c = false) : Argument (b :: text) (b :: text)

/-- An argument may end here. -/
def Ends (rest : Bytes) : Prop := ∀ b ∈ rest.head?, Ascii.isBlank b = true

inductive Line : Bytes → List Bytes → Prop where
  | nil : Line [] []
  | blank {b : UInt8} {rest : Bytes} {args : List Bytes} (hb : Ascii.isBlank b = true)
      (h : Line rest args) : Line (b :: rest) args
  | argument {text value rest : Bytes} {args : List Bytes} (hargument : Argument text value)
      (hends : Ends rest) (h : Line rest args) : Line (text ++ rest) (value :: args)

variable {b quote : UInt8} {line rest text value arg : Bytes} {args done : List Bytes}

@[simp] theorem ends_nil : Ends [] := nofun

@[simp] theorem ends_cons : Ends (b :: rest) ↔ Ascii.isBlank b = true := by simp [Ends]

theorem escape_iff {c : UInt8} : Escape b c ↔ c = unescape b := by
  constructor
  · rintro (_ | _ | _ | ⟨hlf, hcr, htab⟩)
    · rfl
    · rfl
    · rfl
    · simp [unescape, hlf, hcr, htab]
  · rintro rfl
    unfold unescape
    split
    · next h => exact h ▸ .lf
    · split
      · next h => exact h ▸ .cr
      · split
        · next h => exact h ▸ .tab
        · exact .other ‹_› ‹_› ‹_›

/-! ## The first byte of a line -/

theorem not_isBlank_of_isQuote (h : IsQuote b) : Ascii.isBlank b = false := by
  rcases h with rfl | rfl <;> decide

theorem Argument.exists_cons (h : Argument text value) :
    ∃ b text', text = b :: text' ∧ Ascii.isBlank b = false := by
  cases h with
  | quoted hquote _ => exact ⟨_, _, rfl, not_isBlank_of_isQuote hquote⟩
  | bare _ h => exact ⟨_, _, rfl, h _ List.mem_cons_self⟩

theorem argument_quote_iff (hb : IsQuote b) :
    Argument (b :: text) value ↔ ∃ inner, text = inner ++ [b] ∧ Quoted b inner value := by
  constructor
  · intro h
    cases h with
    | quoted _ h => exact ⟨_, rfl, h⟩
    | bare hquote _ => exact absurd hb hquote
  · rintro ⟨inner, rfl, h⟩
    exact .quoted hb h

theorem argument_bare_iff (hb : ¬IsQuote b) :
    Argument (b :: text) value ↔
      (∀ c ∈ b :: text, Ascii.isBlank c = false) ∧ value = b :: text := by
  constructor
  · intro h
    cases h with
    | quoted hquote _ => exact absurd hquote hb
    | bare _ h => exact ⟨h, rfl⟩
  · rintro ⟨h, rfl⟩
    exact .bare hb h

theorem line_nil_iff : Line [] args ↔ args = [] := by
  constructor
  · intro h
    generalize hline : ([] : Bytes) = line at h
    cases h with
    | nil => rfl
    | blank => cases hline
    | argument hargument =>
      obtain ⟨b, text, rfl, -⟩ := hargument.exists_cons
      cases hline
  · rintro rfl
    exact .nil

theorem line_cons_iff :
    Line (b :: rest) args ↔ (Ascii.isBlank b = true ∧ Line rest args) ∨
      ∃ text value rest' args', rest = text ++ rest' ∧ Argument (b :: text) value ∧ Ends rest' ∧
        Line rest' args' ∧ args = value :: args' := by
  constructor
  · intro h
    generalize hline : b :: rest = line at h
    cases h with
    | nil => cases hline
    | blank hb h =>
      cases hline
      exact .inl ⟨hb, h⟩
    | argument hargument hends h =>
      obtain ⟨c, text, rfl, -⟩ := hargument.exists_cons
      cases hline
      exact .inr ⟨text, _, _, _, rfl, hargument, hends, h, rfl⟩
  · rintro (⟨hb, h⟩ | ⟨text, value, rest', args', rfl, hargument, hends, h, rfl⟩)
    · exact .blank hb h
    · exact .argument hargument hends h

theorem line_blank_iff (hb : Ascii.isBlank b = true) : Line (b :: rest) args ↔ Line rest args := by
  rw [line_cons_iff, or_iff_left, and_iff_right hb]
  rintro ⟨text, value, rest', args', rfl, hargument, -⟩
  obtain ⟨c, text', htext, hc⟩ := hargument.exists_cons
  cases htext
  exact absurd (hc.symm.trans hb) (by decide)

/-! ## What a state demands of the rest of the line -/

/-- Blanks and arguments only are left. -/
def Between (done : List Bytes) (rest : Bytes) (args : List Bytes) : Prop :=
  ∃ later, Line rest later ∧ args = done.reverse ++ later

/-- The last argument has ended. -/
def Closed (done : List Bytes) (rest : Bytes) (args : List Bytes) : Prop :=
  Ends rest ∧ Between done rest args

/-- The quotes of an argument that starts with `arg` are still open. -/
def Open (done : List Bytes) (quote : UInt8) (arg rest : Bytes) (args : List Bytes) : Prop :=
  ∃ text value rest', rest = text ++ quote :: rest' ∧ Quoted quote text value ∧
    Closed ((arg ++ value) :: done) rest' args

/-- A bare word that starts with `arg` goes on. -/
def Word (done : List Bytes) (arg rest : Bytes) (args : List Bytes) : Prop :=
  ∃ text rest', rest = text ++ rest' ∧ (∀ c ∈ text, Ascii.isBlank c = false) ∧
    Closed ((arg ++ text) :: done) rest' args

/-- A backslash awaits its byte. -/
def Escaped (done : List Bytes) (arg rest : Bytes) (args : List Bytes) : Prop :=
  ∃ b c rest', rest = b :: rest' ∧ Escape b c ∧ Open done Ascii.doubleQuote (arg ++ [c]) rest' args

/-- The rest of the line completes what has been scanned to `args`. -/
def Remains : State → Bytes → List Bytes → Prop
  | .between done => Between done
  | .bare done arg => Word done arg.reverse
  | .quoted done quote arg => Open done quote arg.reverse
  | .escaped done arg => Escaped done arg.reverse
  | .closed done => Closed done

theorem between_nil_iff : Between done [] args ↔ args = done.reverse := by
  simp [Between, line_nil_iff]

theorem between_blank_iff (hb : Ascii.isBlank b = true) :
    Between done (b :: rest) args ↔ Between done rest args := by
  simp only [Between, line_blank_iff hb]

theorem closed_cons_iff :
    Closed done (b :: rest) args ↔ Ascii.isBlank b = true ∧ Between done rest args := by
  rw [Closed, ends_cons]
  exact and_congr_right fun hb => between_blank_iff hb

/-- A byte that is no blank starts an argument. -/
theorem between_argument_iff (hb : Ascii.isBlank b = false) :
    Between done (b :: rest) args ↔
      ∃ text value rest', rest = text ++ rest' ∧ Argument (b :: text) value ∧
        Closed (value :: done) rest' args := by
  constructor
  · rintro ⟨later, hline, rfl⟩
    rcases line_cons_iff.mp hline with
      ⟨hblank, -⟩ | ⟨text, value, rest', args', rfl, h, hends, hl, rfl⟩
    · exact absurd (hb.symm.trans hblank) (by decide)
    · exact ⟨text, value, rest', rfl, h, hends, args', hl, by simp⟩
  · rintro ⟨text, value, rest', rfl, h, hends, later, hl, rfl⟩
    exact ⟨value :: later, .argument h hends hl, by simp⟩

theorem between_quote_iff (hb : IsQuote b) :
    Between done (b :: rest) args ↔ Open done b [] rest args := by
  rw [between_argument_iff (not_isBlank_of_isQuote hb)]
  simp only [argument_quote_iff hb]
  constructor
  · rintro ⟨-, value, rest', rfl, ⟨inner, rfl, h⟩, hc⟩
    exact ⟨inner, value, rest', by simp, h, hc⟩
  · rintro ⟨inner, value, rest', rfl, h, hc⟩
    exact ⟨inner ++ [b], value, rest', by simp, ⟨inner, rfl, h⟩, hc⟩

theorem open_nil : ¬Open done quote arg [] args := by
  rintro ⟨text, value, rest', hrest, -⟩
  simp at hrest

/-- The first quote of the same kind closes. -/
theorem open_quote_iff :
    Open done quote arg (quote :: rest) args ↔ Closed (arg :: done) rest args := by
  constructor
  · rintro ⟨text, value, rest', hrest, h, hc⟩
    cases h with
    | nil =>
      cases hrest
      rwa [List.append_nil] at hc
    | literal hquote => exact absurd (List.cons.inj hrest).1.symm hquote
    | escape hquote => exact absurd (hquote.symm.trans (List.cons.inj hrest).1) (by decide)
  · exact fun hc => ⟨[], [], rest, rfl, .nil, by rwa [List.append_nil]⟩

theorem open_escape_iff :
    Open done Ascii.doubleQuote arg (Ascii.backslash :: rest) args ↔
      Escaped done arg rest args := by
  constructor
  · rintro ⟨text, value, rest', hrest, h, hc⟩
    cases h with
    | nil => exact absurd (List.cons.inj hrest).1 (by decide)
    | literal _ hslash => exact absurd (List.cons.inj hrest).1.symm (hslash rfl)
    | @escape b c text value _ hescape h =>
      cases hrest
      exact ⟨b, c, _, rfl, hescape, text, value, rest', rfl, h, by simpa using hc⟩
  · rintro ⟨b, c, -, rfl, hescape, text, value, rest', rfl, h, hc⟩
    exact ⟨_, _, rest', rfl, .escape rfl hescape h, by simpa using hc⟩

theorem open_literal_iff (hquote : b ≠ quote)
    (hslash : quote = Ascii.doubleQuote → b ≠ Ascii.backslash) :
    Open done quote arg (b :: rest) args ↔ Open done quote (arg ++ [b]) rest args := by
  constructor
  · rintro ⟨text, value, rest', hrest, h, hc⟩
    cases h with
    | nil => exact absurd (List.cons.inj hrest).1 hquote
    | @literal c text value _ _ h =>
      cases hrest
      exact ⟨text, value, rest', rfl, h, by simpa using hc⟩
    | escape hdouble => exact absurd (List.cons.inj hrest).1 (hslash hdouble)
  · rintro ⟨text, value, rest', rfl, h, hc⟩
    exact ⟨_, _, rest', rfl, .literal hquote hslash h, by simpa using hc⟩

theorem escaped_cons_iff :
    Escaped done arg (b :: rest) args ↔
      Open done Ascii.doubleQuote (arg ++ [unescape b]) rest args := by
  constructor
  · rintro ⟨b, c, rest, hrest, hescape, h⟩
    cases hrest
    rwa [← escape_iff.mp hescape]
  · exact fun h => ⟨b, _, rest, rfl, escape_iff.mpr rfl, h⟩

/-- A blank ends a bare word. -/
theorem word_blank_iff (hb : Ascii.isBlank b = true) :
    Word done arg (b :: rest) args ↔ Between (arg :: done) rest args := by
  constructor
  · rintro ⟨text, rest', hrest, htext, hc⟩
    cases text with
    | nil =>
      cases hrest
      rw [List.append_nil] at hc
      exact (closed_cons_iff.mp hc).2
    | cons c text =>
      cases hrest
      exact absurd ((htext b List.mem_cons_self).symm.trans hb) (by decide)
  · intro h
    refine ⟨[], b :: rest, rfl, nofun, closed_cons_iff.mpr ⟨hb, ?_⟩⟩
    rwa [List.append_nil]

theorem word_literal_iff (hb : Ascii.isBlank b = false) :
    Word done arg (b :: rest) args ↔ Word done (arg ++ [b]) rest args := by
  constructor
  · rintro ⟨text, rest', hrest, htext, hc⟩
    cases text with
    | nil =>
      cases hrest
      exact absurd (hb.symm.trans (closed_cons_iff.mp hc).1) (by decide)
    | cons c text =>
      cases hrest
      exact ⟨text, rest', rfl, fun c hc => htext c (List.mem_cons_of_mem _ hc), by simpa using hc⟩
  · rintro ⟨text, rest', rfl, htext, hc⟩
    exact ⟨b :: text, rest', rfl, List.forall_mem_cons.mpr ⟨hb, htext⟩, by simpa using hc⟩

theorem between_bare_iff (hb : Ascii.isBlank b = false) (hquote : ¬IsQuote b) :
    Between done (b :: rest) args ↔ Word done [b] rest args := by
  rw [between_argument_iff hb]
  simp only [argument_bare_iff hquote]
  constructor
  · rintro ⟨text, -, rest', rfl, ⟨htext, rfl⟩, hc⟩
    exact ⟨text, rest', rfl, (List.forall_mem_cons.mp htext).2, hc⟩
  · rintro ⟨text, rest', rfl, htext, hc⟩
    exact ⟨text, b :: text, rest', rfl, ⟨List.forall_mem_cons.mpr ⟨hb, htext⟩, rfl⟩, hc⟩

/-! ## The scanner -/

theorem closed_nil_iff : Closed done [] args ↔ args = done.reverse := by
  rw [Closed, between_nil_iff, and_iff_right ends_nil]

theorem word_nil_iff : Word done arg [] args ↔ args = (arg :: done).reverse := by
  constructor
  · rintro ⟨text, rest', hrest, -, hc⟩
    obtain ⟨rfl, rfl⟩ := List.append_eq_nil_iff.mp hrest.symm
    rwa [List.append_nil, closed_nil_iff] at hc
  · exact fun h => ⟨[], [], rfl, nofun, by rwa [List.append_nil, closed_nil_iff]⟩

/-- At the end of the line nothing is demanded, unless a quote is open. -/
theorem remains_nil_iff (s : State) : Remains s [] args ↔ finish s = some args := by
  cases s with
  | between done => exact between_nil_iff.trans (eq_comm.trans Option.some_inj.symm)
  | bare done arg => exact word_nil_iff.trans (eq_comm.trans Option.some_inj.symm)
  | quoted done quote arg => exact iff_of_false open_nil nofun
  | escaped done arg => exact iff_of_false (by rintro ⟨_, _, _, h, -⟩; cases h) nofun
  | closed done => exact closed_nil_iff.trans (eq_comm.trans Option.some_inj.symm)

/-- A step takes one byte off what is demanded. -/
theorem remains_cons_iff (s : State) :
    Remains s (b :: rest) args ↔ ∃ s', step s b = some s' ∧ Remains s' rest args := by
  have of_step : ∀ s', step s b = some s' →
      (Remains s (b :: rest) args ↔ Remains s' rest args) →
      (Remains s (b :: rest) args ↔ ∃ s', step s b = some s' ∧ Remains s' rest args) := by
    intro s' hstep h
    simp only [hstep, Option.some.injEq, exists_eq_left', h]
  cases s with
  | between done =>
    cases hb : Ascii.isBlank b with
    | true => exact of_step (.between done) (if_pos hb) (between_blank_iff hb)
    | false =>
      have hblank : ¬Ascii.isBlank b = true := by simp [hb]
      by_cases hquote : IsQuote b
      · exact of_step (.quoted done b []) ((if_neg hblank).trans (if_pos hquote))
          (between_quote_iff hquote)
      · exact of_step (.bare done [b]) ((if_neg hblank).trans (if_neg hquote))
          (between_bare_iff hb hquote)
  | bare done arg =>
    cases hb : Ascii.isBlank b with
    | true => exact of_step (.between (arg.reverse :: done)) (if_pos hb) (word_blank_iff hb)
    | false =>
      refine of_step (.bare done (b :: arg)) (if_neg (by simp [hb])) ?_
      simpa only [Remains, List.reverse_cons] using word_literal_iff hb
  | quoted done quote arg =>
    by_cases hescape : b = Ascii.backslash ∧ quote = Ascii.doubleQuote
    · refine of_step (.escaped done arg) (if_pos hescape) ?_
      obtain ⟨rfl, rfl⟩ := hescape
      exact open_escape_iff
    · by_cases hquote : b = quote
      · refine of_step (.closed (arg.reverse :: done)) ((if_neg hescape).trans (if_pos hquote)) ?_
        exact hquote ▸ open_quote_iff
      · have hslash : quote = Ascii.doubleQuote → b ≠ Ascii.backslash :=
          fun hdouble hb => hescape ⟨hb, hdouble⟩
        refine of_step (.quoted done quote (b :: arg))
          ((if_neg hescape).trans (if_neg hquote)) ?_
        simpa only [Remains, List.reverse_cons] using open_literal_iff hquote hslash
  | escaped done arg =>
    refine of_step (.quoted done Ascii.doubleQuote (unescape b :: arg)) rfl ?_
    simpa only [Remains, List.reverse_cons] using escaped_cons_iff
  | closed done =>
    cases hb : Ascii.isBlank b with
    | true => exact of_step (.between done) (if_pos hb) (closed_cons_iff.trans (and_iff_right hb))
    | false =>
      refine iff_of_false (fun h => ?_) (by simp [step, hb])
      exact absurd (hb.symm.trans (closed_cons_iff.mp h).1) (by decide)

theorem run_iff (s : State) : (run s line).bind finish = some args ↔ Remains s line args := by
  induction line generalizing s with
  | nil => exact (remains_nil_iff s).symm
  | cons b rest ih =>
    rw [remains_cons_iff, run]
    cases hstep : step s b with
    | none => simp
    | some s' => simpa using ih s'

/-- The scanner finds the arguments of a line just when the grammar derives the line from them. -/
theorem split?_eq_some_iff : split? line = some args ↔ Line line args := by
  refine (run_iff _).trans ?_
  simp [Remains, Between]

end RespStore.Inline
