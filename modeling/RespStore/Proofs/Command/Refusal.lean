import RespStore.Command.Table
import RespStore.Proofs.Command.Arguments

/-!
# Rejected requests

Why a request is not a command is told in words of the program, unless it names a command or a
subcommand that there is not. Such a name is quoted as the client sent it, but in lower case.
-/

namespace RespStore

/-- What an error quotes that a client has sent. -/
def CommandError.quoted? : CommandError → Option String
  | unknownCommand name => some name
  | unknownSubcommand _ subcommand => some subcommand
  | _ => none

/-- Quotes nothing, and has a message without line ends. -/
def CommandError.Plain (e : CommandError) : Prop :=
  e.quoted?.isNone ∧ Ascii.cr ∉ Utf8.encode e.message

instance : DecidablePred CommandError.Plain := fun e =>
  inferInstanceAs (Decidable (e.quoted?.isNone ∧ Ascii.cr ∉ Utf8.encode e.message))

namespace CommandError

/-- The errors whose text is the same whatever a client has sent. -/
theorem plain_fixed : ∀ e ∈ [badOptions, notInteger, notFloat, notPositive, badScoreRange,
    invalidUtf8, endOfArguments, badExpireTime "set",
    incompatibleOptions "XX and NX options at the same time are not compatible"], e.Plain := by
  decide +kernel

theorem plain_badOptions : badOptions.Plain := plain_fixed _ (by simp)

theorem plain_notInteger : notInteger.Plain := plain_fixed _ (by simp)

theorem plain_notFloat : notFloat.Plain := plain_fixed _ (by simp)

theorem plain_notPositive : notPositive.Plain := plain_fixed _ (by simp)

theorem plain_badScoreRange : badScoreRange.Plain := plain_fixed _ (by simp)

theorem plain_invalidUtf8 : invalidUtf8.Plain := plain_fixed _ (by simp)

theorem plain_endOfArguments : endOfArguments.Plain := plain_fixed _ (by simp)

theorem plain_badExpireTime : (badExpireTime "set").Plain := plain_fixed _ (by simp)

theorem plain_incompatible :
    (incompatibleOptions "XX and NX options at the same time are not compatible").Plain :=
  plain_fixed _ (by simp)

theorem plain_wrongArity : ∀ name ∈ ["ping", "mset", "hset"] ++ CommandSpec.table.map (·.name),
    (wrongArity name).Plain := by decide +kernel

end CommandError

namespace ArgReader

variable {α β : Type} {r : ArgReader α} {f : α → ArgReader β}

/-- On the arguments of a request, what goes wrong is plain, and what is left are arguments of a
request. -/
structure IsPlain (r : ArgReader α) : Prop where
  error : ∀ bs e, r.run (bulks bs) = .error e → e.Plain
  rest : ∀ bs x rest, r.run (bulks bs) = .ok (x, rest) → ∃ bs', rest = bulks bs'

namespace IsPlain

theorem pure (x : α) : IsPlain (pure x : ArgReader α) where
  error := nofun
  rest := by
    rintro bs _ _ ⟨⟩
    exact ⟨bs, rfl⟩

theorem fail {e : CommandError} (h : e.Plain) : IsPlain (fail e : ArgReader α) where
  error := by
    rintro bs _ ⟨⟩
    exact h
  rest := nofun

theorem bind (h : IsPlain r) (hf : ∀ x, IsPlain (f x)) : IsPlain (r >>= f) where
  error := by
    intro bs e hrun
    cases hr : r.run (bulks bs) with
    | error e' =>
      rw [run_bind_error hr] at hrun
      cases hrun
      exact h.error bs e hr
    | ok p =>
      obtain ⟨bs', hbs'⟩ := h.rest bs p.1 p.2 hr
      rw [run_bind_ok hr, hbs'] at hrun
      exact (hf p.1).error bs' e hrun
  rest := by
    intro bs y rest hrun
    cases hr : r.run (bulks bs) with
    | error e' =>
      rw [run_bind_error hr] at hrun
      cases hrun
    | ok p =>
      obtain ⟨bs', hbs'⟩ := h.rest bs p.1 p.2 hr
      rw [run_bind_ok hr, hbs'] at hrun
      exact (hf p.1).rest bs' y rest hrun

theorem map {g : α → β} (h : IsPlain r) : IsPlain (g <$> r) where
  error := by
    intro bs e hrun
    cases hr : r.run (bulks bs) with
    | error e' =>
      rw [run_map_error hr] at hrun
      cases hrun
      exact h.error bs e hr
    | ok p =>
      rw [run_map_ok hr] at hrun
      cases hrun
  rest := by
    intro bs y rest hrun
    cases hr : r.run (bulks bs) with
    | error e' =>
      rw [run_map_error hr] at hrun
      cases hrun
    | ok p =>
      rw [run_map_ok hr] at hrun
      cases hrun
      exact h.rest bs p.1 p.2 hr

/-- A reader that takes an argument and has one reason to refuse it. -/
theorem of_takes {read : Bytes → Option α} {missing refused : CommandError}
    (hmissing : missing.Plain) (hrefused : refused.Plain)
    (hnil : r.run (bulks []) = .error missing)
    (hcons : ∀ b bs, r.run (bulks (b :: bs)) =
      (read b).elim (.error refused) fun x => .ok (x, bulks bs)) : IsPlain r where
  error := by
    rintro (_ | ⟨b, bs⟩) e hrun
    · rw [hnil] at hrun
      cases hrun
      exact hmissing
    · rw [hcons] at hrun
      cases hread : read b with
      | none =>
        rw [hread] at hrun
        cases hrun
        exact hrefused
      | some x =>
        rw [hread] at hrun
        cases hrun
  rest := by
    rintro (_ | ⟨b, bs⟩) x rest hrun
    · rw [hnil] at hrun
      cases hrun
    · rw [hcons] at hrun
      cases hread : read b with
      | none =>
        rw [hread] at hrun
        cases hrun
      | some y =>
        rw [hread] at hrun
        cases hrun
        exact ⟨bs, rfl⟩

theorem text : IsPlain text :=
  of_takes CommandError.plain_endOfArguments CommandError.plain_invalidUtf8 rfl fun b _ => run_text_bulk b _

theorem integer : IsPlain integer :=
  of_takes CommandError.plain_endOfArguments CommandError.plain_notInteger rfl fun b _ =>
    run_integer_bulk b _

theorem float : IsPlain float :=
  of_takes CommandError.plain_notFloat CommandError.plain_notFloat rfl fun b _ =>
    run_float_bulk b _

theorem bytes : IsPlain bytes where
  error := by
    rintro (_ | ⟨b, bs⟩) e ⟨⟩
    exact CommandError.plain_endOfArguments
  rest := by
    rintro (_ | ⟨b, bs⟩) x rest ⟨⟩
    exact ⟨bs, rfl⟩

theorem remaining : IsPlain remaining where
  error := nofun
  rest := by
    rintro bs _ _ ⟨⟩
    exact ⟨bs, rfl⟩

theorem hasNext : IsPlain hasNext where
  error := nofun
  rest := by
    rintro bs _ _ ⟨⟩
    exact ⟨bs, rfl⟩

theorem keyword : IsPlain keyword := text.bind fun _ => pure _

theorem natural : IsPlain natural := by
  refine integer.bind fun n => ?_
  split
  · exact pure _
  · exact fail CommandError.plain_notPositive

theorem times (h : IsPlain r) (n : Nat) : IsPlain (times r n) := by
  induction n with
  | zero => exact pure []
  | succ n ih => exact h.bind fun x => ih.bind fun xs => pure _

theorem texts : IsPlain texts := remaining.bind fun n => text.times n

theorem pairs {name : String} {first : ArgReader α} {second : ArgReader β}
    (hname : (CommandError.wrongArity name).Plain) (hfirst : IsPlain first)
    (hsecond : IsPlain second) : IsPlain (pairs name first second) := by
  refine remaining.bind fun n => ?_
  split
  · exact fail hname
  · exact times (hfirst.bind fun x => hsecond.bind fun y => pure _) _

theorem finish : IsPlain finish := by
  refine hasNext.bind fun more => ?_
  split
  · exact fail CommandError.plain_badOptions
  · exact pure _

theorem optional (h : IsPlain r) : IsPlain (optional r) := by
  refine hasNext.bind fun more => ?_
  split
  · exact h.map.bind fun x => finish.bind fun _ => pure _
  · exact (pure _).bind fun x => finish.bind fun _ => pure _

theorem scoreRange : IsPlain scoreRange := by
  refine text.bind fun min => text.bind fun max => ?_
  split
  · exact pure _
  · exact fail CommandError.plain_badScoreRange

end IsPlain

end ArgReader

open ArgReader

/-! ## Readers of their own recursion -/

theorem StringCommand.isPlain_readSetOptions (fuel : Nat) (condition : SetCondition)
    (expiry : Option Expiry) : IsPlain (readSetOptions fuel condition expiry) := by
  induction fuel generalizing condition expiry with
  | zero => exact .pure _
  | succ fuel ih =>
    have hsyntax := CommandError.plain_badOptions
    have hamount : IsPlain readAmount := by
      refine .bind .integer fun n => ?_
      split
      · exact .pure _
      · exact .fail CommandError.plain_badExpireTime
    refine .bind .hasNext fun more => ?_
    split
    · refine .bind .text fun name => ?_
      split
      · exact .fail hsyntax
      · split
        · exact .fail hsyntax
        · exact ih _ _
      · refine .bind .hasNext fun more => ?_
        split
        · exact .fail hsyntax
        · exact .bind hamount fun n => ih _ _
    · exact .pure _

theorem StringCommand.isPlain_textKeys (entries : List (Bytes × Bytes)) :
    IsPlain (textKeys entries) := by
  induction entries with
  | nil => exact .pure _
  | cons entry entries ih =>
    rw [textKeys]
    split
    · exact .bind ih fun rest => .pure _
    · exact .fail CommandError.plain_invalidUtf8

theorem SortedSetCommand.isPlain_scoredMembers (texts : List String) :
    IsPlain (scoredMembers texts) := by
  induction texts using scoredMembers.induct with
  | case1 number member texts x hx ih =>
    rw [scoredMembers, hx]
    exact .bind ih fun rest => .pure _
  | case2 number member texts hx =>
    rw [scoredMembers, hx]
    exact .fail CommandError.plain_notFloat
  | case3 texts h =>
    unfold scoredMembers
    split
    · exact (h _ _ _ rfl).elim
    · exact .pure _

theorem SortedSetCommand.isPlain_readRangeOptions (fuel : Nat) (withScores : Bool)
    (limit : Option (Int64 × Int64)) : IsPlain (readRangeOptions fuel withScores limit) := by
  induction fuel generalizing withScores limit with
  | zero => exact .pure _
  | succ fuel ih =>
    refine .bind .hasNext fun more => ?_
    split
    · refine .bind .keyword fun name => ?_
      split
      · exact ih _ _
      · refine .bind .remaining fun n => ?_
        split
        · exact .bind .integer fun offset => .bind .integer fun most => ih _ _
        · exact .fail CommandError.plain_badOptions
    · exact .pure _

theorem SortedSetCommand.isPlain_readAdd : IsPlain readAdd := by
  refine .bind .text fun key => .bind .texts fun texts => ?_
  dsimp only
  split
  · exact .fail CommandError.plain_incompatible
  · split
    · exact .fail CommandError.plain_badOptions
    · exact .bind (isPlain_scoredMembers _) fun entries => .pure _

/-! ## The table -/

namespace CommandSpec

variable {spec : CommandSpec} {α β : Type} {r : ArgReader α} {f : α → Command}

theorem isPlain_of_map (hread : spec.read = f <$> r) (h : IsPlain r) : IsPlain spec.read := by
  rw [hread]
  exact h.map

theorem isPlain_keyCommands : ∀ spec ∈ keyCommands, IsPlain spec.read := by
  intro spec hspec
  simp only [keyCommands, List.mem_cons, List.not_mem_nil, or_false] at hspec
  rcases hspec with rfl | rfl | rfl | rfl | rfl | rfl | rfl | rfl | rfl | rfl | rfl | rfl
  case' inr.inr.inr.inr.inl => exact .pure _
  all_goals
    refine isPlain_of_map rfl ?_
    repeat' first
      | exact .pure _
      | exact .text
      | exact .texts
      | exact .integer
      | refine .bind ?_ fun _ => ?_

theorem isPlain_stringCommands : ∀ spec ∈ stringCommands, IsPlain spec.read := by
  intro spec hspec
  simp only [stringCommands, List.mem_cons, List.not_mem_nil, or_false] at hspec
  rcases hspec with rfl | rfl | rfl | rfl | rfl | rfl | rfl | rfl | rfl | rfl | rfl | rfl | rfl
  all_goals
    refine isPlain_of_map rfl ?_
    repeat' first
      | exact .pure _
      | exact .text
      | exact .texts
      | exact .bytes
      | exact .integer
      | exact .float
      | exact .remaining
      | exact StringCommand.isPlain_readSetOptions _ _ _
      | exact StringCommand.isPlain_textKeys _
      | exact .pairs (CommandError.plain_wrongArity "mset" (by simp)) .bytes .bytes
      | refine .bind ?_ fun _ => ?_

theorem isPlain_listCommands : ∀ spec ∈ listCommands, IsPlain spec.read := by
  intro spec hspec
  simp only [listCommands, List.mem_cons, List.not_mem_nil, or_false] at hspec
  rcases hspec with rfl | rfl | rfl | rfl | rfl | rfl | rfl | rfl | rfl | rfl | rfl
  all_goals
    refine isPlain_of_map rfl ?_
    repeat' first
      | exact .pure _
      | exact .text
      | exact .bytes
      | exact .integer
      | exact .remaining
      | exact .times .bytes _
      | exact .optional .natural
      | exact .fail CommandError.plain_badOptions
      | refine .bind ?_ fun _ => ?_
      | split

theorem isPlain_hashCommands : ∀ spec ∈ hashCommands, IsPlain spec.read := by
  intro spec hspec
  simp only [hashCommands, List.mem_cons, List.not_mem_nil, or_false] at hspec
  rcases hspec with rfl | rfl | rfl | rfl | rfl | rfl | rfl | rfl | rfl
  all_goals
    refine isPlain_of_map rfl ?_
    repeat' first
      | exact .pure _
      | exact .text
      | exact .texts
      | exact .integer
      | exact .pairs (CommandError.plain_wrongArity "hset" (by simp)) .text .bytes
      | refine .bind ?_ fun _ => ?_

theorem isPlain_setCommands : ∀ spec ∈ setCommands, IsPlain spec.read := by
  intro spec hspec
  simp only [setCommands, List.mem_cons, List.not_mem_nil, or_false] at hspec
  rcases hspec with rfl | rfl | rfl | rfl | rfl | rfl | rfl
  all_goals
    refine isPlain_of_map rfl ?_
    repeat' first
      | exact .pure _
      | exact .text
      | exact .texts
      | exact .optional .natural
      | exact .optional .integer
      | refine .bind ?_ fun _ => ?_

theorem isPlain_sortedSetCommands : ∀ spec ∈ sortedSetCommands, IsPlain spec.read := by
  intro spec hspec
  simp only [sortedSetCommands, List.mem_cons, List.not_mem_nil, or_false] at hspec
  rcases hspec with rfl | rfl | rfl | rfl | rfl | rfl | rfl | rfl | rfl | rfl | rfl | rfl | rfl
  all_goals
    refine isPlain_of_map rfl ?_
    repeat' first
      | exact .pure _
      | exact .text
      | exact .texts
      | exact .integer
      | exact .float
      | exact .remaining
      | exact .hasNext
      | exact .keyword
      | exact .finish
      | exact .scoreRange
      | exact SortedSetCommand.isPlain_readAdd
      | exact SortedSetCommand.isPlain_readRangeOptions _ _ _
      | exact .fail CommandError.plain_badOptions
      | refine .bind ?_ fun _ => ?_
      | split

theorem isPlain_readSelect : IsPlain ServerCommand.readSelect := by
  refine .bind .integer fun n => ?_
  split
  · exact .pure _
  · exact .fail CommandError.plain_notInteger

theorem isPlain_readMode : IsPlain ServerCommand.readMode := by
  refine .bind .hasNext fun more => ?_
  split
  · refine .bind .keyword fun mode => ?_
    split
    · exact .bind (.fail CommandError.plain_badOptions) fun _ => .finish
    · exact .finish
  · exact .finish

theorem isPlain_readPing : IsPlain ServerCommand.readPing := by
  refine .bind .remaining fun n => ?_
  split
  · exact .fail (CommandError.plain_wrongArity "ping" (by simp))
  · refine .bind .hasNext fun more => ?_
    split
    · exact .bind .bytes fun payload => .pure _
    · exact .pure _

/-- An error about the arguments of a request that is plain, or quotes the first of them. -/
def QuotesFirst (bs : List Bytes) (e : CommandError) : Prop :=
  e.Plain ∨ ∃ b s command, bs.head? = some b ∧ Utf8.decode? b = some s ∧
    (command = "COMMAND" ∨ command = "OBJECT") ∧
      e = .unknownSubcommand command (LetterCase.lower s)

theorem run_keyword_bulk (b : Bytes) (args : List Frame) :
    keyword.run (.bulk b :: args) =
      (Utf8.decode? b).elim (.error .invalidUtf8) fun s => .ok (LetterCase.lower s, args) := by
  cases hdecode : Utf8.decode? b with
  | none =>
    have htext : text.run (.bulk b :: args) = .error .invalidUtf8 := by
      rw [run_text_bulk, hdecode]
      rfl
    exact run_bind_error htext
  | some s =>
    have htext : text.run (.bulk b :: args) = .ok (s, args) := by
      rw [run_text_bulk, hdecode]
      rfl
    exact run_bind_ok htext

theorem error_of_map {g : α → β} {args : List Frame} {e : CommandError}
    (h : (g <$> r).run args = .error e) : r.run args = .error e := by
  cases hr : r.run args with
  | error e' =>
    cases (run_map_error hr).symm.trans h
    rfl
  | ok p =>
    rw [run_map_ok hr] at h
    cases h

/-- A reader that looks at the first argument for a subcommand. -/
theorem quotesFirst_keyword {bs : List Bytes} {e : CommandError} {command : String}
    {body : String → ArgReader α} (hcommand : command = "COMMAND" ∨ command = "OBJECT")
    (hbody : ∀ sub, IsPlain (body sub) ∨ body sub = fail (.unknownSubcommand command sub))
    (h : (keyword >>= body).run (bulks bs) = .error e) : QuotesFirst bs e := by
  cases bs with
  | nil =>
    cases h
    exact .inl CommandError.plain_endOfArguments
  | cons b bs =>
    have hkeyword := run_keyword_bulk b (bulks bs)
    cases hdecode : Utf8.decode? b with
    | none =>
      rw [hdecode] at hkeyword
      cases h.symm.trans (run_bind_error hkeyword)
      exact .inl CommandError.plain_invalidUtf8
    | some s =>
      rw [hdecode] at hkeyword
      have hrun := (run_bind_ok hkeyword).symm.trans h
      rcases hbody (LetterCase.lower s) with hplain | hunknown
      · exact .inl (hplain.error bs e hrun)
      · rw [hunknown] at hrun
        cases hrun
        exact .inr ⟨b, s, command, rfl, hdecode, hcommand, rfl⟩

theorem quotesFirst_readObject {bs : List Bytes} {e : CommandError}
    (h : ServerCommand.readObject.run (bulks bs) = .error e) : QuotesFirst bs e := by
  refine quotesFirst_keyword (.inr rfl) (fun sub => ?_) h
  split
  · exact .inl (.bind .text fun key => .bind .finish fun _ => .pure _)
  · exact .inr rfl

theorem quotesFirst_readCommand {bs : List Bytes} {e : CommandError}
    (h : ServerCommand.readCommand.run (bulks bs) = .error e) : QuotesFirst bs e := by
  cases bs with
  | nil => cases h
  | cons b bs =>
    have hrun : (keyword >>= fun sub =>
        if sub = "count" then do
          finish
          return ServerCommand.commandCount
        else if sub = "docs" then do
          let _ ← texts
          return ServerCommand.commandDocs
        else if sub = "info" then return ServerCommand.commandInfo (← texts)
        else fail (.unknownSubcommand "COMMAND" sub)).run (bulks (b :: bs)) = .error e := h
    refine quotesFirst_keyword (.inl rfl) (fun sub => ?_) hrun
    split
    · exact .inl (.bind .finish fun _ => .pure _)
    · split
      · exact .inl (.bind .texts fun _ => .pure _)
      · split
        · exact .inl (.bind .texts fun names => .pure _)
        · exact .inr rfl

theorem quotesFirst_serverCommands {bs : List Bytes} {e : CommandError} :
    ∀ spec ∈ serverCommands, spec.read.run (bulks bs) = .error e → QuotesFirst bs e := by
  have hplain : ∀ {spec : CommandSpec}, IsPlain spec.read →
      spec.read.run (bulks bs) = .error e → QuotesFirst bs e := fun h hrun => .inl (h.error bs e hrun)
  intro spec hspec
  simp only [serverCommands, List.mem_cons, List.not_mem_nil, or_false] at hspec
  rcases hspec with rfl | rfl | rfl | rfl | rfl | rfl | rfl | rfl | rfl
  · exact hplain (isPlain_of_map rfl isPlain_readPing)
  · exact hplain (isPlain_of_map rfl (.bind .bytes fun payload => .pure _))
  · exact hplain (isPlain_of_map rfl isPlain_readSelect)
  · exact hplain (.pure _)
  · exact hplain (.pure _)
  · exact hplain (isPlain_of_map rfl (.bind isPlain_readMode fun _ => .pure _))
  · exact hplain (isPlain_of_map rfl (.bind isPlain_readMode fun _ => .pure _))
  · exact fun h => quotesFirst_readCommand (error_of_map h)
  · exact fun h => quotesFirst_readObject (error_of_map h)

theorem quotesFirst_table {bs : List Bytes} {e : CommandError} {spec : CommandSpec}
    (hspec : spec ∈ table) (h : spec.read.run (bulks bs) = .error e) : QuotesFirst bs e := by
  have hplain : ∀ {specs : List CommandSpec}, (∀ spec ∈ specs, IsPlain spec.read) →
      ∀ spec ∈ specs, spec.read.run (bulks bs) = .error e → QuotesFirst bs e :=
    fun hspecs spec hspec hrun => .inl ((hspecs spec hspec).error bs e hrun)
  have hall : ∀ spec ∈ table, spec.read.run (bulks bs) = .error e → QuotesFirst bs e := by
    simp only [table, List.forall_mem_append]
    exact ⟨⟨⟨⟨⟨⟨quotesFirst_serverCommands, hplain isPlain_keyCommands⟩,
      hplain isPlain_stringCommands⟩, hplain isPlain_listCommands⟩,
      hplain isPlain_hashCommands⟩, hplain isPlain_setCommands⟩, hplain isPlain_sortedSetCommands⟩
  exact hall spec hspec h

end CommandSpec

/-! ## Requests -/

namespace Command

/-- What is wrong with a request is plain, or quotes its first or its second argument. -/
theorem ofFrame_error {r : List Bytes} {e : CommandError} (h : ofFrame (.ofArguments r) = .error e) :
    e.Plain ∨
      (∃ b s, r.head? = some b ∧ Utf8.decode? b = some s ∧ e = .unknownCommand (LetterCase.lower s)) ∨
      ∃ b s command, r.tail.head? = some b ∧ Utf8.decode? b = some s ∧
        (command = "COMMAND" ∨ command = "OBJECT") ∧
          e = .unknownSubcommand command (LetterCase.lower s) := by
  have hread : read.run (bulks r) = .error e := by
    have hmap : (read.run (bulks r)).map (·.1) = .error e := h
    cases hr : read.run (bulks r) with
    | error e' =>
      rw [hr] at hmap
      cases hmap
      rfl
    | ok p =>
      rw [hr] at hmap
      cases hmap
  cases r with
  | nil =>
    cases hread
    exact .inl CommandError.plain_endOfArguments
  | cons b bs =>
    have hname := run_readName_bulk b (bulks bs)
    cases hdecode : Utf8.decode? b with
    | none =>
      rw [hdecode] at hname
      cases hread.symm.trans (run_bind_error hname)
      exact .inl CommandError.plain_invalidUtf8
    | some s =>
      rw [hdecode] at hname
      have hrun := (run_bind_ok hname).symm.trans hread
      cases hlookup : CommandSpec.lookup? (LetterCase.lower s) with
      | none =>
        rw [hlookup] at hrun
        cases hrun
        exact .inr (.inl ⟨b, s, rfl, hdecode, rfl⟩)
      | some spec =>
        rw [hlookup] at hrun
        have hmem := List.mem_of_find?_eq_some hlookup
        have hspec : spec.name = LetterCase.lower s :=
          eq_of_beq (List.find?_some (p := fun spec : CommandSpec => spec.name == _) hlookup)
        have hbody : (if spec.arity.accepts (bulks bs).length then spec.read
          else fail (.wrongArity (LetterCase.lower s))).run (bulks bs) = .error e := hrun
        split at hbody
        · rcases CommandSpec.quotesFirst_table hmem hbody with hplain | hquotes
          · exact .inl hplain
          · exact .inr (.inr hquotes)
        · cases hbody
          rw [← hspec]
          exact .inl (CommandError.plain_wrongArity _
            (List.mem_append_right _ (List.mem_map_of_mem hmem)))

end Command

end RespStore
