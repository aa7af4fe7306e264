import RespStore.Proofs.Command.Refusal
import RespStore.Proofs.Command.Reply
import RespStore.Proofs.Text.LetterCase
import RespStore.Server

/-!
# Answers on the wire

A client takes replies off the wire one by one, so the bytes of a reply have to be one frame. They
are, unless the reply quotes a name with a line end in it, or holds more than a length can tell.
-/

namespace RespStore

/-- A text between two texts without line ends. -/
theorem isLine_encode_between {before name after : String} (hbefore : Ascii.cr ∉ Utf8.encode before)
    (hafter : Ascii.lf ∉ Utf8.encode after) :
    Bytes.IsLine (Utf8.encode (before ++ name ++ after)) ↔ Bytes.IsLine (Utf8.encode name) := by
  rw [Utf8.encode_append, Utf8.encode_append, Bytes.isLine_append_of_lf_notMem hafter,
    Bytes.isLine_append_of_cr_notMem hbefore]

/-- The argument of a request that its rejection quotes: the name of a command or of a subcommand
that there is not. -/
def Request.quoted? (r : Request) : Option Bytes :=
  match Command.ofFrame r.toFrame with
  | .error (.unknownCommand _) => List.head? r
  | .error (.unknownSubcommand _ _) => List.head? r.tail
  | _ => none

theorem Request.isLine_message_iff {r : Request} {e : CommandError}
    (h : Command.ofFrame r.toFrame = .error e) :
    Bytes.IsLine (Utf8.encode e.message) ↔ ∀ b, r.quoted? = some b → Bytes.IsLine b := by
  have hquotes : ∀ (before after : String) {b s} {a : Option Bytes}, a = some b →
      Utf8.decode? b = some s → Ascii.cr ∉ Utf8.encode before → Ascii.lf ∉ Utf8.encode after →
      (Bytes.IsLine (Utf8.encode (before ++ LetterCase.lower s ++ after)) ↔
        ∀ b, a = some b → Bytes.IsLine b) := by
    rintro before after b s _ rfl hs hbefore hafter
    rw [isLine_encode_between hbefore hafter, LetterCase.isLine_lower, Utf8.encode_of_decode? hs]
    exact ⟨fun h _ hb => Option.some.inj hb ▸ h, fun h => h b rfl⟩
  rcases Command.ofFrame_error h with ⟨hquoted, hcr⟩ | ⟨b, s, hb, hs, rfl⟩ |
    ⟨b, s, command, hb, hs, hcommand, rfl⟩
  · refine iff_of_true (Bytes.isLine_of_cr_notMem hcr) fun b hb => ?_
    rw [quoted?, h] at hb
    cases e <;> first | cases hb | cases hquoted
  · rw [quoted?, h]
    have hmessage : (CommandError.unknownCommand (LetterCase.lower s)).message =
        "ERR unknown command '" ++ LetterCase.lower s ++ "'" := rfl
    rw [hmessage]
    exact hquotes _ _ hb hs (by decide +kernel) (by decide +kernel)
  · rw [quoted?, h]
    have hmessage : (CommandError.unknownSubcommand command (LetterCase.lower s)).message =
        "ERR unknown subcommand '" ++ LetterCase.lower s ++ "'. Try " ++ command ++ " HELP." := rfl
    rw [hmessage, String.append_assoc, String.append_assoc]
    refine hquotes _ _ hb hs (by decide +kernel) ?_
    rcases hcommand with rfl | rfl <;> decide +kernel

namespace Server

variable [Digest String] [Matcher]

theorem execute_reply_of_ok {r : Request} {c : Command} (h : Command.ofFrame r.toFrame = .ok c)
    (sv : Server) (now : Nat) (s : Session) :
    (sv.execute now s r.toFrame).reply = (c.run now s sv.keyspace).reply := by
  rw [execute, h]
  dsimp only
  split <;> rfl

theorem execute_reply_of_error {r : Request} {e : CommandError}
    (h : Command.ofFrame r.toFrame = .error e) (sv : Server) (now : Nat) (s : Session) :
    (sv.execute now s r.toFrame).reply = .error e.message := by
  rw [execute, h]

/-- The bytes of a reply are one frame just when no name with a line end in it is quoted and all
lengths fit. -/
theorem reply_isFrame_iff (sv : Server) (now : Nat) (s : Session) (r : Request) :
    (∃ f, Frame.parse ((sv.execute now s r.toFrame).reply.encode .array) = .ok (f, [])) ↔
      (∀ b, r.quoted? = some b → Bytes.IsLine b) ∧ (sv.execute now s r.toFrame).reply.Fits := by
  cases h : Command.ofFrame r.toFrame with
  | ok c =>
    have hquoted : r.quoted? = none := by rw [Request.quoted?, h]
    rw [execute_reply_of_ok h, hquoted]
    have hparse : Frame.parse ((c.run now s sv.keyspace).reply.encode .array ++ []) = _ :=
      Frame.parse_encode (c.oneLine_run s sv.keyspace) []
    rw [List.append_nil, Frame.readBack_array] at hparse
    rw [hparse]
    by_cases hfits : (c.run now s sv.keyspace).reply.Fits
    · rw [if_pos hfits]
      exact iff_of_true ⟨_, rfl⟩ ⟨nofun, hfits⟩
    · rw [if_neg hfits]
      exact iff_of_false nofun fun h => hfits h.2
  | error e =>
    rw [execute_reply_of_error h, Frame.parse_encode_error_iff, Request.isLine_message_iff h]
    exact (and_iff_left rfl).symm

/-- The name of a command ends its rejection early and goes on to a reply of its own. -/
example (sv : Server) (now : Nat) (s : Session) :
    Frame.parse ((sv.execute now s (Request.toFrame [Utf8.encode "fo\r\n+ok"])).reply.encode .array) =
      .ok (.error "ERR unknown command 'fo", Utf8.encode "+ok'\r\n") := rfl

end Server

end RespStore
