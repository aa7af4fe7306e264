import RespStore.Proofs.Serving
import RespStore.Text.Fingerprint

/-!
# Reading back what a server logs

A record is decoded and accepted again unless it is beyond the limits of a request or stores a string
under a deadline that no reader of integers takes. Nothing else stops a replay.
-/

namespace RespStore.Serving

open Log

variable [Digest String] [Matcher] {n : Nat} {p : Nat × Request}

omit [Digest String] [Matcher] in
/-- A record is decoded as it was written just when it is within the limits. -/
theorem decode_encode_iff {r : Request} (hr : r ≠ []) :
    Decoder.default.decode (Writer.encode r) = ⟨.default, [], .ok (some r)⟩ ↔ r.WithinLimits := by
  have hencode : Writer.encode r = r.toFrame.serialize ++ [] := (List.append_nil _).symm
  rw [hencode]
  constructor
  · intro hdecode
    apply Classical.byContradiction
    intro hlimits
    obtain ⟨e, he⟩ := Decoder.decode_serialize_error hr hlimits (d := .default) rfl []
    rw [hdecode] at he
    cases he
  · intro hlimits
    exact Decoder.decode_serialize hr hlimits rfl []

/-- What the log of a server may hold is read back almost always: it is decoded as it was written just
when it is within the limits of a request, it is accepted just when it sets no deadline that is too
late, and a replay that comes to it, wherever in a log, goes on behind it if both hold, and stops
there otherwise. -/
theorem record_readable_iff (h : MayLog n p) :
    (Decoder.default.decode (Writer.encode p.2) = ⟨.default, [], .ok (some p.2)⟩ ↔
      p.2.WithinLimits) ∧
    ((∃ c, Command.ofFrame p.2.toFrame = .ok c) ↔ ¬TooLate p.2) ∧
    (p.2.WithinLimits → ¬TooLate p.2 →
      ∃ c, Command.ofFrame p.2.toFrame = .ok c ∧ ∀ total t s k index rest,
        replayFrom total t .default s k index (Writer.encode p.2 ++ rest) =
          replayFrom total t .default (c.run t s k).session (c.run t s k).keyspace (index + 1)
            rest) ∧
    (¬p.2.WithinLimits ∨ TooLate p.2 → ∀ total t s k index rest,
      ∃ e, (replayFrom total t .default s k index (Writer.encode p.2 ++ rest)).result =
        .error e) := by
  obtain ⟨⟨now, vs, vs', c, hr⟩, -⟩ := h.reproduces
  have hdefault : Decoder.default.pending = none := rfl
  refine ⟨decode_encode_iff hr.ne_nil, ⟨?_, fun hearly => ⟨c, hr.read hearly⟩⟩, ?_, ?_⟩
  · rintro ⟨c', hc'⟩ hlate
    obtain ⟨e, he⟩ := hlate.ofFrame
    rw [hc'] at he
    cases he
  · intro hlimits hearly
    refine ⟨c, hr.read hearly, fun total t s k index rest => ?_⟩
    rw [replayFrom_cons hr.ne_nil hlimits hdefault, hr.read hearly]
  · intro hbad total t s k index rest
    by_cases hlimits : p.2.WithinLimits
    · obtain ⟨e, he⟩ := (hbad.resolve_left (not_not_intro hlimits)).ofFrame
      rw [replayFrom_cons hr.ne_nil hlimits hdefault, he]
      exact ⟨_, rfl⟩
    · exact replayFrom_cons_error hr.ne_nil hlimits hdefault

end RespStore.Serving

namespace RespStore.Serving

open Log

/-- A deadline that was given in seconds, in milliseconds. -/
def lateRecord : Request := ["SET", "k", "v", "PXAT", "9223372036854776000"].map word

/-- A server may log a record at which every replay stops. -/
theorem lateRecord_unreadable :
    MayLog 1 (0, lateRecord) ∧ ∀ total t s k index rest,
      ∃ e, (replayFrom total t .default s k index (Writer.encode lateRecord ++ rest)).result =
        .error e := by
  have hlogged : MayLog 1 (0, lateRecord) :=
    ⟨_, ⟨0, 10, ["SET", "k", "v", "EXAT", "9223372036854776"].map word⟩,
      reachable_start 1 ⟨fun _ => 0, 0⟩ .always, by decide +kernel⟩
  have hlate : TooLate lateRecord :=
    ⟨word "k", word "v", 9223372036854776000, by decide, by decide +kernel⟩
  exact ⟨hlogged, (record_readable_iff hlogged).2.2.2 (.inr hlate)⟩

end RespStore.Serving
