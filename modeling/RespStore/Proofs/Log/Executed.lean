import RespStore.Proofs.Log.Replay
import RespStore.Proofs.Protocol.Limits

/-!
# What a replay runs

The requests that a replay runs, besides those that select databases, each with the database that is
selected then. Whatever a file holds, these alone make the keyspace that its replay leaves.
-/

namespace RespStore.Log

variable [Digest String] [Matcher] {now total index : Nat} {d : Decoder} {s : Session} {k : Keyspace}
  {r : Request} {rest : Bytes}

/-- The requests that a replay of `buf` runs, each with the database that is selected then. Those
that select one are left out. -/
def executedFrom (now : Nat) (d : Decoder) (s : Session) (k : Keyspace) (buf : Bytes) :
    List (Nat × Request) :=
  let o := d.decode buf
  match _ : o.result with
  | .ok none => []
  | .error _ => []
  | .ok (some r) =>
    match Command.ofFrame r.toFrame with
    | .error _ => []
    | .ok c =>
      let e := c.run now s k
      let later := executedFrom now o.decoder e.session e.keyspace o.buffer
      if c.isSelect then later else (s.selected, r) :: later
termination_by buf.length
decreasing_by exact Decoder.decode_length_lt ‹_›

theorem executedFrom_eq (buf : Bytes) :
    executedFrom now d s k buf =
      match (d.decode buf).result with
      | .ok (some r) =>
        match Command.ofFrame r.toFrame with
        | .error _ => []
        | .ok c =>
          (if c.isSelect then [] else [(s.selected, r)]) ++
            executedFrom now (d.decode buf).decoder (c.run now s k).session
              (c.run now s k).keyspace (d.decode buf).buffer
      | _ => [] := by
  rw [executedFrom]
  split
  · next h => rw [h]
  · next e h => rw [h]
  · next r h =>
    rw [h]
    dsimp only
    cases Command.ofFrame r.toFrame with
    | error e => rfl
    | ok c =>
      dsimp only
      split <;> rfl

/-- The requests that a replay of a file runs. -/
def executed (now : Nat) (k : Keyspace) (contents : Bytes) : List (Nat × Request) :=
  executedFrom now .default .new k contents

/-- Whatever is in the buffer, the keyspace comes from these requests alone. -/
theorem runRecords_executedFrom (buf : Bytes) :
    runRecords now (executedFrom now d s k buf) k =
      some (replayFrom total now d s k index buf).keyspace := by
  fun_induction replayFrom total now d s k index buf with
  | case1 d s k index buf o ho =>
    rw [executedFrom_eq, show (d.decode buf).result = _ from ho]
    rfl
  | case2 d s k index buf o e ho =>
    rw [executedFrom_eq, show (d.decode buf).result = _ from ho]
    rfl
  | case3 d s k index buf o r ho e hc =>
    rw [executedFrom_eq, show (d.decode buf).result = _ from ho]
    dsimp only
    rw [hc]
    rfl
  | case4 d s k index buf o r ho c hc e ih =>
    rw [executedFrom_eq, show (d.decode buf).result = _ from ho]
    dsimp only
    rw [hc]
    dsimp only
    cases hselect : c.isSelect with
    | true =>
      have hkept : e.keyspace = k := Command.run_keyspace_of_isSelect hselect
      rw [if_pos rfl, List.nil_append, ← ih, hkept]
    | false =>
      rw [if_neg Bool.false_ne_true]
      exact (runRecords_cons hc).trans ih

/-- What is run of a request within the limits and of what follows it. -/
theorem executedFrom_cons (hr : r ≠ []) (hlimits : r.WithinLimits) (hd : d.pending = none)
    {c : Command} (hc : Command.ofFrame r.toFrame = .ok c) :
    executedFrom now d s k (Writer.encode r ++ rest) =
      (if c.isSelect then [] else [(s.selected, r)]) ++
        executedFrom now d (c.run now s k).session (c.run now s k).keyspace rest := by
  have hdecode : d.decode (Writer.encode r ++ rest) = ⟨d, rest, .ok (some r)⟩ :=
    Decoder.decode_serialize hr hlimits hd rest
  rw [executedFrom_eq, hdecode]
  dsimp only
  rw [hc]

/-- A replay leaves unread what there is of a request that is cut off. -/
theorem replayFrom_cut {w : Wired} {tail : Bytes} {max : Nat} (h : w.IsCut tail)
    (hlong : ¬Decoder.TooLong max tail) :
    replayFrom total now (.new max) s k index tail = ⟨k, tail.length, .ok index⟩ := by
  obtain ⟨hresult, hbuffer, -⟩ := (Decoder.decode_cut max h).resolve_left fun hrefused =>
    hlong hrefused.2
  rw [replayFrom_eq, hresult, hbuffer]

theorem executedFrom_cut {w : Wired} {tail : Bytes} (h : w.IsCut tail) (max : Nat) :
    executedFrom now (.new max) s k tail = [] := by
  rw [executedFrom_eq]
  rcases Decoder.decode_cut max h with ⟨⟨e, he⟩, -⟩ | ⟨hresult, -, -⟩
  · rw [he]
  · rw [hresult]

/-- A file that ends in a part of a request is refused where there is too much of it. -/
theorem replayFrom_cut_error {w : Wired} {tail : Bytes} {max : Nat} (h : w.IsCut tail)
    (hlong : Decoder.TooLong max tail) :
    ∃ e, (replayFrom total now (.new max) s k index tail).result = .error e := by
  obtain ⟨⟨e, he⟩, -⟩ := (Decoder.decode_cut max h).resolve_right fun hwaits => hwaits.2.2 hlong
  rw [replayFrom_eq, he]
  exact ⟨_, rfl⟩

end RespStore.Log
