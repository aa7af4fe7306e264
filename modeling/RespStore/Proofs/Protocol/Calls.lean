import RespStore.Command.Run
import RespStore.Proofs.Protocol.Stream

/-!
# Calls

The requests that a client has sent whole, each with the time of the read that brought its last byte. A
request to quit ends the connection, and what stands behind it on the wire is no call any more.
-/

namespace RespStore

/-- A request, and the time of the read that has made it whole. -/
structure Call where
  now : Nat
  request : Request

/-- Whether a request ends the connection that it comes over. -/
def Request.isQuit (r : Request) : Bool :=
  match Command.ofFrame r.toFrame with
  | .ok c => (c matches .server .quit)
  | .error _ => false

namespace Call

/-- The calls up to the first that ends the connection. -/
def untilQuit : List Call → List Call
  | [] => []
  | c :: cs => if c.request.isQuit then [c] else c :: untilQuit cs

/-- Whether one of the calls ends the connection. -/
def Quits (cs : List Call) : Prop := ∃ c ∈ cs, c.request.isQuit = true

instance (cs : List Call) : Decidable (Quits cs) := inferInstanceAs (Decidable (∃ c ∈ cs, _))

variable {c : Call} {cs cs' : List Call}

theorem not_quits_nil : ¬Quits [] := nofun

theorem quits_cons : Quits (c :: cs) ↔ c.request.isQuit = true ∨ Quits cs := by
  simp only [Quits, List.mem_cons, exists_eq_or_imp]

theorem quits_append : Quits (cs ++ cs') ↔ Quits cs ∨ Quits cs' := by
  simp only [Quits, List.mem_append, or_and_right, exists_or]

theorem untilQuit_of_quit (h : c.request.isQuit = true) : untilQuit (c :: cs) = [c] := if_pos h

theorem untilQuit_cons (h : c.request.isQuit = false) : untilQuit (c :: cs) = c :: untilQuit cs := by
  rw [untilQuit, h]
  rfl

theorem untilQuit_append_of_quits (h : Quits cs) : untilQuit (cs ++ cs') = untilQuit cs := by
  induction cs with
  | nil => exact absurd h not_quits_nil
  | cons c cs ih =>
    rw [List.cons_append]
    cases hquit : c.request.isQuit with
    | true => rw [untilQuit_of_quit hquit, untilQuit_of_quit hquit]
    | false =>
      have hlater := (quits_cons.mp h).resolve_left (by rw [hquit]; exact Bool.false_ne_true)
      rw [untilQuit_cons hquit, untilQuit_cons hquit, ih hlater]

theorem untilQuit_append (h : ¬Quits cs) : untilQuit (cs ++ cs') = cs ++ untilQuit cs' := by
  induction cs with
  | nil => rfl
  | cons c cs ih =>
    obtain ⟨hquit, hlater⟩ := not_or.mp (mt quits_cons.mpr h)
    rw [List.cons_append, untilQuit_cons (Bool.eq_false_iff.mpr hquit), ih hlater]
    rfl

theorem untilQuit_of_not_quits (h : ¬Quits cs) : untilQuit cs = cs := by
  have happend : untilQuit (cs ++ []) = cs ++ [] := untilQuit_append h
  rwa [List.append_nil] at happend

theorem untilQuit_untilQuit (cs : List Call) : untilQuit (untilQuit cs) = untilQuit cs := by
  induction cs with
  | nil => rfl
  | cons c cs ih =>
    cases hquit : c.request.isQuit with
    | true => rw [untilQuit_of_quit hquit, untilQuit_of_quit hquit]
    | false => rw [untilQuit_cons hquit, untilQuit_cons hquit, ih]

end Call

namespace Decoder

/-- The calls that come of some reads, up to the first refusal. -/
structure Taken where
  calls : List Call
  failure : Option ProtocolError

/-- Feeds reads, each with its time, up to the first refusal. -/
def feedEach (d : Decoder) (buf : Bytes) : List (Nat × Bytes) → Taken
  | [] => ⟨[], none⟩
  | (now, chunk) :: reads =>
    let o := d.feed buf chunk
    let calls := o.requests.map (Call.mk now)
    match o.failure with
    | some e => ⟨calls, some e⟩
    | none =>
      let later := o.decoder.feedEach o.buffer reads
      ⟨calls ++ later.calls, later.failure⟩

/-- Their times aside, the calls are the requests that come of the reads. -/
theorem feedEach_eq (d : Decoder) (buf : Bytes) (reads : List (Nat × Bytes)) :
    (d.feedEach buf reads).calls.map (·.request) = (d.feedAll buf (reads.map (·.2))).requests ∧
      (d.feedEach buf reads).failure = (d.feedAll buf (reads.map (·.2))).failure := by
  induction reads generalizing d buf with
  | nil => exact ⟨rfl, rfl⟩
  | cons read reads ih =>
    obtain ⟨now, chunk⟩ := read
    rw [List.map_cons, feedEach, feedAll]
    dsimp only
    have hcalls : ((d.feed buf chunk).requests.map (Call.mk now)).map (·.request) =
        (d.feed buf chunk).requests := by
      rw [List.map_map]
      exact List.map_id _
    cases hfailure : (d.feed buf chunk).failure with
    | some e => exact ⟨hcalls, hfailure.symm⟩
    | none =>
      obtain ⟨hrequests, hlater⟩ := ih (d.feed buf chunk).decoder (d.feed buf chunk).buffer
      dsimp only
      rw [List.map_append, hcalls, hrequests]
      exact ⟨rfl, hlater⟩

end Decoder

/-! ## What stands on the wire -/

namespace Call

/-- The calls of requests that come each in a read of its own. -/
def ofWired (ws : List (Nat × Wired)) : List Call :=
  ws.flatMap fun p => (Wired.requests [p.2]).map (Call.mk p.1)

variable {ws : List (Nat × Wired)} {p : Nat × Wired}

theorem ofWired_cons : ofWired (p :: ws) = (Wired.requests [p.2]).map (Call.mk p.1) ++ ofWired ws := rfl

theorem ofWired_append (ws vs : List (Nat × Wired)) : ofWired (ws ++ vs) = ofWired ws ++ ofWired vs :=
  List.flatMap_append

/-- Requests that come in one read. -/
theorem ofWired_map (now : Nat) (ws : List Wired) :
    ofWired (ws.map (now, ·)) = (Wired.requests ws).map (Call.mk now) := by
  induction ws with
  | nil => rfl
  | cons w ws ih => rw [List.map_cons, ofWired_cons, ih, Wired.requests_cons w ws, List.map_append]

/-- The calls up to the first that ends the connection are those of the first few requests. -/
theorem exists_untilQuit (ws : List (Nat × Wired)) :
    ∃ vs us, ws = vs ++ us ∧ ofWired vs = untilQuit (ofWired ws) := by
  induction ws with
  | nil => exact ⟨[], [], rfl, rfl⟩
  | cons p ws ih =>
    obtain ⟨vs, us, rfl, hvs⟩ := ih
    by_cases hquits : Quits ((Wired.requests [p.2]).map (Call.mk p.1))
    · refine ⟨[p], vs ++ us, rfl, ?_⟩
      have hsingle : ofWired [p] = (Wired.requests [p.2]).map (Call.mk p.1) := List.append_nil _
      rw [hsingle, ofWired_cons, untilQuit_append_of_quits hquits]
      rw [Wired.requests_singleton] at hquits ⊢
      split at hquits
      · exact absurd hquits not_quits_nil
      · next hne =>
        have hquit := (quits_cons.mp hquits).resolve_right not_quits_nil
        rw [if_neg hne]
        exact (untilQuit_of_quit hquit).symm
    · refine ⟨p :: vs, us, rfl, ?_⟩
      rw [ofWired_cons, ofWired_cons, untilQuit_append hquits, hvs]

end Call

namespace Decoder

variable {max : Nat} {d : Decoder} {buf : Bytes}

/-- The calls of some reads come each of a request, and these stand one behind the other. -/
theorem exists_calls (h : Waits max d buf) (reads : List (Nat × Bytes)) :
    ∃ ws rest, buf ++ (reads.map (·.2)).flatten = Wired.stream (ws.map (·.2)) ++ rest ∧
      Call.ofWired ws = (d.feedEach buf reads).calls := by
  induction reads generalizing d buf with
  | nil => exact ⟨[], buf, List.append_nil _, rfl⟩
  | cons read reads ih =>
    obtain ⟨now, chunk⟩ := read
    obtain ⟨vs, rest, hstream, hrequests, hbuffer⟩ := exists_stream_drain max (buf ++ chunk)
    rw [feedEach, h.feed_eq, List.map_cons, List.flatten_cons, ← List.append_assoc]
    cases hfailure : ((new max).drain (buf ++ chunk)).failure with
    | some e =>
      refine ⟨vs.map (now, ·), rest ++ (reads.map (·.2)).flatten, ?_, ?_⟩
      · rw [hstream, List.append_assoc, List.map_map]
        exact congrArg (fun us => Wired.stream us ++ _) (List.map_id _).symm
      · rw [Call.ofWired_map, hrequests]
    | none =>
      obtain ⟨ws, rest', hlater, hcalls⟩ := ih (drain_append hfailure).1
      refine ⟨vs.map (now, ·) ++ ws, rest', ?_, ?_⟩
      · rw [hstream, List.append_assoc, ← hbuffer hfailure, hlater, List.map_append,
          Wired.stream_append, List.map_map, List.append_assoc]
        exact congrArg (fun us => Wired.stream us ++ _) (List.map_id _).symm
      · rw [Call.ofWired_append, Call.ofWired_map, hcalls, hrequests]

/-- At the end of a stream there is nothing more to take off. -/
theorem feedEach_concat_nil (h : Waits max d buf) (reads : List (Nat × Bytes)) (now : Nat) :
    d.feedEach buf (reads ++ [(now, [])]) = d.feedEach buf reads := by
  induction reads generalizing d buf with
  | nil =>
    obtain ⟨d', hdrain⟩ := h.drain
    have hend : d.feedEach buf [(now, [])] = ⟨[], none⟩ := by
      rw [feedEach, h.feed_eq, List.append_nil, hdrain]
      rfl
    exact hend
  | cons read reads ih =>
    obtain ⟨now', chunk⟩ := read
    rw [List.cons_append, feedEach, feedEach, h.feed_eq]
    cases hfailure : ((new max).drain (buf ++ chunk)).failure with
    | some e => rfl
    | none =>
      dsimp only
      rw [ih (drain_append hfailure).1]

/-- Requests that come each in a read of its own are all taken off. -/
theorem feedEach_ofWired (max : Nat) (ws : List (Nat × Wired)) :
    (new max).feedEach [] (ws.map fun p => (p.1, p.2.bytes)) = ⟨Call.ofWired ws, none⟩ := by
  induction ws with
  | nil => rfl
  | cons p ws ih =>
    have hdrain : (new max).drain (p.2.bytes ++ []) = _ := drain_wired p.2 []
    have hfeed : (new max).feed [] p.2.bytes = ⟨Wired.requests [p.2], new max, [], none⟩ := by
      rw [List.append_nil, show (new max).drain [] = _ from drain_new_eq] at hdrain
      rw [feed, List.nil_append, hdrain, Drained.after]
      exact congrArg (Drained.mk · _ _ _) (List.append_nil _)
    rw [List.map_cons, feedEach, hfeed]
    dsimp only
    rw [ih, Call.ofWired_cons]

end Decoder

end RespStore
