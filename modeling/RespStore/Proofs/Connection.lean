import RespStore.Server
import RespStore.Proofs.Protocol.Calls

/-!
# What a connection runs

A connection runs the requests that its client has sent whole, up to the first that quits or to the
first that is refused, and answers each of them. How the bytes are cut into reads is of no account, but
for the times at which the requests run; nor is what comes behind the last of them.
-/

namespace RespStore.Server

variable [Digest String] [Matcher] {config : ServerConfig} {now : Nat} {sv : Server} {s : Session}
  {c : Connection} {chunk : Bytes} {r : Request} {calls calls' : List Call} {failure : Option ProtocolError}
  {out later : Served}

/-- Takes in what a client sends, each read at its time. -/
def receiveEach (config : ServerConfig) (sv : Server) (c : Connection) :
    List (Nat × Bytes) → Served
  | [] => ⟨sv, c, []⟩
  | (now, chunk) :: reads =>
    let first := receive config now sv c chunk
    let later := receiveEach config first.server first.connection reads
    { later with replies := first.replies ++ later.replies }

theorem receiveAll_eq (config : ServerConfig) (now : Nat) (sv : Server) (c : Connection)
    (chunks : List Bytes) :
    receiveAll config now sv c chunks = receiveEach config sv c (chunks.map (now, ·)) := by
  induction chunks generalizing sv c with
  | nil => rfl
  | cons chunk chunks ih =>
    rw [List.map_cons, receiveAll, receiveEach, ih]

/-- A closed connection takes in nothing. -/
theorem receiveEach_closed (h : c.isOpen = false) (reads : List (Nat × Bytes)) :
    receiveEach config sv c reads = ⟨sv, c, []⟩ := by
  induction reads with
  | nil => rfl
  | cons read reads ih =>
    obtain ⟨now, chunk⟩ := read
    have hfirst : receive config now sv c chunk = ⟨sv, c, []⟩ := by
      rw [receive, h]
      rfl
    rw [receiveEach, hfirst, ih]
    rfl

theorem receiveEach_cons_of_closed (h : (receive config now sv c chunk).connection.isOpen = false)
    (reads : List (Nat × Bytes)) :
    receiveEach config sv c ((now, chunk) :: reads) = receive config now sv c chunk := by
  rw [receiveEach, receiveEach_closed h]
  exact congrArg (Served.mk _ _) (List.append_nil _)

/-! ## Calls one after the other -/

/-- What calls come to. -/
structure Course where
  server : Server
  session : Session
  /-- One for each call. -/
  replies : List Frame

/-- Runs calls one after the other. -/
def executeEach (sv : Server) (s : Session) : List Call → Course
  | [] => ⟨sv, s, []⟩
  | c :: calls =>
    let x := sv.execute c.now s c.request.toFrame
    let later := executeEach x.server x.session calls
    { later with replies := x.reply :: later.replies }

theorem length_replies_executeEach (sv : Server) (s : Session) (calls : List Call) :
    (sv.executeEach s calls).replies.length = calls.length := by
  induction calls generalizing sv s with
  | nil => rfl
  | cons c calls ih => exact congrArg (· + 1) (ih _ _)

theorem executeEach_append (sv : Server) (s : Session) (calls calls' : List Call) :
    sv.executeEach s (calls ++ calls') =
      let first := sv.executeEach s calls
      let later := first.server.executeEach first.session calls'
      { later with replies := first.replies ++ later.replies } := by
  induction calls generalizing sv s with
  | nil => rfl
  | cons c calls ih =>
    rw [List.cons_append, executeEach, ih]
    rfl

theorem execute_quit (sv : Server) (now : Nat) (s : Session) (r : Request) :
    (sv.execute now s r.toFrame).quit = r.isQuit := by
  rw [execute, Request.isQuit]
  cases Command.ofFrame r.toFrame with
  | error e => rfl
  | ok c =>
    dsimp only
    split <;> rfl

/-! ## Calls over a connection -/

/-- The reply to what is refused behind calls, if the connection lasts until there. -/
def refusal (calls : List Call) (failure : Option ProtocolError) : List Frame :=
  if Call.Quits calls then [] else failure.toList.map fun e => .error e.message

omit [Digest String] [Matcher] in
@[simp] theorem refusal_none (calls : List Call) : refusal calls none = [] := by
  simp [refusal]

/-- What a connection makes of calls and of what may be refused behind them. -/
structure Hears (config : ServerConfig) (sv : Server) (s : Session) (calls : List Call)
    (failure : Option ProtocolError) (out : Served) : Prop where
  server : out.server = (sv.executeEach s (Call.untilQuit calls)).server
  session : out.connection.session = (sv.executeEach s (Call.untilQuit calls)).session
  replies : out.replies = ((sv.executeEach s (Call.untilQuit calls)).replies ++
    refusal calls failure).map (·.encode config.emptyArrays)
  isOpen : out.connection.isOpen = true ↔ ¬Call.Quits calls ∧ failure = none

omit [Digest String] [Matcher] in
theorem refusal_append (h : ¬Call.Quits calls) (calls' : List Call)
    (failure : Option ProtocolError) : refusal (calls ++ calls') failure = refusal calls' failure := by
  have hquits : Call.Quits (calls ++ calls') ↔ Call.Quits calls' :=
    Call.quits_append.trans (or_iff_right h)
  simp only [refusal, hquits]

/-- A call that ends the connection. -/
theorem hears_quit (hquit : r.isQuit = true) (d : Decoder) (buf : Bytes) (calls : List Call)
    (failure : Option ProtocolError) :
    let x := sv.execute now s r.toFrame
    Hears config sv s (⟨now, r⟩ :: calls) failure
      ⟨x.server, ⟨d, buf, x.session, false⟩, [x.reply.encode config.emptyArrays]⟩ := by
  have hquits : Call.Quits (⟨now, r⟩ :: calls) := Call.quits_cons.mpr (.inl hquit)
  have huntil : Call.untilQuit (⟨now, r⟩ :: calls) = [⟨now, r⟩] := Call.untilQuit_of_quit hquit
  constructor
  · rw [huntil]
    rfl
  · rw [huntil]
    rfl
  · rw [huntil, refusal, if_pos hquits]
    rfl
  · exact iff_of_false Bool.false_ne_true fun h => h.1 hquits

/-- A call that does not. -/
theorem Hears.cons (hquit : r.isQuit = false)
    (h : let x := sv.execute now s r.toFrame; Hears config x.server x.session calls failure later) :
    Hears config sv s (⟨now, r⟩ :: calls) failure
      { later with
        replies := (sv.execute now s r.toFrame).reply.encode config.emptyArrays :: later.replies } := by
  have huntil : Call.untilQuit (⟨now, r⟩ :: calls) = ⟨now, r⟩ :: Call.untilQuit calls :=
    Call.untilQuit_cons hquit
  have hquits : ¬Call.Quits [⟨now, r⟩] := by
    rw [Call.quits_cons, hquit]
    exact not_or_intro Bool.false_ne_true Call.not_quits_nil
  have hrefusal : refusal (⟨now, r⟩ :: calls) failure = refusal calls failure :=
    refusal_append hquits calls failure
  constructor
  · rw [huntil]
    exact h.server
  · rw [huntil]
    exact h.session
  · rw [huntil, hrefusal]
    exact congrArg (_ :: ·) h.replies
  · rw [Call.quits_cons, hquit, or_iff_right Bool.false_ne_true]
    exact h.isOpen

/-- One read is what the decoder takes off with it. -/
theorem serve_hears (config : ServerConfig) (now : Nat) (sv : Server) (d : Decoder) (s : Session)
    (buf : Bytes) :
    Hears config sv s ((d.drain buf).requests.map (Call.mk now)) (d.drain buf).failure
        (serve config now sv d s buf) ∧
      ((serve config now sv d s buf).connection.isOpen = true →
        (serve config now sv d s buf).connection.decoder = (d.drain buf).decoder ∧
          (serve config now sv d s buf).connection.buffer = (d.drain buf).buffer) := by
  fun_induction serve config now sv d s buf with
  | case1 sv d s buf o ho =>
    have hdrain : d.drain buf = ⟨[], o.decoder, o.buffer, none⟩ := by
      rw [Decoder.drain_decode, show (d.decode buf).result = _ from ho]
    rw [hdrain]
    exact ⟨⟨rfl, rfl, rfl, iff_of_true rfl ⟨Call.not_quits_nil, rfl⟩⟩, fun _ => ⟨rfl, rfl⟩⟩
  | case2 sv d s buf o e ho =>
    have hdrain : d.drain buf = ⟨[], o.decoder, o.buffer, some e⟩ := by
      rw [Decoder.drain_decode, show (d.decode buf).result = _ from ho]
    rw [hdrain]
    exact ⟨⟨rfl, rfl, rfl, iff_of_false Bool.false_ne_true nofun⟩, nofun⟩
  | case3 sv d s buf o r ho x reply hquit =>
    have hdrain : d.drain buf = (o.decoder.drain o.buffer).after [r] := by
      rw [Decoder.drain_decode, show (d.decode buf).result = _ from ho]
    rw [hdrain]
    exact ⟨hears_quit ((execute_quit sv now s r).symm.trans hquit) _ _ _ _, nofun⟩
  | case4 sv d s buf o r ho x reply hquit later ih =>
    have hdrain : d.drain buf = (o.decoder.drain o.buffer).after [r] := by
      rw [Decoder.drain_decode, show (d.decode buf).result = _ from ho]
    have hstays : r.isQuit = false :=
      (execute_quit sv now s r).symm.trans (Bool.eq_false_iff.mpr hquit)
    rw [hdrain]
    exact ⟨ih.1.cons hstays, ih.2⟩

/-- Calls behind others on a connection that lasts. -/
theorem Hears.append (h : Hears config sv s calls none out) (hquits : ¬Call.Quits calls)
    (h' : Hears config out.server out.connection.session calls' failure later) :
    Hears config sv s (calls ++ calls') failure
      { later with replies := out.replies ++ later.replies } := by
  have huntil := Call.untilQuit_of_not_quits hquits
  obtain ⟨hserver, hsession, hreplies, hopen⟩ := h'
  rw [h.server, h.session, huntil] at hserver hsession hreplies
  constructor
  · rw [Call.untilQuit_append hquits, executeEach_append]
    exact hserver
  · rw [Call.untilQuit_append hquits, executeEach_append]
    exact hsession
  · show out.replies ++ later.replies = _
    rw [h.replies, hreplies, huntil, refusal_none, List.append_nil, ← List.map_append,
      Call.untilQuit_append hquits, refusal_append hquits, executeEach_append, List.append_assoc]
  · rw [Call.quits_append, or_iff_right hquits]
    exact hopen

/-- Calls behind one that ends the connection do not count. -/
theorem Hears.of_quits (h : Hears config sv s calls failure out) (hquits : Call.Quits calls)
    (calls' : List Call) (failure' : Option ProtocolError) :
    Hears config sv s (calls ++ calls') failure' out := by
  have hquits' : Call.Quits (calls ++ calls') := Call.quits_append.mpr (.inl hquits)
  have huntil : Call.untilQuit (calls ++ calls') = Call.untilQuit calls :=
    Call.untilQuit_append_of_quits hquits
  have hrefusal : refusal (calls ++ calls') failure' = refusal calls failure := by
    rw [refusal, refusal, if_pos hquits, if_pos hquits']
  obtain ⟨hserver, hsession, hreplies, hopen⟩ := h
  rw [← huntil] at hserver hsession hreplies
  rw [← hrefusal] at hreplies
  exact ⟨hserver, hsession, hreplies,
    iff_of_false (fun h => (hopen.mp h).1 hquits) fun h => h.1 hquits'⟩

/-- All reads of a connection are what the decoder takes off with them. -/
theorem receiveEach_hears (config : ServerConfig) (sv : Server) (d : Decoder) (buf : Bytes)
    (s : Session) (reads : List (Nat × Bytes)) :
    Hears config sv s (d.feedEach buf reads).calls (d.feedEach buf reads).failure
      (receiveEach config sv ⟨d, buf, s, true⟩ reads) := by
  induction reads generalizing sv d buf s with
  | nil => exact ⟨rfl, rfl, rfl, iff_of_true rfl ⟨Call.not_quits_nil, rfl⟩⟩
  | cons read reads ih =>
    obtain ⟨now, chunk⟩ := read
    obtain ⟨hfirst, hrest⟩ := serve_hears config now sv d s (buf ++ chunk)
    have hreceive : receive config now sv ⟨d, buf, s, true⟩ chunk =
        serve config now sv d s (buf ++ chunk) := if_pos rfl
    rw [← hreceive] at hfirst hrest
    rw [Decoder.feedEach, Decoder.feed]
    cases hfailure : (d.drain (buf ++ chunk)).failure with
    | some e =>
      rw [hfailure] at hfirst
      rw [receiveEach_cons_of_closed
        (Bool.eq_false_iff.mpr fun h => Option.some_ne_none e (hfirst.isOpen.mp h).2)]
      exact hfirst
    | none =>
      rw [hfailure] at hfirst
      by_cases hquits : Call.Quits ((d.drain (buf ++ chunk)).requests.map (Call.mk now))
      · rw [receiveEach_cons_of_closed
          (Bool.eq_false_iff.mpr fun h => (hfirst.isOpen.mp h).1 hquits)]
        exact hfirst.of_quits hquits _ _
      · rw [receiveEach]
        generalize receive config now sv ⟨d, buf, s, true⟩ chunk = first at hfirst hrest ⊢
        have hopen := hfirst.isOpen.mpr ⟨hquits, rfl⟩
        obtain ⟨hdecoder, hbuffer⟩ := hrest hopen
        have hconnection : Connection.mk (d.drain (buf ++ chunk)).decoder
            (d.drain (buf ++ chunk)).buffer first.connection.session true = first.connection := by
          rw [← hdecoder, ← hbuffer, ← hopen]
        have hlater := ih first.server (d.drain (buf ++ chunk)).decoder
          (d.drain (buf ++ chunk)).buffer first.connection.session
        rw [hconnection] at hlater
        exact hfirst.append hquits hlater

/-- The reads of a connection, from its start. -/
theorem receiveEach_connect_hears (config : ServerConfig) (sv : Server) (reads : List (Nat × Bytes)) :
    let taken := (Decoder.new config.maxFrame).feedEach [] reads
    Hears config sv .new taken.calls taken.failure (receiveEach config sv (connect config) reads) :=
  receiveEach_hears config sv (.new config.maxFrame) [] .new reads

/-- What is left at the end of a stream is of no account: the decoder is asked once more, as by a read
with nothing in it. -/
theorem receiveEach_concat_nil (config : ServerConfig) (sv : Server) (reads : List (Nat × Bytes))
    (now : Nat) :
    let served := receiveEach config sv (connect config) reads
    let served' := receiveEach config sv (connect config) (reads ++ [(now, [])])
    served'.server = served.server ∧ served'.replies = served.replies := by
  have h := receiveEach_connect_hears config sv reads
  have h' := receiveEach_connect_hears config sv (reads ++ [(now, [])])
  rw [Decoder.feedEach_concat_nil (Decoder.waits_new config.maxFrame)] at h'
  exact ⟨h'.server.trans h.server.symm, h'.replies.trans h.replies.symm⟩

/-- A connection runs just the calls that come in before anything is refused, up to the first that
quits, and answers each of them in turn. If it is refused something before any quits, it says so once.
What else comes over the wire is of no account: the requests of these calls alone, each in a read of its
own, have the same effect and the same answers. -/
theorem receiveEach_connect (config : ServerConfig) (sv : Server) (reads : List (Nat × Bytes)) :
    let taken := (Decoder.new config.maxFrame).feedEach [] reads
    let heard := Call.untilQuit taken.calls
    let course := sv.executeEach .new heard
    let served := receiveEach config sv (connect config) reads
    (served.server = course.server ∧ course.replies.length = heard.length ∧
      served.replies = (course.replies ++ refusal taken.calls taken.failure).map
        (·.encode config.emptyArrays)) ∧
      ∃ ws rest, (reads.map (·.2)).flatten = Wired.stream (ws.map (·.2)) ++ rest ∧
        Call.ofWired ws = heard ∧
        let alone := receiveEach config sv (connect config) (ws.map fun p => (p.1, p.2.bytes))
        alone.server = course.server ∧
          alone.replies = course.replies.map (·.encode config.emptyArrays) := by
  have h := receiveEach_connect_hears config sv reads
  refine ⟨⟨h.server, length_replies_executeEach .., h.replies⟩, ?_⟩
  obtain ⟨ws, rest, hstream, hcalls⟩ :=
    Decoder.exists_calls (Decoder.waits_new config.maxFrame) reads
  obtain ⟨vs, us, rfl, hvs⟩ := Call.exists_untilQuit ws
  rw [hcalls] at hvs
  refine ⟨vs, Wired.stream (us.map (·.2)) ++ rest, ?_, hvs, ?_⟩
  · rw [List.nil_append] at hstream
    rw [hstream, List.map_append, Wired.stream_append, List.append_assoc]
  · have halone := receiveEach_connect_hears config sv (vs.map fun p => (p.1, p.2.bytes))
    rw [Decoder.feedEach_ofWired, hvs] at halone
    have hserver := halone.server
    have hreplies := halone.replies
    rw [Call.untilQuit_untilQuit] at hserver hreplies
    rw [refusal_none, List.append_nil] at hreplies
    exact ⟨hserver, hreplies⟩

/-! ## Clients in turn -/

/-- What a client hears that has a connection of its own and sends its chunks at one time, and the
server that its calls leave behind. -/
def visit (config : ServerConfig) (now : Nat) (sv : Server) (chunks : List Bytes) : Bytes × Server :=
  let taken := (Decoder.new config.maxFrame).feedEach [] (chunks.map (now, ·))
  let course := sv.executeEach .new (Call.untilQuit taken.calls)
  (((course.replies ++ refusal taken.calls taken.failure).map (·.encode config.emptyArrays)).flatten,
    course.server)

theorem serveClients_cons (config : ServerConfig) (now : Nat) (sv : Server) (chunks : List Bytes)
    (clients : List (List Bytes)) :
    serveClients config now sv (chunks :: clients) =
      let first := visit config now sv chunks
      let later := serveClients config now first.2 clients
      (first.1 :: later.1, later.2) := by
  have h := receiveEach_connect_hears config sv (chunks.map (now, ·))
  rw [← receiveAll_eq] at h
  rw [serveClients, h.replies, h.server]
  rfl

/-- Clients that come in turn leave behind what their calls make of the server, one client's after the
other's. -/
theorem serveClients_server (config : ServerConfig) (now : Nat) (sv : Server)
    (clients : List (List Bytes)) :
    (serveClients config now sv clients).2 =
      clients.foldl (fun sv chunks => (visit config now sv chunks).2) sv := by
  induction clients generalizing sv with
  | nil => rfl
  | cons chunks clients ih =>
    rw [serveClients_cons, List.foldl_cons]
    exact ih _

/-- Each client hears what answers its own calls, run by the server that the clients before it have
left, and there is one answer for each client. -/
theorem serveClients_answers (config : ServerConfig) (now : Nat) (sv : Server)
    (clients : List (List Bytes)) (i : Nat) :
    (serveClients config now sv clients).1[i]? = clients[i]?.map fun chunks =>
      (visit config now (serveClients config now sv (clients.take i)).2 chunks).1 := by
  induction clients generalizing sv i with
  | nil => rfl
  | cons chunks clients ih =>
    rw [serveClients_cons]
    cases i with
    | zero => rfl
    | succ i =>
      rw [List.take_succ_cons, serveClients_cons]
      exact ih _ i

end RespStore.Server
