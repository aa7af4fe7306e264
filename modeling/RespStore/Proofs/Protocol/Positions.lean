import RespStore.Proofs.Checked
import RespStore.Proofs.Protocol.Agreement
import RespStore.Proofs.Protocol.Places

/-!
# Decoding by positions

The decoder with all its indices computed in machine words and under a check, every difference and every
slice included. As long as what is parked describes the buffer, no check ever fails, and the decoder comes
to the same.
-/

namespace RespStore.Decoder

open Checked

variable {word max fuel n offset : Nat} {buf bs rest stream : Bytes} {rs : List Request}
  {places : List (Nat × Nat)} {p : Pending} {d : Decoder} {start stop : Nat}

/-- The line from `offset` on, if its end is there, and the offset behind that. -/
def lineFrom? (word : Nat) (buf : Bytes) (offset : Nat) : Option (Option (Bytes × Nat)) :=
  if buf.length < offset then some none
  else do
    let rest ← slice? buf offset buf.length
    match Bytes.crlfIndexFrom 0 rest with
    | none => some none
    | some i =>
      let line ← slice? rest 0 i
      let stop ← sum? word offset i
      let next ← sum? word stop 2
      some (some (line, next))

/-- Makes room for what is known to be missing. -/
def room? (word : Nat) (buf : Bytes) (needed : Nat) : Option Nat :=
  if buf.length < needed then (difference? needed buf.length).bind (sum? word buf.length ·)
  else some buf.length

/-- Collects `n` more arguments from the offset of `p` on. -/
def collectFrom? (word : Nat) (buf : Bytes) : Nat → Pending → Option Progress
  | 0, p => some (.complete p)
  | n + 1, p => do
    match ← lineFrom? word buf p.offset with
    | none => some (.cutHeader p)
    | some ([], _) => some (.failed (.expectedBulk ' '))
    | some (type :: digits, start) =>
      if type ≠ Ascii.dollar then some (.failed (.expectedBulk (Char.ofNat type.toNat)))
      else
        let digits ← slice? (type :: digits) 1 (digits.length + 1)
        match bulkLength? digits with
        | none => some (.failed .invalidBulkLength)
        | some len =>
          let stop ← sum? word start len
          match Bytes.sliceAt? buf stop 2 with
          | none =>
            let needed ← sum? word stop 2
            let _ ← room? word buf needed
            some (.cutPayload p)
          | some ending =>
            if ending ≠ Bytes.crlf then some (.failed .missingCrlf)
            else
              let _ ← sum? word stop 2
              collectFrom? word buf n (Pending.push p start len)

/-- The payloads at `places` of a request. -/
def cutOut? (word : Nat) (request : Bytes) (places : List (Nat × Nat)) : Option (List Bytes) :=
  places.mapM fun a => (sum? word a.1 a.2).bind (slice? request a.1 ·)

/-- What to make of a length header from `offset` on that has no terminator yet. -/
def openHeader? (d : Decoder) (buf : Bytes) (offset : Nat) (tooBig : ProtocolError) :
    Option (Option ProtocolError) :=
  if d.maxFrame < buf.length then some (some (.frameTooLarge d.maxFrame))
  else (difference? buf.length offset).map fun unended =>
    if Limits.inline < unended then some tooBig else none

def resumeFrom? (word : Nat) (d : Decoder) (p : Pending) (buf : Bytes) : Option Outcome := do
  match ← collectFrom? word buf (p.expected - p.args.size) p with
  | .complete p =>
    let request ← slice? buf 0 p.offset
    let args ← cutOut? word request p.args.toList
    some ⟨{ d with pending := none }, buf.drop p.offset, .ok (some args)⟩
  | .cutHeader p =>
    match ← openHeader? d buf p.offset .tooBigBulkCount with
    | some e => some (d.fail buf e)
    | none => some (d.park p buf)
  | .cutPayload p => some (d.park p buf)
  | .failed e => some (d.fail buf e)

def multibulkFrom? (word : Nat) (d : Decoder) (buf : Bytes) : Option Outcome := do
  match ← lineFrom? word buf 0 with
  | none =>
    match ← openHeader? d buf 0 .tooBigMultibulkCount with
    | some e => some (d.fail buf e)
    | none => some ⟨d, buf, .ok none⟩
  | some (line, next) =>
    let digits ← slice? line 1 line.length
    match multibulkLength? digits with
    | none => some (d.fail buf .invalidMultibulkLength)
    | some n =>
      if n ≤ 0 then
        let _ ← slice? buf 0 next
        some ⟨d, buf.drop next, .ok (some [])⟩
      else resumeFrom? word d (opened digits n.toNat) buf

def inlineFrom? (word : Nat) (d : Decoder) (buf : Bytes) : Option Outcome :=
  match buf.findIdx? (· == Ascii.lf) with
  | none =>
    if Limits.inline < buf.length then some (d.fail buf .tooBigInline) else some ⟨d, buf, .ok none⟩
  | some newline => do
    let stop ← sum? word newline 1
    let taken ← slice? buf 0 stop
    let line ← slice? taken 0 newline
    match Inline.split? (chomp line) with
    | some args => some ⟨d, buf.drop stop, .ok (some args)⟩
    | none => some (d.fail (buf.drop stop) .unbalancedQuotes)

def frontFrom? (word : Nat) (d : Decoder) (buf : Bytes) : Option Outcome := do
  match d.pending with
  | some p => resumeFrom? word d p buf
  | none =>
    let first ← buf[0]?
    if first = Ascii.star then multibulkFrom? word d buf else inlineFrom? word d buf

/-- Takes one request off the front, and skips less than `fuel` without arguments. -/
def decodeFrom? (word : Nat) : Nat → Decoder → Bytes → Option Outcome
  | 0, _, _ => none
  | fuel + 1, d, buf =>
    if buf = [] then some ⟨d, buf, .ok none⟩
    else do
      let o ← frontFrom? word d buf
      match o.result with
      | .ok (some []) => decodeFrom? word fuel o.decoder o.buffer
      | _ => some o

/-! ## No check fails -/

theorem slice?_tail (b : UInt8) (bs : Bytes) : slice? (b :: bs) 1 (bs.length + 1) = some bs := by
  rw [slice?, if_pos ⟨by omega, Nat.le_refl _⟩, List.drop_one, List.tail_cons, Nat.add_sub_cancel,
    List.take_length]

theorem lineFrom?_eq (hword : buf.length ≤ word) :
    lineFrom? word buf offset = some (Bytes.lineAt? buf offset) := by
  unfold lineFrom? Bytes.lineAt?
  split
  · next hlt => rw [List.drop_eq_nil_of_le (Nat.le_of_lt hlt)]; rfl
  · next hge =>
    have hoffset := Nat.not_lt.mp hge
    rw [slice?_length hoffset, Option.bind_eq_bind, Option.bind_some]
    cases hs : Bytes.splitLine? (buf.drop offset) with
    | none =>
      have hindex : Bytes.crlfIndexFrom 0 (buf.drop offset) = none := Option.map_eq_none_iff.mp hs
      rw [hindex]
      rfl
    | some split =>
      obtain ⟨line, rest⟩ := split
      obtain ⟨hdrop, -, hstop, hnext⟩ := sums_of_splitLine? hs hoffset hword
      have hindex := Bytes.crlfIndexFrom_of_splitLine? hs
      have hslice : slice? (buf.drop offset) 0 (0 + line.length) = some line :=
        slice?_of_drop (Nat.zero_le _) hdrop
      rw [Nat.zero_add] at hslice
      simp only [hindex, hslice, hstop, hnext, Option.bind_eq_bind, Option.bind_some, Option.map_some]

theorem room?_isSome {needed : Nat} (hneeded : needed ≤ word) : ∃ n, room? word buf needed = some n := by
  unfold room?
  split
  · next hlt =>
    rw [difference?_eq (Nat.le_of_lt hlt), Option.bind_some, sum?_eq (by omega)]
    exact ⟨_, rfl⟩
  · exact ⟨_, rfl⟩

theorem sliceAt?_two (buf : Bytes) (stop : Nat) :
    Bytes.sliceAt? buf stop 2 =
      match buf.drop stop with
      | c :: d :: _ => some [c, d]
      | _ => none := by
  have hlen : (buf.drop stop).length = buf.length - stop := List.length_drop
  rw [Bytes.sliceAt?]
  match h : buf.drop stop with
  | [] | [_] =>
    rw [h] at hlen
    refine if_neg ?_
    simp only [List.length_cons, List.length_nil] at hlen
    omega
  | c :: d :: rest =>
    rw [h] at hlen
    refine if_pos ?_
    simp only [List.length_cons] at hlen
    omega

theorem collectFrom?_eq (hoffset : p.offset ≤ buf.length)
    (hword : buf.length + Limits.bulk + 2 ≤ word) (n : Nat) :
    collectFrom? word buf n p = some (collect n p (buf.drop p.offset)) := by
  induction n generalizing p with
  | zero => rfl
  | succ n ih =>
    rw [collectFrom?, collect, lineFrom?_eq (by omega), Bytes.lineAt?]
    cases hs : Bytes.splitLine? (buf.drop p.offset) with
    | none => rfl
    | some split =>
      obtain ⟨line, data⟩ := split
      cases line with
      | nil => rfl
      | cons type digits =>
        have hlen := Bytes.length_splitLine? hs
        have hdata := Bytes.drop_of_splitLine? hs
        rw [List.length_cons] at hlen hdata
        rw [List.length_drop] at hlen
        simp only [Option.map_some, Option.bind_eq_bind, Option.bind_some, List.length_cons]
        by_cases htype : type = Ascii.dollar
        · rw [if_neg (not_not_intro htype), if_neg (not_not_intro htype), slice?_tail, Option.bind_some]
          cases hbulk : bulkLength? digits with
          | none => rfl
          | some len =>
            have hbound := (bulkLength?_eq_some_iff.mp hbulk).2
            have hstop : sum? word (p.offset + (digits.length + 1) + 2) len = some _ :=
              sum?_eq (by omega)
            have hend : sum? word (p.offset + (digits.length + 1) + 2 + len) 2 = some _ :=
              sum?_eq (by omega)
            obtain ⟨room, hroom⟩ : ∃ n, room? word buf
                (p.offset + (digits.length + 1) + 2 + len + 2) = some n := room?_isSome (by omega)
            simp only [hstop, hend, hroom, Option.bind_some, sliceAt?_two, ← hdata, List.drop_drop]
            rw [show p.offset + digits.length + 3 = p.offset + (digits.length + 1) + 2 by omega]
            match hrest : buf.drop (p.offset + (digits.length + 1) + 2 + len) with
            | [] | [_] => rfl
            | c :: d :: rest =>
              have hends := congrArg List.length hrest
              rw [List.length_drop, List.length_cons, List.length_cons] at hends
              dsimp only
              by_cases hcrlf : c = Ascii.cr ∧ d = Ascii.lf
              · obtain ⟨rfl, rfl⟩ := hcrlf
                have hlater : buf.drop (p.offset + (digits.length + 1) + 2 + len + 2) = rest := by
                  rw [← List.drop_drop, hrest]
                  rfl
                have hending : ¬[Ascii.cr, Ascii.lf] ≠ Bytes.crlf := not_not_intro rfl
                rw [if_neg hending, if_pos ⟨rfl, rfl⟩, ← hlater]
                refine ih (p := Pending.push p _ len) ?_
                dsimp only [Pending.push]
                omega
              · rw [if_neg hcrlf, if_pos fun hends => hcrlf ?_]
                cases hends
                exact ⟨rfl, rfl⟩
        · rw [if_pos htype, if_pos htype]

/-- What stands at places that are in order. -/
theorem payloadsFrom_eq {found : List Bytes} {pos : Nat} (hpos : ∀ a ∈ places, pos ≤ a.1)
    (horder : places.Pairwise fun a b => a.1 + a.2 + 2 < b.1) :
    payloadsFrom found pos (buf.drop pos) places =
      found.reverse ++ places.map fun a => (buf.drop a.1).take a.2 := by
  induction places generalizing found pos with
  | nil => rw [payloadsFrom, List.map_nil, List.append_nil]
  | cons a places ih =>
    obtain ⟨hlater, horder⟩ := List.pairwise_cons.mp horder
    have hstart : pos + (a.1 - pos) = a.1 := Nat.add_sub_cancel' (hpos a List.mem_cons_self)
    have hnext : ∀ b ∈ places, a.1 + a.2 ≤ b.1 := fun b hb => by
      have := hlater b hb
      omega
    rw [payloadsFrom, List.drop_drop, hstart, List.drop_drop, ih hnext horder]
    simp

theorem cutOut?_eq (hstop : stop ≤ buf.length) (hword : stop ≤ word)
    (hinside : ∀ a ∈ places, a.1 + a.2 + 2 ≤ stop) :
    cutOut? word (buf.take stop) places = some (places.map fun a => (buf.drop a.1).take a.2) := by
  induction places with
  | nil => rfl
  | cons a places ih =>
    obtain ⟨ha, hplaces⟩ := List.forall_mem_cons.mp hinside
    have hslice : slice? (buf.take stop) a.1 (a.1 + a.2) = some ((buf.drop a.1).take a.2) := by
      have hmin : min a.2 (stop - a.1) = a.2 := by omega
      rw [slice?, if_pos (by rw [List.length_take]; omega), Nat.add_sub_cancel_left, List.drop_take,
        List.take_take, hmin]
    have hrest := ih hplaces
    rw [cutOut?] at hrest ⊢
    rw [List.mapM_cons, hrest, sum?_eq (by omega), Option.bind_some, hslice]
    rfl

theorem openHeader?_eq {tooBig : ProtocolError} (hoffset : offset ≤ buf.length) :
    openHeader? d buf offset tooBig = some (d.unterminated? buf offset tooBig) := by
  rw [openHeader?, unterminated?, difference?_eq hoffset]
  split <;> rfl

theorem resumeFrom?_eq (hrow : Row buf start p.args.toList p.offset)
    (hword : buf.length + Limits.bulk + 2 ≤ word) :
    resumeFrom? word d p buf = some (d.resume p buf) := by
  have hcollected := collected (p.expected - p.args.size) p (buf.drop p.offset)
  rw [resumeFrom?, collectFrom?_eq hrow.le_length hword, resume]
  generalize collect (p.expected - p.args.size) p (buf.drop p.offset) = progress at hcollected ⊢
  cases hcollected with
  | @complete q rest h =>
    have hrow' := (hrow.of_reaches h).1
    have hlen := hrow'.le_length
    have hcut : slice? buf 0 q.offset = some (buf.take q.offset) := if_pos ⟨Nat.zero_le _, hlen⟩
    have hpayloads : payloadsFrom [] 0 (buf.drop 0) q.args.toList = _ :=
      payloadsFrom_eq (fun a _ => Nat.zero_le a.1) hrow'.in_order
    have hargs : cutOut? word (buf.take q.offset) q.args.toList = some _ :=
      cutOut?_eq hlen (by omega) fun a ha => (hrow'.inside a ha).2
    rw [List.drop_zero] at hpayloads
    simp only [Option.bind_eq_bind, Option.bind_some, hcut, hpayloads, hargs]
    rfl
  | @cutHeader k q rest hk h =>
    have hlen := (hrow.of_reaches h).1.le_length
    simp only [Option.bind_eq_bind, Option.bind_some, openHeader?_eq hlen]
    cases d.unterminated? buf q.offset .tooBigBulkCount <;> rfl
  | cutPayload => rfl
  | failed => rfl

theorem multibulkFrom?_eq (hstar : buf.head? = some Ascii.star)
    (hword : buf.length + Limits.bulk + 2 ≤ word) :
    multibulkFrom? word d buf = some (d.decodeMultibulk buf) := by
  rw [multibulkFrom?, lineFrom?_eq (by omega), Bytes.lineAt?, List.drop_zero, decodeMultibulk]
  cases hs : buf.splitLine? with
  | none =>
    simp only [Option.map_none, Option.bind_eq_bind, Option.bind_some, openHeader?_eq (Nat.zero_le _)]
    cases d.unterminated? buf 0 .tooBigMultibulkCount <;> rfl
  | some split =>
    obtain ⟨line, rest⟩ := split
    obtain ⟨digits, rfl, hline, -⟩ := exists_digits hstar hs
    have hrest : buf.drop (0 + (Ascii.star :: digits).length + 2) = rest := Bytes.drop_of_splitLine? hs
    have hlen := Bytes.length_splitLine? hs
    have htail : slice? (Ascii.star :: digits) 1 (Ascii.star :: digits).length = some digits :=
      slice?_tail _ _
    have hcut : slice? buf 0 (0 + (Ascii.star :: digits).length + 2) = some _ :=
      if_pos ⟨Nat.zero_le _, by omega⟩
    simp only [Option.map_some, Option.bind_eq_bind, Option.bind_some, htail, hcut, hrest, List.tail_cons]
    cases multibulkLength? digits with
    | none => rfl
    | some n =>
      dsimp only
      by_cases hn : n ≤ 0
      · rw [if_pos hn, if_pos hn]
      · rw [if_neg hn, if_neg hn]
        have hwithin : (Ascii.star :: digits).length + 2 ≤ buf.length := by omega
        exact resumeFrom?_eq (p := opened digits n.toNat) (.nil hwithin) hword

theorem findIdx?_lf_eq_none (h : Ascii.lf ∉ buf) : buf.findIdx? (· == Ascii.lf) = none := by
  refine List.findIdx?_eq_none_iff.mpr fun b hb => beq_eq_false_iff_ne.mpr ?_
  rintro rfl
  exact h hb

theorem inlineFrom?_eq (hword : buf.length ≤ word) :
    inlineFrom? word d buf = some (d.decodeInline buf) := by
  by_cases hlf : Ascii.lf ∈ buf
  · obtain ⟨line, rest, rfl, hline⟩ := List.eq_append_cons_of_mem hlf
    have hopen : line.findIdx? (· == Ascii.lf) = none := findIdx?_lf_eq_none hline
    have hindex : (line ++ Ascii.lf :: rest).findIdx? (· == Ascii.lf) = some line.length := by
      rw [List.findIdx?_append, hopen, List.findIdx?_cons, if_pos (beq_self_eq_true _)]
      exact congrArg some (Nat.zero_add _)
    have hassoc : line ++ Ascii.lf :: rest = (line ++ [Ascii.lf]) ++ rest := List.append_cons _ _ _
    have hlen : (line ++ [Ascii.lf]).length = line.length + 1 := List.length_append
    have hdrop : (line ++ Ascii.lf :: rest).drop (line.length + 1) = rest := by
      rw [hassoc, ← hlen, List.drop_left]
    have htaken : slice? (line ++ Ascii.lf :: rest) 0 (line.length + 1) = some (line ++ [Ascii.lf]) := by
      rw [← hlen, ← Nat.zero_add (line ++ [Ascii.lf]).length]
      exact slice?_of_drop (Nat.zero_le _) hassoc
    have hcut : slice? (line ++ [Ascii.lf]) 0 line.length = some line := by
      rw [← Nat.zero_add line.length]
      exact slice?_of_drop (Nat.zero_le _) rfl
    have hstop : sum? word line.length 1 = some (line.length + 1) := by
      rw [List.length_append, List.length_cons] at hword
      exact sum?_eq (by omega)
    rw [decodeInline_of_line hline, inlineFrom?, hindex]
    simp only [Option.bind_eq_bind, Option.bind_some, hstop, htaken, hcut, hdrop]
    cases Inline.split? (chomp line) <;> rfl
  · rw [decodeInline_of_open hlf, inlineFrom?, findIdx?_lf_eq_none hlf]
    dsimp only
    split <;> rfl

theorem frontFrom?_eq (hbuf : buf ≠ []) (h : d.Tracks buf)
    (hword : buf.length + Limits.bulk + 2 ≤ word) :
    frontFrom? word d buf = some (d.decodeAny buf) := by
  rw [frontFrom?, decodeAny]
  cases hpending : d.pending with
  | some p =>
    obtain ⟨digits, -, -, -, hrow⟩ := (h p hpending).describes.row
    exact resumeFrom?_eq hrow hword
  | none =>
    obtain ⟨first, rest, rfl⟩ := List.exists_cons_of_ne_nil hbuf
    have hhead : (first :: rest).head? = some Ascii.star ↔ first = Ascii.star := Option.some_inj
    simp only [List.getElem?_cons_zero, Option.bind_eq_bind, Option.bind_some, hhead]
    by_cases hstar : first = Ascii.star
    · rw [if_pos hstar, if_pos hstar]
      exact multibulkFrom?_eq (hhead.mpr hstar) hword
    · rw [if_neg hstar, if_neg hstar]
      exact inlineFrom?_eq (by omega)

/-- No check fails in a whole call. -/
theorem decodeFrom?_eq (h : d.Tracks buf) (hword : buf.length + Limits.bulk + 2 ≤ word)
    (hfuel : buf.length < fuel) : decodeFrom? word fuel d buf = some (d.decode buf) := by
  induction fuel generalizing d buf with
  | zero => omega
  | succ fuel ih =>
    rw [decodeFrom?]
    by_cases hbuf : buf = []
    · rw [if_pos hbuf, decode, dif_pos hbuf]
    · have hany := h.decodeAny_eq []
      rw [List.append_nil] at hany
      rw [if_neg hbuf, frontFrom?_eq hbuf h hword, decode_eq hbuf, hany]
      have hfront := front d.maxFrame buf
      generalize (new d.maxFrame).decodeAny buf = o at hfront
      cases hfront with
      | @whole w rest r hw hcut =>
        cases r with
        | nil =>
          have hpos := List.length_pos_iff.mpr hw.ne_nil
          rw [hcut, List.length_append] at hword hfuel
          have hword' : rest.length + Limits.bulk + 2 ≤ word := by omega
          have hfuel' : rest.length < fuel := by omega
          exact ih (tracks_new _ rest) hword' hfuel'
        | cons a r => rfl
      | refused => rfl
      | waiting => rfl
      | oversized => rfl

/-- After any reads and calls, what is parked describes the buffer, and the buffer starts where the
consumed bytes end. In the next call then no sum, difference or slice is out of range, with a word that
counts the buffer and one more argument: a buffer fills no more than half of what a word counts. -/
theorem Received.in_bounds (h : Received max stream rs d buf) :
    (∀ p, d.pending = some p → Describes p buf) ∧
      (∃ bs, Consumed bs rs ∧ stream = bs ++ buf) ∧
      ∀ word fuel, buf.length + Limits.bulk + 2 ≤ word → buf.length < fuel →
        decodeFrom? word fuel d buf = some (d.decode buf) := by
  have hsteady := h.steady
  refine ⟨fun p hp => (hsteady.tracks p hp).describes, hsteady.consumed, fun word fuel hword hfuel => ?_⟩
  exact decodeFrom?_eq hsteady.tracks hword hfuel

/-- An argument is parked, and in words of 64 bits the next call goes through. -/
theorem parkedEcho_in_bounds :
    Received 100 pingEcho [[Utf8.encode "PING"]] parkedEcho.decoder parkedEcho.buffer ∧
      (∃ p, parkedEcho.decoder.pending = some p ∧ p.args = #[(8, 4)] ∧
        Describes p parkedEcho.buffer) ∧
      decodeFrom? 18446744073709551615 100 parkedEcho.decoder parkedEcho.buffer =
        some (parkedEcho.decoder.decode parkedEcho.buffer) := by
  obtain ⟨hdescribes, -, hchecked⟩ := received_parkedEcho.in_bounds
  have hplaces : parkedEcho.decoder.pending.map (·.args) = some #[(8, 4)] := by decide +kernel
  obtain ⟨p, hp, hargs⟩ := Option.map_eq_some_iff.mp hplaces
  exact ⟨received_parkedEcho, ⟨p, hp, hargs, hdescribes p hp⟩,
    hchecked _ _ (by decide +kernel) (by decide +kernel)⟩

end RespStore.Decoder
