import RespStore.Frame.Parse
import RespStore.Frame.Wire
import RespStore.Proofs.Bytes
import RespStore.Proofs.Number.Decimal

/-!
# Reading written frames back

A written frame is parsed back, whatever follows it, if its texts are lines and its lengths are
64-bit integers. A text with a line end in it breaks the frame off there.
-/

namespace RespStore

namespace Frame

/-- An induction over frames has the items of an array for its hypothesis. -/
@[elab_as_elim]
theorem induct {motive : Frame → Prop} (simple : ∀ s, motive (.simple s))
    (error : ∀ s, motive (.error s)) (integer : ∀ n, motive (.integer n))
    (bulk : ∀ payload, motive (.bulk payload)) (null : motive .null)
    (array : ∀ items, (∀ item ∈ items, motive item) → motive (.array items)) (f : Frame) :
    motive f := by
  refine Frame.rec (motive_2 := fun items => ∀ item ∈ items, motive item) simple error integer bulk
    null array nofun (fun item items hitem hitems => ?_) f
  exact List.forall_mem_cons.mpr ⟨hitem, hitems⟩

mutual

/-- Holds of a frame and of every frame in it. -/
def Everywhere (p : Frame → Prop) : Frame → Prop
  | array items => p (array items) ∧ EverywhereIn p items
  | f => p f

def EverywhereIn (p : Frame → Prop) : List Frame → Prop
  | [] => True
  | item :: items => Everywhere p item ∧ EverywhereIn p items

end

theorem everywhereIn_iff {p : Frame → Prop} {items : List Frame} :
    EverywhereIn p items ↔ ∀ item ∈ items, Everywhere p item := by
  induction items with
  | nil => exact iff_of_true trivial nofun
  | cons item items ih => rw [EverywhereIn, ih, List.forall_mem_cons]

theorem everywhere_array {p : Frame → Prop} {items : List Frame} :
    Everywhere p (array items) ↔ p (array items) ∧ ∀ item ∈ items, Everywhere p item := by
  rw [Everywhere, everywhereIn_iff]

mutual

def decEverywhere (p : Frame → Prop) [DecidablePred p] : (f : Frame) → Decidable (Everywhere p f)
  | array items =>
    have := decEverywhereIn p items
    inferInstanceAs (Decidable (p (array items) ∧ EverywhereIn p items))
  | simple s => inferInstanceAs (Decidable (p (simple s)))
  | error s => inferInstanceAs (Decidable (p (error s)))
  | integer n => inferInstanceAs (Decidable (p (integer n)))
  | bulk payload => inferInstanceAs (Decidable (p (bulk payload)))
  | null => inferInstanceAs (Decidable (p null))

def decEverywhereIn (p : Frame → Prop) [DecidablePred p] :
    (items : List Frame) → Decidable (EverywhereIn p items)
  | [] => isTrue trivial
  | item :: items =>
    have := decEverywhere p item
    have := decEverywhereIn p items
    inferInstanceAs (Decidable (Everywhere p item ∧ EverywhereIn p items))

end

instance (p : Frame → Prop) [DecidablePred p] : DecidablePred (Everywhere p) := decEverywhere p

/-- The text of a frame, which is written without its length. -/
def text? : Frame → Option String
  | simple s => some s
  | error s => some s
  | _ => none

/-- The length that is written in front of what is in a frame. -/
def length? : Frame → Option Nat
  | bulk payload => some payload.length
  | array items => some items.length
  | _ => none

/-- The greatest signed 64-bit integer. -/
def maxLength : Nat := 9223372036854775807

/-- No text holds a line end. -/
def OneLine : Frame → Prop := Everywhere fun f => ∀ s, f.text? = some s → Bytes.IsLine (Utf8.encode s)

instance : DecidablePred fun f : Frame => ∀ s, f.text? = some s → Bytes.IsLine (Utf8.encode s) :=
  fun f => inferInstanceAs (Decidable (∀ s ∈ f.text?, Bytes.IsLine (Utf8.encode s)))

instance : DecidablePred OneLine := fun f =>
  inferInstanceAs
    (Decidable (Everywhere (fun f => ∀ s, f.text? = some s → Bytes.IsLine (Utf8.encode s)) f))

/-- No length is beyond 64 bits. -/
def Fits : Frame → Prop := Everywhere fun f => f.length?.all (· ≤ maxLength)

instance : DecidablePred Fits := fun f =>
  inferInstanceAs (Decidable (Everywhere (fun f => f.length?.all (· ≤ maxLength)) f))

theorem fits_array {items : List Frame} :
    Fits (array items) ↔ items.length ≤ maxLength ∧ ∀ item ∈ items, item.Fits :=
  everywhere_array.trans (and_congr_left' decide_eq_true_iff)

theorem oneLine_error {s : String} (h : Bytes.IsLine (Utf8.encode s)) : (error s).OneLine := by
  rintro _ ⟨⟩
  exact h

theorem oneLine_array {items : List Frame} : OneLine (array items) ↔ ∀ item ∈ items, item.OneLine :=
  everywhere_array.trans (and_iff_right nofun)

mutual

/-- What is read where a frame was written. -/
def readBack (empty : EmptyArrays) : Frame → Frame
  | array [] =>
    match empty with
    | .array => array []
    | .error => error emptyCollection
  | array (item :: items) => array (readBack empty item :: readBackAll empty items)
  | f => f

def readBackAll (empty : EmptyArrays) : List Frame → List Frame
  | [] => []
  | item :: items => readBack empty item :: readBackAll empty items

end

theorem readBackAll_eq_map (empty : EmptyArrays) (items : List Frame) :
    readBackAll empty items = items.map (readBack empty) := by
  induction items with
  | nil => rfl
  | cons item items ih => rw [readBackAll, ih, List.map_cons]

theorem readBack_array (f : Frame) : f.readBack .array = f := by
  induction f using Frame.induct with
  | array items ih =>
    cases items with
    | nil => rfl
    | cons item items =>
      obtain ⟨hitem, hitems⟩ := List.forall_mem_cons.mp ih
      rw [readBack, hitem, readBackAll_eq_map, List.map_congr_left hitems, List.map_id']
  | _ => rfl

end Frame

namespace Decimal

theorem cr_notMem_ofInt (n : Int) : Ascii.cr ∉ ofInt n := by
  cases n with
  | ofNat n => exact cr_not_mem_ofNat n
  | negSucc n =>
    exact fun h => (List.mem_cons.mp h).elim (by decide) (cr_not_mem_ofNat (n + 1))

end Decimal

theorem readInt64?_ofInt (n : Int64) : readInt64? (Decimal.ofInt n.toInt) = some n := by
  rw [readInt64?, IntFormat.int64_parse?_ofInt, IntFormat.check?,
    if_pos (IntFormat.int64_fits_toInt n), Option.map_some, Int64.ofInt_toInt]

namespace Frame

variable {empty : EmptyArrays} {content rest : Bytes} {f : Frame}

/-! ## Steps -/

theorem takeText_eq (bs : Bytes) :
    takeText bs = (takeLine bs).bind fun p =>
      (Utf8.decode? p.1).elim (.error .badFormat) fun s => .ok (s, p.2) := by
  show takeLine bs >>= _ = _
  rcases takeLine bs with e | ⟨line, rest⟩
  · rfl
  · dsimp only [bind, Except.bind]
    cases Utf8.decode? line <;> rfl

theorem takeInteger_eq (bs : Bytes) :
    takeInteger bs = (takeLine bs).bind fun p =>
      (readInt64? p.1).elim (.error .badFormat) fun n => .ok (n, p.2) := by
  show takeLine bs >>= _ = _
  rcases takeLine bs with e | ⟨line, rest⟩
  · rfl
  · dsimp only [bind, Except.bind]
    cases readInt64? line <;> rfl

theorem takeLength_eq (negative : ParseError) (bs : Bytes) :
    takeLength negative bs = (takeInteger bs).bind fun p =>
      if p.1 = -1 then .ok (none, p.2) else if p.1 < 0 then .error negative
      else .ok (some p.1.toInt.toNat, p.2) := by
  show takeInteger bs >>= _ = _
  cases takeInteger bs <;> rfl

theorem takeMany_succ (one : Bytes → Except ParseError (Frame × Bytes)) (n : Nat) (bs : Bytes) :
    takeMany one (n + 1) bs = (one bs).bind fun p =>
      (takeMany one n p.2).map fun q => (p.1 :: q.1, q.2) := by
  show one bs >>= _ = _
  rcases one bs with e | ⟨item, rest⟩
  · rfl
  · show takeMany one n rest >>= _ = (takeMany one n rest).map _
    cases takeMany one n rest <;> rfl

theorem parseWith_plus (fuel : Nat) (bs : Bytes) :
    parseWith (fuel + 1) (Ascii.plus :: bs) = (takeText bs).map fun p => (simple p.1, p.2) := by
  show takeText bs >>= _ = _
  cases takeText bs <;> rfl

theorem parseWith_minus (fuel : Nat) (bs : Bytes) :
    parseWith (fuel + 1) (Ascii.minus :: bs) = (takeText bs).map fun p => (error p.1, p.2) := by
  show takeText bs >>= _ = _
  cases takeText bs <;> rfl

theorem parseWith_colon (fuel : Nat) (bs : Bytes) :
    parseWith (fuel + 1) (Ascii.colon :: bs) =
      (takeInteger bs).map fun p => (integer p.1, p.2) := by
  show takeInteger bs >>= _ = _
  cases takeInteger bs <;> rfl

theorem parseWith_dollar (fuel : Nat) (bs : Bytes) :
    parseWith (fuel + 1) (Ascii.dollar :: bs) =
      (takeLength .badBulkLength bs).bind fun p => p.1.elim (.ok (null, p.2)) fun n =>
        (takePayload n p.2).map fun q => (bulk q.1, q.2) := by
  show takeLength .badBulkLength bs >>= _ = _
  rcases takeLength .badBulkLength bs with e | ⟨_ | n, rest⟩
  · rfl
  · rfl
  · show takePayload n rest >>= _ = (takePayload n rest).map _
    cases takePayload n rest <;> rfl

theorem parseWith_star (fuel : Nat) (bs : Bytes) :
    parseWith (fuel + 1) (Ascii.star :: bs) =
      (takeLength .badArrayLength bs).bind fun p => p.1.elim (.ok (null, p.2)) fun n =>
        (takeMany (parseWith fuel) n p.2).map fun q => (array q.1, q.2) := by
  show takeLength .badArrayLength bs >>= _ = _
  rcases takeLength .badArrayLength bs with e | ⟨_ | n, rest⟩
  · rfl
  · rfl
  · show takeMany (parseWith fuel) n rest >>= _ = (takeMany (parseWith fuel) n rest).map _
    cases takeMany (parseWith fuel) n rest <;> rfl

/-- The bytes that a frame starts with, and those that none does. -/
inductive TypeByte : UInt8 → Prop where
  | plus : TypeByte Ascii.plus
  | minus : TypeByte Ascii.minus
  | colon : TypeByte Ascii.colon
  | dollar : TypeByte Ascii.dollar
  | star : TypeByte Ascii.star
  | unknown {type : UInt8}
      (h : ∀ fuel bs, parseWith (fuel + 1) (type :: bs) = .error (.unknownType type)) :
      TypeByte type

theorem typeByte (type : UInt8) : TypeByte type := by
  by_cases hplus : type = Ascii.plus
  · exact hplus ▸ .plus
  by_cases hminus : type = Ascii.minus
  · exact hminus ▸ .minus
  by_cases hcolon : type = Ascii.colon
  · exact hcolon ▸ .colon
  by_cases hdollar : type = Ascii.dollar
  · exact hdollar ▸ .dollar
  by_cases hstar : type = Ascii.star
  · exact hstar ▸ .star
  refine .unknown fun fuel bs => ?_
  rw [parseWith]
  · exact hplus
  · exact hminus
  · exact hcolon
  · exact hdollar
  · exact hstar

/-! ## Lines -/

theorem takeLine_append (h : Bytes.IsLine content) (rest : Bytes) :
    takeLine (content ++ Bytes.crlf ++ rest) = .ok (content, rest) := by
  rw [takeLine, Bytes.splitLine?_eq_some_iff.mpr ⟨h, rfl⟩]

theorem takeLine_eq_ok_iff {bs : Bytes} :
    takeLine bs = .ok (content, rest) ↔
      Bytes.IsLine content ∧ bs = content ++ Bytes.crlf ++ rest := by
  rw [← Bytes.splitLine?_eq_some_iff, takeLine]
  cases bs.splitLine? <;> simp

theorem takeText_eq_ok_iff {bs : Bytes} {s : String} :
    takeText bs = .ok (s, rest) ↔
      Bytes.IsLine (Utf8.encode s) ∧ bs = Utf8.encode s ++ Bytes.crlf ++ rest := by
  rw [takeText_eq, ← takeLine_eq_ok_iff]
  constructor
  · intro h
    rcases hline : takeLine bs with e | ⟨line, rest'⟩
    · rw [hline] at h
      cases h
    · rw [hline] at h
      cases hdecode : Utf8.decode? line with
      | none =>
        dsimp only [Except.bind] at h
        rw [hdecode] at h
        cases h
      | some t =>
        dsimp only [Except.bind] at h
        rw [hdecode] at h
        cases h
        rw [Utf8.encode_of_decode? hdecode]
  · intro h
    rw [h]
    dsimp only [Except.bind]
    rw [Utf8.decode?_encode]
    rfl

theorem takeText_append {s : String} (h : Bytes.IsLine (Utf8.encode s)) (rest : Bytes) :
    takeText (Utf8.encode s ++ Bytes.crlf ++ rest) = .ok (s, rest) :=
  takeText_eq_ok_iff.mpr ⟨h, rfl⟩

theorem takeInteger_append (h : Bytes.IsLine content) (rest : Bytes) :
    takeInteger (content ++ Bytes.crlf ++ rest) =
      (readInt64? content).elim (.error .badFormat) fun n => .ok (n, rest) := by
  rw [takeInteger_eq, takeLine_append h]
  rfl

theorem takeLength_append {n : Nat} (negative : ParseError) (rest : Bytes) :
    takeLength negative (Decimal.ofNat n ++ Bytes.crlf ++ rest) =
      if n ≤ maxLength then .ok (some n, rest) else .error .badFormat := by
  rw [takeLength_eq, takeInteger_append (Bytes.isLine_of_cr_notMem (Decimal.cr_not_mem_ofNat n))]
  by_cases hn : n ≤ maxLength
  · have hint : (Int64.ofInt n).toInt = n := Int64.toInt_ofInt_of_le (by omega) (by
      unfold maxLength at hn
      omega)
    have hminus : Int64.ofInt n ≠ -1 := by
      rw [ne_eq, ← Int64.toInt_inj, hint]
      exact fun h => by simp at h
    have hneg : ¬Int64.ofInt n < 0 := by
      rw [Int64.lt_iff_toInt_lt, hint]
      simp
    rw [readInt64?_ofNat hn, if_pos hn]
    dsimp only [Option.elim_some, Except.bind]
    rw [if_neg hminus, if_neg hneg, hint, Int.toNat_natCast]
  · rw [readInt64?_ofNat_of_lt (Nat.lt_of_not_le hn), if_neg hn]
    rfl

theorem takePayload_append (payload rest : Bytes) :
    takePayload payload.length (payload ++ Bytes.crlf ++ rest) = .ok (payload, rest) := by
  have hdrop : (payload ++ Bytes.crlf ++ rest).drop payload.length = Ascii.cr :: Ascii.lf :: rest := by
    rw [List.append_assoc, List.drop_left]
    rfl
  rw [takePayload, hdrop]
  dsimp only
  rw [if_pos ⟨rfl, rfl⟩, List.append_assoc, List.take_left]

/-! ## Frames -/

/-- Items that are parsed back one by one are parsed back together. -/
theorem takeMany_encode {one : Bytes → Except ParseError (Frame × Bytes)} {items : List Frame}
    (h : ∀ item ∈ items, ∀ rest, one (item.encode empty ++ rest) =
      if item.Fits then .ok (item.readBack empty, rest) else .error .badFormat) (rest : Bytes) :
    takeMany one items.length (items.flatMap (encode empty) ++ rest) =
      if ∀ item ∈ items, item.Fits then .ok (items.map (readBack empty), rest)
      else .error .badFormat := by
  induction items with
  | nil =>
    rw [if_pos nofun]
    rfl
  | cons item items ih =>
    obtain ⟨hitem, hitems⟩ := List.forall_mem_cons.mp h
    rw [List.length_cons, takeMany_succ, List.flatMap_cons, List.append_assoc, hitem]
    simp only [List.forall_mem_cons]
    by_cases hfits : item.Fits
    · rw [if_pos hfits]
      dsimp only [Except.bind]
      rw [ih hitems]
      by_cases hall : ∀ item ∈ items, item.Fits
      · rw [if_pos hall, if_pos ⟨hfits, hall⟩]
        rfl
      · rw [if_neg hall, if_neg fun h => hall h.2]
        rfl
    · rw [if_neg hfits, if_neg fun h => hfits h.1]
      rfl

theorem encode_array_cons (empty : EmptyArrays) (item : Frame) (items : List Frame) :
    (array (item :: items)).encode empty =
      line Ascii.star (Decimal.ofNat (item :: items).length) ++
        (item :: items).flatMap (encode empty) := by
  rw [encode, encodeAll_eq_flatMap, List.flatMap_cons, List.length_cons]

theorem length_encode_lt {item : Frame} {items : List Frame} (h : item ∈ items) :
    (item.encode empty).length < ((array items).encode empty).length := by
  cases items with
  | nil => cases h
  | cons head items =>
    have hle := (List.sublist_flatten_of_mem (List.mem_map_of_mem (f := encode empty) h)).length_le
    rw [← List.flatMap_def] at hle
    rw [encode_array_cons, List.length_append, line]
    simp only [List.length_append, List.length_cons]
    omega

theorem readBack_cons (empty : EmptyArrays) (item : Frame) (items : List Frame) :
    readBack empty (array (item :: items)) = array ((item :: items).map (readBack empty)) := by
  rw [readBack, readBackAll_eq_map, List.map_cons]

theorem parse_emptyArray (fuel : Nat) (rest : Bytes) :
    parseWith (fuel + 1) ((array []).encode .array ++ rest) = .ok (array [], rest) := by
  have hzero : Decimal.ofNat 0 = [Ascii.zero] := by
    rw [Decimal.ofNat]
    rfl
  show parseWith (fuel + 1) (Ascii.star :: ([Ascii.zero] ++ Bytes.crlf ++ rest)) = _
  rw [parseWith_star, ← hzero, takeLength_append, if_pos (Nat.zero_le _)]
  rfl

theorem parseWith_bulk (payload : Bytes) (fuel : Nat) (rest : Bytes) :
    parseWith (fuel + 1) ((bulk payload).encode empty ++ rest) =
      if payload.length ≤ maxLength then .ok (bulk payload, rest) else .error .badFormat := by
  have hencode : (bulk payload).encode empty ++ rest = Ascii.dollar ::
      (Decimal.ofNat payload.length ++ Bytes.crlf ++ (payload ++ Bytes.crlf ++ rest)) := by
    rw [encode, line]
    simp only [List.append_assoc, List.cons_append]
  rw [hencode, parseWith_dollar, takeLength_append]
  by_cases hlen : payload.length ≤ maxLength
  · rw [if_pos hlen, if_pos hlen]
    dsimp only [Except.bind, Option.elim_some]
    rw [takePayload_append]
    rfl
  · rw [if_neg hlen, if_neg hlen]
    rfl

/-- An array is parsed back if its items are. -/
theorem parseWith_array {item : Frame} {items : List Frame} {fuel : Nat}
    (h : ∀ f ∈ item :: items, ∀ rest, parseWith fuel (f.encode empty ++ rest) =
      if f.Fits then .ok (f.readBack empty, rest) else .error .badFormat) (rest : Bytes) :
    parseWith (fuel + 1) ((array (item :: items)).encode empty ++ rest) =
      if (array (item :: items)).Fits then .ok ((array (item :: items)).readBack empty, rest)
      else .error .badFormat := by
  have hassoc : line Ascii.star (Decimal.ofNat (item :: items).length) ++
      (item :: items).flatMap (encode empty) ++ rest = Ascii.star ::
      (Decimal.ofNat (item :: items).length ++ Bytes.crlf ++
        ((item :: items).flatMap (encode empty) ++ rest)) := by
    rw [line]
    simp only [List.append_assoc, List.cons_append]
  rw [encode_array_cons, if_congr fits_array rfl rfl, readBack_cons, hassoc, parseWith_star,
    takeLength_append]
  by_cases hlen : (item :: items).length ≤ maxLength
  · rw [if_pos hlen]
    dsimp only [Except.bind, Option.elim_some]
    rw [takeMany_encode h]
    by_cases hall : ∀ f ∈ item :: items, f.Fits
    · rw [if_pos hall, if_pos ⟨hlen, hall⟩]
      rfl
    · rw [if_neg hall, if_neg fun h => hall h.2]
      rfl
  · rw [if_neg hlen, if_neg fun h => hlen h.1]
    rfl

/-- A frame whose texts are lines is parsed back just when its lengths fit. -/
theorem parseWith_encode (h : f.OneLine) {fuel : Nat} (hfuel : (f.encode empty).length ≤ fuel + 1)
    (rest : Bytes) :
    parseWith (fuel + 1) (f.encode empty ++ rest) =
      if f.Fits then .ok (f.readBack empty, rest) else .error .badFormat := by
  induction f using Frame.induct generalizing fuel rest with
  | simple s =>
    rw [if_pos (show (simple s).Fits from rfl)]
    show parseWith (fuel + 1) (Ascii.plus :: (Utf8.encode s ++ Bytes.crlf ++ rest)) = _
    rw [parseWith_plus, takeText_append (h s rfl)]
    rfl
  | error s =>
    rw [if_pos (show (error s).Fits from rfl)]
    show parseWith (fuel + 1) (Ascii.minus :: (Utf8.encode s ++ Bytes.crlf ++ rest)) = _
    rw [parseWith_minus, takeText_append (h s rfl)]
    rfl
  | integer n =>
    rw [if_pos (show (integer n).Fits from rfl)]
    show parseWith (fuel + 1) (Ascii.colon :: (Decimal.ofInt n.toInt ++ Bytes.crlf ++ rest)) = _
    rw [parseWith_colon,
      takeInteger_append (Bytes.isLine_of_cr_notMem (Decimal.cr_notMem_ofInt _)), readInt64?_ofInt]
    rfl
  | bulk payload =>
    have hfits : (bulk payload).Fits ↔ payload.length ≤ maxLength := decide_eq_true_iff
    rw [parseWith_bulk, if_congr hfits rfl rfl]
    rfl
  | null => rfl
  | array items ih =>
    have hlines := oneLine_array.mp h
    cases items with
    | nil =>
      rw [if_pos (show (array []).Fits from fits_array.mpr ⟨Nat.zero_le _, nofun⟩)]
      cases empty with
      | array => exact parse_emptyArray fuel rest
      | error =>
        show parseWith (fuel + 1) (Ascii.minus :: (Utf8.encode emptyCollection ++ Bytes.crlf ++ rest)) = _
        rw [parseWith_minus, takeText_append (Bytes.isLine_of_cr_notMem (by decide +kernel))]
        rfl
    | cons item items =>
      refine parseWith_array (fun f hf rest => ?_) rest
      have hlt : (f.encode empty).length < _ := Nat.lt_of_lt_of_le (length_encode_lt hf) hfuel
      cases fuel with
      | zero =>
        rw [encode_array_cons, line] at hfuel
        simp [Bytes.crlf] at hfuel
      | succ fuel => exact ih f hf (hlines f hf) (Nat.le_of_lt_succ hlt) rest

/-- The bytes of a frame whose texts are lines are one frame, unless a length does not fit. -/
theorem parse_encode (h : f.OneLine) (rest : Bytes) :
    parse (f.encode empty ++ rest) =
      if f.Fits then .ok (f.readBack empty, rest) else .error .badFormat := by
  refine parseWith_encode h ?_ rest
  rw [List.length_append]
  omega

/-- An error is one frame just when there is no line end in its text. -/
theorem parse_encode_error_iff {s : String} :
    (∃ g, parse ((error s).encode empty) = .ok (g, [])) ↔ Bytes.IsLine (Utf8.encode s) := by
  have hparse : parse ((error s).encode empty) =
      (takeText (Utf8.encode s ++ Bytes.crlf)).map fun p => (error p.1, p.2) := parseWith_minus _ _
  rw [hparse]
  constructor
  · rintro ⟨g, hg⟩
    rcases htext : takeText (Utf8.encode s ++ Bytes.crlf) with e | ⟨t, rest⟩
    · rw [htext] at hg
      cases hg
    · rw [htext] at hg
      cases hg
      obtain ⟨hline, hbytes⟩ := takeText_eq_ok_iff.mp htext
      rw [List.append_nil] at hbytes
      exact List.append_cancel_right hbytes ▸ hline
  · intro hline
    have htext := takeText_append hline []
    rw [List.append_nil] at htext
    rw [htext]
    exact ⟨error s, rfl⟩

end Frame

end RespStore
