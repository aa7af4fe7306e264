import RespStore.Proofs.Log.Executed
import RespStore.Proofs.Protocol.Pipeline

/-!
# The items of a log

What stands in a log one behind the other: records, and the requests that select databases. A writer
puts a record where its database is selected, and there a replay runs it.
-/

namespace RespStore.Log

variable {m i db : Nat} {r : Request} {ps : List (Nat × Request)}
  {selected : Option Nat}

/-- A request that a replay runs as a record: a command that selects no database, within the limits of
the decoder that reads it back. The last of these shows only where the request is cut off
(`replayFrom_cut_error`). -/
structure Replayable (r : Request) : Prop where
  accepted : ∃ c, Command.ofFrame r.toFrame = .ok c ∧ c.isSelect = false
  limits : r.WithinLimits
  fits : (Writer.encode r).length ≤ Decoder.default.maxFrame

theorem Replayable.ne_nil (h : Replayable r) : r ≠ [] := by
  rintro rfl
  obtain ⟨c, hc, -⟩ := h.accepted
  cases hc

/-- What stands in a log as one request. -/
inductive Item where
  | select (db : Nat)
  | record (db : Nat) (r : Request)

namespace Item

def request : Item → Request
  | select db => Writer.selectRecord db
  | record _ r => r

def records : Item → List (Nat × Request)
  | select _ => []
  | record db r => [(db, r)]

def bytes (item : Item) : Bytes := Writer.encode item.request

/-- Fit for a log of `m` databases. -/
def Sound (m : Nat) : Item → Prop
  | select db => db < m
  | record _ r => Replayable r

/-- Every record stands behind the request that selects its database, where the `i`-th one is selected
at first. -/
def Located : Nat → List Item → Prop
  | _, [] => True
  | _, select db :: items => Located db items
  | i, record db _ :: items => db = i ∧ Located i items

variable {item : Item} {items items' : List Item}

theorem Located.of_append (h : Located i (items ++ items')) : Located i items := by
  induction items generalizing i with
  | nil => trivial
  | cons item items ih =>
    cases item with
    | select db => exact ih (i := db) h
    | record db r => exact ⟨h.1, ih h.2⟩

theorem Located.append (h : Located i items) (h' : ∀ j, Located j items') :
    Located i (items ++ items') := by
  induction items generalizing i with
  | nil => exact h' i
  | cons item items ih =>
    cases item with
    | select db => exact ih (i := db) h
    | record db r => exact ⟨h.1, ih h.2⟩

theorem length_encode_selectRecord (h : db ≤ Command.maxInteger) :
    (Writer.encode (Writer.selectRecord db)).length ≤ Decoder.default.maxFrame := by
  have hlen : (Decimal.ofNat db).length ≤ 19 :=
    Decimal.length_ofNat_le (k := 18) (Nat.lt_of_le_of_lt h (by decide))
  have hsize : (Decimal.ofNat (Decimal.ofNat db).length).length ≤ 2 :=
    Decimal.length_ofNat_le (k := 1) (Nat.lt_of_le_of_lt hlen (by decide))
  have hmax : Decoder.default.maxFrame = 536870912 := rfl
  have hwords : Writer.encode (Writer.selectRecord db) =
      (Ascii.star :: Decimal.ofNat 2) ++ Bytes.crlf ++
        (wireArgument (word "SELECT") ++ wireArgument (Decimal.ofNat db)) := by
    have hne : Writer.selectRecord db ≠ [] := List.cons_ne_nil _ _
    rw [Writer.encode, Decoder.serialize_toFrame hne, Writer.selectRecord, List.flatMap_cons,
      List.flatMap_singleton]
    rfl
  have hselect : (wireArgument (word "SELECT")).length = 12 := by decide +kernel
  have htwo : (Decimal.ofNat 2).length = 1 := by decide +kernel
  have hcrlf : Bytes.crlf.length = 2 := rfl
  rw [hwords, Decoder.wireArgument_eq (Decimal.ofNat db)]
  simp only [List.length_append, List.length_cons, hselect, htwo, hcrlf]
  omega

/-- What is fit for a log is a request within all limits. -/
theorem Sound.fits (hm : m ≤ Command.maxInteger + 1) (h : item.Sound m) :
    item.request ≠ [] ∧ item.request.WithinLimits ∧
      item.bytes.length ≤ Decoder.default.maxFrame := by
  cases item with
  | select db =>
    have hdb : db ≤ Command.maxInteger := Nat.le_of_lt_succ (Nat.lt_of_lt_of_le h hm)
    exact ⟨List.cons_ne_nil _ _, selectRecord_withinLimits hdb, length_encode_selectRecord hdb⟩
  | record db r =>
    have hr : Replayable r := h
    exact ⟨hr.ne_nil, hr.limits, hr.fits⟩

/-- What becomes of a session at an item that stands where it may. -/
theorem Sound.exists_run [Digest String] [Matcher] {k : Keyspace} (hm : m ≤ Command.maxInteger + 1)
    (h : item.Sound m) (hlocated : Located i (item :: items)) (hsize : k.store.size = m) (now : Nat) :
    ∃ c j, Command.ofFrame item.request.toFrame = .ok c ∧ (c.run now ⟨i⟩ k).session = ⟨j⟩ ∧
      Located j items ∧ (if c.isSelect then [] else [(i, item.request)]) = item.records := by
  cases item with
  | select db =>
    have hdb : db ≤ Command.maxInteger := Nat.le_of_lt_succ (Nat.lt_of_lt_of_le h hm)
    have hrun : Command.run (.server (.select db)) now ⟨i⟩ k = _ :=
      Command.runSelect_eq now ⟨i⟩ k db
    rw [if_pos (hsize ▸ h)] at hrun
    exact ⟨.server (.select db), db, Command.ofFrame_selectRecord hdb, by rw [hrun], hlocated, rfl⟩
  | record db r =>
    obtain ⟨rfl, hlater⟩ := hlocated
    obtain ⟨c, hc, hstays⟩ := Replayable.accepted h
    refine ⟨c, db, hc, Command.run_session hstays, hlater, ?_⟩
    rw [hstays]
    rfl

theorem Sound.exists_wired (hm : m ≤ Command.maxInteger + 1) (h : item.Sound m) :
    ∃ w : Wired, w.bytes = item.bytes ∧ w.Encoded Decoder.default.maxFrame := by
  obtain ⟨hne, hlimits, hfits⟩ := h.fits hm
  exact ⟨⟨item.bytes, item.request, Decoder.wireForm_serialize hne hlimits⟩, rfl, rfl, hne, hlimits,
    hfits⟩

/-- The bytes of items one behind the other. -/
def stream (items : List Item) : Bytes := items.flatMap bytes

@[simp] theorem stream_cons : stream (item :: items) = item.bytes ++ stream items := rfl

theorem stream_append : stream (items ++ items') = stream items ++ stream items' :=
  List.flatMap_append

theorem stream_eq (items : List Item) : stream items = (items.map request).flatMap Writer.encode := by
  rw [List.flatMap_map]
  rfl

/-- A replay goes through items one by one and runs the records among them in their databases. -/
theorem replayFrom_stream [Digest String] [Matcher] {k : Keyspace} (hm : m ≤ Command.maxInteger + 1)
    (hsound : ∀ item ∈ items, item.Sound m) (hlocated : Located i items)
    (hsize : k.store.size = m) (total now index : Nat) (rest : Bytes) :
    ∃ j k', replayFrom total now .default ⟨i⟩ k index (stream items ++ rest) =
        replayFrom total now .default ⟨j⟩ k' (index + items.length) rest ∧
      executedFrom now .default ⟨i⟩ k (stream items ++ rest) =
        items.flatMap records ++ executedFrom now .default ⟨j⟩ k' rest := by
  induction items generalizing i k index with
  | nil => exact ⟨i, k, rfl, rfl⟩
  | cons item items ih =>
    obtain ⟨hitem, hitems⟩ := List.forall_mem_cons.mp hsound
    obtain ⟨hne, hlimits, -⟩ := hitem.fits hm
    obtain ⟨c, j, hc, hsession, hlater, hrecords⟩ := hitem.exists_run hm hlocated hsize now
    have hkept : (c.run now ⟨i⟩ k).keyspace.store.size = m := Command.run_size.trans hsize
    obtain ⟨j', k', hreplay, hexecuted⟩ := ih hitems hlater hkept (index + 1)
    refine ⟨j', k', ?_, ?_⟩
    · rw [stream_cons, List.append_assoc, bytes, replayFrom_cons hne hlimits rfl, hc]
      dsimp only
      rw [hsession, hreplay, List.length_cons, Nat.add_assoc, Nat.add_comm 1]
    · rw [stream_cons, List.append_assoc, bytes, executedFrom_cons hne hlimits rfl hc, hrecords,
        hsession, hexecuted, List.flatMap_cons, List.append_assoc]

end Item

namespace Writer

/-- What a writer puts down for records. -/
def items : Option Nat → List (Nat × Request) → List Item
  | _, [] => []
  | selected, (db, r) :: ps =>
    if selected = some db then .record db r :: items (some db) ps
    else .select db :: .record db r :: items (some db) ps

theorem map_request_items (selected : Option Nat) (ps : List (Nat × Request)) :
    (items selected ps).map Item.request = requests selected ps := by
  induction ps generalizing selected with
  | nil => rfl
  | cons p ps ih =>
    obtain ⟨db, r⟩ := p
    rw [items, requests]
    split
    · exact congrArg (r :: ·) (ih _)
    · exact congrArg (selectRecord db :: r :: ·) (ih _)

theorem located_items (hi : ∀ db, selected = some db → db = i) :
    Item.Located i (items selected ps) := by
  induction ps generalizing selected i with
  | nil => trivial
  | cons p ps ih =>
    obtain ⟨db, r⟩ := p
    have hlater : Item.Located db (items (some db) ps) := ih fun _ h => (Option.some.inj h).symm
    rw [items]
    split
    · next h =>
      obtain rfl := hi db h
      exact ⟨rfl, hlater⟩
    · exact ⟨rfl, hlater⟩

theorem sound_items (hps : ∀ p ∈ ps, p.1 < m ∧ Replayable p.2) (selected : Option Nat) :
    ∀ item ∈ items selected ps, item.Sound m := by
  induction ps generalizing selected with
  | nil => exact nofun
  | cons p ps ih =>
    obtain ⟨⟨hdb, hr⟩, hps⟩ := List.forall_mem_cons.mp hps
    rw [items]
    split
    · exact List.forall_mem_cons.mpr ⟨hr, ih hps _⟩
    · exact List.forall_mem_cons.mpr ⟨hdb, List.forall_mem_cons.mpr ⟨hr, ih hps _⟩⟩

theorem contents_appendEach_items (w : Writer) (ps : List (Nat × Request)) :
    (w.appendEach ps).contents = w.contents ++ Item.stream (items w.selected ps) := by
  rw [contents_appendEach, Item.stream_eq, map_request_items]

end Writer

end RespStore.Log
