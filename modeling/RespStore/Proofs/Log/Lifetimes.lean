import RespStore.Proofs.Log.Item
import RespStore.Text.Fingerprint

/-!
# Lifetimes of a log

A server replays its log, appends to it and stops; where it crashes, the file ends anywhere. What a
replay drops is the part of one request that the file ends in, so what it runs are the records that
came through all crashes whole, each in the database that it was appended for.

The file is followed as a list of items. A crash leaves the first few of them and a part of the next,
and a writer goes on behind those that are whole.
-/

namespace RespStore.Log

variable {n m start : Nat} {file : Bytes} {ps : List (Nat × Request)}

/-! ## Appended records -/

/-- A record that was appended, and how long the file was right after that. -/
structure Appended where
  record : Nat × Request
  stop : Nat
  deriving DecidableEq

namespace Writer

/-- Records as a writer appends them. -/
def appended (w : Writer) : List (Nat × Request) → List Appended
  | [] => []
  | (db, r) :: ps =>
    ⟨(db, r), (w.append db r).contents.length⟩ :: (w.append db r).appended ps

end Writer

namespace Item

variable {item : Item} {items items' : List Item}

/-- The records among items that stand behind `start` bytes. -/
def appended : Nat → List Item → List Appended
  | _, [] => []
  | start, item :: items =>
    item.records.map (⟨·, start + item.bytes.length⟩) ++
      appended (start + item.bytes.length) items

theorem appended_append (start : Nat) (items items' : List Item) :
    appended start (items ++ items') =
      appended start items ++ appended (start + (stream items).length) items' := by
  induction items generalizing start with
  | nil => rfl
  | cons item items ih =>
    rw [List.cons_append, appended, appended, ih, stream_cons, List.length_append, List.append_assoc,
      Nat.add_assoc]

theorem map_record_appended (start : Nat) (items : List Item) :
    (appended start items).map (·.record) = items.flatMap records := by
  induction items generalizing start with
  | nil => rfl
  | cons item items ih =>
    rw [appended, List.map_append, ih, List.map_map, List.flatMap_cons]
    exact congrArg (· ++ _) (List.map_id _)

theorem le_stop {e : Appended} (h : e ∈ appended start items) : start ≤ e.stop := by
  induction items generalizing start with
  | nil => cases h
  | cons item items ih =>
    rcases List.mem_append.mp h with h | h
    · obtain ⟨p, -, rfl⟩ := List.mem_map.mp h
      exact Nat.le_add_right _ _
    · exact Nat.le_trans (Nat.le_add_right _ _) (ih h)

/-- A cut keeps the first few items and a part of the next. The records that end before it are those
among the items that are whole. -/
theorem exists_cut (start cut : Nat) (items : List Item) :
    ∃ kept tail, kept <+: items ∧ (stream items).take cut = stream kept ++ tail ∧
      (appended start items).filter (·.stop ≤ start + cut) = appended start kept ∧
      (tail = [] ∨ ∃ item ∈ items, tail <+: item.bytes ∧ tail ≠ item.bytes) := by
  induction items generalizing start cut with
  | nil => exact ⟨[], [], List.prefix_rfl, List.take_nil, rfl, .inl rfl⟩
  | cons item items ih =>
    by_cases hcut : item.bytes.length ≤ cut
    · obtain ⟨kept, tail, hkept, htake, hfilter, htail⟩ :=
        ih (start + item.bytes.length) (cut - item.bytes.length)
      have hstop : start + item.bytes.length + (cut - item.bytes.length) = start + cut := by omega
      rw [hstop] at hfilter
      refine ⟨item :: kept, tail, List.cons_prefix_cons.mpr ⟨rfl, hkept⟩, ?_, ?_, ?_⟩
      · rw [stream_cons, List.take_append, List.take_of_length_le hcut, htake, stream_cons,
          List.append_assoc]
      · rw [appended, List.filter_append, hfilter, appended, List.filter_eq_self.mpr]
        intro e he
        obtain ⟨p, -, rfl⟩ := List.mem_map.mp he
        exact decide_eq_true (Nat.add_le_add_left hcut start)
      · exact htail.imp_right fun ⟨item', hmem, h⟩ => ⟨item', List.mem_cons_of_mem _ hmem, h⟩
    · have hlt := Nat.lt_of_not_le hcut
      refine ⟨[], item.bytes.take cut, List.nil_prefix, ?_, ?_, .inr ⟨item, List.mem_cons_self,
        List.take_prefix _ _, ?_⟩⟩
      · rw [stream_cons, List.take_append_of_le_length (Nat.le_of_lt hlt)]
        rfl
      · refine List.filter_eq_nil_iff.mpr fun e he => ?_
        have hstop : start + item.bytes.length ≤ e.stop := by
          rcases List.mem_append.mp he with he | he
          · obtain ⟨p, -, rfl⟩ := List.mem_map.mp he
            exact Nat.le_refl _
          · exact le_stop he
        rw [decide_eq_true_iff]
        omega
      · intro h
        have hlen := congrArg List.length h
        rw [List.length_take] at hlen
        omega

end Item

theorem Writer.appended_eq (w : Writer) (ps : List (Nat × Request)) :
    w.appended ps = Item.appended w.contents.length (Writer.items w.selected ps) := by
  induction ps generalizing w with
  | nil => rfl
  | cons p ps ih =>
    obtain ⟨db, r⟩ := p
    rw [appended, ih, items]
    have hlen : (w.append db r).contents.length = w.contents.length + (w.entry db r).length :=
      List.length_append
    rw [hlen, entry]
    split
    · rfl
    · rw [Item.appended, Item.appended, List.length_append, Nat.add_assoc]
      rfl

/-! ## Lifetimes -/

section Lifetimes

variable [Digest String] [Matcher] {k : Keyspace} {entries : List Appended} {items : List Item}
  {tail : Bytes}

/-- What a server does to its log when it starts: it replays it, and opens what that keeps. -/
def Writer.reopen (n now : Nat) (draws : Draws) (policy : SyncPolicy) (file : Bytes) : Writer :=
  openFile ((replay now ⟨.new n, draws⟩ file).keep file) policy

/-- What a log holds after some lifetimes of servers with `n` databases, and the appended records of
which all bytes are still there. In a lifetime the log is reopened, records are appended and the file is
cut; without a crash, the cut is not before its end. -/
inductive Lifetimes (n : Nat) : Bytes → List Appended → Prop where
  | start : Lifetimes n [] []
  | next {file : Bytes} {entries : List Appended} (h : Lifetimes n file entries) (now : Nat)
      (draws : Draws) (policy : SyncPolicy) {ps : List (Nat × Request)}
      (hps : ∀ p ∈ ps, p.1 < max n 1 ∧ Replayable p.2) (cut : Nat) :
      Lifetimes n (((Writer.reopen n now draws policy file).appendEach ps).contents.take cut)
        ((entries ++ (Writer.reopen n now draws policy file).appended ps).filter (·.stop ≤ cut))

/-- A replay of `file` comes to its end, keeps the requests that are whole and drops a part of one
more, and runs `ps` besides the requests that select databases. -/
structure Recovers (now : Nat) (k : Keyspace) (file : Bytes) (ps : List (Nat × Request)) : Prop where
  keeps : ∃ rs tail r, file = rs.flatMap Writer.encode ++ tail ∧
    (replay now k file).keep file = rs.flatMap Writer.encode ∧
    (replay now k file).result = .ok rs.length ∧
    (∀ q ∈ r :: rs, q ≠ []) ∧ tail <+: Writer.encode r ∧ tail ≠ Writer.encode r
  executed : executed now k file = ps
  keyspace : runRecords now ps k = some (replay now k file).keyspace

/-- Items that are whole, with a part of one more behind them, and the records among them. -/
structure Intact (m : Nat) (file : Bytes) (entries : List Appended) (items : List Item)
    (tail : Bytes) : Prop where
  file_eq : file = Item.stream items ++ tail
  entries_eq : entries = Item.appended 0 items
  sound : ∀ item ∈ items, item.Sound m
  located : Item.Located 0 items
  torn : ∃ item : Item, item.Sound m ∧ tail <+: item.bytes ∧ tail ≠ item.bytes

theorem Intact.replay_eq (h : Intact m file entries items tail) (hm : m ≤ Command.maxInteger + 1)
    (hsize : k.store.size = m) (now : Nat) :
    ∃ k', replay now k file = ⟨k', tail.length, .ok items.length⟩ ∧
      executed now k file = items.flatMap Item.records := by
  obtain ⟨item, hitem, hbegin, hne⟩ := h.torn
  obtain ⟨w, hw, henc⟩ := hitem.exists_wired hm
  have hcut : w.IsCut tail := ⟨hw ▸ hbegin, hw ▸ hne⟩
  obtain ⟨j, k', hreplay, hexecuted⟩ :=
    Item.replayFrom_stream hm h.sound h.located hsize file.length now 0 tail
  have hend : replayFrom file.length now .default ⟨j⟩ k' (0 + items.length) tail = _ :=
    replayFrom_cut hcut (henc.not_tooLong hcut)
  have hnothing : executedFrom now .default ⟨j⟩ k' tail = [] := executedFrom_cut hcut _
  rw [← h.file_eq] at hreplay hexecuted
  rw [Nat.zero_add] at hreplay hend
  rw [hnothing, List.append_nil] at hexecuted
  exact ⟨k', hreplay.trans hend, hexecuted⟩

theorem Intact.keep_eq (h : Intact m file entries items tail) (hm : m ≤ Command.maxInteger + 1)
    (hsize : k.store.size = m) (now : Nat) : (replay now k file).keep file = Item.stream items := by
  obtain ⟨k', hreplay, -⟩ := h.replay_eq hm hsize now
  rw [hreplay, Replayed.keep, h.file_eq, List.length_append, Nat.add_sub_cancel]
  exact List.take_left

theorem Intact.recovers_of (h : Intact m file entries items tail) (hm : m ≤ Command.maxInteger + 1)
    (hsize : k.store.size = m) (now : Nat) : Recovers now k file (entries.map (·.record)) := by
  obtain ⟨k', hreplay, hexecuted⟩ := h.replay_eq hm hsize now
  have hrecords : entries.map (·.record) = items.flatMap Item.records := by
    rw [h.entries_eq, Item.map_record_appended]
  refine ⟨?_, hexecuted.trans hrecords.symm, ?_⟩
  · obtain ⟨item, hitem, hbegin, hne⟩ := h.torn
    refine ⟨items.map Item.request, tail, item.request, ?_, ?_, ?_, ?_, hbegin, hne⟩
    · rw [← Item.stream_eq]
      exact h.file_eq
    · rw [← Item.stream_eq]
      exact h.keep_eq hm hsize now
    · rw [hreplay, List.length_map]
    · refine List.forall_mem_cons.mpr ⟨(hitem.fits hm).1, ?_⟩
      exact List.forall_mem_map.mpr fun item' hitem' => ((h.sound item' hitem').fits hm).1
  · rw [hrecords, ← hexecuted]
    exact runRecords_executedFrom file

omit [Digest String] [Matcher] in
/-- A writer goes on behind the items that are whole, and selects a database before it puts down a
record. -/
theorem Intact.appendEach (h : Intact m file entries items tail)
    (hps : ∀ p ∈ ps, p.1 < m ∧ Replayable p.2) (policy : SyncPolicy) :
    let w := Writer.openFile (Item.stream items) policy
    Intact m (w.appendEach ps).contents (entries ++ w.appended ps) (items ++ Writer.items none ps)
      [] where
  file_eq := by
    rw [Writer.contents_appendEach_items, Item.stream_append, List.append_nil]
    rfl
  entries_eq := by
    rw [h.entries_eq, Writer.appended_eq, Item.appended_append, Nat.zero_add]
    rfl
  sound := by
    intro item hitem
    rcases List.mem_append.mp hitem with hitem | hitem
    · exact h.sound item hitem
    · exact Writer.sound_items hps none item hitem
  located := h.located.append fun _ => Writer.located_items nofun
  torn := by
    obtain ⟨item, hitem, hbegin, hne⟩ := h.torn
    have hlt : 0 < item.bytes.length := Nat.lt_of_le_of_lt (Nat.zero_le tail.length)
      (Nat.lt_of_not_le fun hle => hne (hbegin.eq_of_length_le hle))
    exact ⟨item, hitem, List.nil_prefix, (List.ne_nil_of_length_pos hlt).symm⟩

omit [Digest String] [Matcher] in
/-- Wherever a file is cut, what is left of it is intact. -/
theorem Intact.cut (h : Intact m file entries items []) (cut : Nat) :
    ∃ items tail, Intact m (file.take cut) (entries.filter (·.stop ≤ cut)) items tail := by
  obtain ⟨kept, tail, ⟨later, rfl⟩, htake, hfilter, htail⟩ := Item.exists_cut 0 cut items
  rw [Nat.zero_add, ← h.entries_eq] at hfilter
  refine ⟨kept, tail, ?_, hfilter, ?_, h.located.of_append, ?_⟩
  · rw [h.file_eq, List.append_nil]
    exact htake
  · exact fun item hitem => h.sound item (List.mem_append_left _ hitem)
  · rcases htail with rfl | ⟨item, hitem, hbegin, hne⟩
    · exact h.torn
    · exact ⟨item, h.sound item hitem, hbegin, hne⟩

theorem Lifetimes.intact (hn : n ≤ Command.maxInteger + 1) (h : Lifetimes n file entries) :
    ∃ items tail, Intact (max n 1) file entries items tail := by
  induction h with
  | start =>
    refine ⟨[], [], rfl, rfl, nofun, trivial, .select 0, ?_, List.nil_prefix, ?_⟩
    · exact Nat.lt_of_lt_of_le Nat.one_pos (Nat.le_max_right n 1)
    · exact fun h => absurd h.symm (by decide +kernel)
  | next h now draws policy hps cut ih =>
    obtain ⟨items, tail, hintact⟩ := ih
    have hm : max n 1 ≤ Command.maxInteger + 1 := Nat.max_le.mpr ⟨hn, by decide⟩
    have hkeep := hintact.keep_eq (k := ⟨.new n, draws⟩) hm (Store.size_new n) now
    rw [Writer.reopen, hkeep]
    exact (hintact.appendEach hps policy).cut cut

/-- After any number of crashes a replay of the log comes to its end, drops nothing but the part of a
request that the file ends in, and runs just the records of which all bytes are still there, in the
order in which they were appended and each in the database that it was appended for. There are no more
databases than numbers to select them by. -/
theorem Lifetimes.recovers (hn : n ≤ Command.maxInteger + 1) (h : Lifetimes n file entries) (now : Nat)
    (draws : Draws) : Recovers now ⟨.new n, draws⟩ file (entries.map (·.record)) := by
  obtain ⟨items, tail, hintact⟩ := h.intact hn
  have hm : max n 1 ≤ Command.maxInteger + 1 := Nat.max_le.mpr ⟨hn, by decide⟩
  exact hintact.recovers_of hm (Store.size_new n) now

end Lifetimes

/-- What a crash in the middle of a second record has left, when its database was selected already, and
one more record. -/
def crashed : Bytes :=
  ([["SELECT", "0"], ["SET", "a", "1"], ["SELECT", "2"], ["SELECT", "1"], ["DEL", "a"]].map
    (·.map word)).flatMap Writer.encode

theorem crashed_lifetimes :
    Lifetimes 3 crashed [⟨(0, ["SET", "a", "1"].map word), 50⟩, ⟨(1, ["DEL", "a"].map word), 116⟩] := by
  have hset : ∀ p ∈ [(0, ["SET", "a", "1"].map word), (2, ["SET", "b", "2"].map word)],
      p.1 < max 3 1 ∧ Replayable p.2 := by
    refine List.forall_mem_cons.mpr ⟨⟨by decide, ?_⟩, List.forall_mem_singleton.mpr ⟨by decide, ?_⟩⟩
    · exact ⟨⟨_, rfl, rfl⟩, by decide +kernel, by decide +kernel⟩
    · exact ⟨⟨_, rfl, rfl⟩, by decide +kernel, by decide +kernel⟩
  have hdel : ∀ p ∈ [(1, ["DEL", "a"].map word)], p.1 < max 3 1 ∧ Replayable p.2 :=
    List.forall_mem_singleton.mpr
      ⟨by decide, ⟨_, rfl, rfl⟩, by decide +kernel, by decide +kernel⟩
  have htorn := Lifetimes.start.next 10 ⟨fun _ => 0, 0⟩ .always hset 80
  have hlater := htorn.next 20 ⟨fun _ => 0, 0⟩ .never hdel 116
  convert hlater using 1 <;> decide +kernel

theorem crashed_recovers :
    Lifetimes 3 crashed
        [⟨(0, ["SET", "a", "1"].map word), 50⟩, ⟨(1, ["DEL", "a"].map word), 116⟩] ∧
      Recovers 30 ⟨.new 3, ⟨fun _ => 0, 0⟩⟩ crashed
        [(0, ["SET", "a", "1"].map word), (1, ["DEL", "a"].map word)] :=
  ⟨crashed_lifetimes, crashed_lifetimes.recovers (by decide) 30 ⟨fun _ => 0, 0⟩⟩

end RespStore.Log
