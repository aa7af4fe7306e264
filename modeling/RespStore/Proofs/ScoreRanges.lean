import RespStore.Proofs.Clients
import RespStore.Proofs.Collection.SortedSetHistory
import RespStore.Proofs.Collection.SortedSetRange
import RespStore.Proofs.Command.OneKey
import RespStore.Text.Fingerprint

/-!
# Score ranges are filters

Each computation with a range of scores does to a sorted set what a filter does to the ascending
list of its elements, after any history and for any bounds.
-/

namespace RespStore

namespace Element

variable {R : Element → Element → Prop} {es : List Element} {p : Element → Bool} {e f : Element}

/-- Of the elements that satisfy a condition, the one that comes before all others in an order. -/
structure FirstBy (R : Element → Element → Prop) (es : List Element) (p : Element → Bool)
    (e : Element) : Prop where
  mem : e ∈ es
  holds : p e = true
  before : ∀ f ∈ es, p f = true → f ≠ e → R e f

theorem FirstBy.unique (hR : ∀ e f, R e f → ¬R f e) (he : FirstBy R es p e)
    (hf : FirstBy R es p f) : e = f := by
  by_contra hne
  exact hR e f (he.before f hf.mem hf.holds (Ne.symm hne)) (hf.before e he.mem he.holds hne)

/-- In a list in that order it is the first one. -/
theorem head?_filter_iff (h : es.Pairwise R) (hR : ∀ e f, R e f → ¬R f e) :
    (es.filter p).head? = some e ↔ FirstBy R es p e := by
  have hfirst : ∀ f, (es.filter p).head? = some f → FirstBy R es p f := by
    intro f hf
    obtain ⟨rest, hrest⟩ := List.head?_eq_some_iff.mp hf
    have hmem : ∀ g, g ∈ es ∧ p g = true ↔ g ∈ f :: rest := fun g => by
      rw [← hrest, List.mem_filter]
    have hsorted : (f :: rest).Pairwise R := hrest ▸ List.Pairwise.filter p h
    obtain ⟨hfmem, hfp⟩ := (hmem f).mpr List.mem_cons_self
    refine ⟨hfmem, hfp, fun g hg hgp hne => ?_⟩
    have hgrest := (List.mem_cons.mp ((hmem g).mp ⟨hg, hgp⟩)).resolve_left hne
    exact (List.pairwise_cons.mp hsorted).1 g hgrest
  refine ⟨hfirst e, fun he => ?_⟩
  cases hf : (es.filter p).head? with
  | none =>
    have hnil := List.filter_eq_nil_iff.mp (List.head?_eq_none_iff.mp hf)
    exact absurd he.holds (hnil e he.mem)
  | some f => rw [he.unique hR (hfirst f hf)]

theorem Before.asymm (e f : Element) (h : Before e f) : ¬Before f e :=
  fun h' => Before.irrefl e (h.trans h')

theorem Sorted.head?_filter_iff (h : Sorted es) :
    (es.filter p).head? = some e ↔ FirstBy Before es p e :=
  Element.head?_filter_iff h Before.asymm

theorem Sorted.getLast?_filter_iff (h : Sorted es) :
    (es.filter p).getLast? = some e ↔ FirstBy (fun e f => Before f e) es p e := by
  rw [← List.head?_reverse, ← List.filter_reverse,
    Element.head?_filter_iff (List.pairwise_reverse.mpr h) fun e f => Before.asymm f e]
  have hmem : ∀ f, f ∈ es.reverse ↔ f ∈ es := fun f => List.mem_reverse
  exact ⟨fun ⟨h, hp, ha⟩ => ⟨(hmem e).mp h, hp, fun f hf => ha f ((hmem f).mpr hf)⟩,
    fun ⟨h, hp, ha⟩ => ⟨(hmem e).mpr h, hp, fun f hf => ha f ((hmem f).mp hf)⟩⟩

end Element

namespace SortedSet

open Element

/-- What there is in a range, and what is left without it, is what a filter of an ascending list
keeps and drops. Deleting takes rounds as long as something is found, which it never does once it
has taken as many as there are elements. -/
structure Filters [Digest String] (s : SortedSet) (es : List Element) (r : ScoreRange) : Prop where
  firstIn? : ∀ e, (s.index.firstIn? r).bind s.index.element? = some e ↔
    FirstBy Before es (fun e => r.contains e.2) e
  firstIn?_none : s.index.firstIn? r = none ↔ ∀ e ∈ es, r.contains e.2 = false
  lastIn? : ∀ e, (s.index.lastIn? r).bind s.index.element? = some e ↔
    FirstBy (fun e f => Before f e) es (fun e => r.contains e.2) e
  lastIn?_none : s.index.lastIn? r = none ↔ ∀ e ∈ es, r.contains e.2 = false
  rangeByScore : s.rangeByScore r = es.filter fun e => r.contains e.2
  count : s.count r = (es.filter fun e => r.contains e.2).length
  deleted : (s.index.deleteRangeByScore r).1 = es.filter fun e => r.contains e.2
  kept : (s.index.deleteRangeByScore r).2.Shows (es.filter fun e => !r.contains e.2)
  ends : (s.index.deleteRangeByScore r).2.firstIn? r = none ∧ ∀ n, es.length ≤ n →
    SkipList.deleteAll (·.firstIn? r) n s.index = s.index.deleteRangeByScore r
  removed : (s.removeRangeByScore r).1 = (es.filter fun e => r.contains e.2).length
  remaining : (s.removeRangeByScore r).2.Shows (es.filter fun e => !r.contains e.2)

variable [Digest String] {s : SortedSet}

theorem WF.filters (h : s.WF) (r : ScoreRange) : s.Filters s.toList r := by
  have hsorted : Sorted s.toList := h.index.sorted
  obtain ⟨hdeleted, hfiltered, hkept⟩ := SkipList.deleteRangeByScore_eq h.index r
  obtain ⟨hremaining, hleft, hremoved⟩ := h.removeRangeByScore_spec r
  have hnone : (s.index.deleteRangeByScore r).2.firstIn? r = none := by
    rw [SkipList.firstIn?_eq_none_iff hdeleted, hkept]
    intro e he
    simpa using (List.mem_filter.mp he).2
  exact {
    firstIn? := fun e => by
      rw [SkipList.firstIn?_eq h.index]
      exact hsorted.head?_filter_iff
    firstIn?_none := SkipList.firstIn?_eq_none_iff h.index r
    lastIn? := fun e => by
      rw [SkipList.lastIn?_eq h.index]
      exact hsorted.getLast?_filter_iff
    lastIn?_none := SkipList.lastIn?_eq_none_iff h.index r
    rangeByScore := h.rangeByScore_eq r
    count := h.count_eq r
    deleted := hfiltered
    kept := hkept ▸ hdeleted.shows
    ends := ⟨hnone, fun n hn => by
      have hsize : s.index.size ≤ n := h.index.size_eq_length.trans_le hn
      refine SkipList.deleteAll_of_le hsize ?_
      show ((s.index.deleteRangeByScore r).2.firstIn? r).bind _ = none
      rw [hnone]
      rfl⟩
    removed := hremoved
    remaining := hleft ▸ hremaining.shows
  }

end SortedSet

section Limits

open SortedSetCommand

variable {α : Type}

theorem SortedSetCommand.limited_some (offset most : Int64) (xs : List α) :
    limited (some (offset, most)) xs =
      let rest := if offset.toInt < 0 then [] else xs.drop offset.toInt.toNat
      if most.toInt < 0 then rest else rest.take most.toInt.toNat := by
  simp only [limited, Int64.lt_iff_toInt_lt, Int64.toInt_zero]

theorem SortedSetCommand.limited_nil (limit : Option (Int64 × Int64)) :
    limited limit ([] : List α) = [] := by
  cases limit with
  | none => rfl
  | some bounds =>
    obtain ⟨offset, most⟩ := bounds
    simp [limited_some]

theorem Command.rangeByScore_reply [Digest String] [Matcher] {now : Nat} {s : Session} {k : Keyspace}
    {key : String} {es : List Element} (h : k.store.WF)
    (hkey : (k.store.view now s.selected).elements? key = some es) (r : ScoreRange)
    (withScores : Bool) (limit : Option (Int64 × Int64)) :
    ((sortedSet (.rangeByScore key r withScores limit)).run now s k).reply =
      elementsReply withScores (limited limit (es.filter fun e => r.contains e.2)) := by
  refine (sortedSet_reply h (c := .rangeByScore key r withScores limit) trivial).trans
    (Entry.answer_of_read (f := fun es : List Element =>
      elementsReply withScores (limited limit (es.filter fun e => r.contains e.2))) hkey ?_)
  rw [List.filter_nil, limited_nil]
  cases withScores <;> rfl

end Limits

namespace SortedSet

open Element SortedSetCommand

variable [Digest String] [Matcher]

/-- Whatever operations a sorted set comes from, and whatever the bounds of a range are, the range
is the filter of its elements. A command that answers a range drops as many of them as the offset
says, or all if it is negative, and then keeps as many as the count says, or all if that is. -/
theorem scoreRanges_filter (cs : List (Nat × Operation)) (r : ScoreRange) :
    let s := (History.run Operation.run empty cs).2
    let es := (History.run Operation.onSorted [] cs).2
    Sorted es ∧ s.Shows es ∧ s.Filters es r ∧
      ∀ (k : Keyspace) (session : Session) (now : Nat) (key : String) (stored : List Element),
        k.store.WF → (k.store.view now session.selected).elements? key = some stored →
        let found := stored.filter fun e => r.contains e.2
        let reply withScores limit :=
          ((Command.sortedSet (.rangeByScore key r withScores limit)).run now session k).reply
        ∀ withScores, reply withScores none = elementsReply withScores found ∧
          ∀ offset most, reply withScores (some (offset, most)) = elementsReply withScores
            (let rest := if offset.toInt < 0 then [] else found.drop offset.toInt.toNat
            if most.toInt < 0 then rest else rest.take most.toInt.toNat) := by
  obtain ⟨hw, hlist⟩ := wf_history cs
  refine ⟨hlist ▸ hw.index.sorted, hlist ▸ hw.shows, hlist ▸ hw.filters r, ?_⟩
  intro k session now key stored hk hkey found reply withScores
  refine ⟨Command.rangeByScore_reply hk hkey r withScores none, fun offset most => ?_⟩
  rw [← limited_some]
  exact Command.rangeByScore_reply hk hkey r withScores (some (offset, most))

end SortedSet

namespace Clients

/-- Two members with the scores zero and negative zero, and one more. -/
def scored : Clients :=
  (new 1 ⟨fun _ => 0, 0⟩).request 0 5 (.ofList .text ["ZADD", "z", "0", "b", "-0", "a", "1", "c"])

/-- From zero on and below one, both zeros are found, and an offset drops the first of them. -/
theorem scored_filter :
    let zero : Binary64 := ⟨0⟩
    let minusZero : Binary64 := ⟨0x8000000000000000⟩
    let one : Binary64 := ⟨0x3ff0000000000000⟩
    let r : ScoreRange := ⟨zero, one, false, true⟩
    let cs : List (Nat × SortedSet.Operation) :=
      [(1, .insert "b" ⟨0⟩ (by decide)), (3, .insert "a" ⟨0x8000000000000000⟩ (by decide)),
        (2, .insert "c" ⟨0x3ff0000000000000⟩ (by decide))]
    let k := scored.keyspace
    let s := scored.sessions 0
    let reply limit :=
      ((Command.sortedSet (.rangeByScore "z" r true limit)).run 7 s k).reply
    (History.run SortedSet.Operation.run .empty cs).2.rangeByScore r =
        [("a", minusZero), ("b", zero)] ∧
      k.store.WF ∧ (k.store.view 7 s.selected).elements? "z" =
        some [("a", minusZero), ("b", zero), ("c", one)] ∧
      reply none = SortedSetCommand.elementsReply true [("a", minusZero), ("b", zero)] ∧
      reply (some (1, -1)) = SortedSetCommand.elementsReply true [("b", zero)] ∧
      reply (some (-1, 5)) = SortedSetCommand.elementsReply true [] := by
  intro zero minusZero one r cs k s reply
  have hreachable : Reachable 1 scored := (Reachable.new _).request 0 5 _
  have hwf : k.store.WF := hreachable.sound.wf
  have hview : (k.store.view 7 s.selected).elements? "z" =
      some [("a", minusZero), ("b", zero), ("c", one)] := by decide +kernel
  have hsorted : (History.run SortedSet.Operation.onSorted [] cs).2 =
      [("a", minusZero), ("b", zero), ("c", one)] := by decide +kernel
  have hfound : [("a", minusZero), ("b", zero), ("c", one)].filter (fun e => r.contains e.2) =
      [("a", minusZero), ("b", zero)] := by decide +kernel
  obtain ⟨-, -, hfilters, hreply⟩ := SortedSet.scoreRanges_filter cs r
  have hrange := hfilters.rangeByScore
  obtain ⟨hall, hlimited⟩ := hreply k s 7 "z" _ hwf hview true
  rw [hsorted, hfound] at hrange
  rw [hfound] at hall
  simp only [hfound] at hlimited
  exact ⟨hrange, hwf, hview, hall, hlimited 1 (-1), hlimited (-1) 5⟩

end Clients

end RespStore
