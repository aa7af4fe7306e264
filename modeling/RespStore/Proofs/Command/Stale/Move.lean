import RespStore.Proofs.Command.Stale.Change

/-!
# Moves from and to keys whose deadline passes
-/

namespace RespStore.View

variable {v : View} {now t₁ t₂ : Nat} {source destination : String} {items others : List Bytes}
  {x : Bytes} {a : Option Nat}

/-- A list under a key. -/
def ListAt (v : View) (key : String) (items : List Bytes) (deadline : Option Nat) : Prop :=
  v key = some ⟨.list items, deadline⟩

theorem move_of_absent (h : v source = none) : v.move now source destination = v := by
  unfold move
  rw [h]
  rfl

theorem move_of_source (h : ∀ items deadline, ¬v.ListAt source items deadline) :
    v.move now source destination = v := by
  unfold move
  have hread : Change.read Content.list? none (v source) = none := by
    cases hv : v source with
    | none => rfl
    | some e =>
      obtain ⟨c, d⟩ := e
      cases c with
      | list items => exact absurd hv (h items d)
      | _ => rfl
  rw [hread]

theorem move_of_destination (hs : v.ListAt source items a)
    (h : Change.read Content.list? (some []) (v destination) = none) :
    v.move now source destination = v := by
  unfold move
  rw [h, hs]
  rfl

/-- What a move can tell of a deadline that passes: a list that is still there to be taken from, or
an entry that is still there to be put in front of. -/
def TellsMove (t : Nat) (v : View) (source destination : String) : Prop :=
  (∃ items deadline, v.ListAt source items deadline ∧ v.Stale t source ∧
    ¬v.Stale t destination ∧ (Change.read Content.list? (some []) (v destination)).isSome) ∨
  (∃ items deadline, v.ListAt source items deadline ∧ ¬v.Stale t source ∧ v.Stale t destination)

variable {key : String} {c : Content}

theorem filter_store_of_stale (h : v.Stale t₂ key) (c : Content) :
    (Entry.store (v key) c).filter (·.isLive t₂) = none := by
  obtain ⟨e, he, hl⟩ := h
  rw [he]
  refine Option.filter_eq_none_iff.mpr fun x hx hlive => ?_
  have hd : x.expiresAt = e.expiresAt := Entry.expiresAt_store hx
  have hsame : x.isLive t₂ = e.isLive t₂ := by
    unfold Entry.isLive
    rw [hd]
  rw [hsame, hl] at hlive
  cases hlive

theorem filter_store_of_not_stale (h : ¬v.Stale t₂ key) (hc : c.isEmpty = false) :
    (Entry.store (v key) c).filter (·.isLive t₂) = some ⟨c, (v key).bind (·.expiresAt)⟩ := by
  rw [Entry.store_of_nonempty hc]
  refine Option.filter_eq_some_iff.mpr ⟨rfl, ?_⟩
  cases hv : v key with
  | none => rfl
  | some e =>
    have hlive : e.isLive t₂ = true := Bool.not_eq_false _ ▸ fun hl => h ⟨e, hv, hl⟩
    exact hlive

theorem write_of_stale (h : v.Stale t₂ key) (c : Content) :
    (v.cut t₂).write t₂ key (Entry.store (v key) c) = v.cut t₂ := by
  unfold write
  rw [filter_store_of_stale h, ← cut_apply_of_stale h]
  exact Function.update_eq_self ..

theorem listAt_cut (h : ¬v.Stale t₂ source) :
    (v.cut t₂).ListAt source items a ↔ v.ListAt source items a := by
  unfold ListAt
  rw [cut_apply_of_not_stale h]

/-- A list whose deadline passes: nothing can be taken from it afterwards. -/
theorem move_cut_iff_of_stale (ht : t₁ ≤ t₂) (hs : v.ListAt source items a)
    (hx : items.getLast? = some x) (hstale : v.Stale t₂ source) :
    (v.move t₁ source destination).cut t₂ = (v.cut t₂).move t₂ source destination ↔
      ¬v.TellsMove t₂ source destination := by
  rw [move_of_absent (cut_apply_of_stale hstale)]
  cases hd : Change.read Content.list? (some []) (v destination) with
  | none =>
    rw [move_of_destination hs hd]
    refine iff_of_true rfl ?_
    rintro (⟨_, _, _, _, _, hsome⟩ | ⟨_, _, _, hlive, _⟩)
    · rw [hd] at hsome
      cases hsome
    · exact hlive hstale
  | some others =>
    rw [move_of_lists hs hx hd, cut_write ht, cut_write ht, write_of_stale hstale]
    by_cases hstale' : v.Stale t₂ destination
    · rw [write_of_stale hstale']
      refine iff_of_true rfl ?_
      rintro (⟨_, _, _, _, hlive, _⟩ | ⟨_, _, _, hlive, _⟩)
      · exact hlive hstale'
      · exact hlive hstale
    · refine iff_of_false (fun heq => ?_) (not_not_intro ?_)
      · have hkey := congrFun heq destination
        rw [write_apply, filter_store_of_not_stale hstale' rfl, cut_apply_of_not_stale hstale'] at hkey
        rw [← hkey] at hd
        have hlen : (x :: others).length = others.length := congrArg List.length (Option.some.inj hd)
        exact Nat.succ_ne_self _ hlen
      · exact .inl ⟨items, a, hs, hstale, hstale', by rw [hd]; rfl⟩

/-- A list that stays. -/
theorem move_cut_iff_of_not_stale (ht : t₁ ≤ t₂) (hs : v.ListAt source items a)
    (hx : items.getLast? = some x) (hlive : ¬v.Stale t₂ source) :
    (v.move t₁ source destination).cut t₂ = (v.cut t₂).move t₂ source destination ↔
      ¬v.TellsMove t₂ source destination := by
  have hs' : (v.cut t₂).ListAt source items a := (listAt_cut hlive).mpr hs
  have hsource : (v.cut t₂) source = v source := cut_apply_of_not_stale hlive
  by_cases hstale : v.Stale t₂ destination
  · refine iff_of_false (fun heq => ?_) (not_not_intro (.inr ⟨items, a, hs, hlive, hstale⟩))
    have hnone := cut_apply_of_stale hstale
    have hfresh : ((v.cut t₂).move t₂ source destination) destination ≠ none := by
      rw [move_of_lists hs' hx (by rw [hnone]; rfl), write_apply, hnone]
      exact nofun
    apply hfresh
    rw [← heq]
    cases hd : Change.read Content.list? (some []) (v destination) with
    | none =>
      rw [move_of_destination hs hd]
      exact hnone
    | some others =>
      rw [move_of_lists hs hx hd, cut_write ht, write_apply]
      exact filter_store_of_stale hstale _
  · have hdestination : (v.cut t₂) destination = v destination := cut_apply_of_not_stale hstale
    refine iff_of_true ?_ ?_
    · cases hd : Change.read Content.list? (some []) (v destination) with
      | none => rw [move_of_destination hs hd, move_of_destination hs' (hdestination ▸ hd)]
      | some others =>
        rw [move_of_lists hs hx hd, move_of_lists hs' hx (hdestination ▸ hd), cut_write ht,
          cut_write ht, hsource, hdestination]
    · rintro (⟨_, _, _, hs, _⟩ | ⟨_, _, _, _, hd⟩)
      · exact hlive hs
      · exact hstale hd

theorem move_cut_iff (ht : t₁ ≤ t₂) (hne : ∀ key e, v key = some e → e.content.isEmpty = false) :
    (v.move t₁ source destination).cut t₂ = (v.cut t₂).move t₂ source destination ↔
      ¬v.TellsMove t₂ source destination := by
  by_cases hlist : ∃ items a, v.ListAt source items a
  · obtain ⟨items, a, hs⟩ := hlist
    obtain ⟨x, hx⟩ : ∃ x, items.getLast? = some x := by
      have hnonempty := hne source _ hs
      cases items with
      | nil => cases hnonempty
      | cons y ys => exact ⟨_, List.getLast?_cons⟩
    by_cases hstale : v.Stale t₂ source
    · exact move_cut_iff_of_stale ht hs hx hstale
    · exact move_cut_iff_of_not_stale ht hs hx hstale
  · have hnone : ∀ items a, ¬v.ListAt source items a := fun items a h => hlist ⟨items, a, h⟩
    have hcut : ∀ items a, ¬(v.cut t₂).ListAt source items a := by
      intro items a h
      exact hnone items a (Option.filter_eq_some_iff.mp h).1
    rw [move_of_source hnone, move_of_source hcut]
    refine iff_of_true rfl ?_
    rintro (⟨items, a, h, _⟩ | ⟨items, a, h, _⟩)
    · exact hnone items a h
    · exact hnone items a h

end RespStore.View
