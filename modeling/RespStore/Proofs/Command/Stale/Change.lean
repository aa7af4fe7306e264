import RespStore.Proofs.Command.Timeless

/-!
# Keys whose deadline passes

A command may run before the deadline of a key or after it. Most commands leave the same to be seen
after the deadline; some tell the difference, since they go on from what the key held, lift its
deadline or look whether it is there.
-/

namespace RespStore

namespace View

variable {v : View} {t₁ t₂ : Nat} {key k : String} {slot : Option Entry} {F : Change}

/-- The key has an entry, but not at a time. -/
def Stale (t : Nat) (v : View) (key : String) : Prop := ∃ e, v key = some e ∧ e.isLive t = false

theorem filter_filter (ht : t₁ ≤ t₂) (slot : Option Entry) :
    (slot.filter (·.isLive t₁)).filter (·.isLive t₂) = slot.filter (·.isLive t₂) :=
  congrFun (cut_cut (v := fun _ => slot) ht) ""

theorem cut_write (ht : t₁ ≤ t₂) :
    (v.write t₁ key slot).cut t₂ = (v.cut t₂).write t₂ key slot := by
  funext k
  by_cases hk : k = key
  · subst hk
    show ((v.write t₁ k slot) k).filter (·.isLive t₂) = _
    rw [write_apply, write_apply]
    exact filter_filter ht slot
  · simp only [cut, write, Function.update_of_ne hk]

/-- Entries given to keys one after the other. -/
theorem cut_puts (ht : t₁ ≤ t₂) (entries : List (String × Option Entry)) :
    (Write.apply t₁ v (.puts entries)).cut t₂ = Write.apply t₂ (v.cut t₂) (.puts entries) := by
  induction entries generalizing v with
  | nil => rfl
  | cons e entries ih =>
    show (Write.apply t₁ (v.write t₁ e.1 e.2) (.puts entries)).cut t₂ = _
    rw [ih, cut_write ht]
    rfl

theorem cut_apply_of_not_stale (h : ¬v.Stale t₂ key) : (v.cut t₂) key = v key := by
  unfold cut
  cases hv : v key with
  | none => rfl
  | some e =>
    cases hl : e.isLive t₂ with
    | true => simp [Option.filter, hl]
    | false => exact absurd ⟨e, hv, hl⟩ h

theorem cut_apply_of_stale (h : v.Stale t₂ key) : (v.cut t₂) key = none := by
  obtain ⟨e, hv, hl⟩ := h
  simp [cut, hv, Option.filter, hl]

end View

namespace Element

theorem putIf_ne_nil {options : InsertOptions} (h : options.onlyExisting = false)
    (es : List Element) (entry : Binary64 × String) : putIf options es entry ≠ [] := by
  unfold putIf
  rw [h]
  cases hscore : scoreOf entry.2 es with
  | none => exact put_ne_nil _ _ _
  | some x =>
    have hes : es ≠ [] := by
      rintro rfl
      cases hscore
    cases options.onlyNew with
    | true => exact hes
    | false => exact put_ne_nil _ _ _

end Element

/-! ## Changes -/

namespace Change

variable {t t₁ t₂ : Nat} {v : View} {key : String} {F : Change}

/-- Makes of an entry past its deadline what it makes of none, as far as that shows. -/
def Forgets (t : Nat) (F : Change) : Prop :=
  ∀ e : Entry, e.isLive t = false → (F (some e)).filter (·.isLive t) = (F none).filter (·.isLive t)

/-- Makes something else of an entry past its deadline than of none. -/
def Tells (t : Nat) (F : Change) : Prop :=
  ∀ e : Entry, e.isLive t = false → (F (some e)).filter (·.isLive t) ≠ (F none).filter (·.isLive t)

theorem Forgets.change_cut (hF : F.Forgets t₂) (ht : t₁ ≤ t₂) :
    (v.change t₁ key F).cut t₂ = (v.cut t₂).change t₂ key F := by
  rw [View.change, View.cut_write ht, View.change]
  by_cases hstale : v.Stale t₂ key
  · rw [View.cut_apply_of_stale hstale]
    obtain ⟨e, he, hl⟩ := hstale
    rw [he]
    unfold View.write
    rw [hF e hl]
  · rw [View.cut_apply_of_not_stale hstale]

theorem Tells.change_cut_iff (hF : F.Tells t₂) (ht : t₁ ≤ t₂) :
    (v.change t₁ key F).cut t₂ = (v.cut t₂).change t₂ key F ↔ ¬v.Stale t₂ key := by
  rw [View.change, View.cut_write ht, View.change]
  constructor
  · intro heq hstale
    have hkey := congrFun heq key
    rw [View.write_apply, View.write_apply, View.cut_apply_of_stale hstale] at hkey
    obtain ⟨e, he, hl⟩ := hstale
    rw [he] at hkey
    exact hF e hl hkey
  · intro hstale
    rw [View.cut_apply_of_not_stale hstale]

/-- A change that tells under a condition. -/
theorem change_cut_iff {P : Prop} (htells : P → F.Tells t₂) (hforgets : ¬P → F.Forgets t₂)
    (ht : t₁ ≤ t₂) :
    (v.change t₁ key F).cut t₂ = (v.cut t₂).change t₂ key F ↔ ¬(P ∧ v.Stale t₂ key) := by
  by_cases hP : P
  · rw [(htells hP).change_cut_iff ht, and_iff_right hP]
  · exact iff_of_true ((hforgets hP).change_cut ht) fun h => hP h.1

variable {α : Type} {get : Content → Option α} {absent : Option α} {f : α → Option Content}

/-- Nothing that an edit makes of an entry outlives its deadline. -/
theorem filter_edit_some {e : Entry} (he : e.isLive t = false) :
    (edit get absent f (some e)).filter (·.isLive t) = none := by
  have hdead : ∀ x : Entry, x.expiresAt = e.expiresAt → (some x).filter (·.isLive t) = none := by
    intro x hx
    have hl : x.isLive t = false := by
      unfold Entry.isLive at he ⊢
      rw [hx]
      exact he
    simp [Option.filter, hl]
  cases hedit : edit get absent f (some e) with
  | none => rfl
  | some x =>
    exact hdead x (expiresAt_edit hedit)

/-- What an edit makes of no entry has no deadline. -/
theorem filter_edit_none :
    (edit get absent f none).filter (·.isLive t) = edit get absent f none := by
  cases hedit : edit get absent f none with
  | none => rfl
  | some x =>
    have hlive : x.isLive t = true := by
      unfold Entry.isLive
      rw [expiresAt_edit hedit]
      rfl
    simp [Option.filter, hlive]

theorem edit_forgets (h : edit get absent f none = none) : (edit get absent f).Forgets t := by
  intro e he
  rw [filter_edit_some he, h]
  rfl

theorem edit_tells (h : edit get absent f none ≠ none) : (edit get absent f).Tells t := by
  intro e he
  rw [filter_edit_some he, filter_edit_none]
  exact h.symm

/-! ## Strings and deadlines -/

theorem takeString_forgets : takeString.Forgets t := by
  rintro ⟨c, d⟩ he
  cases c with
  | string bytes => rfl
  | _ =>
    show (some _).filter _ = none
    simp [Option.filter, he]

theorem setDeadline_none_tells : (setDeadline none).Tells t := by
  intro e _
  show (some { e with expiresAt := none }).filter (·.isLive t) ≠ none
  exact nofun

theorem filter_setDeadline (d : Nat) (e : Entry) :
    (setDeadline (some d) (some e)).filter (·.isLive t) =
      if t < d then some { e with expiresAt := some d } else none := by
  have hlive : ({ e with expiresAt := some d } : Entry).isLive t = true ↔ t < d := Entry.isLive_iff rfl
  show (some _).filter _ = _
  split
  · next h => exact Option.filter_eq_some_iff.mpr ⟨rfl, hlive.mpr h⟩
  · next h =>
    refine Option.filter_eq_none_iff.mpr ?_
    rintro _ ⟨⟩ hl
    exact h (hlive.mp hl)

theorem setDeadline_tells {d : Nat} (h : t < d) : (setDeadline (some d)).Tells t := by
  intro e _
  rw [filter_setDeadline, if_pos h]
  exact nofun

theorem setDeadline_forgets {d : Nat} (h : ¬t < d) : (setDeadline (some d)).Forgets t := by
  intro e _
  rw [filter_setDeadline, if_neg h]
  rfl

/-- A deadline, where there is one, is still to come. -/
def Ahead (t : Nat) (deadline : Option Nat) : Prop := ∀ d, deadline = some d → t < max 1 d

theorem filter_new (value : Bytes) (deadline : Option Nat) :
    (some ⟨.string value, deadline.map (max 1)⟩ : Option Entry).filter (·.isLive t) = none ↔
      ¬Ahead t deadline := by
  cases deadline with
  | none => simp [Ahead, Option.filter, Entry.isLive]
  | some d => simp [Ahead, Option.filter, Entry.isLive]

theorem setString_always_forgets (value : Bytes) (deadline : Option Nat) :
    (setString value .always deadline).Forgets t := fun _ _ => rfl

theorem filter_dead {e : Entry} (he : e.isLive t = false) :
    (some e).filter (·.isLive t) = none := by
  simp [Option.filter, he]

theorem setString_tells {value : Bytes} {condition : SetCondition} {deadline : Option Nat}
    (hc : condition ≠ .always) (h : Ahead t deadline) :
    (setString value condition deadline).Tells t := by
  intro e he
  have hnew := mt (filter_new (t := t) value deadline).mp (not_not_intro h)
  cases condition with
  | always => exact absurd rfl hc
  | ifAbsent =>
    show (some e).filter _ ≠ _
    rw [filter_dead he]
    exact hnew ∘ Eq.symm
  | ifPresent => exact hnew

theorem setString_forgets {value : Bytes} {condition : SetCondition} {deadline : Option Nat}
    (h : ¬Ahead t deadline) : (setString value condition deadline).Forgets t := by
  intro e he
  have hnew := (filter_new (t := t) value deadline).mpr h
  cases condition with
  | always => rfl
  | ifAbsent => exact (filter_dead he).trans hnew.symm
  | ifPresent => exact hnew

/-! ## Edits of an absent key -/

theorem edit_none_ne_none {a : α} {c : Content} (hf : f a = some c) (hc : c.isEmpty = false) :
    edit get (some a) f none ≠ none := by
  rw [edit_of_some (show read get (some a) none = some a from rfl) hf,
    Entry.store_of_nonempty hc]
  exact nofun

theorem incrBy_tells {n : Int} (hn : IntFormat.int64.Fits n) : (incrBy n).Tells t := by
  refine edit_tells (edit_none_ne_none (c := .string (Decimal.ofInt n)) ?_ rfl)
  rw [IntFormat.add?_eq_some_iff.mpr ⟨Int.zero_add n, (Int.zero_add n).symm ▸ hn⟩]
  rfl

theorem append_tells (value : Bytes) : (append value).Tells t :=
  edit_tells (edit_none_ne_none rfl rfl)

theorem incrByFloat_tells {x : Binary64} (hx : (Binary64.zero + x).isFinite = true) :
    (incrByFloat x).Tells t := by
  refine edit_tells (edit_none_ne_none (c := .string (Binary64.zero + x).text) ?_ rfl)
  rw [if_pos hx]

theorem incrByFloat_forgets {x : Binary64} (hx : ¬(Binary64.zero + x).isFinite = true) :
    (incrByFloat x).Forgets t := by
  apply edit_forgets
  exact edit_of_refused (x := .zero) rfl (if_neg hx)

theorem push_tells (place : ListEnd) {values : List Bytes} (hne : values ≠ []) :
    (push place values).Tells t := by
  refine edit_tells (edit_none_ne_none rfl ?_)
  have hextend : place.extend values [] ≠ [] := by
    cases place with
    | left => simpa [ListEnd.extend] using hne
    | right => simpa [ListEnd.extend] using hne
  exact List.isEmpty_eq_false_iff.mpr hextend

theorem putFields_tells {pairs : List (String × Bytes)} (hne : pairs ≠ []) :
    (putFields pairs).Tells t := by
  refine edit_tells (edit_none_ne_none rfl (decide_eq_false fun hempty => ?_))
  obtain ⟨key, hkey⟩ := HashCommand.exists_mem_foldl_insert hne ∅
  rw [hempty] at hkey
  exact Finmap.notMem_empty hkey

theorem incrField_tells (field : String) {n : Int} (hn : IntFormat.int64.Fits n) :
    (incrField field n).Tells t := by
  have hsum : fieldSum? none n = some n :=
    IntFormat.add?_eq_some_iff.mpr ⟨Int.zero_add n, (Int.zero_add n).symm ▸ hn⟩
  have hfresh : (fieldSum? ((∅ : Finmap fun _ : String => Bytes).lookup field) n).map
      (fun n => Content.hash ((∅ : Finmap fun _ => Bytes).insert field (Decimal.ofInt n))) =
      some (.hash ((∅ : Finmap fun _ => Bytes).insert field (Decimal.ofInt n))) := by
    rw [Finmap.lookup_empty, hsum]
    rfl
  exact edit_tells (edit_none_ne_none hfresh (Content.isEmpty_hash_insert ..))

theorem addMembers_tells {members : List String} (hne : members ≠ []) :
    (addMembers members).Tells t := by
  refine edit_tells (edit_none_ne_none rfl (decide_eq_false fun hempty => hne ?_))
  rw [Finset.union_eq_empty, List.toFinset_eq_empty_iff] at hempty
  exact hempty.2

theorem putScores_tells {options : InsertOptions} {entries : List (Binary64 × String)}
    (hexisting : options.onlyExisting = false) (hne : entries ≠ []) :
    (putScores options entries).Tells t := by
  have hnil : entries.foldl (Element.putIf options) [] ≠ [] := by
    cases entries using List.reverseRecOn with
    | nil => exact absurd rfl hne
    | append_singleton entries e =>
      rw [List.foldl_append]
      exact Element.putIf_ne_nil hexisting _ e
  unfold putScores
  rw [hexisting]
  exact edit_tells (edit_none_ne_none rfl (List.isEmpty_eq_false_iff.mpr hnil))

theorem putScores_forgets {options : InsertOptions} {entries : List (Binary64 × String)}
    (h : ¬(options.onlyExisting = false ∧ entries ≠ [])) : (putScores options entries).Forgets t := by
  apply edit_forgets
  cases hexisting : options.onlyExisting with
  | true => rfl
  | false =>
    have hnil : entries = [] := not_not.mp fun hne => h ⟨hexisting, hne⟩
    rw [hnil]
    rfl

theorem incrScore_tells (member : String) {x : Binary64}
    (hx : (Binary64.zero + x).isNaN = false) : (incrScore x member).Tells t := by
  have hfresh : (if (Binary64.zero + x).isNaN = true then none
      else some (Content.sortedSet (Element.put member (Binary64.zero + x) []))) =
      some (.sortedSet (Element.put member (Binary64.zero + x) [])) := by
    rw [if_neg (by rw [hx]; exact Bool.false_ne_true)]
  have hne : Element.put member (Binary64.zero + x) [] ≠ [] := Element.put_ne_nil member _ []
  have hnonempty : (Content.sortedSet (Element.put member (Binary64.zero + x) [])).isEmpty = false :=
    List.isEmpty_eq_false_iff.mpr hne
  exact edit_tells (edit_none_ne_none hfresh hnonempty)

theorem incrScore_forgets (member : String) {x : Binary64}
    (hx : ¬(Binary64.zero + x).isNaN = false) : (incrScore x member).Forgets t := by
  apply edit_forgets
  exact edit_of_refused (x := []) rfl (if_pos (Bool.not_eq_false _ ▸ hx))

end Change

end RespStore
