import RespStore.Proofs.Command.Answer.SortedSet

/-!
# Insertions into sorted sets

What a list of scored members makes of the elements of a sorted set, one entry after the other and
under any options.
-/

namespace RespStore

namespace Element

variable {es : List Element} {e : Element} {member m : String} {x y : Binary64}
  {options : InsertOptions} {entry : Binary64 × String} {entries : List (Binary64 × String)}

theorem insertSorted_perm (e : Element) (es : List Element) : (insertSorted e es).Perm (e :: es) :=
  List.perm_middle.trans (List.Perm.cons e (List.filter_append_perm _ es))

theorem notMem_keys_without (member : String) (es : List Element) :
    member ∉ (without member es).map Prod.fst := by
  intro h
  obtain ⟨e, he, rfl⟩ := List.mem_map.mp h
  exact (mem_without.mp he).2 rfl

/-! ## One member -/

/-- A member stays where it is if it has an equal score, and otherwise comes to its place. -/
theorem put_cases (member : String) (x : Binary64) (es : List Element) :
    (∃ y, scoreOf member es = some y ∧ y.equal x = true ∧ put member x es = es) ∨
      put member x es = insertSorted (member, x) (without member es) := by
  unfold put
  cases hm : scoreOf member es with
  | none => exact .inr rfl
  | some y =>
    cases hequal : y.equal x with
    | true => exact .inl ⟨y, rfl, hequal, if_pos hequal⟩
    | false => exact .inr (if_neg (by rw [Option.any_some, hequal]; exact Bool.false_ne_true))

theorem keysNodup_put (h : KeysNodup es) (member : String) (x : Binary64) :
    KeysNodup (put member x es) := by
  rcases put_cases member x es with ⟨y, -, -, hput⟩ | hput
  · rw [hput]
    exact h
  · rw [hput]
    refine KeysNodup.of_perm ?_ (insertSorted_perm _ _).symm
    exact List.nodup_cons.mpr ⟨notMem_keys_without member es, h.filter _⟩

/-- A member that is put has the score, or has kept one that is equal to it. -/
theorem scoreOf_put_self (h : KeysNodup es) (hx : x.isNaN = false) (member : String) :
    ∃ y, scoreOf member (put member x es) = some y ∧ y.equal x = true := by
  rcases put_cases member x es with ⟨y, hy, hequal, hput⟩ | hput
  · rw [hput]
    exact ⟨y, hy, hequal⟩
  · refine ⟨x, ?_, (Binary64.equal_iff hx hx).mpr rfl⟩
    refine (lookup_eq_some_iff (keysNodup_put h member x)).mpr ?_
    rw [hput]
    exact mem_insertSorted.mpr (.inl rfl)

theorem scoreOf_put_of_ne (h : KeysNodup es) (hm : m ≠ member) (x : Binary64) :
    scoreOf m (put member x es) = scoreOf m es := by
  refine Option.ext fun y => ?_
  unfold scoreOf
  rw [lookup_eq_some_iff (keysNodup_put h member x), lookup_eq_some_iff h]
  rcases put_cases member x es with ⟨_, -, -, hput⟩ | hput
  · rw [hput]
  · rw [hput, mem_insertSorted, mem_without]
    exact ⟨fun h => h.elim (fun h => absurd (congrArg Prod.fst h) hm) And.left,
      fun h => .inr ⟨h, hm⟩⟩

theorem length_put (h : KeysNodup es) (member : String) (x : Binary64) :
    (put member x es).length = es.length + if (scoreOf member es).isSome then 0 else 1 := by
  rcases put_cases member x es with ⟨y, hy, -, hput⟩ | hput
  · rw [hput, hy]
    rfl
  · rw [hput, (insertSorted_perm _ _).length_eq, List.length_cons, ← length_without h member]
    split <;> omega

/-! ## One entry -/

theorem putIf_of_none (hm : scoreOf entry.2 es = none) :
    putIf options es entry = if options.onlyExisting then es else put entry.2 entry.1 es := by
  rw [putIf, hm]
  rfl

theorem putIf_of_some (hm : scoreOf entry.2 es = some y) :
    putIf options es entry = if options.onlyNew then es else put entry.2 entry.1 es := by
  rw [putIf, hm]
  rfl

/-- An entry is put, or it is left aside. -/
theorem putIf_cases (options : InsertOptions) (es : List Element) (entry : Binary64 × String) :
    putIf options es entry = es ∨ putIf options es entry = put entry.2 entry.1 es := by
  cases hm : scoreOf entry.2 es with
  | none =>
    rw [putIf_of_none hm]
    cases options.onlyExisting with
    | true => exact .inl rfl
    | false => exact .inr rfl
  | some y =>
    rw [putIf_of_some hm]
    cases options.onlyNew with
    | true => exact .inl rfl
    | false => exact .inr rfl

theorem keysNodup_putIf (h : KeysNodup es) (options : InsertOptions) (entry : Binary64 × String) :
    KeysNodup (putIf options es entry) := by
  rcases putIf_cases options es entry with hput | hput <;> rw [hput]
  · exact h
  · exact keysNodup_put h _ _

theorem scoreOf_putIf_of_ne (h : KeysNodup es) (hm : m ≠ entry.2) :
    scoreOf m (putIf options es entry) = scoreOf m es := by
  rcases putIf_cases options es entry with hput | hput <;> rw [hput]
  exact scoreOf_put_of_ne h hm _

theorem length_putIf (h : KeysNodup es) (hoptions : options.changed = false) :
    (putIf options es entry).length =
      es.length + SortedSetCommand.counted options es entry := by
  unfold SortedSetCommand.counted
  cases hm : scoreOf entry.2 es with
  | none =>
    rw [putIf_of_none hm]
    cases options.onlyExisting with
    | true => rfl
    | false =>
      refine (length_put h _ _).trans ?_
      rw [hm]
      rfl
  | some y =>
    have hcounted : (if options.onlyNew || y.equal entry.1 then 0
        else if options.changed then 1 else 0) = 0 := by
      rw [hoptions]
      split <;> rfl
    rw [putIf_of_some hm]
    dsimp only
    rw [hcounted]
    cases options.onlyNew with
    | true => rfl
    | false =>
      refine (length_put h _ _).trans ?_
      rw [hm]
      rfl

/-- A member that is there before keeps its score if only new ones are let in. -/
theorem scoreOf_putIf_of_onlyNew (h : KeysNodup es) (hnew : options.onlyNew = true)
    (hm : scoreOf m es = some x) : scoreOf m (putIf options es entry) = some x := by
  by_cases heq : m = entry.2
  · rw [putIf_of_some (heq ▸ hm), if_pos hnew, hm]
  · rw [scoreOf_putIf_of_ne h heq, hm]

/-- A member that is not there before is not let in among those that are. -/
theorem scoreOf_putIf_of_onlyExisting (h : KeysNodup es) (hexisting : options.onlyExisting = true)
    (hm : scoreOf m es = none) : scoreOf m (putIf options es entry) = none := by
  by_cases heq : m = entry.2
  · rw [putIf_of_none (heq ▸ hm), if_pos hexisting, hm]
  · rw [scoreOf_putIf_of_ne h heq, hm]

theorem equal_of_scoreOf_putIf (h : KeysNodup es) (hx : entry.1.isNaN = false)
    (hnew : options.onlyNew = false) (hy : scoreOf entry.2 (putIf options es entry) = some y) :
    y.equal entry.1 = true := by
  obtain ⟨z, hz, hequal⟩ := scoreOf_put_self h hx entry.2
  have hput : putIf options es entry = put entry.2 entry.1 es := by
    cases hm : scoreOf entry.2 es with
    | none =>
      rw [putIf_of_none hm] at hy ⊢
      cases hexisting : options.onlyExisting with
      | true =>
        rw [hexisting, if_pos rfl, hm] at hy
        cases hy
      | false => rfl
    | some x => rw [putIf_of_some hm, hnew]; rfl
  rw [hput, hz] at hy
  cases hy
  exact hequal

/-! ## All entries -/

/-- What the entries of an insertion leave of the scores of a sorted set. -/
structure Inserts (options : InsertOptions) (entries : List (Binary64 × String))
    (es es' : List Element) : Prop where
  kept : options.onlyNew = true → ∀ m x, scoreOf m es = some x → scoreOf m es' = some x
  existing : options.onlyExisting = true → ∀ m, scoreOf m es = none → scoreOf m es' = none
  last : options.onlyNew = false → ∀ earlier x m later, entries = earlier ++ (x, m) :: later →
    m ∉ later.map (·.2) → ∀ y, scoreOf m es' = some y → y.equal x = true

/-- Nothing gets into an empty sorted set among its members. -/
theorem foldl_putIf_nil (h : options.onlyExisting = true)
    (entries : List (Binary64 × String)) : entries.foldl (putIf options) [] = [] := by
  induction entries with
  | nil => rfl
  | cons entry entries ih =>
    have hput : putIf options [] entry = [] := by
      rw [putIf_of_none rfl, if_pos h]
    rw [List.foldl_cons, hput, ih]

theorem keysNodup_foldl_putIf (h : KeysNodup es) (options : InsertOptions)
    (entries : List (Binary64 × String)) : KeysNodup (entries.foldl (putIf options) es) := by
  induction entries generalizing es with
  | nil => exact h
  | cons entry entries ih => exact ih (keysNodup_putIf h options entry)

theorem length_foldl_putIf (h : KeysNodup es) (hoptions : options.changed = false)
    (entries : List (Binary64 × String)) :
    (entries.foldl (putIf options) es).length =
      es.length + SortedSetCommand.inserted options entries es := by
  induction entries generalizing es with
  | nil => rfl
  | cons entry entries ih =>
    rw [List.foldl_cons, ih (keysNodup_putIf h options entry), length_putIf h hoptions,
      SortedSetCommand.inserted, Nat.add_assoc]

theorem scoreOf_foldl_putIf_of_notMem (h : KeysNodup es) (hm : m ∉ entries.map (·.2)) :
    scoreOf m (entries.foldl (putIf options) es) = scoreOf m es := by
  induction entries generalizing es with
  | nil => rfl
  | cons entry entries ih =>
    obtain ⟨hne, hrest⟩ := not_or.mp (List.mem_cons.not.mp hm)
    exact (ih (keysNodup_putIf h options entry) hrest).trans (scoreOf_putIf_of_ne h hne)

theorem inserts_foldl_putIf (h : KeysNodup es) (options : InsertOptions)
    (hx : ∀ entry ∈ entries, entry.1.isNaN = false) :
    Inserts options entries es (entries.foldl (putIf options) es) where
  kept := by
    intro hnew m x hm
    clear hx
    induction entries generalizing es with
    | nil => exact hm
    | cons entry entries ih =>
      exact ih (keysNodup_putIf h options entry) (scoreOf_putIf_of_onlyNew h hnew hm)
  existing := by
    intro hexisting m hm
    clear hx
    induction entries generalizing es with
    | nil => exact hm
    | cons entry entries ih =>
      exact ih (keysNodup_putIf h options entry) (scoreOf_putIf_of_onlyExisting h hexisting hm)
  last := by
    rintro hnew earlier x m later rfl hm y hy
    have hkeys := keysNodup_foldl_putIf h options earlier
    have hentry : (x, m).1.isNaN = false := hx (x, m) (by simp)
    rw [List.foldl_append, List.foldl_cons,
      scoreOf_foldl_putIf_of_notMem (keysNodup_putIf hkeys options (x, m)) hm] at hy
    exact equal_of_scoreOf_putIf hkeys hentry hnew hy

end Element

end RespStore
