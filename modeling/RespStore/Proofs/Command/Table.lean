import RespStore.Proofs.Command.Arguments
import RespStore.Proofs.Command.Write

/-!
# Commands read by the table

Every command that the table reads from the arguments of a request fits the entry that read it.
-/

namespace RespStore

namespace CommandSpec

open ArgReader

/-- What an entry reads from arguments of which it accepts the number fits it. -/
def Sound (spec : CommandSpec) : Prop :=
  ∀ args : List Frame, spec.arity.accepts args.length →
    Yields spec.read args fun c _ => spec.Fits c

theorem fits_of_read {spec : CommandSpec} {c : Command} (hp : c.Proper) (hread : spec.write = false)
    (hkeeps : c.isFlushAll = false) (hnothing : ∀ now popped, c.write now popped = .nothing)
    (hname : c.rewriting = Rewriting.ofName spec.name) : spec.Fits c where
  proper := hp
  readsOnly := fun _ => ⟨hkeeps, hnothing⟩
  stays := fun h => absurd (hread.symm.trans h) Bool.false_ne_true
  rewriting := hname

theorem fits_of_write {spec : CommandSpec} {c : Command} (hp : c.Proper) (hwrite : spec.write = true)
    (hstays : c.isSelect = false) (hname : c.rewriting = Rewriting.ofName spec.name) :
    spec.Fits c where
  proper := hp
  readsOnly := fun h => absurd (h.symm.trans hwrite) Bool.false_ne_true
  stays := fun _ => hstays
  rewriting := hname

/-- An entry is sound if all that it ever reads fits it. -/
theorem sound_of_all {spec : CommandSpec} {α : Type} {r : ArgReader α} {f : α → Command}
    (hread : spec.read = f <$> r)
    (h : ∀ args, Yields r args fun c _ => spec.Fits (f c)) : spec.Sound := by
  intro args _
  rw [hread]
  exact yields_map (h _)

theorem sound_of_pure {spec : CommandSpec} {c : Command} (hread : spec.read = pure c)
    (h : spec.Fits c) : spec.Sound := by
  intro args _
  rw [hread]
  exact yields_pure h

theorem sound_select {spec : CommandSpec}
    (hread : spec.read = .server <$> ServerCommand.readSelect) (hwrite : spec.write = false)
    (hname : Rewriting.none = Rewriting.ofName spec.name) : spec.Sound := by
  refine sound_of_all hread fun args => ?_
  apply yields_bind_any
  intro n _
  split
  · refine yields_pure (fits_of_read ?_ hwrite rfl (fun _ _ => rfl) hname)
    show n.toInt.toNat ≤ Command.maxInteger
    have hlt := n.toInt_lt
    unfold Command.maxInteger
    omega
  · exact yields_fail _

theorem sound_serverCommands : ∀ spec ∈ serverCommands, spec.Sound := by
  intro spec hspec
  simp only [serverCommands, List.mem_cons, List.not_mem_nil, or_false] at hspec
  rcases hspec with rfl | rfl | rfl | rfl | rfl | rfl | rfl | rfl | rfl
  case' inr.inr.inl => exact sound_select rfl rfl rfl
  case' inr.inr.inr.inl => exact sound_of_pure rfl (fits_of_read trivial rfl rfl (fun _ _ => rfl) rfl)
  case' inr.inr.inr.inr.inl =>
    exact sound_of_pure rfl (fits_of_read trivial rfl rfl (fun _ _ => rfl) rfl)
  all_goals
    refine sound_of_all rfl fun args => ?_
    repeat' first
      | exact yields_pure (fits_of_read trivial rfl rfl (fun _ _ => rfl) rfl)
      | exact yields_pure (fits_of_write trivial rfl rfl rfl)
      | exact yields_fail _
      | refine yields_bind_any fun _ _ => ?_
      | split

theorem sound_keyCommands : ∀ spec ∈ keyCommands, spec.Sound := by
  intro spec hspec
  simp only [keyCommands, List.mem_cons, List.not_mem_nil, or_false] at hspec
  rcases hspec with rfl | rfl | rfl | rfl | rfl | rfl | rfl | rfl | rfl | rfl | rfl | rfl
  case' inr.inr.inr.inr.inl =>
    exact sound_of_pure rfl (fits_of_read trivial rfl rfl (fun _ _ => rfl) rfl)
  all_goals
    refine sound_of_all rfl fun args => ?_
    repeat' first
      | exact yields_pure (fits_of_read trivial rfl rfl (fun _ _ => rfl) rfl)
      | exact yields_pure (fits_of_write trivial rfl rfl rfl)
      | refine yields_bind_any fun _ _ => ?_

theorem sound_stringCommands : ∀ spec ∈ stringCommands, spec.Sound := by
  intro spec hspec
  simp only [stringCommands, List.mem_cons, List.not_mem_nil, or_false] at hspec
  rcases hspec with rfl | rfl | rfl | rfl | rfl | rfl | rfl | rfl | rfl | rfl | rfl | rfl | rfl
  all_goals
    refine sound_of_all rfl fun args => ?_
    repeat' first
      | exact yields_pure (fits_of_read trivial rfl rfl (fun _ _ => rfl) rfl)
      | exact yields_pure (fits_of_write trivial rfl rfl rfl)
      | refine yields_bind_any fun _ _ => ?_

/-- A push has two arguments or more, so that something is left to push after the key. -/
theorem sound_push {spec : CommandSpec} (place : ListEnd)
    (hread : spec.read = .list <$> ListCommand.readPush place) (harity : spec.arity = .atLeast 2)
    (hwrite : spec.write = true) (hname : Rewriting.none = Rewriting.ofName spec.name) :
    spec.Sound := by
  intro args hargs
  have hlen : 2 ≤ args.length := by simpa [harity, Arity.accepts] using hargs
  rw [hread]
  apply yields_map
  apply yields_bind
  intro key rest hkey
  have hrest := yields_text key rest hkey
  apply yields_bind
  intro n rest' hn
  obtain ⟨rfl, rfl⟩ := yields_remaining n rest' hn
  apply yields_bind
  intro values rest'' hvalues
  have hcount := yields_times _ _ _ values rest'' hvalues
  refine yields_pure (fits_of_write ?_ hwrite rfl hname)
  show values ≠ []
  rintro rfl
  simp only [List.length_nil] at hcount
  omega

theorem sound_listCommands : ∀ spec ∈ listCommands, spec.Sound := by
  intro spec hspec
  simp only [listCommands, List.mem_cons, List.not_mem_nil, or_false] at hspec
  rcases hspec with rfl | rfl | rfl | rfl | rfl | rfl | rfl | rfl | rfl | rfl | rfl
  case' inl => exact sound_push .left rfl rfl rfl rfl
  case' inr.inl => exact sound_push .right rfl rfl rfl rfl
  all_goals
    refine sound_of_all rfl fun args => ?_
    repeat' first
      | exact yields_pure (fits_of_read trivial rfl rfl (fun _ _ => rfl) rfl)
      | exact yields_pure (fits_of_write trivial rfl rfl rfl)
      | exact yields_fail _
      | refine yields_bind_any fun _ _ => ?_
      | split

theorem sound_hset {spec : CommandSpec} (hread : spec.read = .hash <$> HashCommand.readSet)
    (harity : spec.arity = .atLeast 3) (hwrite : spec.write = true)
    (hname : Rewriting.none = Rewriting.ofName spec.name) : spec.Sound := by
  intro args hargs
  have hlen : 3 ≤ args.length := by simpa [harity, Arity.accepts] using hargs
  rw [hread]
  apply yields_map
  apply yields_bind
  intro key rest hkey
  have hrest := yields_text key rest hkey
  apply yields_bind
  intro ps rest' hps
  have hcount := yields_pairs _ _ _ _ ps rest' hps
  refine yields_pure (fits_of_write ?_ hwrite rfl hname)
  show ps ≠ []
  rintro rfl
  simp only [List.length_nil] at hcount
  omega

theorem sound_hashCommands : ∀ spec ∈ hashCommands, spec.Sound := by
  intro spec hspec
  simp only [hashCommands, List.mem_cons, List.not_mem_nil, or_false] at hspec
  rcases hspec with rfl | rfl | rfl | rfl | rfl | rfl | rfl | rfl | rfl
  case' inl => exact sound_hset rfl rfl rfl rfl
  all_goals
    refine sound_of_all rfl fun args => ?_
    repeat' first
      | exact yields_pure (fits_of_read trivial rfl rfl (fun _ _ => rfl) rfl)
      | exact yields_pure (fits_of_write trivial rfl rfl rfl)
      | refine yields_bind_any fun _ _ => ?_

theorem sound_sadd {spec : CommandSpec} (hread : spec.read = .set <$> SetCommand.readAdd)
    (harity : spec.arity = .atLeast 2) (hwrite : spec.write = true)
    (hname : Rewriting.none = Rewriting.ofName spec.name) : spec.Sound := by
  intro args hargs
  have hlen : 2 ≤ args.length := by simpa [harity, Arity.accepts] using hargs
  rw [hread]
  apply yields_map
  apply yields_bind
  intro key rest hkey
  have hrest := yields_text key rest hkey
  apply yields_bind
  intro members rest' hmembers
  have hcount := yields_texts _ members rest' hmembers
  refine yields_pure (fits_of_write ?_ hwrite rfl hname)
  show members ≠ []
  rintro rfl
  simp only [List.length_nil] at hcount
  omega

theorem sound_setCommands : ∀ spec ∈ setCommands, spec.Sound := by
  intro spec hspec
  simp only [setCommands, List.mem_cons, List.not_mem_nil, or_false] at hspec
  rcases hspec with rfl | rfl | rfl | rfl | rfl | rfl | rfl
  case' inl => exact sound_sadd rfl rfl rfl rfl
  all_goals
    refine sound_of_all rfl fun args => ?_
    repeat' first
      | exact yields_pure (fits_of_read trivial rfl rfl (fun _ _ => rfl) rfl)
      | exact yields_pure (fits_of_write trivial rfl rfl rfl)
      | refine yields_bind_any fun _ _ => ?_

theorem yields_scoredMembers (texts : List String) (args : List Frame) :
    Yields (SortedSetCommand.scoredMembers texts) args fun entries _ =>
      ∀ e ∈ entries, e.1.isNaN = false := by
  induction texts using SortedSetCommand.scoredMembers.induct generalizing args with
  | case1 number member texts x hx ih =>
    rw [SortedSetCommand.scoredMembers, hx]
    apply yields_bind
    intro entries rest hrest
    exact yields_pure (List.forall_mem_cons.mpr
      ⟨isNaN_of_readNumber? hx, ih args entries rest hrest⟩)
  | case2 number member texts hx =>
    rw [SortedSetCommand.scoredMembers, hx]
    exact yields_fail _
  | case3 texts h =>
    unfold SortedSetCommand.scoredMembers
    split
    · exact (h _ _ _ rfl).elim
    · exact yields_pure nofun

theorem sound_zadd {spec : CommandSpec} (hread : spec.read = .sortedSet <$> SortedSetCommand.readAdd)
    (hwrite : spec.write = true) (hname : Rewriting.none = Rewriting.ofName spec.name) :
    spec.Sound := by
  refine sound_of_all hread fun args => ?_
  apply yields_bind_any
  intro key rest
  apply yields_bind_any
  intro texts rest
  dsimp only
  split
  · exact yields_fail _
  · split
    · exact yields_fail _
    · apply yields_bind
      intro entries rest' hentries
      exact yields_pure
        (fits_of_write (yields_scoredMembers _ _ entries rest' hentries) hwrite rfl hname)

theorem sound_zremrangebyscore {spec : CommandSpec}
    (hread : spec.read = .sortedSet <$> SortedSetCommand.readRemoveByScore)
    (hwrite : spec.write = true) (hname : Rewriting.none = Rewriting.ofName spec.name) :
    spec.Sound := by
  refine sound_of_all hread fun args => ?_
  apply yields_bind_any
  intro key rest
  apply yields_bind
  intro r rest' hr
  obtain ⟨hmin, hmax⟩ := yields_scoreRange _ r rest' hr
  exact yields_pure (fits_of_write ⟨hmin, hmax⟩ hwrite rfl hname)

theorem sound_sortedSetCommands : ∀ spec ∈ sortedSetCommands, spec.Sound := by
  intro spec hspec
  simp only [sortedSetCommands, List.mem_cons, List.not_mem_nil, or_false] at hspec
  rcases hspec with rfl | rfl | rfl | rfl | rfl | rfl | rfl | rfl | rfl | rfl | rfl | rfl | rfl
  case' inl => exact sound_zadd rfl rfl rfl
  case' inr.inr.inr.inr.inr.inr.inr.inr.inr.inr.inr.inl =>
    exact sound_zremrangebyscore rfl rfl rfl
  all_goals
    refine sound_of_all rfl fun args => ?_
    repeat' first
      | exact yields_pure (fits_of_read trivial rfl rfl (fun _ _ => rfl) rfl)
      | exact yields_pure (fits_of_write trivial rfl rfl rfl)
      | exact yields_fail _
      | refine yields_bind_any fun _ _ => ?_
      | split

theorem sound_table : ∀ spec ∈ table, spec.Sound := by
  simp only [table, List.forall_mem_append]
  exact ⟨⟨⟨⟨⟨⟨sound_serverCommands, sound_keyCommands⟩, sound_stringCommands⟩,
    sound_listCommands⟩, sound_hashCommands⟩, sound_setCommands⟩, sound_sortedSetCommands⟩

end CommandSpec

namespace Command

open ArgReader

/-- The name that is read is the one under which the table looks the request up. -/
theorem yields_readName (args : List Frame) : Yields readName args fun name _ =>
    CommandSpec.ofRequest? (.array args) = CommandSpec.lookup? name := by
  intro name rest hrun
  cases args with
  | nil => cases hrun
  | cons f args =>
    have hnext : readName.run (f :: args) = _ := run_bind_ok (run_next f args)
    rw [hnext] at hrun
    cases f with
    | simple s =>
      cases hrun
      rfl
    | bulk bs =>
      cases hs : Utf8.decode? bs with
      | none =>
        simp only [hs] at hrun
        cases hrun
      | some s =>
        simp only [hs] at hrun
        cases hrun
        exact congrArg (Option.bind · _) hs
    | _ => cases hrun

/-- A command comes from the reader of the entry that its request names. -/
def ReadUnder (spec : CommandSpec) (frame : Frame) (c : Command) : Prop :=
  CommandSpec.ofRequest? frame = some spec ∧ CommandSpec.lookup? spec.name = some spec ∧
    ∃ args rest, spec.arity.accepts args.length = true ∧ spec.read.run args = .ok (c, rest)

theorem yields_read_under (args : List Frame) :
    Yields read args fun c _ => ∃ spec, ReadUnder spec (.array args) c := by
  apply yields_bind
  intro name rest hname
  have hrequest := yields_readName args name rest hname
  split
  · exact yields_fail _
  · next spec hlookup =>
    have hspec := List.find?_some (p := fun spec : CommandSpec => spec.name == name) hlookup
    apply yields_bind
    intro n rest' hn
    obtain ⟨rfl, rfl⟩ := yields_remaining n rest' hn
    split
    · next haccepts =>
      intro c left hrun
      refine ⟨spec, hrequest.trans hlookup, ?_, rest', left, haccepts, hrun⟩
      rw [eq_of_beq hspec]
      exact hlookup
    · exact yields_fail _

theorem exists_readUnder_of_ofFrame {frame : Frame} {c : Command} (h : ofFrame frame = .ok c) :
    ∃ spec, ReadUnder spec frame c := by
  cases frame with
  | array parts =>
    cases hrun : read.run parts with
    | error e =>
      rw [ofFrame, hrun] at h
      cases h
    | ok p =>
      rw [ofFrame, hrun] at h
      cases h
      exact yields_read_under parts p.1 p.2 hrun
  | _ => cases h

theorem ReadUnder.fits {spec : CommandSpec} {frame : Frame} {c : Command}
    (h : ReadUnder spec frame c) : spec.Fits c := by
  obtain ⟨-, hlookup, args, rest, haccepts, hrun⟩ := h
  exact CommandSpec.sound_table spec (List.mem_of_find?_eq_some hlookup) args haccepts c rest hrun

/-- Whatever frame a command is read from, it fits the entry of the table that the frame names. -/
theorem exists_fits_of_ofFrame {frame : Frame} {c : Command} (h : ofFrame frame = .ok c) :
    ∃ spec, CommandSpec.ofRequest? frame = some spec ∧ spec.Fits c := by
  obtain ⟨spec, hread⟩ := exists_readUnder_of_ofFrame h
  exact ⟨spec, hread.1, hread.fits⟩

end Command

end RespStore
