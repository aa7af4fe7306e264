import RespStore.Number.Binary64.Read
import RespStore.Proofs.Number.Binary64.Shortest

/-!
# Reading back written doubles

A numeral is read as the double nearest to the value that its digits, its point and its exponent denote.
The notations of a decimal denote its value, so a number that is no NaN is read back from its text.
-/

namespace RespStore

namespace Decimal

theorem nat?_eq_digitsFrom? {bs : Bytes} (h : bs ≠ []) : nat? bs = digitsFrom? 0 bs := by
  obtain ⟨b, rest, rfl⟩ := List.exists_cons_of_ne_nil h
  exact nat?_cons b rest

theorem digitsFrom?_zeros (n k : Nat) :
    digitsFrom? n (List.replicate k Ascii.zero) = some (n * 10 ^ k) := by
  induction k generalizing n with
  | zero => simp [digitsFrom?]
  | succ k ih =>
    have hzero : digit? Ascii.zero = some 0 := rfl
    rw [List.replicate_succ, digitsFrom?, hzero, Option.bind_some, ih, Nat.pow_succ, Nat.add_zero]
    congr 1
    ring

theorem ofNat_ne_nil (n : Nat) : ofNat n ≠ [] := List.ne_nil_of_length_pos (length_ofNat_pos n)

end Decimal

namespace Binary64

variable {negative : Bool} {whole fraction tail bs : Bytes} {b : UInt8} {n : Nat} {e : Int}
  {s : Scientific} {x : Binary64}

theorem isDigit_digit {d : Nat} (h : d < 10) : isDigit (Decimal.digit d) = true := by
  have hall : ∀ d : Fin 10, isDigit (Decimal.digit d) = true := by decide
  exact hall ⟨d, h⟩

/-- All of them digits. -/
def Digits (bs : Bytes) : Prop := ∀ b ∈ bs, isDigit b = true

theorem digits_append {cs : Bytes} : Digits (bs ++ cs) ↔ Digits bs ∧ Digits cs :=
  List.forall_mem_append

theorem digits_cons : Digits (b :: bs) ↔ isDigit b = true ∧ Digits bs := List.forall_mem_cons

theorem digits_zeros (k : Nat) : Digits (List.replicate k Ascii.zero) := fun b hb => by
  rw [List.eq_of_mem_replicate hb]
  rfl

theorem digits_ofNat (n : Nat) : Digits (Decimal.ofNat n) := by
  induction n using Decimal.ofNat.induct with
  | case1 n h =>
    rw [Decimal.ofNat, if_pos h]
    exact digits_cons.mpr ⟨isDigit_digit h, List.forall_mem_nil _⟩
  | case2 n h ih =>
    rw [Decimal.ofNat, if_neg h]
    exact digits_append.mpr ⟨ih, digits_cons.mpr
      ⟨isDigit_digit (Nat.mod_lt n (by decide)), List.forall_mem_nil _⟩⟩

/-! ## Numerals -/

/-- Digits end where something else starts. -/
theorem span_digits (hdigits : Digits bs) (htail : ∀ b, tail.head? = some b → isDigit b = false) :
    (bs ++ tail).span isDigit = (bs, tail) := by
  rw [List.span_eq_takeWhile_dropWhile, List.takeWhile_append_of_pos hdigits,
    List.dropWhile_append_of_pos hdigits]
  cases tail with
  | nil => rw [List.takeWhile_nil, List.dropWhile_nil, List.append_nil]
  | cons b tail =>
    have hb : ¬isDigit b = true := Bool.not_eq_true _ ▸ htail b rfl
    rw [List.takeWhile_cons_of_neg hb, List.dropWhile_cons_of_neg hb, List.append_nil]

theorem takeFraction_of_ne (h : b ≠ Ascii.dot) : takeFraction (b :: bs) = ([], b :: bs) := by
  unfold takeFraction
  split
  · next heq => exact absurd (List.cons.inj heq).1 h
  · rfl

theorem numeral?_whole (negative : Bool) (hwhole : Digits whole) (hn : Decimal.nat? whole = some n)
    (htail : ∀ b, tail.head? = some b → isDigit b = false ∧ b ≠ Ascii.dot)
    (he : exponent? tail = some e) :
    numeral? negative (whole ++ tail) = some (nearest negative (n * 10 ^ e)) := by
  have hfraction : takeFraction tail = ([], tail) := by
    cases tail with
    | nil => rfl
    | cons b tail => exact takeFraction_of_ne (htail b rfl).2
  rw [numeral?, span_digits hwhole fun b hb => (htail b hb).1]
  dsimp only
  rw [hfraction]
  dsimp only
  rw [List.append_nil, hn, he]
  dsimp only
  rw [ofDecimal_eq, List.length_nil, Int.ofNat_zero, Int.sub_zero]

theorem numeral?_pointed (negative : Bool) (hwhole : Digits whole) (hfraction : Digits fraction)
    (hn : Decimal.nat? (whole ++ fraction) = some n)
    (htail : ∀ b, tail.head? = some b → isDigit b = false) (he : exponent? tail = some e) :
    numeral? negative (whole ++ Ascii.dot :: (fraction ++ tail)) =
      some (nearest negative (n * 10 ^ (e - fraction.length))) := by
  have hdot : ∀ b, (Ascii.dot :: (fraction ++ tail)).head? = some b → isDigit b = false := by
    rintro b ⟨⟩
    rfl
  have htake : takeFraction (Ascii.dot :: (fraction ++ tail)) = (fraction, tail) :=
    span_digits hfraction htail
  rw [numeral?, span_digits hwhole hdot]
  dsimp only
  rw [htake]
  dsimp only
  rw [hn, he]
  dsimp only
  rw [ofDecimal_eq]

/-! ## The notations of a decimal -/

theorem exponent?_nil : exponent? [] = some 0 := rfl

theorem numeral?_digits (negative : Bool) (hwhole : Digits whole) (hn : Decimal.nat? whole = some n) :
    numeral? negative whole = some (nearest negative n) := by
  have hread : numeral? negative (whole ++ []) = _ :=
    numeral?_whole negative hwhole hn nofun exponent?_nil
  rwa [List.append_nil, zpow_zero, mul_one] at hread

/-- With a point and nothing behind the fraction. -/
theorem numeral?_fraction (hwhole : Digits whole) (hfraction : Digits fraction)
    (hn : Decimal.nat? (whole ++ fraction) = some s.coefficient)
    (he : s.exponent = -(fraction.length : Int)) :
    numeral? negative (whole ++ Ascii.dot :: fraction) = some (nearest negative s.value) := by
  have hread : numeral? negative (whole ++ Ascii.dot :: (fraction ++ [])) = _ :=
    numeral?_pointed negative hwhole hfraction hn nofun exponent?_nil
  rwa [List.append_nil, Int.zero_sub, ← he] at hread

theorem numeral?_positional (negative : Bool) (s : Scientific) :
    numeral? negative s.positional = some (nearest negative s.value) := by
  have hdigits := digits_ofNat s.coefficient
  have hnat := Decimal.nat?_ofNat s.coefficient
  rw [Scientific.positional]
  split
  · next hexponent =>
    have hn : Decimal.nat? (Decimal.ofNat s.coefficient ++
        List.replicate s.exponent.toNat Ascii.zero) = some (s.coefficient * 10 ^ s.exponent.toNat) := by
      rw [Decimal.nat?_eq_digitsFrom? (List.append_ne_nil_of_left_ne_nil (Decimal.ofNat_ne_nil _) _),
        Decimal.digitsFrom?_append, Decimal.digitsFrom?_ofNat, Option.bind_some,
        Decimal.digitsFrom?_zeros]
    have hvalue : ((s.coefficient * 10 ^ s.exponent.toNat : Nat) : ℚ) = s.value := by
      rw [Scientific.value]
      push_cast
      rw [← zpow_natCast, Int.toNat_of_nonneg hexponent]
    have hread := numeral?_digits negative
      (digits_append.mpr ⟨hdigits, digits_zeros s.exponent.toNat⟩) hn
    rwa [hvalue] at hread
  · next hexponent =>
    have hlength : s.point = (Decimal.ofNat s.coefficient).length + s.exponent := rfl
    split
    · next hpoint =>
      rw [← List.take_append_drop s.point.toNat (Decimal.ofNat s.coefficient)] at hdigits hnat
      obtain ⟨hwhole, hfraction⟩ := digits_append.mp hdigits
      refine numeral?_fraction hwhole hfraction hnat ?_
      rw [List.length_drop]
      omega
    · next hpoint =>
      have hfraction := digits_append.mpr ⟨digits_zeros (-s.point).toNat, hdigits⟩
      have hne : [Ascii.zero] ++
          (List.replicate (-s.point).toNat Ascii.zero ++ Decimal.ofNat s.coefficient) ≠ [] :=
        List.cons_ne_nil _ _
      have hn : Decimal.nat? ([Ascii.zero] ++
          (List.replicate (-s.point).toNat Ascii.zero ++ Decimal.ofNat s.coefficient)) =
          some s.coefficient := by
        rw [Decimal.nat?_eq_digitsFrom? hne, ← List.append_assoc, Decimal.digitsFrom?_append,
          ← List.replicate_one, ← List.replicate_add, Decimal.digitsFrom?_zeros, Option.bind_some,
          Nat.zero_mul, Decimal.digitsFrom?_ofNat]
      have he : s.exponent =
          -((List.replicate (-s.point).toNat Ascii.zero ++ Decimal.ofNat s.coefficient).length : Int) := by
        rw [List.length_append, List.length_replicate]
        omega
      exact numeral?_fraction (digits_zeros 1) hfraction hn he

theorem digitsFrom?_paddedExponent (n : Nat) :
    Decimal.digitsFrom? 0 (Scientific.paddedExponent n) = some n := by
  rw [Scientific.paddedExponent]
  split
  · exact Decimal.digitsFrom?_ofNat n
  · exact Decimal.digitsFrom?_ofNat n

theorem length_paddedExponent (n : Nat) : 2 ≤ (Scientific.paddedExponent n).length := by
  rw [Scientific.paddedExponent]
  split
  · have := Decimal.length_ofNat_pos n
    rw [List.length_cons]
    omega
  · next hn =>
    refine Nat.not_lt.mp fun hshort => ?_
    have hlt := Decimal.lt_pow_length_ofNat n
    have hpow : 10 ^ (Decimal.ofNat n).length ≤ 10 ^ 1 := Nat.pow_le_pow_right (by decide) (by omega)
    omega

theorem digits_paddedExponent (n : Nat) : Digits (Scientific.paddedExponent n) := by
  rw [Scientific.paddedExponent]
  split
  · exact digits_cons.mpr ⟨rfl, digits_ofNat n⟩
  · exact digits_ofNat n

theorem exponent?_signed (h : e.natAbs < exponentCap) :
    exponent? (101 :: (if e < 0 then Ascii.minus else Ascii.plus) ::
      Scientific.paddedExponent e.natAbs) = some e := by
  have hletter : Ascii.toLower 101 = 101 := by decide
  have hcapped := Decimal.cappedFrom?_of_lt (digitsFrom?_paddedExponent e.natAbs) h
  have hne : (Scientific.paddedExponent e.natAbs).isEmpty = false := by
    have := length_paddedExponent e.natAbs
    rw [List.isEmpty_eq_false_iff]
    exact List.ne_nil_of_length_pos (by omega)
  rw [exponent?, if_pos hletter]
  split
  · next hneg =>
    show (if (Scientific.paddedExponent e.natAbs).isEmpty then none
      else Decimal.cappedFrom? exponentCap 0 _).map (fun n => -Int.ofNat n) = _
    rw [hne, if_neg Bool.false_ne_true, hcapped, Option.map_some, Int.ofNat_eq_natCast]
    congr 1
    omega
  · next hneg =>
    show (if (Scientific.paddedExponent e.natAbs).isEmpty then none
      else Decimal.cappedFrom? exponentCap 0 _).map Int.ofNat = _
    rw [hne, if_neg Bool.false_ne_true, hcapped, Option.map_some, Int.ofNat_eq_natCast]
    congr 1
    omega

/-- The first digit, the others behind a point, and the exponent that makes up for it. -/
theorem withExponent_eq (s : Scientific) :
    ∃ first fraction, Decimal.ofNat s.coefficient = first :: fraction ∧
      s.withExponent = first :: (if fraction = [] then [] else Ascii.dot :: fraction) ++
        101 :: (if s.point - 1 < 0 then Ascii.minus else Ascii.plus) ::
          Scientific.paddedExponent (s.point - 1).natAbs := by
  obtain ⟨first, fraction, hcons, -⟩ := Decimal.exists_ofNat_eq_cons s.coefficient
  refine ⟨first, fraction, hcons, ?_⟩
  rw [Scientific.withExponent, hcons]
  cases fraction <;> rfl

theorem numeral?_withExponent (negative : Bool) (h : (s.point - 1).natAbs < exponentCap) :
    numeral? negative s.withExponent = some (nearest negative s.value) := by
  obtain ⟨first, fraction, hcons, htext⟩ := withExponent_eq s
  have hdigits := digits_ofNat s.coefficient
  have hnat := Decimal.nat?_ofNat s.coefficient
  have hlength : s.point = (Decimal.ofNat s.coefficient).length + s.exponent := rfl
  rw [hcons] at hdigits hnat hlength
  obtain ⟨hfirst, hfraction⟩ := digits_append.mp (show Digits ([first] ++ fraction) from hdigits)
  have he := exponent?_signed h
  generalize htail : 101 :: (if s.point - 1 < 0 then Ascii.minus else Ascii.plus) ::
    Scientific.paddedExponent (s.point - 1).natAbs = tail at he htext
  have hletter : ∀ b, tail.head? = some b → isDigit b = false ∧ b ≠ Ascii.dot := by
    rw [← htail]
    rintro b ⟨⟩
    decide
  have hexponent : s.point - 1 - fraction.length = s.exponent := by
    rw [List.length_cons] at hlength
    omega
  rw [htext, Scientific.value, ← hexponent]
  split
  · next hnil =>
    subst hnil
    have hread := numeral?_whole negative hfirst hnat hletter he
    rwa [← Int.sub_zero (s.point - 1)] at hread
  · exact numeral?_pointed negative hfirst hfraction hnat (fun b hb => (hletter b hb).1) he

theorem digits_positional (s : Scientific) : ∀ b ∈ s.positional, isDigit b = true ∨ b = Ascii.dot := by
  have hdigits := digits_ofNat s.coefficient
  intro b hb
  rw [Scientific.positional] at hb
  split at hb
  · exact .inl (digits_append.mpr ⟨hdigits, digits_zeros _⟩ b hb)
  · split at hb
    · rcases List.mem_append.mp hb with hb | hb
      · exact .inl (hdigits b (List.mem_of_mem_take hb))
      · rcases List.mem_cons.mp hb with rfl | hb
        · exact .inr rfl
        · exact .inl (hdigits b (List.mem_of_mem_drop hb))
    · rcases List.mem_cons.mp hb with rfl | hb
      · exact .inl rfl
      · rcases List.mem_cons.mp hb with rfl | hb
        · exact .inr rfl
        · exact .inl (digits_append.mpr ⟨digits_zeros _, hdigits⟩ b hb)

/-! ## Whole texts -/

/-- From the point up to the last digit: behind the signs and in front of all letters. -/
def StartsNumeral (b : UInt8) : Prop := 46 ≤ b.toNat ∧ b.toNat ≤ 57

theorem startsNumeral (hb : isDigit b = true ∨ b = Ascii.dot) : StartsNumeral b := by
  rcases hb with hdigit | rfl
  · obtain ⟨hlow, hhigh⟩ := Bool.and_eq_true_iff.mp hdigit
    have hlow : 48 ≤ b.toNat := UInt8.le_iff_toNat_le.mp (of_decide_eq_true hlow)
    have hhigh : b.toNat ≤ 57 := UInt8.le_iff_toNat_le.mp (of_decide_eq_true hhigh)
    exact ⟨by omega, hhigh⟩
  · exact ⟨Nat.le_refl _, by decide⟩

theorem StartsNumeral.ne {c : UInt8} (hb : StartsNumeral b) (hc : c.toNat < 46 ∨ 57 < c.toNat) :
    b ≠ c := by
  obtain ⟨hlow, hhigh⟩ := hb
  rintro rfl
  omega

/-- A numeral starts with a digit or the point. -/
theorem head_of_numeral? (h : numeral? negative bs = some x) :
    ∃ b rest, bs = b :: rest ∧ StartsNumeral b := by
  cases bs with
  | nil => cases h
  | cons b rest =>
    refine ⟨b, rest, rfl, startsNumeral ?_⟩
    by_contra hb
    obtain ⟨hdigit, hdot⟩ := not_or.mp hb
    have hempty : Decimal.nat? ([] ++ []) = none := rfl
    have hspan : (b :: rest).span isDigit = ([], b :: rest) := by
      rw [List.span_eq_takeWhile_dropWhile, List.takeWhile_cons_of_neg hdigit,
        List.dropWhile_cons_of_neg hdigit]
    have hfraction : takeFraction (b :: rest) = ([], b :: rest) := takeFraction_of_ne hdot
    rw [numeral?, hspan] at h
    dsimp only at h
    rw [hfraction] at h
    dsimp only at h
    rw [hempty] at h
    cases h

theorem takeSign_signed (negative : Bool) (hb : StartsNumeral b) :
    takeSign (if negative then Ascii.minus :: b :: bs else b :: bs) = (negative, b :: bs) := by
  cases negative with
  | true => rfl
  | false =>
    rw [if_neg Bool.false_ne_true]
    unfold takeSign
    split
    · next heq => exact absurd (List.cons.inj heq).1 (hb.ne (.inl (by decide)))
    · next heq => exact absurd (List.cons.inj heq).1 (hb.ne (.inl (by decide)))
    · rfl

/-- All names start with a letter. -/
theorem named?_eq_none (negative : Bool) (hb : StartsNumeral b) :
    named? negative (Bytes.lower (b :: bs)) = none := by
  have hlower : Ascii.toLower b = b := if_neg fun hletter => by
    have hle : 65 ≤ b.toNat := UInt8.le_iff_toNat_le.mp hletter.1
    have hhigh := hb.2
    omega
  have hname : ∀ c cs, 57 < c.toNat → Bytes.lower (b :: bs) ≠ c :: cs := by
    intro c cs hc heq
    exact hb.ne (.inr hc) (hlower.symm.trans (List.cons.inj heq).1)
  rw [named?, if_neg (not_or.mpr ⟨hname _ _ (by decide), hname _ _ (by decide)⟩),
    if_neg (hname _ _ (by decide))]

/-- Behind a sign, no numeral is taken for a name. -/
theorem read?_of_numeral? (h : numeral? negative bs = some x) :
    read? (if negative then Ascii.minus :: bs else bs) = some x := by
  obtain ⟨b, rest, rfl, hstart⟩ := head_of_numeral? h
  rw [read?, takeSign_signed negative hstart]
  dsimp only
  rw [named?_eq_none negative hstart, h]
  rfl

/-- How a number that is no NaN is written, without its sign. -/
inductive Form (x : Binary64) : Bytes → Prop where
  | named (h : x.isInfinite) : Form x [105, 110, 102]
  /-- One digit, a fraction if there are more, and a signed exponent of at least two digits. -/
  | exponent {first sign : UInt8} {fraction digits : Bytes} (hfinite : x.isFinite)
      (hzero : x.isZero = false) (hout : x.abs.lt positionalFrom ∨ positionalBelow.le x.abs)
      (hdigits : Digits (first :: fraction ++ digits)) (hlength : 2 ≤ digits.length)
      (hsign : sign = Ascii.plus ∨ sign = Ascii.minus) :
      Form x (first :: (if fraction = [] then [] else Ascii.dot :: fraction) ++ 101 :: sign :: digits)
  | plain {bs : Bytes} (hin : x.isZero ∨ positionalFrom.le x.abs ∧ x.abs.lt positionalBelow)
      (hdigits : ∀ b ∈ bs, isDigit b = true ∨ b = Ascii.dot) : Form x bs

theorem isFinite_or_isInfinite (h : x.isNaN = false) : x.isFinite = true ∨ x.isInfinite = true := by
  have hle : ¬infinite < x.magnitude := of_decide_eq_false h
  rw [isFinite, isInfinite, decide_eq_true_iff, beq_iff_eq]
  omega

theorem isNaN_abs (x : Binary64) : x.abs.isNaN = x.isNaN := by
  have hlt : x.magnitude < signWeight := Nat.mod_lt _ (by decide)
  rw [isNaN, isNaN, abs, magnitude_ofMagnitude hlt]

theorem lt_or_le {y : Binary64} (hx : x.isNaN = false) (hy : y.isNaN = false) : x.lt y ∨ y.le x := by
  rw [lt, le, hx, hy]
  simpa using lt_or_ge x.key y.key

theorem form_unsignedText (h : x.isNaN = false) : Form x x.unsignedText := by
  have habs : x.abs.isNaN = false := (isNaN_abs x).trans h
  have hfrom : positionalFrom.isNaN = false := by decide +kernel
  have hbelow : positionalBelow.isNaN = false := by decide +kernel
  rw [unsignedText]
  split
  · next hinfinite => exact .named hinfinite
  · next hinfinite =>
    split
    · next hzero =>
      exact .plain (.inl hzero) fun b hb => .inl (digits_zeros 1 b hb)
    · next hzero =>
      have hnotZero : x.isZero = false := Bool.not_eq_true _ ▸ hzero
      split
      · next hin =>
        rw [isPositional, hnotZero, Bool.false_or, Bool.and_eq_true] at hin
        exact .plain (.inr hin) (digits_positional _)
      · next hout =>
        rw [isPositional, hnotZero, Bool.false_or, Bool.and_eq_true, not_and_or] at hout
        obtain ⟨first, fraction, hcons, htext⟩ := withExponent_eq x.shortest
        have hdigits : Digits (first :: fraction ++ Scientific.paddedExponent (x.shortest.point - 1).natAbs) :=
          digits_append.mpr ⟨hcons ▸ digits_ofNat _, digits_paddedExponent _⟩
        rw [htext]
        refine .exponent ((isFinite_or_isInfinite h).resolve_right hinfinite) hnotZero ?_ hdigits
          (length_paddedExponent _) ((ite_eq_or_eq _ _ _).symm)
        exact hout.imp (lt_or_le habs hfrom).resolve_right (lt_or_le habs hbelow).resolve_left

theorem isNaN_of_isFinite (h : x.isFinite = true) : x.isNaN = false :=
  decide_eq_false (Nat.not_lt.mpr (Nat.le_of_lt (of_decide_eq_true h)))

theorem numeral?_unsignedText (h : x.isFinite) : numeral? x.isNegative x.unsignedText = some x := by
  have hx := ofMagnitude_magnitude x
  have hlt : x.magnitude < infinite := of_decide_eq_true h
  have hinfinite : ¬x.isInfinite = true := fun hinf => hlt.ne (eq_of_beq hinf)
  rw [unsignedText, if_neg hinfinite]
  split
  · next hzero =>
    have hn : Decimal.nat? [Ascii.zero] = some 0 := rfl
    have hread := numeral?_digits x.isNegative (digits_zeros 1) hn
    rwa [Nat.cast_zero, nearest_zero, ← eq_of_beq hzero, hx] at hread
  · next hzero =>
    have hmagnitude : x.magnitude ≠ 0 := fun hmagnitude => hzero (beq_iff_eq.mpr hmagnitude)
    have hpoint := point_shortest h hmagnitude
    have hcap : (x.shortest.point - 1).natAbs < exponentCap := by
      rw [exponentCap]
      omega
    have hnearest := nearest_shortest h x.isNegative
    split
    · rw [numeral?_positional, hnearest, hx]
    · rw [numeral?_withExponent _ hcap, hnearest, hx]

theorem read?_text (h : x.isNaN = false) : read? x.text = some x := by
  rw [text, if_neg (Bool.not_eq_true _ ▸ h)]
  rcases isFinite_or_isInfinite h with hfinite | hinfinite
  · exact read?_of_numeral? (numeral?_unsignedText hfinite)
  · have hnamed : ∀ negative : Bool, read? (if negative then Ascii.minus :: [105, 110, 102]
        else [105, 110, 102]) = some (ofMagnitude negative infinite) := by
      intro negative
      cases negative <;> rfl
    rw [unsignedText, if_pos hinfinite, hnamed, ← eq_of_beq hinfinite, ofMagnitude_magnitude]

theorem readNumber?_text (h : x.isNaN = false) : readNumber? x.text = some x := by
  rw [readNumber?, read?_text h, Option.filter_some, h]
  rfl

end Binary64

end RespStore
