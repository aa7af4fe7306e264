import RespStore.Bytes

/-!
# Decimal integers

Written without leading zeros; read with one optional sign and any number of leading zeros.
-/

namespace RespStore.Decimal

def digit (d : Nat) : UInt8 := UInt8.ofNat (48 + d)

def digit? (b : UInt8) : Option Nat :=
  if Ascii.zero ≤ b ∧ b ≤ Ascii.nine then some (b.toNat - 48) else none

def ofNat (n : Nat) : Bytes :=
  if n < 10 then [digit n] else ofNat (n / 10) ++ [digit (n % 10)]

def ofInt : Int → Bytes
  | .ofNat n => ofNat n
  | .negSucc n => Ascii.minus :: ofNat (n + 1)

/-- Reads digits only, onto the number `acc` read so far. -/
def digitsFrom? (acc : Nat) : Bytes → Option Nat
  | [] => some acc
  | b :: rest => (digit? b).bind fun d => digitsFrom? (10 * acc + d) rest

/-- A number with digits written behind it. -/
def extend (n : Nat) (ds : List Nat) : Nat := ds.foldl (fun n d => 10 * n + d) n

/-- The first `2 ^ k` digits, or all if they are fewer, as a number and their count, and the digits
that follow. The two halves are read apart, so that a long number takes few long products. -/
def readHalves : Nat → List Nat → Nat × Nat × List Nat
  | _, [] => (0, 0, [])
  | 0, d :: rest => (d, 1, rest)
  | k + 1, ds =>
    let (high, m, rest) := readHalves k ds
    let (low, n, rest) := readHalves k rest
    (high * Nat.pow 10 n + low, m + n, rest)

/-- One digit or more. -/
def nat? (bs : Bytes) : Option Nat :=
  if bs.isEmpty then none
  else (bs.mapM digit?).map fun ds => (readHalves (ds.length.log2 + 1) ds).1

/-- One digit or more after an optional sign; a minus sign needs `signed`. -/
def int? (signed : Bool) : Bytes → Option Int
  | Ascii.plus :: rest => (nat? rest).map Int.ofNat
  | Ascii.minus :: rest => if signed then (nat? rest).map fun n => -Int.ofNat n else none
  | bs => (nat? bs).map Int.ofNat

/-- Reads digits only, and leaves a number that has reached `cap` as it is. -/
def cappedFrom? (cap acc : Nat) : Bytes → Option Nat
  | [] => some acc
  | b :: rest =>
    (digit? b).bind fun d => cappedFrom? cap (if acc < cap then 10 * acc + d else acc) rest

/-- One digit or more, after an optional sign. -/
def cappedInt? (cap : Nat) (bs : Bytes) : Option Int :=
  let capped := fun digits : Bytes => if digits.isEmpty then none else cappedFrom? cap 0 digits
  match bs with
  | Ascii.plus :: rest => (capped rest).map Int.ofNat
  | Ascii.minus :: rest => (capped rest).map fun n => -Int.ofNat n
  | bs => (capped bs).map Int.ofNat

theorem extend_eq (n : Nat) (ds : List Nat) :
    extend n ds = n * Nat.pow 10 ds.length + extend 0 ds := by
  induction ds generalizing n with
  | nil => exact (Nat.mul_one n).symm
  | cons d ds ih =>
    have hp : Nat.pow 10 (d :: ds).length = Nat.pow 10 ds.length * 10 := rfl
    have hn : extend n (d :: ds) = extend (10 * n + d) ds := rfl
    have h0 : extend 0 (d :: ds) = extend d ds := congrArg (extend · ds) (Nat.zero_add d)
    rw [hn, h0, ih (10 * n + d), ih d, hp, Nat.add_mul, Nat.add_assoc, Nat.mul_comm 10 n,
      Nat.mul_assoc, Nat.mul_comm 10]

theorem readHalves_eq (k : Nat) (ds : List Nat) :
    readHalves k ds =
      (extend 0 (ds.take (Nat.pow 2 k)), (ds.take (Nat.pow 2 k)).length,
        ds.drop (Nat.pow 2 k)) := by
  induction k generalizing ds with
  | zero =>
    cases ds with
    | nil => rfl
    | cons d rest => exact Prod.ext (Nat.zero_add d).symm rfl
  | succ k ih =>
    have hp : Nat.pow 2 (k + 1) = Nat.pow 2 k + Nat.pow 2 k := Nat.mul_two _
    cases ds with
    | nil => rw [List.take_nil, List.drop_nil]; rfl
    | cons d ds =>
      have happ : ∀ xs ys, extend 0 (xs ++ ys) = extend (extend 0 xs) ys :=
        fun xs ys => List.foldl_append
      simp only [readHalves, ih, hp]
      rw [List.take_add, happ, extend_eq (extend 0 _), List.length_append, List.drop_drop]

theorem extend_digits (n : Nat) (bs : Bytes) :
    (bs.mapM digit?).map (extend n) = digitsFrom? n bs := by
  induction bs generalizing n with
  | nil => rfl
  | cons b rest ih =>
    rw [digitsFrom?, List.mapM_cons]
    cases digit? b with
    | none => rfl
    | some d =>
      rw [Option.bind_some, ← ih]
      cases rest.mapM digit? <;> rfl

theorem nat?_cons (b : UInt8) (rest : Bytes) : nat? (b :: rest) = digitsFrom? 0 (b :: rest) := by
  rw [← extend_digits]
  refine congrArg (Option.map · _) (funext fun ds => ?_)
  have h : ds.length ≤ Nat.pow 2 (ds.length.log2 + 1) := Nat.le_of_lt Nat.lt_log2_self
  rw [readHalves_eq, List.take_of_length_le h]

theorem le_of_digitsFrom? {acc n : Nat} {bs : Bytes} (h : digitsFrom? acc bs = some n) :
    acc ≤ n := by
  induction bs generalizing acc with
  | nil => simp only [digitsFrom?, Option.some.injEq] at h; omega
  | cons b rest ih =>
    obtain ⟨d, -, hd⟩ := Option.bind_eq_some_iff.1 h
    have := ih hd
    omega

/-- A number below the cap is read like any other. -/
theorem cappedFrom?_of_lt {cap acc n : Nat} {bs : Bytes} (h : digitsFrom? acc bs = some n)
    (hn : n < cap) : cappedFrom? cap acc bs = some n := by
  induction bs generalizing acc with
  | nil => exact h
  | cons b rest ih =>
    have hacc := le_of_digitsFrom? h
    obtain ⟨d, hb, hd⟩ := Option.bind_eq_some_iff.1 h
    rw [cappedFrom?, hb, Option.bind_some, if_pos (by omega)]
    exact ih hd

theorem digitsFrom?_append (acc : Nat) (bs cs : Bytes) :
    digitsFrom? acc (bs ++ cs) = (digitsFrom? acc bs).bind (digitsFrom? · cs) := by
  induction bs generalizing acc with
  | nil => rfl
  | cons b rest ih => cases h : digit? b <;> simp [digitsFrom?, h, ih]

end RespStore.Decimal
