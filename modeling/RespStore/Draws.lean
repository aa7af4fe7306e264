/-!
# Random draws

An endless supply of numbers and the count of those used up. Nothing is assumed of the numbers:
what holds for every supply holds for every outcome of a random generator.
-/

namespace RespStore

structure Draws where
  supply : Nat → Nat
  used : Nat

namespace Draws

def next (g : Draws) : Nat × Draws := (g.supply g.used, { g with used := g.used + 1 })

/-- A number below `n`, for a positive `n`. -/
def below (g : Draws) (n : Nat) : Nat × Draws := (g.next.1 % n, g.next.2)

/-- One more than the number of ones at the low end of a number, and at most `fuel + 1`. -/
def heightWith : Nat → Nat → Nat
  | 0, _ => 1
  | fuel + 1, n => if n % 2 = 1 then heightWith fuel (n / 2) + 1 else 1

/-- The height of a tower of coin flips, from 1 to 32. -/
def height (g : Draws) : Nat × Draws := (heightWith 31 g.next.1, g.next.2)

/-- The generator's state after a step: a fixed odd stride on 64 bits. -/
def stride : Nat := 0x9E3779B97F4A7C15

/-- Mixes the bits of a state. -/
def mix (x : UInt64) : UInt64 :=
  let x := (x ^^^ (x >>> 30)) * 0xBF58476D1CE4E5B9
  let x := (x ^^^ (x >>> 27)) * 0x94D049BB133111EB
  x ^^^ (x >>> 31)

/-- A supply of pseudo-random numbers. -/
def ofSeed (seed : Nat) : Draws :=
  ⟨fun i => (mix (UInt64.ofNat (seed + (i + 1) * stride))).toNat, 0⟩

theorem below_lt (g : Draws) {n : Nat} (h : 0 < n) : (g.below n).1 < n := Nat.mod_lt _ h

theorem heightWith_bounds (fuel n : Nat) : 1 ≤ heightWith fuel n ∧ heightWith fuel n ≤ fuel + 1 := by
  induction fuel generalizing n with
  | zero => exact ⟨Nat.le_refl 1, Nat.le_refl 1⟩
  | succ fuel ih =>
    rw [heightWith]
    split
    · exact ⟨Nat.le_add_left .., Nat.succ_le_succ (ih _).2⟩
    · omega

theorem height_bounds (g : Draws) : 1 ≤ g.height.1 ∧ g.height.1 ≤ 32 := heightWith_bounds 31 _

/-- Tries `f` on one value after another until it gives a result. -/
def first {α β : Type} (f : α → Draws → Option β × Draws) : List α → Draws → Option β × Draws
  | [], g => (none, g)
  | x :: xs, g =>
    match f x g with
    | (some y, g) => (some y, g)
    | (none, g) => first f xs g

end Draws

end RespStore
