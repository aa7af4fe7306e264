import RespStore.Text.Utf8

/-!
# A glob matcher

A matcher to run a program with. The components of a text are separated by slashes. A star runs
within one component and a double star over any number of them, a question mark is one byte of a
component, brackets hold a class of bytes, and braces hold alternatives, nested at most ten deep. A
backslash escapes the next byte, and every exclamation mark at the front negates the whole pattern.

The matcher is a machine that walks over pattern and text. Where nothing matches it goes back to
the last star, or on to the next alternative, so that it never needs a recursive call.
-/

namespace RespStore.Glob

/-- A position in the pattern and one in the text. -/
structure Mark where
  glob : Nat
  path : Nat
  deriving DecidableEq, Repr

def Mark.none : Mark := ⟨0, 0⟩

/-- A place to match from, with the places to go back to: after the last star and after the last
double star. A text position of zero stands for no place. -/
structure Place where
  path : Nat
  glob : Nat
  wild : Mark
  star : Mark
  deriving DecidableEq, Repr

/-- The present place, the places where braces opened, innermost first, and the furthest text
position that an alternative has reached. -/
structure Machine where
  place : Place
  stack : List Place
  longest : Nat
  deriving DecidableEq, Repr

inductive Step where
  | next (m : Machine)
  | stuck (m : Machine)
  | invalid

/-- Past every `/**` that starts at `i`. -/
def skipStarsWith (glob : Array UInt8) : Nat → Nat → Nat
  | 0, i => i
  | fuel + 1, i =>
    if glob[i]? = some Ascii.slash ∧ glob[i + 1]? = some Ascii.star ∧
        glob[i + 2]? = some Ascii.star then
      skipStarsWith glob fuel (i + 3)
    else i

def skipStars (glob : Array UInt8) (i : Nat) : Nat := skipStarsWith glob glob.size i

def unescaped (c : UInt8) : UInt8 :=
  if c = 97 then 97
  else if c = 98 then 8
  else if c = 110 then Ascii.lf
  else if c = 114 then Ascii.cr
  else if c = 116 then Ascii.tab
  else c

/-- The byte that the pattern holds at `i`, and where it ends. -/
def byteAt? (glob : Array UInt8) (i : Nat) : Option (UInt8 × Nat) :=
  match glob[i]? with
  | none => none
  | some c =>
    if c = Ascii.backslash then (glob[i + 1]?).map fun d => (unescaped d, i + 1) else some (c, i)

inductive Brace where
  | finished
  | comma
  deriving DecidableEq, Repr

/-- Goes to the end of the innermost braces, or with `stop` to their next comma. -/
def skipBracesWith (glob : Array UInt8) (stop : Bool) :
    Nat → Nat → Nat → Bool → Option (Brace × Nat)
  | 0, _, _, _ => none
  | _, g, 0, _ => some (.finished, g)
  | fuel + 1, g, depth + 1, inClass =>
    match glob[g]? with
    | none => none
    | some c =>
      if c = Ascii.openBrace ∧ !inClass then
        skipBracesWith glob stop fuel (g + 1) (depth + 2) inClass
      else if c = Ascii.closeBrace ∧ !inClass then
        skipBracesWith glob stop fuel (g + 1) depth inClass
      else if c = Ascii.comma ∧ stop ∧ depth = 0 ∧ !inClass then some (.comma, g + 1)
      else if c = Ascii.openBracket ∧ !inClass then
        skipBracesWith glob stop fuel (g + 1) (depth + 1) true
      else if c = Ascii.star ∧ !inClass ∧ glob[g + 1]? = some Ascii.star then
        skipBracesWith glob stop fuel (skipStars glob (g + 2)) (depth + 1) inClass
      else if c = Ascii.closeBracket then skipBracesWith glob stop fuel (g + 1) (depth + 1) false
      else if c = Ascii.backslash then skipBracesWith glob stop fuel (g + 2) (depth + 1) inClass
      else skipBracesWith glob stop fuel (g + 1) (depth + 1) inClass

def skipBraces (glob : Array UInt8) (stop : Bool) (g : Nat) : Option (Brace × Nat) :=
  skipBracesWith glob stop (glob.size + 2) g 1 false

/-- Whether `c` is in the class whose members start at `g`, and where its bracket closes. -/
def classWith (glob : Array UInt8) (c : UInt8) : Nat → Nat → Bool → Bool → Option (Bool × Nat)
  | 0, _, _, _ => none
  | fuel + 1, g, first, found =>
    match glob[g]? with
    | none => none
    | some d =>
      if !first && d == Ascii.closeBracket then some (found, g)
      else
        match byteAt? glob g with
        | none => none
        | some (low, g) =>
          let g := g + 1
          if glob[g]? = some Ascii.minus ∧ g + 1 < glob.size ∧
              glob[g + 1]? ≠ some Ascii.closeBracket then
            match byteAt? glob (g + 1) with
            | none => none
            | some (high, g) =>
              classWith glob c fuel (g + 1) false (found || (low ≤ c && c ≤ high))
          else classWith glob c fuel g false (found || low == c)

/-- Leaves the innermost braces: the text goes on from the furthest position reached. -/
def Machine.leave (m : Machine) : Machine :=
  match m.stack with
  | [] => m
  | top :: rest =>
    { place := ⟨m.longest, m.place.glob, top.wild, top.star⟩
      stack := rest
      longest := if rest.isEmpty then 0 else m.longest }

def atStar (glob path : Array UInt8) (m : Machine) : Step :=
  let ⟨p, g, _, star⟩ := m.place
  let double := glob[g + 1]? = some Ascii.star
  let g := if double then skipStars glob (g + 2) - 2 else g
  let wild : Mark := ⟨g, p + 1⟩
  let (g, star) :=
    if double then
      let g := g + 2
      if g = glob.size then (g, wild)
      else if (g < 3 ∨ glob[g - 3]? = some Ascii.slash) ∧ glob[g]? = some Ascii.slash then
        if p = 0 ∨ (p < path.size ∧ path[p - 1]? = some Ascii.slash) then (g + 1, wild)
        else (g, wild)
      else (g, star)
    else (g + 1, star)
  let (g, wild) :=
    if star.path ≠ wild.path ∧ path[p]? = some Ascii.slash then
      if 0 < star.path ∧ p + 1 < path.size then (star.glob, { wild with glob := star.glob })
      else (g, { wild with path := 0 })
    else (g, wild)
  let endsAlternative := glob[g]? = some Ascii.comma ∨ glob[g]? = some Ascii.closeBrace
  if !m.stack.isEmpty ∧ endsAlternative then
    match skipBraces glob false g with
    | none => .invalid
    | some (_, g) => .next { m with place := ⟨p, g, wild, star⟩ }
  else .next { m with place := ⟨p, g, wild, star⟩ }

def atClass (glob : Array UInt8) (c : UInt8) (m : Machine) : Step :=
  let g := m.place.glob + 1
  let negated := glob[g]? = some Ascii.caret ∨ glob[g]? = some Ascii.bang
  let g := if negated then g + 1 else g
  match classWith glob c (glob.size + 1) g true false with
  | none => .invalid
  | some (found, g) =>
    if found != decide negated then
      .next { m with place := { m.place with glob := g + 1, path := m.place.path + 1 } }
    else .stuck { m with place := { m.place with glob := g + 1 } }

def atByte (glob : Array UInt8) (c : UInt8) (m : Machine) : Step :=
  match byteAt? glob m.place.glob with
  | none => .invalid
  | some (d, g) =>
    let m := { m with place := { m.place with glob := g } }
    if d = c then
      let m :=
        if !m.stack.isEmpty ∧ 0 < g ∧ glob[g - 1]? = some Ascii.closeBrace then
          { m with longest := m.place.path }.leave
        else m
      let star := if d = Ascii.slash then m.place.star else { m.place.star with path := 0 }
      .next { m with place := ⟨m.place.path + 1, m.place.glob + 1, m.place.wild, star⟩ }
    else .stuck m

/-- Tries to match what the pattern holds at the present place. -/
def advance (glob path : Array UInt8) (m : Machine) : Step :=
  match glob[m.place.glob]? with
  | none => .stuck m
  | some c =>
    if c = Ascii.star then atStar glob path m
    else if c = Ascii.closeBrace ∧ !m.stack.isEmpty then
      .next (Machine.leave
        { m with
          place := { m.place with glob := m.place.glob + 1 }
          longest := max m.longest m.place.path })
    else
      match m.stack, c == Ascii.comma with
      | top :: _, true =>
        .next
          { m with
            place := ⟨top.path, m.place.glob + 1, .none, .none⟩
            longest := max m.longest m.place.path }
      | _, _ =>
        match path[m.place.path]? with
        | none => .stuck m
        | some b =>
          if c = Ascii.question then
            if b = Ascii.slash then .stuck m
            else
              .next
                { m with
                  place := { m.place with path := m.place.path + 1, glob := m.place.glob + 1 } }
          else if c = Ascii.openBracket then atClass glob b m
          else if c = Ascii.openBrace then
            if 10 ≤ m.stack.length then .invalid
            else
              .next
                { m with
                  place := ⟨m.place.path, m.place.glob + 1, .none, .none⟩
                  stack := m.place :: m.stack }
          else atByte glob b m

/-- Back to the place after the last star, if there is one within the text. -/
def Machine.toWild? (path : Array UInt8) (m : Machine) : Option Machine :=
  if 0 < m.place.wild.path ∧ m.place.wild.path ≤ path.size then
    some { m with
      place := { m.place with path := m.place.wild.path, glob := m.place.wild.glob } }
  else none

/-- Where to go on from when nothing matches. -/
def retreat (glob path : Array UInt8) (m : Machine) : Step :=
  match m.toWild? path with
  | some m => .next m
  | none =>
    match m.stack with
    | [] => .stuck m
    | top :: rest =>
      match skipBraces glob true m.place.glob with
      | none => .invalid
      | some (.comma, g) =>
        .next { m with place := { m.place with glob := g, path := top.path } }
      | some (.finished, g) =>
        if 0 < m.longest then .next { m with place := { m.place with glob := g } }.leave
        else
          let m := { m with place := top, stack := rest }
          match m.toWild? path with
          | some m => .next m
          | none => .stuck m

def runWith (glob path : Array UInt8) (negated : Bool) : Nat → Machine → Bool
  | 0, _ => false
  | fuel + 1, m =>
    if m.place.glob < glob.size ∨ m.place.path < path.size then
      match advance glob path m with
      | .next m => runWith glob path negated fuel m
      | .invalid => false
      | .stuck m =>
        match retreat glob path m with
        | .next m => runWith glob path negated fuel m
        | .invalid => false
        | .stuck _ => negated
    else !negated

/-- Steps enough for every pattern whose stars and alternatives are tried at every position. -/
def stepBound (glob path : Array UInt8) : Nat :=
  let places := (glob.size + 2) * (path.size + 2)
  places * places * places

def isMatch (pattern text : Bytes) : Bool :=
  let bangs := (pattern.takeWhile (· == Ascii.bang)).length
  let glob := pattern.toArray
  let path := text.toArray
  runWith glob path (bangs % 2 == 1) (stepBound glob path)
    ⟨⟨0, bangs, .none, .none⟩, [], 0⟩

end RespStore.Glob
