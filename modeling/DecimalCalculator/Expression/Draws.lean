/-!
Random numbers by place. An expression draws a number wherever it calls `rand`, and what it
draws depends on the place of that call in the evaluation, so that no evaluation has to hand
a generator on to the next.

* `Branch`, `Place`: where an evaluation stands below the line that began it.
* `Draws`: the number drawn at each place. `Draws.ofSeed` mixes a seed with the place.
-/

namespace DecimalCalculator

/-- One step from an expression into a part of it. -/
inductive Branch where
  | left
  | right
  | argument
  | lower
  | upper
  /-- The function of an aggregate at its sample `k`. -/
  | sample (k : Int)
  /-- The line `n` of a run. -/
  | line (n : Nat)
deriving DecidableEq

/-- The steps from a line to a part of its expression, the last step first. -/
abbrev Place := List Branch

/-- The number drawn at each place. -/
abbrev Draws := Place → Nat

namespace Draws

/-- The draws of one line of a run. -/
def onLine (draws : Draws) (n : Nat) : Draws := fun place => draws (place ++ [.line n])

/-- Scrambles a 64-bit word. -/
def scramble (word : UInt64) : UInt64 :=
  let w := word + 0x9e3779b97f4a7c15
  let w := (w ^^^ (w >>> 30)) * 0xbf58476d1ce4e5b9
  let w := (w ^^^ (w >>> 27)) * 0x94d049bb133111eb
  w ^^^ (w >>> 31)

/-- A word for each step, different for different kinds of steps. -/
def word : Branch → UInt64
  | .left => 1
  | .right => 2
  | .argument => 3
  | .lower => 4
  | .upper => 5
  | .sample k => 6 + 4 * UInt64.ofNat k.natAbs + (if k < 0 then 2 else 0)
  | .line n => 7 + 4 * UInt64.ofNat n

/-- The draws that come from a seed: numbers of 256 bits. -/
def ofSeed (seed : Nat) : Draws := fun place =>
  let key := place.foldl (fun key b => scramble (key ^^^ word b)) (scramble (UInt64.ofNat seed))
  let words := [1, 2, 3, 4].map fun i => (scramble (key + i)).toNat
  words.foldl (fun n w => n * 0x10000000000000000 + w) 0

end Draws

end DecimalCalculator
