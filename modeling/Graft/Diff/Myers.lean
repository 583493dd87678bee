import Graft.Diff.Script

/-! The shortest way from one list to another. Common beginnings and ends are kept. What remains is
split where searches from its two ends first meet, so that no way through the split is longer than the
shortest one, and both parts are treated alike. -/

namespace Graft.Myers
variable {α : Type} [DecidableEq α]

def sharedStart : List α → List α → Nat
  | a :: as, b :: bs => if a = b then sharedStart as bs + 1 else 0
  | _, _ => 0

def sharedEnd (first second : List α) : Nat := sharedStart first.reverse second.reverse

/-- The furthest points reached on each diagonal, a diagonal being the difference of two positions. -/
structure Front where
  reach : Array Nat
  middle : Nat

namespace Front

def start (size : Nat) : Front := ⟨Array.replicate (2 * size + 3) 0, size + 1⟩

def get (front : Front) (diagonal : Int) : Nat := front.reach.getD (diagonal + front.middle).toNat 0

def set (front : Front) (diagonal : Int) (position : Nat) : Front :=
  { front with reach := front.reach.setIfInBounds (diagonal + front.middle).toNat position }

/-- Where the next step arrives on a diagonal: across from the neighbour that is further. -/
def step (front : Front) (distance diagonal : Int) : Nat :=
  if diagonal = -distance || (diagonal ≠ distance && front.get (diagonal - 1) < front.get (diagonal + 1)) then
    front.get (diagonal + 1)
  else front.get (diagonal - 1) + 1

end Front

/-- The diagonals that are searched at a distance, from the last to the first. -/
def diagonals (distance : Nat) : List Int :=
  (List.range (distance + 1)).map fun (i : Nat) => (distance : Int) - 2 * i

def agreeFrom (old new : Array α) : Nat → Nat → Nat → Nat
  | 0, _, _ => 0
  | steps + 1, x, y =>
    match old[x]?, new[y]? with
    | some a, some b => if a = b then agreeFrom old new steps (x + 1) (y + 1) + 1 else 0
    | _, _ => 0

/-- One round of the search from the start. It ends early where it meets the search from the end. -/
def forward (old new : Array α) (distance : Nat) (back : Front) : List Int → Front → Except (Nat × Nat) Front
  | [], front => .ok front
  | diagonal :: others, front =>
    let n := old.size
    let m := new.size
    let delta : Int := n - m
    let x := front.step distance diagonal
    let y : Int := x - diagonal
    let reached := if x < n && 0 ≤ y && y < m then x + agreeFrom old new n x y.toNat else x
    let front := front.set diagonal reached
    if delta % 2 ≠ 0 && (diagonal - delta).natAbs + 1 ≤ distance && n ≤ reached + back.get (delta - diagonal) then
      .error (x, y.toNat)
    else forward old new distance back others front

/-- One round of the search from the end, whose positions count from the end. -/
def backward (old new backOld backNew : Array α) (distance : Nat) (front : Front) :
    List Int → Front → Except (Nat × Nat) Front
  | [], back => .ok back
  | diagonal :: others, back =>
    let n := old.size
    let m := new.size
    let delta : Int := n - m
    let x := back.step distance diagonal
    let y : Int := x - diagonal
    let agreed := if x < n && 0 ≤ y && y < m then agreeFrom backOld backNew n x y.toNat else 0
    let reached := x + agreed
    let back := back.set diagonal reached
    if delta % 2 = 0 && (diagonal - delta).natAbs ≤ distance && n ≤ reached + front.get (delta - diagonal) then
      .error (n - reached, m - (y.toNat + agreed))
    else backward old new backOld backNew distance front others back

def meet (old new backOld backNew : Array α) : Nat → Nat → Front → Front → Option (Nat × Nat)
  | 0, _, _, _ => none
  | rounds + 1, distance, front, back =>
    match forward old new distance back (diagonals distance) front with
    | .error point => some point
    | .ok front =>
      match backward old new backOld backNew distance front (diagonals distance) back with
      | .error point => some point
      | .ok back => meet old new backOld backNew rounds (distance + 1) front back

/-- A point where two lists can be split. -/
def splitPoint (old new : List α) : Option (Nat × Nat) :=
  let rounds := (old.length + new.length + 1) / 2 + 1
  meet old.toArray new.toArray old.reverse.toArray new.reverse.toArray rounds 0 (.start rounds) (.start rounds)

def scriptFrom : Nat → List α → List α → List (Run α)
  | 0, old, new => Script.run .removed old ++ Script.run .added new
  | steps + 1, old, new =>
    let start := sharedStart old new
    let kept := old.take start
    let old := old.drop start
    let new := new.drop start
    let stop := sharedEnd old new
    let tail := old.drop (old.length - stop)
    let old := old.take (old.length - stop)
    let new := new.take (new.length - stop)
    let between :=
      if old.isEmpty || new.isEmpty then Script.run .removed old ++ Script.run .added new
      else
        match splitPoint old new with
        | some (x, y) =>
          scriptFrom steps (old.take x) (new.take y) ++ scriptFrom steps (old.drop x) (new.drop y)
        | none => Script.run .removed old ++ Script.run .added new
    Script.run .context kept ++ between ++ Script.run .context tail

/-- A shortest script from one list to another. -/
def script (old new : List α) : List (Run α) := scriptFrom (old.length + new.length + 1) old new

end Graft.Myers
