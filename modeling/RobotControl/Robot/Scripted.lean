import RobotControl.Robot

/-!
# A scripted robot

A robot in a world that never changes: its surroundings are fixed by a `Setup`, and only its fuel,
its shield and its record of accepted calls vary. A call is refused when a move finds no fuel, or
when as many calls have been accepted as the setup allows.

* `Setup.closest?`: the barrel nearest to the robot;
* `Scripted.reading`: what the sensors show;
* `Scripted.record`, `Scripted.move`, `Scripted.setShield`: what the actuators check and change.
-/

namespace RobotControl

/-- A place seen from the robot: to its left or right, and in front of it or behind it. -/
structure Position where
  lr : Int64 := 0
  fb : Int64 := 0
deriving DecidableEq, Repr

/-- The number of steps to a place. It is kept in an unsigned 64-bit word, whose largest value also
stands for everything beyond it. -/
def Position.distance (p : Position) : Nat :=
  min (p.lr.toInt.natAbs + p.fb.toInt.natAbs) (UInt64.size - 1)

/-- The surroundings of a scripted robot, its first fuel, and how many calls it may accept. -/
structure Setup where
  fuel : Int64 := 0
  opponent : Position := {}
  barrels : List Position := []
  wall : Int64 := 0
  budget : Option Nat := none
deriving DecidableEq, Repr

/-- The nearest barrel; of several, the one that is listed first. -/
def Setup.closest? (u : Setup) : Option Position :=
  match u.barrels with
  | [] => none
  | p :: ps => some (ps.foldl (fun best q => if q.distance < best.distance then q else best) p)

/-- A scripted robot: its setup, and what its calls have made of it. -/
structure Scripted where
  setup : Setup
  fuel : Int64 := setup.fuel
  shield : Bool := false
  calls : Array Call := #[]
deriving DecidableEq, Repr

/-- Why a scripted robot refuses a call. -/
inductive Refusal where
  | outOfFuel
  | budgetSpent (budget : Nat)
deriving DecidableEq, Repr

/-- The wording of a refusal. -/
def Refusal.reason : Refusal → String
  | .outOfFuel => "out of fuel"
  | .budgetSpent b => "action budget of " ++ toString b ++ " exhausted"

namespace Scripted

/-- What a sensor shows. The nearest barrel is at the robot's own place when there is none. -/
def reading (r : Scripted) : Sensor → Int64
  | .fuelLeft => r.fuel
  | .opponentLR => r.setup.opponent.lr
  | .opponentFB => r.setup.opponent.fb
  | .numBarrels => (fit? r.setup.barrels.length).getD Int64.maxValue
  | .barrelLR => (r.setup.closest?.getD {}).lr
  | .barrelFB => (r.setup.closest?.getD {}).fb
  | .wallDist => r.setup.wall

/-! ### Actuators

An actuator checks first and changes something afterwards, so that the order of its steps decides
what a refused call leaves behind. -/

/-- The budget, if as many calls have been accepted. -/
def spent? (r : Scripted) : Option Nat := r.setup.budget.filter fun b => b ≤ r.calls.size

/-- Writes a call down, or refuses it when the budget is spent. -/
def record (c : Call) : EStateM Refusal Scripted Unit := do
  match (← get).spent? with
  | some b => throw (.budgetSpent b)
  | none => modify fun r => { r with calls := r.calls.push c }

/-- The fuel that a move needs: its distance, one when none is given, and nothing for a move
backwards. -/
def cost (distance : Option Int64) : Int :=
  match distance with
  | none => 1
  | some d => max 0 d.toInt

/-- What is left of `fuel` after a move. It does not fall below zero. -/
def fuelAfter (fuel : Int64) (distance : Option Int64) : Int64 :=
  Int64.ofInt (max 0 (fuel.toInt - cost distance))

/-- Looks for fuel, has the move written down, and uses fuel up. -/
def move (distance : Option Int64) : EStateM Refusal Scripted Unit := do
  if (← get).fuel.toInt ≤ 0 then throw .outOfFuel else
  record (.move distance)
  modify fun r => { r with fuel := fuelAfter r.fuel distance }

/-- Has the call written down, and raises or lowers the shield. -/
def setShield (raised : Bool) : EStateM Refusal Scripted Unit := do
  record (.shield raised)
  modify fun r => { r with shield := raised }

/-- Carries out a call. Only moves and the shield change more than the record. -/
def carryOut : Call → EStateM Refusal Scripted Unit
  | .move distance => move distance
  | .shield raised => setShield raised
  | c => record c

/-- Scripted robots as state machines. Reading a sensor changes nothing. -/
def robot : Robot Scripted where
  sense s := fun r => (r.reading s, r)
  act c := (carryOut c).adaptExcept fun e => ⟨e.reason⟩

end Scripted

end RobotControl
