import RobotControl.Robot

/-!
# A playback robot

A robot without surroundings. Each sensor plays back a list of readings, one at every read, and goes
on with the last one when the list is used up. The robot can be told to halt once, at a given call.
-/

namespace RobotControl

/-- The readings still to be played back, and the number of calls so far. -/
structure Playback where
  reels : List (Sensor × List Int64) := []
  haltAt : Option Nat := none
  reason : String := ""
  calls : Nat := 0
deriving DecidableEq, Repr

namespace Playback

/-- What is still to be played back for a sensor. -/
def reel (p : Playback) (s : Sensor) : List Int64 := (p.reels.lookup s).getD []

/-- A reel after one reading: the last reading stays. -/
def advance : List Int64 → List Int64
  | _ :: v :: vs => v :: vs
  | vs => vs

/-- The robot after a reading of `s`. -/
def afterReading (p : Playback) (s : Sensor) : Playback :=
  { p with reels := p.reels.map fun (t, vs) => (t, if t = s then advance vs else vs) }

/-- Playback robots as state machines. A sensor without readings shows zero. -/
def robot : Robot Playback where
  sense s := fun p => ((p.reel s).headD 0, p.afterReading s)
  act _ := fun p =>
    let p' := { p with calls := p.calls + 1 }
    if p.haltAt = some p'.calls then .error ⟨p.reason⟩ p' else .ok () p'

end Playback

end RobotControl
