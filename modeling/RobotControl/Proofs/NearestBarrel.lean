import Mathlib.Data.List.MinMax
import Mathlib.Tactic
import RobotControl.Robot.Scripted

/-!
# The nearest barrel

The two barrel sensors show the place of one barrel, the first of those at the least distance.  That
distance is kept in 64 bits, and there is one place, the far corner, whose number of steps does not
fit.

* `Position.steps`: the exact number of steps to a place;
* `Setup.closest?_eq_argmin`: the barrel that is shown, as a minimum over the list of barrels;
* `Overshadowed`: lists in which the far corner hides a barrel that is one step nearer.  On these
  lists, and on no others, the sensors do not show the nearest barrel.
-/

namespace RobotControl

/-! ### Distances -/

theorem natAbs_toInt_le (v : Int64) : v.toInt.natAbs ≤ 2 ^ 63 := by
  have hlo := v.le_toInt
  have hhi := v.toInt_lt
  omega

theorem eq_minValue_of_natAbs {v : Int64} (h : v.toInt.natAbs = 2 ^ 63) : v = Int64.minValue := by
  have hhi := v.toInt_lt
  have hv : v.toInt = -2 ^ 63 := by omega
  rw [← Int64.ofInt_toInt v, hv]
  rfl

namespace Position

/-- The exact number of steps to a place. -/
def steps (p : Position) : Nat := p.lr.toInt.natAbs + p.fb.toInt.natAbs

/-- The place that is farthest away. -/
def farCorner : Position := ⟨Int64.minValue, Int64.minValue⟩

theorem distance_eq_min (p : Position) : p.distance = min p.steps (2 ^ 64 - 1) := rfl

theorem steps_farCorner : farCorner.steps = 2 ^ 64 := by decide

/-- Every other place can be reached in fewer steps. -/
theorem steps_lt {p : Position} (h : p ≠ farCorner) : p.steps < 2 ^ 64 := by
  obtain ⟨lr, fb⟩ := p
  have hlr := natAbs_toInt_le lr
  have hfb := natAbs_toInt_le fb
  by_contra hge
  have hsum : 2 ^ 64 ≤ lr.toInt.natAbs + fb.toInt.natAbs := not_lt.1 hge
  obtain rfl : lr = Int64.minValue := eq_minValue_of_natAbs (by omega)
  obtain rfl : fb = Int64.minValue := eq_minValue_of_natAbs (by omega)
  exact h rfl

end Position

/-! ### The least distance -/

theorem foldl_argAux_some (p : Position) (ps : List Position) :
    ps.foldl (List.argAux fun q best => q.distance < best.distance) (some p) =
      some (ps.foldl (fun best q => if q.distance < best.distance then q else best) p) := by
  induction ps generalizing p with
  | nil => rfl
  | cons q ps ih =>
    have hstep : List.argAux (fun q best => q.distance < best.distance) (some p) q =
        some (if q.distance < p.distance then q else p) := by
      simp only [List.argAux]
      split_ifs <;> rfl
    rw [List.foldl_cons, List.foldl_cons, hstep, ih]

/-- The barrel that is shown is the first of those at the least distance. -/
theorem Setup.closest?_eq_argmin (u : Setup) : u.closest? = u.barrels.argmin Position.distance := by
  unfold Setup.closest? List.argmin
  cases u.barrels with
  | nil => rfl
  | cons p ps => exact (foldl_argAux_some p ps).symm

/-- The first barrel stands in the far corner and hides the others, although one of them is nearer:
none of them is nearer by more than one step. -/
def Overshadowed (ps : List Position) : Prop :=
  ps.head? = some .farCorner ∧ (∀ q ∈ ps, 2 ^ 64 - 1 ≤ q.steps) ∧ ∃ q ∈ ps, q ≠ .farCorner

/-- The first of several equally distant barrels is shown. -/
theorem argmin_distance_of_forall {p : Position} {ps : List Position} {d : Nat}
    (h : ∀ q ∈ p :: ps, q.distance = d) : (p :: ps).argmin Position.distance = some p := by
  refine List.argmin_eq_some_iff.2 ⟨List.mem_cons_self, fun q hq => ?_, fun q _ _ => ?_⟩
  · rw [h p List.mem_cons_self, h q hq]
  · rw [List.idxOf_cons_self]
    exact Nat.zero_le _

theorem distance_of_steps {q : Position} (h : 2 ^ 64 - 1 ≤ q.steps) : q.distance = 2 ^ 64 - 1 := by
  rw [Position.distance_eq_min]
  omega

/-- A barrel behind the far corner is overlooked. -/
theorem Overshadowed.argmin_ne {ps : List Position} (h : Overshadowed ps) :
    ps.argmin Position.distance = some .farCorner ∧
      ∃ m, ps.argmin Position.steps = some m ∧ m ≠ .farCorner := by
  obtain ⟨hhead, hfar, q, hq, hne⟩ := h
  obtain ⟨ps, rfl⟩ := List.head?_eq_some_iff.1 hhead
  refine ⟨argmin_distance_of_forall fun q hq => distance_of_steps (hfar q hq), ?_⟩
  cases hm : (Position.farCorner :: ps).argmin Position.steps with
  | none => cases List.argmin_eq_none.1 hm
  | some m =>
    refine ⟨m, rfl, ?_⟩
    rintro rfl
    have hle := List.le_of_mem_argmin hq hm
    have hlt := Position.steps_lt hne
    rw [Position.steps_farCorner] at hle
    omega

/-- Where no barrel is overlooked, the distance tells which one is nearest. -/
theorem argmin_distance_eq {ps : List Position} (h : ¬ Overshadowed ps) :
    ps.argmin Position.distance = ps.argmin Position.steps := by
  cases hm : ps.argmin Position.distance with
  | none =>
    rw [List.argmin_eq_none.1 hm]
    rfl
  | some m =>
    obtain ⟨hmem, hmin, hfirst⟩ := List.argmin_eq_some_iff.1 hm
    have hsteps (q : Position) := q.distance_eq_min
    symm
    by_cases hnear : m.distance < 2 ^ 64 - 1
    · refine List.argmin_eq_some_iff.2 ⟨hmem, fun q hq => ?_, fun q hq hle => hfirst q hq ?_⟩
      · have hle := hmin q hq
        rw [hsteps, hsteps q] at hle
        rw [hsteps] at hnear
        omega
      · rw [hsteps, hsteps m]
        omega
    · -- all barrels are at the largest distance, so that the first one is shown
      have hfar : ∀ q ∈ ps, 2 ^ 64 - 1 ≤ q.steps := by
        intro q hq
        have hle := hmin q hq
        rw [hsteps q] at hle
        omega
      obtain ⟨p, ps, rfl⟩ := List.exists_cons_of_ne_nil (List.ne_nil_of_mem hmem)
      rw [argmin_distance_of_forall fun q hq => distance_of_steps (hfar q hq),
        Option.some.injEq] at hm
      subst hm
      refine List.argmin_eq_some_iff.2 ⟨hmem, fun q hq => ?_, fun q _ _ => ?_⟩
      · by_cases hp : p = .farCorner
        · -- then they all stand in the far corner
          have hq' : q = .farCorner := by
            by_contra hne
            exact h ⟨by rw [hp]; rfl, hfar, q, hq, hne⟩
          rw [hp, hq']
        · have hlt := Position.steps_lt hp
          have hge := hfar q hq
          omega
      · rw [List.idxOf_cons_self]
        exact Nat.zero_le _

/-! ### What the sensors show -/

/-- **The barrel sensors show one barrel, the first of those at the least distance**, and zero when
there is none.  That is the first of the barrels that are nearest in exact steps, unless the far
corner overshadows them: then the first barrel is shown, and another one is nearer. -/
theorem Scripted.barrel_reading_exact_iff (r : Scripted) :
    let shown := (r.setup.barrels.argmin Position.distance).getD ⟨0, 0⟩
    let nearest := (r.setup.barrels.argmin Position.steps).getD ⟨0, 0⟩
    (r.reading .barrelLR = shown.lr ∧ r.reading .barrelFB = shown.fb) ∧
      (r.reading .barrelLR = nearest.lr ∧ r.reading .barrelFB = nearest.fb ↔
        ¬ Overshadowed r.setup.barrels) := by
  intro shown nearest
  have hlr : r.reading .barrelLR = shown.lr := by
    rw [Scripted.reading, Setup.closest?_eq_argmin]
  have hfb : r.reading .barrelFB = shown.fb := by
    rw [Scripted.reading, Setup.closest?_eq_argmin]
  refine ⟨⟨hlr, hfb⟩, ?_, fun h => ?_⟩
  · rintro ⟨hlr', hfb'⟩ h
    obtain ⟨hshown, m, hnearest, hne⟩ := h.argmin_ne
    have hs : shown = .farCorner := by simp [shown, hshown]
    have hn : nearest = m := by simp [nearest, hnearest]
    rw [hlr, hs, hn] at hlr'
    rw [hfb, hs, hn] at hfb'
    obtain ⟨lr, fb⟩ := m
    cases hlr'
    cases hfb'
    exact hne rfl
  · have heq : shown = nearest := by simp [shown, nearest, argmin_distance_eq h]
    exact heq ▸ ⟨hlr, hfb⟩

/-- Two barrels, the second of which is one step nearer. -/
def Setup.behindCorner : Setup :=
  { barrels := [.farCorner, ⟨Int64.minValue, Int64.minValue + 1⟩] }

/-- The sensors show the first of these barrels. -/
theorem Scripted.barrel_reading_behindCorner :
    let r : Scripted := { setup := .behindCorner }
    let nearest := (r.setup.barrels.argmin Position.steps).getD ⟨0, 0⟩
    nearest = ⟨Int64.minValue, Int64.minValue + 1⟩ ∧ r.reading .barrelFB = Int64.minValue ∧
      ¬ (r.reading .barrelLR = nearest.lr ∧ r.reading .barrelFB = nearest.fb) := by
  decide

end RobotControl
