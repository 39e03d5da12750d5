import Mathlib.Tactic
import RobotControl.Proofs.ExactArithmetic
import RobotControl.Proofs.Idling

/-!
# Short-circuit evaluation

A conjunction or disjunction looks at its right side only when the left side leaves the result open.
So a condition fails exactly because of a comparison that fails and that the evaluation gets to, and
faults anywhere else in it do no harm.

Each comparison is looked at in a state of its own.  On a robot whose sensors show fixed numbers
these states make no difference, and the answers can be compared.

* `answerOf`: the value or the fault, without the state;
* `Robot.Steady`: the sensors show fixed numbers;
* `Cond.at?`: the part of a condition at a path;
* `Cond.Blames`: a comparison that fails and that the evaluation gets to;
* `Cond.truth`: the truth value over unbounded integers, without short circuits and faults;
* `Cond.eval_shortCircuits`: the main result.
-/

namespace RobotControl

variable {ε σ α β : Type}

/-! ### Answers that do not depend on the state -/

/-- The answer of a result: its value or its error, without the state. -/
def answerOf : EStateM.Result ε σ α → Except ε α
  | .ok a _ => .ok a
  | .error e _ => .error e

theorem answerOf_ofExcept (r : Except ε α) (s : σ) :
    answerOf ((ofExcept r : EStateM ε σ α) s) = r := by
  cases r with
  | ok | error => rfl

theorem Agree.answerOf_eq {τ : Type} {Ok Err : τ → σ → Prop} {r : EStateM.Result ε τ α}
    {r' : EStateM.Result ε σ α} (h : Agree Ok Err r r') : answerOf r = answerOf r' := by
  cases h with
  | ok | error => rfl

/-- In all states of `S` the answer is the same, and the state afterwards is in `S` again. -/
def Still (S : σ → Prop) (x : EStateM ε σ α) : Prop :=
  ∀ t s, S t ∧ S s → Agree (fun t s => S t ∧ S s) (fun t s => S t ∧ S s) (x t) (x s)

namespace Still

variable {S : σ → Prop} {x : EStateM ε σ α} {f : α → EStateM ε σ β} {s : σ}

theorem pure (a : α) : Still S (pure a : EStateM ε σ α) := fun _ _ h => Agree.pure a h

theorem ofExcept (r : Except ε α) : Still S (ofExcept r : EStateM ε σ α) := by
  intro t s h
  cases r with
  | ok a => exact .ok h
  | error e => exact .error h

theorem bind (hx : Still S x) (hf : ∀ a, Still S (f a)) : Still S (x >>= f) :=
  fun t s h => (hx t s h).bind hf

/-- The second of two steps answers as if the first one had not changed the state. -/
theorem answerOf_bind (hx : Still S x) (hf : ∀ a, Still S (f a)) (hs : S s) :
    answerOf ((x >>= f) s) = answerOf (x s) >>= fun a => answerOf (f a s) := by
  have hself := hx s s ⟨hs, hs⟩
  cases hres : x s with
  | error e t =>
    rw [bind_of_error hres]
    rfl
  | ok a t =>
    rw [hres] at hself
    obtain ⟨ht⟩ := hself
    rw [bind_of_ok hres]
    exact (hf a t s ⟨ht.1, hs⟩).answerOf_eq

theorem bind_eq_ok_iff (hx : Still S x) (hf : ∀ a, Still S (f a)) (hs : S s) {b : β} :
    answerOf ((x >>= f) s) = .ok b ↔ ∃ a, answerOf (x s) = .ok a ∧ answerOf (f a s) = .ok b := by
  rw [hx.answerOf_bind hf hs]
  cases answerOf (x s) <;> simp [Bind.bind, Except.bind]

theorem bind_eq_error_iff (hx : Still S x) (hf : ∀ a, Still S (f a)) (hs : S s) {e : ε} :
    answerOf ((x >>= f) s) = .error e ↔
      answerOf (x s) = .error e ∨ ∃ a, answerOf (x s) = .ok a ∧ answerOf (f a s) = .error e := by
  rw [hx.answerOf_bind hf hs]
  cases answerOf (x s) <;> simp [Bind.bind, Except.bind]

end Still

/-- In the states of `S` the sensors show fixed numbers, and reading them does not lead out of `S`.
-/
structure Robot.Steady (R : Robot σ) (shown : Sensor → Int64) (S : σ → Prop) : Prop where
  shows : ∀ x s, S s → (R.sense x s).1 = shown x
  stays : ∀ x s, S s → S (R.sense x s).2

/-- Sensors that can be read without changing anything show fixed numbers in each state. -/
theorem Robot.PureSensors.steady {R : Robot σ} (h : R.PureSensors) (s : σ) :
    R.Steady (fun x => (R.sense x s).1) (· = s) where
  shows := by
    rintro x _ rfl
    rfl
  stays := by
    rintro x _ rfl
    exact h x _

variable {R : Robot σ} {shown : Sensor → Int64} {S : σ → Prop} {s : σ}

namespace Robot.Steady

theorem sensesAlike (h : R.Steady shown S) : R.SensesAlike R fun t s => S t ∧ S s := by
  rintro x t s ⟨ht, hs⟩
  have hread (u : σ) (hu : S u) : R.read x u = .ok (shown x) (R.sense x u).2 := by
    rw [← h.shows x u hu]
    rfl
  rw [hread t ht, hread s hs]
  exact .ok ⟨h.stays x t ht, h.stays x s hs⟩

theorem expr (h : R.Steady shown S) (e : Expr) : Still S (e.eval R) := fun _ _ hts =>
  Expr.eval_agreeOn (h.sensesAlike.on _) hts

theorem cond (h : R.Steady shown S) (c : Cond) : Still S (c.eval R) := fun _ _ hts =>
  c.eval_agree h.sensesAlike hts

end Robot.Steady

/-! ### Exact values -/

/-- The value of an expression over unbounded integers, when the sensors show `shown`. -/
def Expr.exactAt (shown : Sensor → Int64) : Expr → Int
  | .num v => v.toInt
  | .sensor x => (shown x).toInt
  | .binary .add l r => l.exactAt shown + r.exactAt shown
  | .binary .sub l r => l.exactAt shown - r.exactAt shown
  | .binary .mul l r => l.exactAt shown * r.exactAt shown
  | .binary .div l r => (l.exactAt shown).tdiv (r.exactAt shown)

theorem Expr.exactAt_binary (shown : Sensor → Int64) (op : ArithOp) (l r : Expr) :
    (binary op l r).exactAt shown = op.exact (l.exactAt shown) (r.exactAt shown) := by
  cases op <;> rfl

/-- Whether a comparison holds over unbounded integers. -/
def RelOp.exact (op : RelOp) (l r : Int) : Bool :=
  match op with
  | .lt => l < r
  | .gt => l > r
  | .eq => l = r

/-- The truth value of a condition over unbounded integers. -/
def Cond.truth (shown : Sensor → Int64) : Cond → Bool
  | .compare op l r => op.exact (l.exactAt shown) (r.exactAt shown)
  | .conj l r => l.truth shown && r.truth shown
  | .disj l r => l.truth shown || r.truth shown
  | .neg c => !c.truth shown

theorem RelOp.holds_eq_exact (op : RelOp) (a b : Int64) :
    op.holds a b = op.exact a.toInt b.toInt := by
  cases op with
  | lt | gt => rfl
  | eq => simp [holds, exact, Int64.toInt_inj]

theorem Robot.Steady.toInt_eq_exactAt (h : R.Steady shown S) (hs : S s) {e : Expr} {v : Int64}
    (hv : answerOf (e.eval R s) = .ok v) : v.toInt = e.exactAt shown := by
  induction e generalizing v with
  | num w =>
    cases hv
    rfl
  | sensor x =>
    cases hv
    rw [Expr.exactAt, ← h.shows x s hs]
  | binary op l r ihl ihr =>
    have htail (a : Int64) : Still S (r.eval R >>= fun b => ofExcept (op.apply a b)) :=
      (h.expr r).bind fun b => .ofExcept _
    obtain ⟨a, ha, hv⟩ := ((h.expr l).bind_eq_ok_iff htail hs).1 hv
    obtain ⟨b, hb, hv⟩ := ((h.expr r).bind_eq_ok_iff (fun b => .ofExcept _) hs).1 hv
    rw [answerOf_ofExcept] at hv
    rw [(ArithOp.apply_eq_ok_iff.1 hv).2, ihl ha, ihr hb, Expr.exactAt_binary]

/-! ### The parts of a condition -/

/-- A way from a condition to one of its parts. -/
inductive Side where
  | left
  | right
  | inner
deriving DecidableEq, Repr

/-- One step down. -/
def Cond.child? : Cond → Side → Option Cond
  | .conj l _, .left | .disj l _, .left => some l
  | .conj _ r, .right | .disj _ r, .right => some r
  | .neg c, .inner => some c
  | _, _ => none

/-- The part of a condition at the end of a path. -/
def Cond.at? : Cond → List Side → Option Cond
  | c, [] => some c
  | c, d :: p => do (← c.child? d).at? p

/-- The operands of a comparison fail with the fault `f`: the left one, or else the right one. -/
def OperandsFail (R : Robot σ) (s : σ) (l r : Expr) (f : Fault) : Prop :=
  answerOf (l.eval R s) = .error f ∨
    ∃ v, answerOf (l.eval R s) = .ok v ∧ answerOf (r.eval R s) = .error f

namespace Cond

/-- After the left side the evaluation goes on to the right side: that of a conjunction was true,
and that of a disjunction false. -/
def GoesOn (R : Robot σ) (s : σ) : Cond → Prop
  | .conj l _ => answerOf (l.eval R s) = .ok true
  | .disj l _ => answerOf (l.eval R s) = .ok false
  | .compare _ _ _ | .neg _ => True

/-- The comparison at the path `p` fails with the fault `f`, and evaluation gets to it, past the
left side of everything that has it on the right. -/
structure Blames (R : Robot σ) (s : σ) (c : Cond) (p : List Side) (f : Fault) : Prop where
  fails : ∃ op l r, c.at? p = some (.compare op l r) ∧ OperandsFail R s l r f
  reached : ∀ above below a, p = above ++ .right :: below → c.at? above = some a → a.GoesOn R s

variable {c c' l r : Cond} {d : Side} {p : List Side} {f : Fault}

theorem at?_cons (h : c.child? d = some c') (p : List Side) : c.at? (d :: p) = c'.at? p := by
  rw [at?, h]
  rfl

theorem blames_compare_nil {op : RelOp} {l r : Expr} :
    (compare op l r).Blames R s [] f ↔ OperandsFail R s l r f := by
  constructor
  · rintro ⟨⟨_, _, _, ⟨⟩, hf⟩, -⟩
    exact hf
  · intro hf
    exact ⟨⟨op, l, r, rfl, hf⟩, fun above below a hp => by simp at hp⟩

theorem blames_cons (h : c.child? d = some c') :
    c.Blames R s (d :: p) f ↔ (d = .right → c.GoesOn R s) ∧ c'.Blames R s p f := by
  constructor
  · rintro ⟨hfails, hreached⟩
    rw [at?_cons h] at hfails
    refine ⟨?_, hfails, ?_⟩
    · rintro rfl
      exact hreached [] p c rfl rfl
    · rintro above below a rfl ha
      exact hreached (d :: above) below a rfl (by rwa [at?_cons h])
  · rintro ⟨hgoes, hfails, hreached⟩
    refine ⟨by rwa [at?_cons h], ?_⟩
    rintro (_ | ⟨d', above⟩) below a hp ha
    · cases hp
      cases ha
      exact hgoes rfl
    · cases hp
      rw [at?_cons h] at ha
      exact hreached above below a rfl ha

/-- What is blamed in a condition is blamed in a part of it that the evaluation gets to, unless the
condition is a comparison itself. -/
theorem exists_blames_iff :
    (∃ p, c.Blames R s p f) ↔ c.Blames R s [] f ∨
      ∃ d c', c.child? d = some c' ∧ (d = .right → c.GoesOn R s) ∧ ∃ p, c'.Blames R s p f := by
  constructor
  · rintro ⟨_ | ⟨d, p⟩, hp⟩
    · exact .inl hp
    · obtain ⟨op, l, r, hat, -⟩ := hp.fails
      obtain ⟨c', hc', -⟩ := Option.bind_eq_some_iff.1 hat
      obtain ⟨hgoes, hp⟩ := (blames_cons hc').1 hp
      exact .inr ⟨d, c', hc', hgoes, p, hp⟩
  · rintro (hp | ⟨d, c', hc', hgoes, p, hp⟩)
    · exact ⟨[], hp⟩
    · exact ⟨d :: p, (blames_cons hc').2 ⟨hgoes, hp⟩⟩

theorem exists_blames_compare {op : RelOp} {l r : Expr} :
    (∃ p, (compare op l r).Blames R s p f) ↔ OperandsFail R s l r f := by
  rw [exists_blames_iff, blames_compare_nil]
  simp [child?]

theorem exists_blames_neg : (∃ p, (neg c).Blames R s p f) ↔ ∃ p, c.Blames R s p f := by
  rw [exists_blames_iff]
  constructor
  · rintro (hp | ⟨d, c', hc', -, hp⟩)
    · obtain ⟨_, _, _, ⟨⟩, -⟩ := hp.fails
    · cases d <;> cases hc'
      exact hp
  · intro hp
    exact .inr ⟨.inner, c, rfl, nofun, hp⟩

/-- In a conjunction or a disjunction something on the left is blamed, or something on the right if
the evaluation goes on to it. -/
theorem exists_blames_sides (hl : c.child? .left = some l) (hr : c.child? .right = some r) :
    (∃ p, c.Blames R s p f) ↔
      (∃ p, l.Blames R s p f) ∨ c.GoesOn R s ∧ ∃ p, r.Blames R s p f := by
  rw [exists_blames_iff]
  constructor
  · rintro (hp | ⟨d, c', hc', hgoes, hp⟩)
    · obtain ⟨_, _, _, ⟨⟩, -⟩ := hp.fails
      cases hl
    · cases d with
      | left =>
        cases hl.symm.trans hc'
        exact .inl hp
      | right =>
        cases hr.symm.trans hc'
        exact .inr ⟨hgoes rfl, hp⟩
      | inner =>
        cases c <;> cases hc'
        cases hl
  · rintro (hp | ⟨hgoes, hp⟩)
    · exact .inr ⟨.left, l, hl, nofun, hp⟩
    · exact .inr ⟨.right, r, hr, fun _ => hgoes, hp⟩

end Cond

/-! ### One condition, from the answers of its parts -/

namespace Robot.Steady

variable {l r : Cond} {f : Fault}

theorem compare_tail (h : R.Steady shown S) (op : RelOp) (r : Expr) (a : Int64) :
    Still S (r.eval R >>= fun b => pure (op.holds a b)) := (h.expr r).bind fun _ => .pure _

theorem conj_tail (h : R.Steady shown S) (r : Cond) (holds : Bool) :
    Still S (if holds then r.eval R else pure false) := by
  cases holds with
  | true => exact h.cond r
  | false => exact .pure false

theorem disj_tail (h : R.Steady shown S) (r : Cond) (holds : Bool) :
    Still S (if holds then pure true else r.eval R) := by
  cases holds with
  | true => exact .pure true
  | false => exact h.cond r

theorem compare_eq_error_iff (h : R.Steady shown S) (hs : S s) {op : RelOp} {l r : Expr} :
    answerOf ((Cond.compare op l r).eval R s) = .error f ↔ OperandsFail R s l r f := by
  rw [Cond.eval, (h.expr l).bind_eq_error_iff (h.compare_tail op r) hs]
  refine or_congr_right (exists_congr fun a => and_congr_right fun _ => ?_)
  rw [(h.expr r).bind_eq_error_iff (fun _ => .pure _) hs]
  simp [answerOf]

/-- A conjunction or a disjunction fails when its left side does, or when the right side does that
the evaluation goes on to. -/
theorem conj_eq_error_iff (h : R.Steady shown S) (hs : S s) :
    answerOf ((Cond.conj l r).eval R s) = .error f ↔ answerOf (l.eval R s) = .error f ∨
      (Cond.conj l r).GoesOn R s ∧ answerOf (r.eval R s) = .error f := by
  rw [Cond.eval, (h.cond l).bind_eq_error_iff (h.conj_tail r) hs]
  simp [Cond.GoesOn, answerOf]

theorem disj_eq_error_iff (h : R.Steady shown S) (hs : S s) :
    answerOf ((Cond.disj l r).eval R s) = .error f ↔ answerOf (l.eval R s) = .error f ∨
      (Cond.disj l r).GoesOn R s ∧ answerOf (r.eval R s) = .error f := by
  rw [Cond.eval, (h.cond l).bind_eq_error_iff (h.disj_tail r) hs]
  simp [Cond.GoesOn, answerOf]

theorem neg_eq_error_iff (h : R.Steady shown S) (hs : S s) {c : Cond} :
    answerOf ((Cond.neg c).eval R s) = .error f ↔ answerOf (c.eval R s) = .error f := by
  rw [Cond.eval, (h.cond c).bind_eq_error_iff (fun _ => .pure _) hs]
  simp [answerOf]

/-! ### Whole conditions -/

/-- **A condition fails exactly if something in it is blamed.** -/
theorem eval_eq_error_iff (h : R.Steady shown S) (hs : S s) (c : Cond) (f : Fault) :
    answerOf (c.eval R s) = .error f ↔ ∃ p, c.Blames R s p f := by
  -- The right side is really evaluated after the left one.  In `S` this is the same as in `s`.
  induction c with
  | compare op l r => rw [h.compare_eq_error_iff hs, Cond.exists_blames_compare]
  | conj l r ihl ihr =>
    rw [h.conj_eq_error_iff hs, ihl, ihr, Cond.exists_blames_sides (c := .conj l r) rfl rfl]
  | disj l r ihl ihr =>
    rw [h.disj_eq_error_iff hs, ihl, ihr, Cond.exists_blames_sides (c := .disj l r) rfl rfl]
  | neg c ih => rw [h.neg_eq_error_iff hs, ih, Cond.exists_blames_neg]

/-- **A condition without faults has its truth value.** -/
theorem eval_eq_truth (h : R.Steady shown S) (hs : S s) {c : Cond}
    (hleaves : ∀ p op l r, c.at? p = some (.compare op l r) →
      ∃ b, answerOf ((Cond.compare op l r).eval R s) = .ok b) :
    answerOf (c.eval R s) = .ok (c.truth shown) := by
  induction c with
  | compare op l r =>
    obtain ⟨holds, heval⟩ := hleaves [] op l r rfl
    rw [heval]
    obtain ⟨a, ha, heval⟩ := ((h.expr l).bind_eq_ok_iff (h.compare_tail op r) hs).1 heval
    obtain ⟨b, hb, heval⟩ := ((h.expr r).bind_eq_ok_iff (fun _ => .pure _) hs).1 heval
    cases heval
    rw [RelOp.holds_eq_exact, h.toInt_eq_exactAt hs ha, h.toInt_eq_exactAt hs hb, Cond.truth]
  | conj l r ihl ihr =>
    have hl := ihl fun p => hleaves (.left :: p)
    have hr := ihr fun p => hleaves (.right :: p)
    refine ((h.cond l).bind_eq_ok_iff (h.conj_tail r) hs).2 ⟨_, hl, ?_⟩
    rw [Cond.truth]
    cases l.truth shown with
    | true => exact hr
    | false => rfl
  | disj l r ihl ihr =>
    have hl := ihl fun p => hleaves (.left :: p)
    have hr := ihr fun p => hleaves (.right :: p)
    refine ((h.cond l).bind_eq_ok_iff (h.disj_tail r) hs).2 ⟨_, hl, ?_⟩
    rw [Cond.truth]
    cases l.truth shown with
    | true => rfl
    | false => exact hr
  | neg c ih =>
    have hc := ih fun p => hleaves (.inner :: p)
    exact ((h.cond c).bind_eq_ok_iff (fun _ => .pure _) hs).2 ⟨_, hc, rfl⟩

end Robot.Steady

/-- **Short-circuit evaluation is exact.**  Let the sensors show fixed numbers.  Then a condition

* fails exactly if one of its comparisons fails, in its left operand or else in its right one, and
  every conjunction that has this comparison on the right has a left side that is true, and every
  disjunction one that is false; the fault is that of the comparison;
* is true or false otherwise;
* has its truth value over unbounded integers, whenever all its comparisons have an answer. -/
theorem Cond.eval_shortCircuits (h : R.Steady shown S) (hs : S s) (c : Cond) :
    (∀ f, answerOf (c.eval R s) = .error f ↔ ∃ p, c.Blames R s p f) ∧
    ((∀ f p, ¬ c.Blames R s p f) → ∃ b, answerOf (c.eval R s) = .ok b) ∧
    ((∀ p op l r, c.at? p = some (.compare op l r) →
        ∃ b, answerOf ((Cond.compare op l r).eval R s) = .ok b) →
      answerOf (c.eval R s) = .ok (c.truth shown)) := by
  refine ⟨h.eval_eq_error_iff hs c, fun hnone => ?_, h.eval_eq_truth hs⟩
  cases heval : answerOf (c.eval R s) with
  | ok b => exact ⟨b, rfl⟩
  | error f =>
    obtain ⟨p, hp⟩ := (h.eval_eq_error_iff hs c f).1 heval
    exact absurd hp (hnone f p)

/-- A robot that has its opponent straight ahead. -/
def facing : Scripted := { setup := { fuel := 5, opponent := { fb := 3 } } }

/-- Divides by how far to the right the opponent is, on the right of a disjunction and of a
conjunction. -/
def aiming : Cond :=
  .disj (.compare .lt (.sensor .opponentLR) (.num 0))
    (.conj (.compare .gt (.sensor .fuelLeft) (.num 0))
      (.neg (.compare .eq (.binary .div (.sensor .opponentFB) (.sensor .opponentLR)) (.num 2))))

/-- Neither side on the left keeps the evaluation from the division. -/
theorem Cond.eval_shortCircuits_aiming :
    Scripted.robot.Steady facing.reading (· = facing) ∧
      ∃ p, aiming.Blames Scripted.robot facing p (.divisionByZero 3) := by
  have hsteady := Scripted.pureSensors.steady facing
  exact ⟨hsteady, ((Cond.eval_shortCircuits hsteady rfl aiming).1 _).1 rfl⟩

end RobotControl
