import Mathlib.Tactic
import RobotControl.Proofs.Equivalence

/-!
# Exact arithmetic

Expressions are computed in 64 bits, but never wrongly: the value is the one that unbounded integers
give, or the first operation without a result in 64 bits is reported, and nothing is read after it.

A sensor may show something else at each reading, so the values of a tree of operations are those of
a `Sample`, in which every mention of a sensor has a reading of its own.

* `Expr.sample`: reads the sensors of an expression from left to right, without computing anything;
* `Sample.exact`: the value over unbounded integers, with their own operations;
* `Sample.postorder`: the nodes in the order in which they are computed;
* `Sample.Fails`, `Sample.Raises`: nodes without a result, and the fault that is reported for them;
* `Expr.eval_exact`: the main result.
-/

namespace RobotControl

/-- An expression with a reading for each mention of a sensor. -/
inductive Sample where
  | num (value : Int64)
  | reading (s : Sensor) (value : Int64)
  | binary (op : ArithOp) (left right : Sample)
deriving DecidableEq, Repr

variable {σ : Type}

/-- Reads the sensors of an expression, once for each mention, from left to right. -/
def Expr.sample (R : Robot σ) : Expr → σ → Sample × σ
  | .num v, s => (.num v, s)
  | .sensor x, s =>
    let (v, s') := R.sense x s
    (.reading x v, s')
  | .binary op l r, s =>
    let (a, s₁) := l.sample R s
    let (b, s₂) := r.sample R s₁
    (.binary op a b, s₂)

namespace Sample

/-- The expression that was sampled. -/
def expr : Sample → Expr
  | .num v => .num v
  | .reading x _ => .sensor x
  | .binary op l r => .binary op l.expr r.expr

/-- The value over unbounded integers.  Division goes toward zero. -/
def exact : Sample → Int
  | .num v | .reading _ v => v.toInt
  | .binary .add l r => l.exact + r.exact
  | .binary .sub l r => l.exact - r.exact
  | .binary .mul l r => l.exact * r.exact
  | .binary .div l r => l.exact.tdiv r.exact

/-- The nodes, each one after what it is computed from, and from left to right. -/
def postorder : Sample → List Sample
  | .num v => [.num v]
  | .reading x v => [.reading x v]
  | .binary op l r => l.postorder ++ r.postorder ++ [.binary op l r]

/-- The reading at a node. -/
def event? : Sample → Option Event
  | .reading x v => some (.read x v)
  | .num _ | .binary _ _ _ => none

/-- The exact value fits into 64 bits. -/
def InRange (x : Sample) : Prop := -2 ^ 63 ≤ x.exact ∧ x.exact ≤ 2 ^ 63 - 1

/-- An operation that divides by zero, or whose exact value is out of range. -/
def Fails : Sample → Prop
  | .num _ | .reading _ _ => False
  | .binary op l r => (op = .div ∧ r.exact = 0) ∨ ¬ (binary op l r).InRange

/-- The fault that is reported for an operation without a result, with the values of its
operands. -/
inductive Raises : Sample → Fault → Prop
  | division {l r : Sample} {a : Int64} (ha : a.toInt = l.exact) (hzero : r.exact = 0) :
    Raises (.binary .div l r) (.divisionByZero a)
  | overflow {op : ArithOp} {l r : Sample} {a b : Int64} (ha : a.toInt = l.exact)
    (hb : b.toInt = r.exact) (hdiv : ¬ (op = .div ∧ r.exact = 0))
    (hrange : ¬ (binary op l r).InRange) : Raises (.binary op l r) (.overflow op a b)

/-- What an operator computes before its result is cut down to 64 bits is the exact value. -/
theorem exact_binary (op : ArithOp) (l r : Sample) :
    (binary op l r).exact = op.exact l.exact r.exact := by
  cases op <;> rfl

theorem Raises.fails {x : Sample} {f : Fault} (h : x.Raises f) : x.Fails := by
  cases h with
  | division _ hzero => exact .inl ⟨rfl, hzero⟩
  | overflow _ _ _ hrange => exact .inr hrange

end Sample

/-! ### One operation -/

theorem fit?_eq_none_iff {n : Int} : fit? n = none ↔ ¬ (-2 ^ 63 ≤ n ∧ n ≤ 2 ^ 63 - 1) := by
  have hmin : Int64.minValue.toInt = -2 ^ 63 := by decide
  have hmax : Int64.maxValue.toInt = 2 ^ 63 - 1 := by decide
  rw [fit?, hmin, hmax]
  split_ifs with h
  · simp only [false_iff, not_not]
    exact h
  · simp only [true_iff]
    exact h

section Operation

variable {op : ArithOp} {l r : Sample} {a b v : Int64}

theorem ArithOp.apply_eq_ok_iff :
    op.apply a b = .ok v ↔ ¬ (op = .div ∧ b = 0) ∧ v.toInt = op.exact a.toInt b.toInt := by
  unfold ArithOp.apply
  split_ifs with hdiv
  · simp [hdiv]
  · rw [← fit?_eq_some_iff]
    cases fit? (op.exact a.toInt b.toInt) <;> simp [hdiv]

/-- An operation on exact operands gives the exact value, provided that the operation does not
fail. -/
theorem Sample.of_apply_eq_ok (ha : a.toInt = l.exact) (hb : b.toInt = r.exact)
    (h : op.apply a b = .ok v) :
    ¬ (Sample.binary op l r).Fails ∧ v.toInt = (Sample.binary op l r).exact := by
  obtain ⟨hdiv, hv⟩ := ArithOp.apply_eq_ok_iff.1 h
  rw [ha, hb, ← Sample.exact_binary] at hv
  refine ⟨?_, hv⟩
  rintro (⟨hop, hzero⟩ | hrange)
  · rw [← hb] at hzero
    exact hdiv ⟨hop, Int64.toInt_inj.1 hzero⟩
  · rw [Sample.InRange, ← hv] at hrange
    exact hrange ⟨v.le_toInt, Int.le_sub_one_of_lt v.toInt_lt⟩

/-- Otherwise its fault is reported. -/
theorem Sample.raises_of_apply_eq_error {f : Fault} (ha : a.toInt = l.exact)
    (hb : b.toInt = r.exact) (h : op.apply a b = .error f) : (Sample.binary op l r).Raises f := by
  unfold ArithOp.apply at h
  split at h
  next hdiv =>
    obtain ⟨rfl, rfl⟩ := hdiv
    cases h
    exact .division ha hb.symm
  next hdiv =>
    split at h
    next => cases h
    next hfit =>
      cases h
      rw [ha, hb, ← Sample.exact_binary, fit?_eq_none_iff] at hfit
      refine .overflow ha hb ?_ hfit
      rintro ⟨hop, hzero⟩
      rw [← hb] at hzero
      exact hdiv ⟨hop, Int64.toInt_inj.1 hzero⟩

end Operation

/-! ### Whole expressions -/

/-- How the evaluation of an expression ends whose sample is `t` and leads to the state `s`: with
the exact value after all readings, or at the first node that fails after the readings before it. -/
inductive Sample.Ends (t : Sample) (s : σ) (es : Array Event) :
    EStateM.Result Fault (σ × Array Event) Int64 → Prop
  | value {v : Int64} {es' : Array Event} (hsound : ∀ x ∈ t.postorder, ¬ x.Fails)
    (hv : v.toInt = t.exact) (hes : es'.toList = es.toList ++ t.postorder.filterMap event?) :
    Ends t s es (.ok v (s, es'))
  | fault {before after : List Sample} {x : Sample} {f : Fault} {s' : σ} {es' : Array Event}
    (hsplit : t.postorder = before ++ x :: after) (hbefore : ∀ y ∈ before, ¬ y.Fails)
    (hx : x.Raises f) (hes : es'.toList = es.toList ++ before.filterMap event?) :
    Ends t s es (.error f (s', es'))

namespace Sample.Ends

variable {op : ArithOp} {l r : Sample} {s s₁ : σ} {es : Array Event} {u u₁ : σ × Array Event}
  {a b : Int64} {f : Fault}

theorem state_eq (h : l.Ends s es (.ok a u)) : u.1 = s := by
  cases h
  rfl

/-- If the left operand fails, the rest is not looked at. -/
theorem of_left (h : l.Ends s₁ es (.error f u)) :
    (Sample.binary op l r).Ends s es (.error f u) := by
  cases h with
  | @fault before after x _ s' es' hsplit hbefore hx hes =>
    have hall : (binary op l r).postorder =
        before ++ x :: (after ++ r.postorder ++ [.binary op l r]) := by
      rw [postorder, hsplit]
      simp only [List.append_assoc, List.cons_append]
    exact .fault hall hbefore hx hes

/-- If the right operand fails, the nodes of the left one come before it. -/
theorem of_right (hl : l.Ends s₁ es (.ok a u₁)) (hr : r.Ends s u₁.2 (.error f u)) :
    (Sample.binary op l r).Ends s es (.error f u) := by
  cases hl with
  | value hsound ha hes =>
    cases hr with
    | @fault before after x _ s' es' hsplit hbefore hx hes' =>
      have hall : (binary op l r).postorder =
          (l.postorder ++ before) ++ x :: (after ++ [.binary op l r]) := by
        rw [postorder, hsplit]
        simp only [List.append_assoc, List.cons_append]
      refine .fault hall (List.forall_mem_append.2 ⟨hsound, hbefore⟩) hx ?_
      rw [hes', hes, List.filterMap_append, List.append_assoc]

/-- If both operands have values, the operation comes last. -/
theorem of_operands (hl : l.Ends s₁ es (.ok a u₁)) (hr : r.Ends s u₁.2 (.ok b u)) :
    (Sample.binary op l r).Ends s es
      ((ofExcept (op.apply a b) : EStateM Fault (σ × Array Event) Int64) u) := by
  cases hl with
  | value hsound ha hes =>
    cases hr with
    | @value _ es₂ hsound' hb hes' =>
      have hoperands : ∀ x ∈ l.postorder ++ r.postorder, ¬ x.Fails :=
        List.forall_mem_append.2 ⟨hsound, hsound'⟩
      have hreads : es₂.toList = es.toList ++ (l.postorder ++ r.postorder).filterMap event? := by
        rw [hes', hes, List.filterMap_append, List.append_assoc]
      cases happly : op.apply a b with
      | ok v =>
        obtain ⟨hfits, hv⟩ := Sample.of_apply_eq_ok ha hb happly
        refine .value ?_ hv ?_
        · exact List.forall_mem_append.2 ⟨hoperands, List.forall_mem_singleton.2 hfits⟩
        · have hlast : [Sample.binary op l r].filterMap event? = [] := rfl
          rw [postorder, List.filterMap_append, hreads, hlast, List.append_nil]
      | error f => exact .fault rfl hoperands (Sample.raises_of_apply_eq_error ha hb happly) hreads

end Sample.Ends

/-- The sample of an operation continues that of its left operand. -/
theorem Expr.sample_binary (R : Robot σ) (op : ArithOp) (l r : Expr) (s : σ) :
    (Expr.binary op l r).sample R s =
      (.binary op (l.sample R s).1 (r.sample R (l.sample R s).2).1,
        (r.sample R (l.sample R s).2).2) := rfl

theorem Expr.expr_sample (R : Robot σ) (e : Expr) (s : σ) : (e.sample R s).1.expr = e := by
  induction e generalizing s with
  | num v | sensor x => rfl
  | binary op l r ihl ihr => rw [sample_binary, Sample.expr, ihl, ihr]

/-- **An expression is evaluated exactly, up to the first node that fails.** -/
theorem Expr.eval_ends (R : Robot σ) (e : Expr) (s : σ) (es : Array Event) :
    (e.sample R s).1.Ends (e.sample R s).2 es (e.eval R.recorded (s, es)) := by
  induction e generalizing s es with
  | num v =>
    refine .value (fun x hx => ?_) rfl (List.append_nil _).symm
    rw [List.mem_singleton.1 hx]
    exact not_false
  | sensor x =>
    refine .value (fun y hy => ?_) rfl Array.toList_push
    rw [List.mem_singleton.1 hy]
    exact not_false
  | binary op l r ihl ihr =>
    rw [sample_binary]
    have hl := ihl s es
    cases hleft : l.eval R.recorded (s, es) with
    | error f u =>
      rw [hleft] at hl
      rw [eval, bind_of_error hleft]
      exact hl.of_left
    | ok a u₁ =>
      rw [hleft] at hl
      rw [eval, bind_of_ok hleft]
      obtain ⟨s₁, es₁⟩ := u₁
      obtain rfl : s₁ = (l.sample R s).2 := hl.state_eq
      have hr := ihr (l.sample R s).2 es₁
      cases hright : r.eval R.recorded ((l.sample R s).2, es₁) with
      | error f u =>
        rw [hright] at hr
        rw [bind_of_error hright]
        exact hl.of_right hr
      | ok b u =>
        rw [hright] at hr
        rw [bind_of_ok hright]
        exact hl.of_operands hr

/-- Recording what is asked of the robot does not change an evaluation. -/
theorem Expr.eval_recorded (R : Robot σ) (e : Expr) (s : σ) (es : Array Event) :
    Agree (fun u s' => u.1 = s') (fun u s' => u.1 = s') (e.eval R.recorded (s, es)) (e.eval R s) :=
  Expr.eval_agreeOn (((Tracks.recorded R).senses {}).on e.sensors) rfl

/-- There is only one first node that fails. -/
theorem Sample.first_unique {before before' after after' : List Sample} {x x' : Sample}
    (h : before ++ x :: after = before' ++ x' :: after') (hbefore : ∀ y ∈ before, ¬ y.Fails)
    (hx : x.Fails) (hbefore' : ∀ y ∈ before', ¬ y.Fails) (hx' : x'.Fails) :
    before = before' ∧ x = x' := by
  rcases List.append_eq_append_iff.1 h with ⟨between, rfl, hrest⟩ | ⟨between, rfl, hrest⟩
  · cases between with
    | nil =>
      cases hrest
      exact ⟨(List.append_nil before).symm, rfl⟩
    | cons y between =>
      cases hrest
      exact absurd hx (hbefore' x (by simp))
  · cases between with
    | nil =>
      cases hrest
      exact ⟨List.append_nil before', rfl⟩
    | cons y between =>
      cases hrest
      exact absurd hx' (hbefore x' (by simp))

/-- **Expressions are computed exactly, and the first failure is reported.**  Let all sensors of an
expression be read, from left to right and once for each mention.  Then

* the expression has a value exactly if no operation divides by zero or is out of range over
  unbounded integers, and this value is the exact one;
* in this case all these readings are made, in this order;
* otherwise the fault is that of the first operation in post-order that fails, with the exact values
  of its operands, and only the readings before it are made. -/
theorem Expr.eval_exact (R : Robot σ) (e : Expr) (s : σ) :
    let t := (e.sample R s).1
    t.expr = e ∧
    (∀ v, (∃ s', e.eval R s = .ok v s') ↔ (∀ x ∈ t.postorder, ¬ x.Fails) ∧ v.toInt = t.exact) ∧
    ((∀ x ∈ t.postorder, ¬ x.Fails) → ∃ v s' es, e.eval R s = .ok v s' ∧
      e.eval R.recorded (s, #[]) = .ok v (s', es) ∧
      es.toList = t.postorder.filterMap Sample.event?) ∧
    ∀ before x after, t.postorder = before ++ x :: after → (∀ y ∈ before, ¬ y.Fails) → x.Fails →
      ∃ f s' es, x.Raises f ∧ e.eval R s = .error f s' ∧
        e.eval R.recorded (s, #[]) = .error f (s', es) ∧
        es.toList = before.filterMap Sample.event? := by
  intro t
  have hends := e.eval_ends R s #[]
  have hplain := e.eval_recorded R s #[]
  generalize hrec : e.eval R.recorded (s, #[]) = res, heval : e.eval R s = res' at hends hplain
  refine ⟨e.expr_sample R s, ?_⟩
  cases hends with
  | @value v es hsound hv hes =>
    cases hplain with
    | @ok _ _ s' hs' =>
      refine ⟨fun w => ⟨?_, ?_⟩, fun _ => ?_, fun before x after hsplit _ hx => ?_⟩
      · rintro ⟨s'', hw⟩
        cases hw
        exact ⟨hsound, hv⟩
      · rintro ⟨-, hw⟩
        rw [Int64.toInt_inj.1 (hw.trans hv.symm)]
        exact ⟨s', rfl⟩
      · exact ⟨v, s', es, rfl, by rw [← hs'], hes⟩
      · exact absurd hx (hsound x (by simp [t, hsplit]))
  | @fault before after x f s'' es hsplit hbefore hx hes =>
    cases hplain with
    | @error _ _ s' hs' =>
      have hfails : ¬ ∀ y ∈ t.postorder, ¬ y.Fails := fun hsound =>
        hsound x (by simp [t, hsplit]) hx.fails
      refine ⟨fun w => ⟨?_, ?_⟩, fun hsound => absurd hsound hfails, ?_⟩
      · rintro ⟨_, hw⟩
        cases hw
      · rintro ⟨hsound, -⟩
        exact absurd hsound hfails
      · intro before' x' after' hsplit' hbefore' hx'
        obtain ⟨rfl, rfl⟩ :=
          Sample.first_unique (hsplit.symm.trans hsplit') hbefore hx.fails hbefore' hx'
        exact ⟨f, s', es, hx, rfl, by rw [← hs'], hes⟩

end RobotControl
