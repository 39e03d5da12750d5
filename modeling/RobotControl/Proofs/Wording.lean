import Mathlib.Tactic
import RobotControl.DryRun
import RobotControl.Proofs.RoundTrip

/-!
# What texts tell apart

Integers, faults and verdicts can be told from their texts: different ones are worded differently.
-/

namespace RobotControl

/-! ### Beginnings of texts -/

/-- Neither text begins with the other. -/
def Apart (a b : String) : Prop := ¬ a.toList <+: b.toList ∧ ¬ b.toList <+: a.toList

instance (a b : String) : Decidable (Apart a b) := inferInstanceAs (Decidable (_ ∧ _))

theorem Apart.symm {a b : String} (h : Apart a b) : Apart b a := ⟨h.2, h.1⟩

theorem Apart.append_ne {a b : String} (h : Apart a b) (x y : String) : a ++ x ≠ b ++ y := by
  intro heq
  have hlist := congrArg String.toList heq
  rw [String.toList_append, String.toList_append] at hlist
  have ha : a.toList <+: a.toList ++ x.toList := List.prefix_append _ _
  have hb : b.toList <+: a.toList ++ x.toList := hlist ▸ List.prefix_append _ _
  rcases List.prefix_or_prefix_of_prefix ha hb with hab | hba
  · exact h.1 hab
  · exact h.2 hba

/-! ### Numbers -/

theorem renderInt_injective : Function.Injective renderInt := by
  intro v v' h
  have hv := Literal.read?_eq_some_iff.2 (numeral_renderInt v)
  have hv' := Literal.read?_eq_some_iff.2 (numeral_renderInt v')
  rw [h, hv'] at hv
  exact (Option.some.inj hv).symm

theorem toList_toString_nat (n : Nat) : (toString n).toList = Nat.toDigits 10 n := by
  rw [Nat.toString_eq_ofList_toDigits, String.toList_ofList]

/-- A number ends where a space follows it. -/
theorem toString_nat_append_inj {n n' : Nat} {x x' : String}
    (h : toString n ++ (" " ++ x) = toString n' ++ (" " ++ x')) : n = n' ∧ x = x' := by
  have hspace : (" " : String).toList = [' '] := by decide
  have hlist := congrArg String.toList h
  simp only [String.toList_append, toList_toString_nat, hspace, List.singleton_append] at hlist
  -- the digits are what stands in front of the first character that is no digit
  have htake (m : Nat) (cs : List Char) :
      (Nat.toDigits 10 m ++ ' ' :: cs).takeWhile Char.isDigit = Nat.toDigits 10 m := by
    rw [List.takeWhile_append_of_pos fun c hc =>
      Nat.isDigit_of_mem_toDigits (by decide) (by decide) hc]
    exact List.append_nil _
  have hdigits : Nat.toDigits 10 n = Nat.toDigits 10 n' := by
    rw [← htake n x.toList, hlist, htake]
  rw [hdigits] at hlist
  refine ⟨?_, String.toList_inj.1 (List.cons.inj (List.append_cancel_left hlist)).2⟩
  rw [← Nat.ofDigitChars_ten_toDigits (n := n), hdigits, Nat.ofDigitChars_ten_toDigits]

/-! ### Faults -/

theorem arithOp_word_injective : Function.Injective (Keyword.word : ArithOp → String) := by
  intro op op' h
  have hop := ArithOp.ofWord?_word op
  rw [h, ArithOp.ofWord?_word] at hop
  exact (Option.some.inj hop).symm

/-- An operator applied to two integers can be read back, as its tokens can. -/
theorem renderPair_injective {op op' : ArithOp} {l l' r r' : Int64}
    (h : renderPair (Keyword.word op) (renderInt l) (renderInt r) =
      renderPair (Keyword.word op') (renderInt l') (renderInt r')) :
    op = op' ∧ l = l' ∧ r = r' := by
  have htokens := congrArg textTokens h
  simp only [textTokens_renderPair, textTokens_arithOp, textTokens_numeral (numeral_renderInt _),
    List.cons_append, List.nil_append, List.cons.injEq, Token.word.injEq, true_and, and_true]
    at htokens
  obtain ⟨hop, hl, hr⟩ := htokens
  exact ⟨arithOp_word_injective hop, renderInt_injective hl, renderInt_injective hr⟩

namespace Fault

/-- The beginning of a fault's wording, which says of which kind it is. -/
def opening : Fault → String
  | .divisionByZero _ => "Division by zero: div("
  | .overflow _ _ _ => "Integer overflow while computing "
  | .halted _ => "Robot halted: "

/-- The rest of a fault's wording. -/
def details : Fault → String
  | .divisionByZero n => renderInt n ++ ", 0)."
  | .overflow op l r => renderPair (Keyword.word op) (renderInt l) (renderInt r) ++ "."
  | .halted h => h.reason

theorem message_eq (f : Fault) : f.message = f.opening ++ f.details := by
  cases f with
  | divisionByZero n => exact String.append_assoc
  | overflow op l r =>
    have hassoc (a w x l y r z u v : String) (hz : z = u ++ v) :
        a ++ w ++ x ++ l ++ y ++ r ++ z = a ++ (w ++ x ++ l ++ y ++ r ++ u ++ v) := by
      subst hz
      simp only [String.append_assoc]
    exact hassoc _ _ _ _ _ _ _ _ _ (by decide)
  | halted h => rfl

theorem message_injective : Function.Injective message := by
  have hdo : Apart "Division by zero: div(" "Integer overflow while computing " := by decide
  have hdh : Apart "Division by zero: div(" "Robot halted: " := by decide
  have hoh : Apart "Integer overflow while computing " "Robot halted: " := by decide
  intro f f' h
  rw [message_eq, message_eq] at h
  cases f with
  | divisionByZero n =>
    cases f' with
    | divisionByZero n' =>
      have hn := (String.append_left_inj _).1 ((String.append_right_inj _).1 h)
      rw [renderInt_injective hn]
    | overflow op' l' r' => exact absurd h (hdo.append_ne _ _)
    | halted h' => exact absurd h (hdh.append_ne _ _)
  | overflow op l r =>
    cases f' with
    | divisionByZero n' => exact absurd h (hdo.symm.append_ne _ _)
    | overflow op' l' r' =>
      have hpair := (String.append_left_inj _).1 ((String.append_right_inj _).1 h)
      obtain ⟨rfl, rfl, rfl⟩ := renderPair_injective hpair
      rfl
    | halted h' => exact absurd h (hoh.append_ne _ _)
  | halted e =>
    cases f' with
    | divisionByZero n' => exact absurd h (hdh.symm.append_ne _ _)
    | overflow op' l' r' => exact absurd h (hoh.symm.append_ne _ _)
    | halted e' =>
      have hreason : e.reason = e'.reason := (String.append_right_inj _).1 h
      obtain ⟨reason⟩ := e
      cases hreason
      rfl

end Fault

/-! ### Verdicts -/

namespace Verdict

/-- The beginning of a verdict's wording, which says of which kind it is. -/
def opening : Verdict → String
  | .finished => "Program finished after "
  | .stalled => "Program stalled after "
  | .halted _ => "Program halted after "

/-- The end of a verdict's wording. -/
def closing : Verdict → String
  | .finished | .stalled => "actions"
  | .halted f => "actions: " ++ f.message

theorem text_eq (v : Verdict) (n : Nat) :
    v.text n = v.opening ++ (toString n ++ (" " ++ v.closing)) := by
  have hassoc (a b c d e : String) (hc : c = d ++ e) : a ++ b ++ c = a ++ (b ++ (d ++ e)) := by
    rw [hc, String.append_assoc]
  cases v with
  | finished | stalled => exact hassoc _ _ _ _ _ (by decide)
  | halted f =>
    have hassoc' (a b c d e x : String) (hc : c = d ++ e) :
        a ++ b ++ c ++ x = a ++ (b ++ (d ++ (e ++ x))) := by
      rw [hc]
      simp only [String.append_assoc]
    exact hassoc' _ _ _ _ _ _ (by decide)

theorem text_inj {v v' : Verdict} {n n' : Nat} (h : v.text n = v'.text n') : n = n' ∧ v = v' := by
  have hfs : Apart "Program finished after " "Program stalled after " := by decide
  have hfh : Apart "Program finished after " "Program halted after " := by decide
  have hsh : Apart "Program stalled after " "Program halted after " := by decide
  rw [text_eq, text_eq] at h
  have hrest (heq : v.opening = v'.opening) : n = n' ∧ v.closing = v'.closing := by
    rw [heq] at h
    exact toString_nat_append_inj ((String.append_right_inj _).1 h)
  cases v with
  | finished =>
    cases v' with
    | finished => exact ⟨(hrest rfl).1, rfl⟩
    | stalled => exact absurd h (hfs.append_ne _ _)
    | halted f' => exact absurd h (hfh.append_ne _ _)
  | stalled =>
    cases v' with
    | finished => exact absurd h (hfs.symm.append_ne _ _)
    | stalled => exact ⟨(hrest rfl).1, rfl⟩
    | halted f' => exact absurd h (hsh.append_ne _ _)
  | halted f =>
    cases v' with
    | finished => exact absurd h (hfh.symm.append_ne _ _)
    | stalled => exact absurd h (hsh.symm.append_ne _ _)
    | halted f' =>
      obtain ⟨hn, hclosing⟩ := hrest rfl
      rw [Fault.message_injective ((String.append_right_inj _).1 hclosing)]
      exact ⟨hn, rfl⟩

/-- A verdict is worded unlike everything else that is printed. -/
theorem text_ne {s : String} (v : Verdict) (n : Nat) (hf : Apart "Program finished after " s)
    (hs : Apart "Program stalled after " s) (hh : Apart "Program halted after " s) (x : String) :
    v.text n ≠ s ++ x := by
  rw [text_eq]
  cases v with
  | finished => exact hf.append_ne _ _
  | stalled => exact hs.append_ne _ _
  | halted f => exact hh.append_ne _ _

end Verdict

/-- No verdict is among the lines in front of the verdict. -/
theorem Verdict.text_not_mem (v : Verdict) (n : Nat) (done : List Action) :
    v.text n ∉ "Running:" :: done.map fun a => "    " ++ Action.render a := by
  intro h
  rw [List.mem_cons, List.mem_map] at h
  rcases h with h | ⟨a, -, h⟩
  · have hne := v.text_ne (s := "Running:") n (by decide) (by decide) (by decide) ""
    exact hne (h.trans (String.append_empty).symm)
  · have hne := v.text_ne (s := "    ") n (by decide) (by decide) (by decide) (Action.render a)
    exact hne h.symm

end RobotControl
