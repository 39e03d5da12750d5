import Mathlib.Tactic
import RobotControl.Proofs.Completion

/-!
# The first token that does not fit

Where a program cannot be read, the parser has stopped at the first token that does not fit: what it
has used up is the beginning of a program, and with the next token it is not.

* `BeginsProgram`: tokens with which some program begins;
* `Parser.sequence_stops_at_misfit`: what was used up can be completed, and the next token cannot
  follow.  A program that went on with it would be read by the same productions, and these stop
  there.
-/

namespace RobotControl

/-- Some program begins with the tokens `us`. -/
def BeginsProgram (us : List Token) : Prop := ∃ vs p, Derives (us ++ vs) (.program p)

theorem BeginsProgram.of_append {us vs : List Token} (h : BeginsProgram (us ++ vs)) :
    BeginsProgram us := by
  obtain ⟨ws, p, hd⟩ := h
  exact ⟨vs ++ ws, p, by rwa [← List.append_assoc]⟩

namespace Parser

/-- Where the statements of a program stop, what was used up begins a program, and with the next
token it does not: a program that went on with this token would be read in the same way, up to
there. -/
theorem sequence_stops_at_misfit {ts rest : List Lexeme} {e : ParseError} (hts : ts ≠ [])
    (h : sequenceWithin (statementWithin ts.length) ts.length ts = .error e rest) :
    ∃ c pre, e = .before c rest ∧ ts = pre ++ rest ∧ BeginsProgram (pre.map Lexeme.token) ∧
      ∀ l rest', rest = l :: rest' → ¬ BeginsProgram (pre.map Lexeme.token ++ [l.token]) := by
  obtain ⟨c, pre, he, hpre, -⟩ := (sequence_alikeAt hts le_rfl).error h
  refine ⟨c, pre, he, hpre, ?_, ?_⟩
  · obtain ⟨-, us, vs, -, hs, ⟨b, hd⟩, -⟩ :=
      sequence_stops (statement_completes _) (statement_sound _) hts le_rfl le_rfl h
    obtain ⟨pre', hpre', rfl⟩ := Spans.iff_exists_append.1 hs
    obtain rfl := List.append_cancel_right (hpre.symm.trans hpre')
    exact ⟨vs, ⟨b⟩, .program hd⟩
  · rintro l rest' rfl ⟨vs, p, hd⟩
    rw [List.append_assoc, List.singleton_append] at hd
    -- the other program, and a bound that covers both
    let ts' : List Lexeme := pre ++ l :: vs.map fun t => ⟨t, 0⟩
    let n := max ts.length ts'.length
    have htokens : ts'.map Lexeme.token = pre.map Lexeme.token ++ l.token :: vs := by
      simp [ts', Function.comp_def]
    have hread : sequenceWithin (statementWithin n) n ts' = .ok p.body [] := by
      refine parsed_of_derives hd n ?_ ts' (htokens ▸ Spans.all ts')
      rw [← htokens, List.length_map]
      exact le_max_right _ _
    obtain ⟨c', pre', -, hpre', hfails⟩ :=
      (sequence_alikeAt (m := n) hts (le_max_left _ _)).error h
    obtain rfl := List.append_cancel_right (hpre.symm.trans hpre')
    have hfail := hfails ts' _ (le_max_right _ _) (Spans.iff_exists_append.2 ⟨pre, rfl, rfl⟩) rfl
    rw [hread] at hfail
    cases hfail

theorem atEnd_before {c : Cause} {ts : List Lexeme} :
    (ParseError.before c ts).atEnd = true ↔ ts = [] := by
  cases ts <;> simp [ParseError.before, ParseError.atEnd]

/-- A program that is not refused for its nesting is refused at the first token that does not fit.
-/
theorem program_stops_at_misfit {ts rest : List Lexeme} {e : ParseError}
    (h : program ts = .error e rest) (hdeep : tooDeep? 0 ts = none) :
    ∃ c pre, e = .before c rest ∧ ts = pre ++ rest ∧ BeginsProgram (pre.map Lexeme.token) ∧
      ∀ l rest', rest = l :: rest' → ¬ BeginsProgram (pre.map Lexeme.token ++ [l.token]) := by
  rcases program_eq_error_iff.1 h with ⟨bad, hbad, -⟩ | ⟨-, ⟨rfl, rfl, rfl⟩ | ⟨hts, hseq⟩⟩
  · rw [hdeep] at hbad
    cases hbad
  · refine ⟨.noStatements, [], rfl, rfl, ?_, by simp⟩
    exact ⟨_, ⟨_⟩, .program (.single derives_turnL_semicolon)⟩
  · exact sequence_stops_at_misfit hts hseq

/-- **A program is refused at the first token that does not fit.**  Unless it is refused for its
nesting, what the parser has used up is the beginning of a program, and with the next token, if
there is one, it no longer is.  The error says that the input has ended exactly when the tokens are
no program, but begin one. -/
theorem program_error_at_first_misfit {ts rest : List Lexeme} {e : ParseError}
    (h : program ts = .error e rest) (hnesting : e.text ≠ "Nesting is too deep") :
    ∃ pre, ts = pre ++ rest ∧
      BeginsProgram (pre.map Lexeme.token) ∧
      (∀ l rest', rest = l :: rest' → ¬ BeginsProgram ((pre ++ [l]).map Lexeme.token)) ∧
      (e.atEnd = true ↔
        (¬ ∃ p, Derives (ts.map Lexeme.token) (.program p)) ∧
          BeginsProgram (ts.map Lexeme.token)) := by
  have hdeep : tooDeep? 0 ts = none := by
    rcases program_eq_error_iff.1 h with ⟨bad, -, rfl, -⟩ | ⟨hdeep, -⟩
    · exact absurd rfl hnesting
    · exact hdeep
  obtain ⟨c, pre, rfl, hpre, hbegins, hmisfit⟩ := program_stops_at_misfit h hdeep
  refine ⟨pre, hpre, hbegins, ?_, ?_⟩
  · intro l rest' hrest
    rw [List.map_append]
    exact hmisfit l rest' hrest
  · rw [atEnd_before]
    constructor
    · rintro rfl
      rw [List.append_nil] at hpre
      subst hpre
      refine ⟨?_, hbegins⟩
      rintro ⟨p, hp⟩
      rw [program_iff_derives.2 ⟨rfl, hp, (tooDeep?_eq_none_iff (Nat.zero_le _)).1 hdeep⟩] at h
      cases h
    · rintro ⟨-, hts⟩
      cases rest with
      | nil => rfl
      | cons l rest' =>
        -- a program that begins with all the tokens would go on with this one
        rw [hpre, List.map_append, List.map_cons, ← List.singleton_append,
          ← List.append_assoc] at hts
        exact absurd hts.of_append (hmisfit l rest' rfl)

/-- After the inner block of doubled braces only the outer brace fits. -/
theorem misfit_after_inner_block :
    let ts := tokenize "if (eq(1, 2)) \x7bmove;\x7d else \x7b\x7bturnL;\x7d\nmove;\x7d"
    let rest := [⟨.word "move", 2⟩, ⟨.semicolon, 2⟩, ⟨.rbrace, 2⟩]
    let e : ParseError := ⟨"Missing '\x7d'", some 2, ["move", ";", "\x7d"]⟩
    program ts = .error e rest ∧ e.text ≠ "Nesting is too deep" ∧
      ∃ pre, ts = pre ++ rest ∧
        BeginsProgram (pre.map Lexeme.token) ∧
        (∀ l rest', rest = l :: rest' → ¬ BeginsProgram ((pre ++ [l]).map Lexeme.token)) ∧
        (e.atEnd = true ↔
          (¬ ∃ p, Derives (ts.map Lexeme.token) (.program p)) ∧
            BeginsProgram (ts.map Lexeme.token)) := by
  intro ts rest e
  have h : program ts = .error e rest := by rfl
  have hnesting : e.text ≠ "Nesting is too deep" := by decide
  exact ⟨h, hnesting, program_error_at_first_misfit h hnesting⟩

end Parser

end RobotControl
