import Lox.Parser.Basic

set_option autoImplicit false

namespace Lox.Parser

/-- All tokens of a parser. If the last given one is no end-of-input token, one stands behind it on
the same line. -/
def completed (tokens : List Token) : List Token :=
  if tokens.getLast?.map Token.type = some .endOfInput then tokens
  else tokens ++ [Token.endOfInput ((tokens.getLast?.map Token.line).getD firstLine)]

/-- The tokens before the first end-of-input token. -/
def properTokens (tokens : List Token) : List Token :=
  (completed tokens).takeWhile (·.type ≠ .endOfInput)

def after : Nat → Parser → Parser
  | 0, p => p
  | calls + 1, p => after calls p.parse.2

/-- The index of the token at which the next call of `parse` finds a fault; `none` if it finds
none. -/
def faultIndex? (p : Parser) : Option Nat :=
  match State.start.run p.pending with
  | .ok _ => none
  | .error failure => some (p.moveTo failure.rest).position

/-- What the parser has ahead is what the list has from the parser's position on. -/
structure StandsIn (list : List Token) (p : Parser) : Prop where
  ahead : ∃ behind, list.drop p.position = p.pending ++ p.ending :: behind
  running : ∀ t ∈ p.pending, t.type ≠ .endOfInput
  ends : p.ending.type = .endOfInput

theorem completed_of_ends {tokens : List Token}
    (ends : tokens.getLast?.map Token.type = some .endOfInput) : completed tokens = tokens :=
  if_pos ends

theorem takeWhile_running {pending : List Token} {ending : Token}
    (running : ∀ t ∈ pending, t.type ≠ .endOfInput) (ends : ending.type = .endOfInput)
    (behind : List Token) :
    (pending ++ ending :: behind).takeWhile (·.type ≠ .endOfInput) = pending := by
  have proper : ∀ t ∈ pending, decide (t.type ≠ .endOfInput) = true :=
    fun t member => decide_eq_true (running t member)
  rw [List.takeWhile_append_of_pos proper, List.takeWhile_cons_of_neg (by simp [ends]),
    List.append_nil]

/-- A new parser stops at the first end of input, whatever stands behind that. -/
theorem ofTokens_append {pending : List Token} {ending : Token}
    (running : ∀ t ∈ pending, t.type ≠ .endOfInput) (ends : ending.type = .endOfInput)
    (behind : List Token) : ofTokens (pending ++ ending :: behind) = ⟨0, pending, ending⟩ := by
  have first : (pending ++ ending :: behind).find? (·.type = .endOfInput) = some ending := by
    rw [List.find?_eq_some_iff_append]
    exact ⟨by simp [ends], pending, behind, rfl, by simpa using running⟩
  rw [ofTokens, takeWhile_running running ends, first]

/-- The list goes on behind its first end-of-input token only if it was given so. -/
theorem completed_eq (tokens : List Token) :
    ∃ behind, completed tokens =
      (ofTokens tokens).pending ++ (ofTokens tokens).ending :: behind := by
  cases found : tokens.find? (·.type = .endOfInput) with
  | some ending =>
    obtain ⟨ends, before, behind, split, others⟩ := List.find?_eq_some_iff_append.mp found
    have new : ofTokens tokens = ⟨0, before, ending⟩ := by
      rw [split]
      exact ofTokens_append (by simpa using others) (of_decide_eq_true ends) behind
    rw [new]
    by_cases last : tokens.getLast?.map Token.type = some .endOfInput
    · exact ⟨behind, by rw [completed, if_pos last, split]⟩
    · refine ⟨behind ++ [Token.endOfInput ((tokens.getLast?.map Token.line).getD firstLine)], ?_⟩
      rw [completed, if_neg last]
      exact (congrArg (· ++ _) split).trans (List.append_assoc before (ending :: behind) _)
  | none =>
    have others : ∀ t ∈ tokens, t.type ≠ .endOfInput := by simpa using found
    have pending : tokens.takeWhile (·.type ≠ .endOfInput) = tokens := by
      rw [← List.append_nil tokens, List.takeWhile_append_of_pos (by simpa using others)]
      simp
    have last : tokens.getLast?.map Token.type ≠ some .endOfInput := by
      intro ends
      obtain ⟨t, present, type⟩ := Option.map_eq_some_iff.mp ends
      exact others t (List.mem_of_getLast? present) type
    exact ⟨[], by rw [ofTokens, found, pending, completed, if_neg last]⟩

theorem standsIn_ofTokens (tokens : List Token) :
    StandsIn (completed tokens) (ofTokens tokens) := by
  refine ⟨completed_eq tokens, ?_, ?_⟩
  · intro t pending
    simpa using List.all_eq_true.mp List.all_takeWhile t pending
  · simp only [ofTokens]
    split
    next found => simpa using List.find?_some found
    next => rfl

namespace StandsIn

variable {list : List Token} {p : Parser}

theorem takeWhile_eq (stands : StandsIn list p) :
    (list.drop p.position).takeWhile (·.type ≠ .endOfInput) = p.pending := by
  obtain ⟨behind, ahead⟩ := stands.ahead
  rw [ahead, takeWhile_running stands.running stands.ends]

theorem moveTo (stands : StandsIn list p) {rest : List Token} (suffix : rest <:+ p.pending) :
    StandsIn list (p.moveTo rest) := by
  obtain ⟨behind, ahead⟩ := stands.ahead
  refine ⟨⟨behind, ?_⟩, fun t member => stands.running t (suffix.mem member), stands.ends⟩
  simp only [Parser.moveTo]
  rw [← List.drop_drop, ahead, List.drop_append_of_le_length (Nat.sub_le _ _),
    ← List.suffix_iff_eq_drop.mp suffix]

theorem getElem?_position (stands : StandsIn list p) : list[p.position]? = some p.current := by
  obtain ⟨behind, ahead⟩ := stands.ahead
  have first : list[p.position]? = (list.drop p.position)[0]? := by simp
  rw [first, ahead, current]
  cases p.pending <;> rfl

end StandsIn

theorem resumption_suffix (before : TokenType) (tokens : List Token) :
    resumption before tokens <:+ tokens := by
  induction tokens generalizing before with
  | nil => exact List.suffix_rfl
  | cons t rest ih =>
    rw [resumption]
    split
    · exact List.suffix_rfl
    · exact (ih t.type).trans (List.suffix_cons t rest)

theorem resynchronize_suffix (tokens : List Token) : resynchronize tokens <:+ tokens := by
  cases tokens with
  | nil => exact List.suffix_rfl
  | cons t rest => exact (resumption_suffix t.type rest).trans (List.suffix_cons t rest)

/-- One attempt keeps the parser within its list, whether it succeeds or not. -/
theorem StandsIn.parse {list : List Token} {p : Parser} (stands : StandsIn list p) :
    StandsIn list p.parse.2 := by
  simp only [Parser.parse]
  split
  next => exact stands.moveTo (List.nil_suffix)
  next failure failed =>
    exact stands.moveTo ((resynchronize_suffix _).trans (State.rest_suffix_of_run failed))

theorem StandsIn.after {list : List Token} (calls : Nat) {p : Parser} (stands : StandsIn list p) :
    StandsIn list (p.after calls) := by
  induction calls generalizing p with
  | zero => exact stands
  | succ calls ih => exact ih stands.parse

/-- A failed run gets through the tokens before the offending one, and fails there whatever
follows. -/
theorem run_eq_error {s : State} {tokens : List Token} {failure : Failure}
    (failed : s.run tokens = .error failure) :
    ∃ before later, tokens = before ++ failure.rest ∧
      (∀ rest, s.run (before ++ rest) = State.run later rest) ∧
      ∀ t behind, failure.rest = t :: behind →
        ∀ more, State.run later (t :: more) = .error ⟨failure.fault, t :: more⟩ := by
  induction tokens generalizing s with
  | nil =>
    have nothing : failure.rest = [] :=
      List.suffix_nil.mp (State.rest_suffix_of_run failed)
    refine ⟨[], s, nothing.symm, fun _ => rfl, fun t behind some => ?_⟩
    rw [nothing] at some
    cases some
  | cons t tokens ih =>
    rw [State.run] at failed
    split at failed
    next next stepped =>
      obtain ⟨before, later, split, run, stuck⟩ := ih failed
      refine ⟨t :: before, later, by rw [split, List.cons_append], fun rest => ?_, stuck⟩
      rw [List.cons_append, State.run, stepped]
      exact run rest
    next fault stuck =>
      obtain rfl := Except.error.inj failed
      refine ⟨[], s, rfl, fun _ => rfl, fun offending behind first more => ?_⟩
      obtain ⟨rfl, _⟩ := List.cons.inj first
      rw [State.run, stuck]

theorem properTokens_eq (tokens : List Token) : properTokens tokens = (ofTokens tokens).pending :=
  (standsIn_ofTokens tokens).takeWhile_eq

theorem parse_eq_ok_iff_run (p : Parser) (e : Expr) :
    p.parse.1 = .ok e ↔ State.start.run p.pending = .ok e := by
  simp only [Parser.parse]
  split
  next => simp_all
  next failure failed => simp [failed]

theorem parse_eq_error {p : Parser} {e : SyntaxError} (failed : p.parse.1 = .error e) :
    ∃ failure, State.start.run p.pending = .error failure ∧
      e.token = (p.moveTo failure.rest).current := by
  simp only [Parser.parse] at failed
  split at failed
  next => cases failed
  next failure stopped =>
    obtain rfl := Except.error.inj failed
    exact ⟨failure, stopped, rfl⟩

/-- The first attempt finds a fault at the token behind those that it gets through. -/
theorem faultIndex?_ofTokens {tokens before : List Token} {failure : Failure}
    (failed : State.start.run (ofTokens tokens).pending = .error failure)
    (split : (ofTokens tokens).pending = before ++ failure.rest) :
    (ofTokens tokens).faultIndex? = some before.length ∧
      (completed tokens)[before.length]? = some ((ofTokens tokens).moveTo failure.rest).current ∧
      (completed tokens).take before.length = before := by
  have position : ((ofTokens tokens).moveTo failure.rest).position = before.length := by
    rw [moveTo, split]
    simp only [ofTokens, List.length_append]
    omega
  have stands := (standsIn_ofTokens tokens).moveTo (State.rest_suffix_of_run failed)
  obtain ⟨behind, whole⟩ := completed_eq tokens
  refine ⟨?_, ?_, ?_⟩
  · simp only [faultIndex?, failed, position]
  · rw [← stands.getElem?_position, position]
  · rw [whole, split, List.append_assoc, List.take_left]

end Lox.Parser
