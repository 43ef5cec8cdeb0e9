import Lox.Proofs.Parser.Simulation

set_option autoImplicit false

namespace Lox.Parser

section Measure

variable {rest : List Token} {p : Parser}

theorem position_moveTo (suffix : rest <:+ p.pending) :
    (p.moveTo rest).position + rest.length = p.position + p.pending.length := by
  have fits := suffix.length_le
  simp only [moveTo]
  omega

theorem length_resynchronize (offending : List Token) :
    (resynchronize offending).length < offending.length ∨ resynchronize offending = [] := by
  cases offending with
  | nil => exact .inr rfl
  | cons t rest => exact .inl (Nat.lt_succ_of_le (resumption_suffix t.type rest).length_le)

/-- What an attempt does to a parser: it moves on within the pending tokens. It gets through all of
them if it succeeds, and past one of them at least if it fails and any are left. -/
structure Advances (p : Parser) (outcome : Except SyntaxError Expr) (later : Parser) : Prop where
  moved : ∃ rest, rest <:+ p.pending ∧ later = p.moveTo rest
  ok : ∀ e, outcome = .ok e → later.pending = []
  error : ∀ error, outcome = .error error →
    later.pending.length < p.pending.length ∨ later.pending = []

theorem advances_parse (p : Parser) : Advances p p.parse.1 p.parse.2 := by
  rw [parse]
  cases outcome : State.start.run p.pending with
  | ok e =>
    have moved : ∃ rest, rest <:+ p.pending ∧ p.moveTo [] = p.moveTo rest :=
      ⟨[], List.nil_suffix, rfl⟩
    exact ⟨moved, fun _ _ => rfl, fun _ _ => .inr rfl⟩
  | error failure =>
    have suffix := State.rest_suffix_of_run outcome
    have fits := suffix.length_le
    refine ⟨⟨_, (resynchronize_suffix _).trans suffix, rfl⟩, ?_, ?_⟩
    · intro e isOk
      cases isOk
    · intro error _
      rcases length_resynchronize failure.rest with fewer | nothing
      · exact .inl (Nat.lt_of_lt_of_le fewer fits)
      · exact .inr nothing

theorem position_parse (p : Parser) :
    p.parse.2.position + p.parse.2.pending.length = p.position + p.pending.length := by
  obtain ⟨rest, suffix, moved⟩ := (advances_parse p).moved
  rw [moved]
  exact position_moveTo suffix

theorem ending_parse (p : Parser) : p.parse.2.ending = p.ending := by
  obtain ⟨rest, _, moved⟩ := (advances_parse p).moved
  rw [moved]
  rfl

theorem length_pending_parse (p : Parser) :
    p.parse.2.pending.length ≤ p.pending.length - 1 := by
  have advances := advances_parse p
  cases outcome : p.parse.1 with
  | ok e => simp [advances.ok e outcome]
  | error error =>
    rcases advances.error error outcome with fewer | nothing
    · omega
    · simp [nothing]

/-- However often a parser is called, it stands where it stood or further on, in front of the same
end of input. -/
theorem position_after (calls : Nat) (p : Parser) :
    (p.after calls).position + (p.after calls).pending.length = p.position + p.pending.length ∧
      (p.after calls).ending = p.ending := by
  induction calls generalizing p with
  | zero => exact ⟨rfl, rfl⟩
  | succ calls ih =>
    have later := ih p.parse.2
    rw [position_parse, ending_parse] at later
    exact later

theorem length_pending_after (calls : Nat) (p : Parser) :
    (p.after calls).pending.length ≤ p.pending.length - calls := by
  induction calls generalizing p with
  | zero => exact Nat.le_refl _
  | succ calls ih =>
    have first := length_pending_parse p
    have later := ih p.parse.2
    rw [after]
    omega

theorem parse_of_pending_nil (atEnd : p.pending = []) :
    p.parse = (.error ⟨.expectedExpression, p.ending⟩, p) := by
  have stays : p.moveTo [] = p := by
    rw [← atEnd, moveTo_pending]
  have failed : State.start.run p.pending = .error ⟨.expectedExpression, []⟩ := by
    rw [atEnd]
    rfl
  have current : p.current = p.ending := by
    rw [current, atEnd]
    rfl
  rw [parse, failed]
  simp only [resynchronize, stays, current]

end Measure

/-- The index of the first end of input among all tokens of a parser. -/
def firstEnd (tokens : List Token) : Nat :=
  (completed tokens).findIdx fun t => t.type = .endOfInput

theorem firstEnd_eq (tokens : List Token) :
    firstEnd tokens = (ofTokens tokens).pending.length := by
  obtain ⟨behind, whole⟩ := completed_eq tokens
  have stands := standsIn_ofTokens tokens
  have noEnd : (ofTokens tokens).pending.findIdx (fun t => t.type = .endOfInput) =
      (ofTokens tokens).pending.length :=
    List.findIdx_eq_length.mpr (by simpa using stands.running)
  rw [firstEnd, whole, List.findIdx_append, noEnd, if_neg (Nat.lt_irrefl _), List.findIdx_cons]
  simp [stands.ends]

theorem getElem?_firstEnd (tokens : List Token) :
    (completed tokens)[firstEnd tokens]? = some (ofTokens tokens).ending := by
  obtain ⟨behind, whole⟩ := completed_eq tokens
  rw [firstEnd_eq, whole, List.getElem?_append_right (Nat.le_refl _), Nat.sub_self]
  rfl

/-- What calls of a parser do, however many there have been. During a call the rules never need a
token that is not in the list, the index does not go back and does not pass the first end of input,
and each rule is called either by the rule in front of it, which was called at this index and has
passed no token, or further on than every rule that waits and binds as tightly. The rules come back,
with the outcome of the call. A call that succeeds reaches the first end of input, and one that
fails gets further on, up to there. After as many calls as there are tokens in front of it, the
parser stands there, and every call after that says so and changes nothing. -/
theorem calls_advance (tokens : List Token) (calls : Nat) :
    let list := completed tokens
    let last := firstEnd tokens
    let p := (ofTokens tokens).after calls
    (∀ steps, ∃ d, (Descent.start p.position).run list steps = some d ∧
        p.position ≤ d.index ∧ d.index ≤ last ∧ last < list.length ∧
        (∃ later, d.step list = some later ∧ d.index ≤ later.index) ∧
        ∀ rule, d.task = .call rule → ∀ a ∈ d.stack,
          a.waiting.hasRead = true ∨ rule.rank ≤ a.rule.rank → a.entry < d.index) ∧
      (∃ steps, (Descent.start p.position).run list steps =
        some ⟨p.parse.2.position, [], .done p.parse.1⟩) ∧
      p.position ≤ p.parse.2.position ∧ p.parse.2.position ≤ last ∧
      (∀ e, p.parse.1 = .ok e → p.parse.2.position = last) ∧
      (∀ error, p.parse.1 = .error error →
        p.position < p.parse.2.position ∨ p.position = last) ∧
      (last ≤ calls → p.position = last ∧
        ∃ ending error, list[last]? = some ending ∧ p.parse = (.error error, p) ∧
          error.diagnostic = ⟨ending.line, .atEnd, "Expect expression."⟩) := by
  intro list last p
  have stands : StandsIn list p := (standsIn_ofTokens tokens).after calls
  have final : list[last]? = some (ofTokens tokens).ending := getElem?_firstEnd tokens
  have ends : (ofTokens tokens).ending.type = .endOfInput := (standsIn_ofTokens tokens).ends
  have length : last = (ofTokens tokens).pending.length := firstEnd_eq tokens
  obtain ⟨position, sameEnding⟩ := position_after calls (ofTokens tokens)
  have place : p.position + p.pending.length = last := by
    rw [length, position]
    exact Nat.zero_add _
  have placeLater := position_parse p
  have advances := advances_parse p
  have fewer := length_pending_parse p
  refine ⟨?_, reaches_parse stands, by omega, by omega, ?_, ?_, ?_⟩
  · intro steps
    have start : Sound last (.start p.position) := sound_start (by omega)
    obtain ⟨d, ran, forward, sound⟩ := start.exists_run final ends steps
    obtain ⟨later, stepped, further, _⟩ := sound.exists_step final ends
    have inside : last < list.length := (List.getElem?_eq_some_iff.mp final).1
    refine ⟨d, ran, forward, sound.within, inside, ⟨later, stepped, further⟩, ?_⟩
    intro rule called a member again
    rcases again with hasRead | above
    · exact sound.further a member hasRead
    · exact sound.deeper rule called a member above
  · intro e read
    have nothing := advances.ok e read
    rw [nothing, List.length_nil] at placeLater
    omega
  · intro error failed
    rcases advances.error error failed with some | nothing
    · omega
    · rw [nothing, List.length_nil] at placeLater
      omega
  · intro enough
    have left : p.pending.length ≤ (ofTokens tokens).pending.length - calls :=
      length_pending_after calls (ofTokens tokens)
    have nothing : p.pending = [] := by
      apply List.eq_nil_of_length_eq_zero
      omega
    rw [nothing, List.length_nil] at place
    refine ⟨by omega, _, _, final, parse_of_pending_nil nothing, ?_⟩
    rw [SyntaxError.diagnostic, sameEnding, Token.diagnostic, Token.location, if_pos ends]
    rfl

end Lox.Parser
