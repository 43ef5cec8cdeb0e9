import Mathlib.Order.Bounds.Defs
import Lox.Proofs.Parser.Progress

set_option autoImplicit false

namespace Lox.Parser

/-- Behind the token in front of this index a parser may go on: the end of input or a token that
starts a statement is next, or a semicolon has been passed. -/
def IsResumption (list : List Token) (index : Nat) : Prop :=
  ∃ before t, list[index - 1]? = some before ∧ list[index]? = some t ∧
    (t.type = .endOfInput ∨ before.type = .semicolon ∨ t.type ∈ statementStarts)

section Places

variable {list rest : List Token} {before ending t : Token} {index : Nat}

theorem isResumption_one_iff (before t : Token) (rest : List Token) :
    IsResumption (before :: t :: rest) 1 ↔
      t.type = .endOfInput ∨ before.type = .semicolon ∨ t.type ∈ statementStarts := by
  constructor
  · rintro ⟨_, _, first, second, place⟩
    obtain rfl := Option.some.inj first
    obtain rfl := Option.some.inj second
    exact place
  · intro place
    exact ⟨before, t, rfl, rfl, place⟩

/-- No place to go on at depends on what is further in front than one token. -/
theorem isResumption_drop_iff (passed : Nat) (list : List Token) (behind : 0 < index) :
    IsResumption (list.drop passed) index ↔ IsResumption list (passed + index) := by
  have shift : passed + (index - 1) = passed + index - 1 := by omega
  simp only [IsResumption, List.getElem?_drop, shift]

/-- The tokens that are dropped reach up to the first place to go on at. -/
theorem isLeast_resumption (ends : ending.type = .endOfInput) (behind : List Token)
    (running : ∀ t ∈ rest, t.type ≠ .endOfInput) (before : Token) :
    IsLeast {index | 0 < index ∧ IsResumption (before :: (rest ++ ending :: behind)) index}
      (rest.length - (resumption before.type rest).length + 1) := by
  induction rest generalizing before with
  | nil =>
    have place := (isResumption_one_iff before ending behind).mpr (.inl ends)
    exact ⟨⟨Nat.one_pos, place⟩, fun _ found => found.1⟩
  | cons t rest ih =>
    have other := running t List.mem_cons_self
    have inside : ∀ u ∈ rest, u.type ≠ .endOfInput :=
      fun u member => running u (List.mem_cons_of_mem t member)
    have next := isResumption_one_iff before t (rest ++ ending :: behind)
    rw [resumption, List.cons_append]
    simp only [startsStatement_iff]
    by_cases place : before.type = .semicolon ∨ t.type ∈ statementStarts
    · rw [if_pos place, Nat.sub_self]
      exact ⟨⟨Nat.one_pos, next.mpr (.inr place)⟩, fun _ found => found.1⟩
    · obtain ⟨⟨_, found⟩, first⟩ := ih inside t
      have fits := (resumption_suffix t.type rest).length_le
      have later : (t :: rest).length - (resumption t.type rest).length + 1 =
          1 + (rest.length - (resumption t.type rest).length + 1) := by
        rw [List.length_cons]
        omega
      rw [if_neg place, later]
      refine ⟨⟨by omega, ?_⟩, ?_⟩
      · exact (isResumption_drop_iff 1 _ (Nat.succ_pos _)).mp found
      · rintro index ⟨positive, isPlace⟩
        have notNext : index ≠ 1 := by
          rintro rfl
          exact (next.mp isPlace).elim other place
        obtain ⟨left, rfl⟩ : ∃ left, index = 1 + left := ⟨index - 1, by omega⟩
        have leftPositive : 0 < left := by omega
        have isPlace := (isResumption_drop_iff 1 _ leftPositive).mpr isPlace
        have := first ⟨leftPositive, isPlace⟩
        omega

/-- A parser that drops tokens from an offending one on comes to the first place behind that. -/
theorem isLeast_resynchronize {p : Parser} (stands : StandsIn list p)
    (suffix : t :: rest <:+ p.pending) :
    IsLeast {index | (p.moveTo (t :: rest)).position < index ∧ IsResumption list index}
      (p.moveTo (resynchronize (t :: rest))).position := by
  obtain ⟨behind, ahead⟩ := (stands.moveTo suffix).ahead
  have running : ∀ u ∈ rest, u.type ≠ .endOfInput :=
    fun u member => stands.running u (suffix.mem (List.mem_cons_of_mem t member))
  have inside := (List.suffix_cons t rest).trans suffix
  have dropped := resumption_suffix t.type rest
  have start := position_moveTo suffix
  have stop := position_moveTo (dropped.trans inside)
  have fits := dropped.length_le
  have place : (p.moveTo (resynchronize (t :: rest))).position =
      (p.moveTo (t :: rest)).position + (rest.length - (resumption t.type rest).length + 1) := by
    rw [resynchronize]
    rw [List.length_cons] at start
    omega
  obtain ⟨⟨positive, found⟩, first⟩ := isLeast_resumption stands.ends behind running t
  have whole : list.drop (p.moveTo (t :: rest)).position =
      t :: (rest ++ p.ending :: behind) := ahead
  rw [← whole] at found first
  rw [place]
  refine ⟨⟨by omega, (isResumption_drop_iff _ list positive).mp found⟩, ?_⟩
  rintro index ⟨further, isPlace⟩
  obtain ⟨distance, rfl⟩ : ∃ distance, index = (p.moveTo (t :: rest)).position + distance :=
    ⟨index - (p.moveTo (t :: rest)).position, by omega⟩
  have ahead : 0 < distance := by omega
  have := first ⟨ahead, (isResumption_drop_iff _ list ahead).mpr isPlace⟩
  omega

end Places

/-- A descent that has found an error at the given index. The error gets to the bottom of the stack
there, and after that tokens are dropped. -/
inductive Faulted (index : Nat) (error : SyntaxError) : Descent → Prop
  | unwinding (stack : List Activation) : Faulted index error ⟨index, stack, .answer (.error error)⟩
  | resuming (later : Nat) : Faulted index error ⟨later, [], .resume error⟩
  | done (later : Nat) : Faulted index error ⟨later, [], .done (.error error)⟩

section Faulted

variable {list : List Token} {d later : Descent} {index : Nat} {error : SyntaxError}

/-- No error makes way for another one, and none is found again at another index. -/
theorem Faulted.step (faulted : Faulted index error d) (stepped : d.step list = some later) :
    Faulted index error later := by
  cases faulted with
  | unwinding stack =>
    obtain ⟨t, _, rfl⟩ := Option.map_eq_some_iff.mp stepped
    cases stack with
    | nil => exact .resuming _
    | cons a below => exact .unwinding below
  | resuming place =>
    obtain ⟨t, _, rest⟩ := Option.bind_eq_some_iff.mp stepped
    obtain ⟨before, _, rfl⟩ := Option.map_eq_some_iff.mp rest
    rw [Descent.skip]
    split
    · exact .done _
    · exact .resuming _
  | done place =>
    obtain rfl := Option.some.inj stepped
    exact .done place

theorem Faulted.run {steps : Nat} (faulted : Faulted index error d)
    (ran : d.run list steps = some later) : Faulted index error later := by
  induction steps generalizing d with
  | zero =>
    obtain rfl := Option.some.inj ran
    exact faulted
  | succ steps ih =>
    obtain ⟨next, stepped, ranOn⟩ := Option.bind_eq_some_iff.mp ran
    exact ih (faulted.step stepped) ranOn

/-- A descent finds one error at most, and that at one index. -/
theorem eq_of_answers_error {first second : Nat} {stack below : List Activation} {place : Nat}
    {other : SyntaxError} (le : first ≤ second)
    (found : d.run list first = some ⟨index, stack, .answer (.error error)⟩)
    (again : d.run list second = some ⟨place, below, .answer (.error other)⟩) :
    place = index ∧ other = error := by
  obtain ⟨more, rfl⟩ := Nat.exists_eq_add_of_le le
  rw [Descent.run_add, found, Option.bind_some] at again
  cases (Faulted.unwinding stack).run again with
  | unwinding => exact ⟨rfl, rfl⟩

end Faulted

theorem parse_of_run_error {p : Parser} {failure : Failure}
    (stopped : State.start.run p.pending = .error failure) :
    p.parse = (.error ⟨failure.fault, (p.moveTo failure.rest).current⟩,
      p.moveTo (resynchronize failure.rest)) := by
  rw [parse, stopped]

/-- Where a failed attempt leaves a parser, wherever earlier attempts have left it. The error is put
at the token with some index from the current one on. It is found there, whichever rule finds it and
however many wait for that one, and all of them give up without passing a token. Then the parser
stays if that token is the end of input. Otherwise it goes on at the first index behind that where
the end of input or a token that starts a statement is, or where a semicolon has been passed. -/
theorem resumes_behind_fault (tokens : List Token) (calls : Nat) :
    let list := completed tokens
    let p := (ofTokens tokens).after calls
    ∀ error, p.parse.1 = .error error →
      ∃ index, p.faultIndex? = some index ∧ p.position ≤ index ∧
        list[index]? = some error.token ∧
        error.diagnostic.line = error.token.line ∧
        error.diagnostic.location = error.token.location ∧
        (∃ steps, (Descent.start p.position).run list steps =
          some ⟨index, [], .answer (.error error)⟩) ∧
        (∀ steps place stack other, (Descent.start p.position).run list steps =
          some ⟨place, stack, .answer (.error other)⟩ → place = index ∧ other = error) ∧
        (error.token.type = .endOfInput → p.parse.2.position = index) ∧
        (error.token.type ≠ .endOfInput →
          IsLeast {place | index < place ∧ IsResumption list place} p.parse.2.position) := by
  intro list p error failed
  have stands : StandsIn list p := (standsIn_ofTokens tokens).after calls
  cases stopped : State.start.run p.pending with
  | ok e =>
    rw [(parse_eq_ok_iff_run p e).mpr stopped] at failed
    cases failed
  | error failure =>
    have suffix := State.rest_suffix_of_run stopped
    have parsed := parse_of_run_error stopped
    have found := reaches_fault stands stopped
    obtain rfl : ⟨failure.fault, (p.moveTo failure.rest).current⟩ = error := by
      rw [parsed] at failed
      exact Except.error.inj failed
    refine ⟨(p.moveTo failure.rest).position, ?_, Nat.le_add_right .., ?_, rfl, rfl, found, ?_, ?_,
      ?_⟩
    · rw [faultIndex?, stopped]
    · exact (stands.moveTo suffix).getElem?_position
    · intro steps place stack other again
      obtain ⟨last, ran⟩ := found
      rcases Nat.le_total last steps with le | le
      · exact eq_of_answers_error le ran again
      · obtain ⟨same, equal⟩ := eq_of_answers_error le again ran
        exact ⟨same.symm, equal.symm⟩
    · intro ends
      rw [parsed]
      cases rest : failure.rest with
      | nil => rfl
      | cons t behind =>
        rw [rest] at ends suffix
        exact absurd ends (stands.running t (suffix.mem List.mem_cons_self))
    · intro running
      rw [parsed]
      cases rest : failure.rest with
      | nil =>
        rw [rest] at running
        exact absurd stands.ends running
      | cons t behind =>
        rw [rest] at suffix
        exact isLeast_resynchronize stands suffix

/-- No expression starts with a semicolon. It is dropped, and the number behind it comes next. Nor
does one start with a star, and what is dropped with it is what stands in front of the keyword. -/
theorem resumes_behind_fault_semicolon :
    let ended : List Token := [⟨.semicolon, ";", none, 1⟩, ⟨.number, "1", none, 1⟩]
    let begun : List Token :=
      [⟨.star, "*", none, 1⟩, ⟨.number, "1", none, 1⟩, ⟨.kwPrint, "print", none, 1⟩]
    ((ofTokens ended).parse.1 = .error ⟨.expectedExpression, ⟨.semicolon, ";", none, 1⟩⟩ ∧
      (ofTokens ended).faultIndex? = some 0 ∧
      IsLeast {place | 0 < place ∧ IsResumption (completed ended) place} 1) ∧
      (ofTokens begun).parse.1 = .error ⟨.expectedExpression, ⟨.star, "*", none, 1⟩⟩ ∧
      (ofTokens begun).faultIndex? = some 0 ∧
      IsLeast {place | 0 < place ∧ IsResumption (completed begun) place} 2 := by
  intro ended begun
  have atSemicolon : (ofTokens ended).parse.1 =
      .error ⟨.expectedExpression, ⟨.semicolon, ";", none, 1⟩⟩ := rfl
  have atStar : (ofTokens begun).parse.1 =
      .error ⟨.expectedExpression, ⟨.star, "*", none, 1⟩⟩ := rfl
  have first : (ofTokens ended).faultIndex? = some 0 := rfl
  have second : (ofTokens begun).faultIndex? = some 0 := rfl
  obtain ⟨index, found, _, _, _, _, _, _, _, behind⟩ := resumes_behind_fault ended 0 _ atSemicolon
  obtain rfl : 0 = index := Option.some.inj (first.symm.trans found)
  obtain ⟨index, found, _, _, _, _, _, _, _, ahead⟩ := resumes_behind_fault begun 0 _ atStar
  obtain rfl : 0 = index := Option.some.inj (second.symm.trans found)
  exact ⟨⟨atSemicolon, first, behind (by decide)⟩, atStar, second, ahead (by decide)⟩

end Lox.Parser
