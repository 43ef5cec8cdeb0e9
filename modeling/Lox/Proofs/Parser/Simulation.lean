import Lox.Proofs.Parser.Calls
import Lox.Proofs.Parser.Descent
import Lox.Proofs.Parser.Position

set_option autoImplicit false

namespace Lox.Parser

/-- One descent becomes another after some steps. -/
def Reaches (list : List Token) (d later : Descent) : Prop :=
  ∃ steps, d.run list steps = some later

namespace Reaches

variable {list : List Token} {d next later : Descent}

theorem refl (list : List Token) (d : Descent) : Reaches list d d :=
  ⟨0, rfl⟩

theorem head (stepped : d.step list = some next) (reached : Reaches list next later) :
    Reaches list d later := by
  obtain ⟨steps, ran⟩ := reached
  refine ⟨steps + 1, ?_⟩
  rw [Descent.run, stepped, Option.bind_some, ran]

theorem trans (first : Reaches list d next) (second : Reaches list next later) :
    Reaches list d later := by
  obtain ⟨steps, ran⟩ := first
  obtain ⟨more, ranOn⟩ := second
  refine ⟨steps + more, ?_⟩
  rw [Descent.run_add, ran, Option.bind_some, ranOn]

end Reaches

/-- A descent in front of some last part of the pending tokens of a parser. -/
def descentAt (p : Parser) (rest : List Token) (stack : List Activation) (task : Task) : Descent :=
  ⟨(p.moveTo rest).position, stack, task⟩

/-- The descent comes back to the stack with what a rule reads, in front of the tokens that the rule
leaves, or with the fault of the rule. -/
def Answers (list : List Token) (p : Parser) (stack : List Activation) (d : Descent) {bound : Nat} :
    Except Failure (Reading bound) → Prop
  | .error failure =>
    failure.rest <:+ p.pending ∧
      Reaches list d (p.descentAt failure.rest stack
        (.answer (.error ⟨failure.fault, (p.moveTo failure.rest).current⟩)))
  | .ok reading =>
    reading.rest <:+ p.pending ∧
      Reaches list d (p.descentAt reading.rest stack (.answer (.ok reading.expr)))

section Steps

variable {list rest : List Token} {p : Parser} {t : Token} {stack : List Activation}

theorem current_moveTo_nil (p : Parser) : (p.moveTo []).current = p.ending := rfl

theorem current_moveTo_cons (t : Token) (rest : List Token) (p : Parser) :
    (p.moveTo (t :: rest)).current = t := rfl

theorem moveTo_pending (p : Parser) : p.moveTo p.pending = p := by
  rw [moveTo, Nat.sub_self, Nat.add_zero]

theorem step_call (stands : StandsIn list p) (suffix : rest <:+ p.pending)
    (stack : List Activation) (rule : Category) :
    (p.descentAt rest stack (.call rule)).step list =
      some (Descent.enter (p.moveTo rest).current (p.moveTo rest).position stack rule) := by
  have present := (stands.moveTo suffix).getElem?_position
  simp only [descentAt, Descent.step, present, Option.map_some]

theorem step_answer (stands : StandsIn list p) (suffix : rest <:+ p.pending)
    (stack : List Activation) (outcome : Except SyntaxError Expr) :
    (p.descentAt rest stack (.answer outcome)).step list =
      some (Descent.settle (p.moveTo rest).current (p.moveTo rest).position stack outcome) := by
  have present := (stands.moveTo suffix).getElem?_position
  simp only [descentAt, Descent.step, present, Option.map_some]

theorem passing_moveTo (stands : StandsIn list p) (suffix : t :: rest <:+ p.pending) :
    passing t (p.moveTo (t :: rest)).position = (p.moveTo rest).position := by
  have other := stands.running t (suffix.mem List.mem_cons_self)
  have fits := suffix.length_le
  rw [passing_of_ne other]
  simp only [moveTo, List.length_cons] at fits ⊢
  omega

theorem StandsIn.value?_ending (stands : StandsIn list p) : p.ending.value? = none := by
  simp [Token.value?, stands.ends]

theorem takes_ending (stands : StandsIn list p) (types : List TokenType) :
    takes types p.ending = false := by
  simp [takes, stands.ends]

theorem Answers.after {bound : Nat} {d next : Descent} {outcome : Except Failure (Reading bound)}
    (reached : Reaches list d next) (answers : Answers list p stack next outcome) :
    Answers list p stack d outcome := by
  cases outcome with
  | error failure => exact ⟨answers.1, reached.trans answers.2⟩
  | ok reading => exact ⟨answers.1, reached.trans answers.2⟩

theorem Answers.head {bound : Nat} {d next : Descent} {outcome : Except Failure (Reading bound)}
    (stepped : d.step list = some next) (answers : Answers list p stack next outcome) :
    Answers list p stack d outcome :=
  answers.after (.head stepped (.refl ..))

theorem Answers.unwind (stands : StandsIn list p) {bound limit : Nat} {a : Activation}
    {d : Descent} {failure : Failure}
    (answers : Answers list p (a :: stack) d (.error failure : Except Failure (Reading bound))) :
    Answers list p stack d (.error failure : Except Failure (Reading limit)) := by
  obtain ⟨suffix, reached⟩ := answers
  exact ⟨suffix, reached.trans (.head (step_answer stands suffix _ _) (.refl ..))⟩

theorem Answers.receive (stands : StandsIn list p) {bound : Nat} {a : Activation} {d : Descent}
    {e : Expr} {outcome : Except Failure (Reading bound)} (suffix : rest <:+ p.pending)
    (reached : Reaches list d (p.descentAt rest (a :: stack) (.answer (.ok e))))
    (answers : Answers list p stack
      (Descent.receive (p.moveTo rest).current (p.moveTo rest).position stack e a) outcome) :
    Answers list p stack d outcome := by
  have settled := step_answer stands suffix (a :: stack) (.ok e)
  exact (answers.head settled).after reached

theorem Answers.relay (stands : StandsIn list p) {bound : Nat} {a : Activation} {d : Descent}
    {outcome : Except Failure (Reading bound)} (answers : Answers list p (a :: stack) d outcome)
    (passesOn : a.waiting = .equality ∨ a.waiting = .primary) :
    Answers list p stack d outcome := by
  cases outcome with
  | error failure => exact answers.unwind stands
  | ok reading =>
    obtain ⟨suffix, reached⟩ := answers
    apply Answers.receive stands suffix reached
    rw [Descent.receive]
    rcases passesOn with own | own
    · rw [own]
      exact ⟨suffix, .refl ..⟩
    · rw [own]
      exact ⟨suffix, .refl ..⟩

end Steps

-- The steps of a rule are compared with the function that reads it, so the recursion is that of the
-- functions. What has been read is received with one step, and an error passes with one step too.
mutual

/-- Called in front of some tokens, the rule of a level answers with what is read at that level. -/
theorem readLevel_answers {list : List Token} {p : Parser} (stands : StandsIn list p) (level : Nat)
    (tokens : List Token) (rule : Category) (stack : List Activation)
    (suffix : tokens <:+ p.pending) (rank : rule.rank = level) (positive : 1 ≤ level)
    (bounded : level ≤ TokenType.operandLevel) :
    Answers list p stack (p.descentAt tokens stack (.call rule)) (readLevel level tokens) := by
  rw [readLevel]
  split
  next inside =>
    obtain ⟨chain, rfl, rfl⟩ := Category.exists_chain rank positive inside
    have first := readLevel_answers stands (chain.level + 1) tokens chain.operand
      (⟨(p.moveTo tokens).position, .first chain⟩ :: stack) suffix chain.rank_operand
      (Nat.succ_pos _) inside
    have called := step_call stands suffix stack (.chain chain)
    split
    next failure failed =>
      rw [failed] at first
      exact (first.unwind stands).head called
    next reading succeeded =>
      rw [succeeded] at first
      obtain ⟨behind, reached⟩ := first
      have fewer := reading.shorter
      have more := readMore_answers stands chain reading.expr reading.rest
        (p.moveTo tokens).position stack behind
      have joined := Answers.receive stands behind reached more
      split
      next failure failed =>
        rw [failed] at joined
        exact joined.head called
      next whole succeeded =>
        rw [succeeded] at joined
        exact joined.head called
  next outside =>
    have last : rule.rank = TokenType.operandLevel := by omega
    rw [Category.eq_unary last]
    exact readUnary_answers stands tokens stack suffix
termination_by (tokens.length, 2 + (TokenType.operandLevel - level))

/-- A chain that goes on with an expression answers with that and all operands behind it. -/
theorem readMore_answers {list : List Token} {p : Parser} (stands : StandsIn list p) (chain : Chain)
    (left : Expr) (tokens : List Token) (entry : Nat) (stack : List Activation)
    (suffix : tokens <:+ p.pending) :
    Answers list p stack
      (Descent.goOn (p.moveTo tokens).current (p.moveTo tokens).position stack entry chain left)
      (readMore chain.level left tokens) := by
  match tokens, suffix with
  | [], suffix =>
    rw [readMore]
    have noOperator := takes_ending stands chain.operators
    rw [current_moveTo_nil, Descent.goOn, noOperator]
    exact ⟨suffix, .refl ..⟩
  | t :: rest, suffix =>
    rw [readMore, current_moveTo_cons, Descent.goOn, takes_operators]
    by_cases same : t.type.level = chain.level
    · have inside : rest <:+ p.pending := (List.suffix_cons t rest).trans suffix
      have right := readLevel_answers stands (chain.level + 1) rest chain.operand
        (⟨entry, .right chain left t⟩ :: stack) inside chain.rank_operand (Nat.succ_pos _)
        chain.level_lt_operandLevel
      rw [if_pos same, if_pos (decide_eq_true same), passing_moveTo stands suffix]
      split
      next failure failed =>
        rw [failed] at right
        exact right.unwind stands
      next reading succeeded =>
        rw [succeeded] at right
        obtain ⟨behind, reached⟩ := right
        have fewer := reading.shorter
        have more := readMore_answers stands chain (.binary left t reading.expr) reading.rest entry
          stack behind
        have joined := Answers.receive stands behind reached more
        split
        next failure failed =>
          rw [failed] at joined
          exact joined
        next whole succeeded =>
          rw [succeeded] at joined
          exact joined
    · rw [if_neg same, if_neg (by simpa using same)]
      exact ⟨suffix, .refl ..⟩
termination_by (tokens.length, 0)

theorem readUnary_answers {list : List Token} {p : Parser} (stands : StandsIn list p)
    (tokens : List Token) (stack : List Activation) (suffix : tokens <:+ p.pending) :
    Answers list p stack (p.descentAt tokens stack (.call .unary)) (readUnary tokens) := by
  match tokens, suffix with
  | [], suffix =>
    have called := step_call stands suffix stack .unary
    have primary := readPrimary_answers stands []
      (⟨(p.moveTo []).position, .primary⟩ :: stack) suffix
    rw [current_moveTo_nil, Descent.enter, takes_ending stands] at called
    rw [readUnary]
    exact (primary.relay stands (.inr rfl)).head called
  | t :: rest, suffix =>
    have called := step_call stands suffix stack .unary
    rw [current_moveTo_cons, Descent.enter, takes_unary] at called
    rw [readUnary]
    split
    next isUnary =>
      have inside : rest <:+ p.pending := (List.suffix_cons t rest).trans suffix
      have sum := readLevel_answers stands TokenType.plus.level rest (.chain .term)
        (⟨(p.moveTo (t :: rest)).position, .operand t⟩ :: stack) inside rfl (by decide) (by decide)
      rw [if_pos isUnary, passing_moveTo stands suffix] at called
      split
      next failure failed =>
        rw [failed] at sum
        exact (sum.unwind stands).head called
      next operand succeeded =>
        rw [succeeded] at sum
        obtain ⟨behind, reached⟩ := sum
        apply Answers.head called
        apply Answers.receive stands behind reached
        exact ⟨behind, .refl ..⟩
    next other =>
      have primary := readPrimary_answers stands (t :: rest)
        (⟨(p.moveTo (t :: rest)).position, .primary⟩ :: stack) suffix
      rw [if_neg other] at called
      exact (primary.relay stands (.inr rfl)).head called
termination_by (tokens.length, 1)

theorem readPrimary_answers {list : List Token} {p : Parser} (stands : StandsIn list p)
    (tokens : List Token) (stack : List Activation) (suffix : tokens <:+ p.pending) :
    Answers list p stack (p.descentAt tokens stack (.call .primary)) (readPrimary tokens) := by
  match tokens, suffix with
  | [], suffix =>
    have called := step_call stands suffix stack .primary
    rw [current_moveTo_nil, Descent.enter, stands.value?_ending, if_neg (by simp [stands.ends])]
      at called
    rw [readPrimary]
    exact ⟨suffix, .head called (.refl ..)⟩
  | t :: rest, suffix =>
    have called := step_call stands suffix stack .primary
    have inside : rest <:+ p.pending := (List.suffix_cons t rest).trans suffix
    rw [current_moveTo_cons, Descent.enter, passing_moveTo stands suffix] at called
    rw [readPrimary]
    split
    next value found =>
      rw [found] at called
      exact ⟨inside, .head called (.refl ..)⟩
    next noValue =>
      rw [noValue] at called
      split
      next opens =>
        rw [if_pos opens] at called
        have entered := step_call stands inside
          (⟨(p.moveTo (t :: rest)).position, .parentheses⟩ :: stack) .expression
        have inner := readLevel_answers stands 1 rest (.chain .equality)
          (⟨(p.moveTo rest).position, .equality⟩ ::
            ⟨(p.moveTo (t :: rest)).position, .parentheses⟩ :: stack)
          inside rfl (by decide) (by decide)
        have whole := ((inner.relay stands (.inl rfl)).head entered).head called
        split
        next failure failed =>
          rw [failed] at whole
          exact whole.unwind stands
        next e shorter succeeded =>
          rw [succeeded] at whole
          obtain ⟨behind, reached⟩ := whole
          apply Answers.receive stands behind reached
          rw [current_moveTo_nil, Descent.receive, takes_ending stands]
          exact ⟨behind, .refl ..⟩
        next e closing later shorter succeeded =>
          rw [succeeded] at whole
          obtain ⟨behind, reached⟩ := whole
          apply Answers.receive stands behind reached
          rw [current_moveTo_cons]
          simp only [Descent.receive, takes_rightParen, passing_moveTo stands behind]
          by_cases closes : closing.type = .rightParen
          · rw [if_pos closes, if_pos (decide_eq_true closes)]
            exact ⟨(List.suffix_cons closing later).trans behind, .refl ..⟩
          · rw [if_neg closes, if_neg (by simpa using closes)]
            exact ⟨behind, .refl ..⟩
      next noParen =>
        rw [if_neg noParen] at called
        exact ⟨suffix, .head called (.refl ..)⟩
termination_by (tokens.length, 0)

end

section Resume

variable {list rest : List Token} {p : Parser} {before : Token}

theorem step_resume (stands : StandsIn list p) (suffix : before :: rest <:+ p.pending)
    (error : SyntaxError) :
    (p.descentAt rest [] (.resume error)).step list =
      some (Descent.skip before (p.moveTo rest).current (p.moveTo rest).position error) := by
  have inside := (List.suffix_cons before rest).trans suffix
  have present := (stands.moveTo inside).getElem?_position
  have earlier := (stands.moveTo suffix).getElem?_position
  have passed := passing_moveTo stands suffix
  rw [passing_of_ne (stands.running before (suffix.mem List.mem_cons_self))] at passed
  have index : (p.moveTo rest).position - 1 = (p.moveTo (before :: rest)).position := by omega
  rw [← index, current_moveTo_cons] at earlier
  simp only [descentAt, Descent.step, present, earlier, Option.bind_some, Option.map_some]

theorem reaches_resumption (stands : StandsIn list p) (suffix : before :: rest <:+ p.pending)
    (error : SyntaxError) :
    Reaches list (p.descentAt rest [] (.resume error))
      (p.descentAt (resumption before.type rest) [] (.done (.error error))) := by
  induction rest generalizing before with
  | nil =>
    have stepped := step_resume stands suffix error
    rw [current_moveTo_nil, Descent.skip, if_pos (.inl stands.ends)] at stepped
    exact .head stepped (.refl ..)
  | cons t rest ih =>
    have stepped := step_resume stands suffix error
    have inside := (List.suffix_cons before (t :: rest)).trans suffix
    have other := stands.running t (inside.mem List.mem_cons_self)
    rw [current_moveTo_cons, Descent.skip, passing_moveTo stands inside] at stepped
    rw [resumption]
    simp only [startsStatement_iff]
    by_cases place : before.type = .semicolon ∨ t.type ∈ statementStarts
    · rw [if_pos (.inr place)] at stepped
      rw [if_pos place]
      exact .head stepped (.refl ..)
    · rw [if_neg (by simp [other, place])] at stepped
      rw [if_neg place]
      exact .head stepped (ih inside)

theorem reaches_ending (stands : StandsIn list p) (error : SyntaxError) :
    Reaches list (p.descentAt [] [] (.answer (.error error)))
      (p.descentAt [] [] (.done (.error error))) := by
  have settled := step_answer stands List.nil_suffix [] (.error error)
  have present := (stands.moveTo List.nil_suffix).getElem?_position
  have stays : passing p.ending (p.moveTo []).position = (p.moveTo []).position :=
    if_pos stands.ends
  rw [current_moveTo_nil, Descent.settle, stays] at settled
  have inside : (p.moveTo []).position < list.length := (List.getElem?_eq_some_iff.mp present).1
  have earlier : list[(p.moveTo []).position - 1]? = some list[(p.moveTo []).position - 1] :=
    List.getElem?_eq_getElem (by omega)
  have skipped : (p.descentAt [] [] (.resume error)).step list =
      some (p.descentAt [] [] (.done (.error error))) := by
    simp [descentAt, Descent.step, present, earlier, Descent.skip, current_moveTo_nil, stands.ends]
  exact .head settled (.head skipped (.refl ..))

theorem reaches_resynchronize (stands : StandsIn list p) (suffix : rest <:+ p.pending)
    (error : SyntaxError) :
    Reaches list (p.descentAt rest [] (.answer (.error error)))
      (p.descentAt (resynchronize rest) [] (.done (.error error))) := by
  cases rest with
  | nil => exact reaches_ending stands error
  | cons t rest =>
    have settled := step_answer stands suffix [] (.error error)
    rw [current_moveTo_cons, Descent.settle, passing_moveTo stands suffix] at settled
    exact .head settled (reaches_resumption stands suffix error)

end Resume

/-- The rules start at the current token, and come back with what they read off all pending
tokens. -/
theorem answers_start {list : List Token} {p : Parser} (stands : StandsIn list p) :
    Answers list p [] (.start p.position) (readLevel 1 p.pending) := by
  have suffix : p.pending <:+ p.pending := List.suffix_rfl
  have start : Descent.start p.position = p.descentAt p.pending [] (.call .expression) := by
    rw [Descent.start, descentAt, moveTo_pending]
  have entered := step_call stands suffix [] .expression
  have whole := readLevel_answers stands 1 p.pending (.chain .equality)
    [⟨(p.moveTo p.pending).position, .equality⟩] suffix rfl (by decide) (by decide)
  rw [start]
  exact (whole.relay stands (.inl rfl)).head entered

/-- When a reading fails, the rules that wait have all given up in front of the token at which it
stopped. -/
theorem reaches_fault {list : List Token} {p : Parser} (stands : StandsIn list p)
    {failure : Failure} (failed : State.start.run p.pending = .error failure) :
    Reaches list (.start p.position)
      (p.descentAt failure.rest []
        (.answer (.error ⟨failure.fault, (p.moveTo failure.rest).current⟩))) := by
  have answers := answers_start stands
  rw [← descend_eq_run, descend] at failed
  split at failed
  next found read =>
    obtain rfl := Except.error.inj failed
    rw [read] at answers
    exact answers.2
  next => cases failed
  next e t rest shorter read =>
    obtain rfl := Except.error.inj failed
    rw [read] at answers
    obtain ⟨suffix, reached⟩ := answers
    have other := stands.running t (suffix.mem List.mem_cons_self)
    have settled := step_answer stands suffix [] (.ok e)
    rw [current_moveTo_cons, Descent.settle, if_neg other] at settled
    exact reached.trans (.head settled (.refl ..))

theorem reaches_tree {list : List Token} {p : Parser} (stands : StandsIn list p) {e : Expr}
    (succeeded : State.start.run p.pending = .ok e) :
    Reaches list (.start p.position) (p.descentAt [] [] (.done (.ok e))) := by
  have answers := answers_start stands
  rw [← descend_eq_run, descend] at succeeded
  split at succeeded
  next => cases succeeded
  next found shorter read =>
    obtain rfl := Except.ok.inj succeeded
    rw [read] at answers
    obtain ⟨suffix, reached⟩ := answers
    have settled := step_answer stands suffix [] (.ok found)
    rw [current_moveTo_nil, Descent.settle, if_pos stands.ends] at settled
    exact reached.trans (.head settled (.refl ..))
  next => cases succeeded

/-- A descent from the place of a parser ends with the outcome of the next attempt, in the place of
the parser after that. -/
theorem reaches_parse {list : List Token} {p : Parser} (stands : StandsIn list p) :
    Reaches list (.start p.position) ⟨p.parse.2.position, [], .done p.parse.1⟩ := by
  rw [parse]
  cases outcome : State.start.run p.pending with
  | error failure =>
    have suffix := State.rest_suffix_of_run outcome
    exact (reaches_fault stands outcome).trans (reaches_resynchronize stands suffix _)
  | ok e => exact reaches_tree stands outcome

end Lox.Parser
