import Lox.Proofs.Parser.Grammar

set_option autoImplicit false

namespace Lox

/-- The place of a rule in the grammar, in which each rule first calls the next one. -/
def Category.rank : Category → Nat
  | expression => 0
  | chain rule => rule.level
  | unary => TokenType.operandLevel
  | primary => TokenType.operandLevel + 1

theorem Chain.rank_operand (rule : Chain) : rule.operand.rank = rule.level + 1 := by
  cases rule <;> rfl

theorem Chain.mem_operators_iff (rule : Chain) (type : TokenType) :
    type ∈ rule.operators ↔ type.level = rule.level := by
  constructor
  · exact level_of_mem_operators
  · intro same
    have isBinary : 1 ≤ type.level := by
      rw [same]
      cases rule <;> decide
    obtain ⟨other, member⟩ := exists_of_level isBinary
    have level := level_of_mem_operators member
    have rules := eq_of_level_eq (level.symm.trans same)
    rwa [← rules]

theorem Category.exists_chain {rule : Category} {level : Nat} (rank : rule.rank = level)
    (above : 1 ≤ level) (below : level < TokenType.operandLevel) :
    ∃ chain, rule = .chain chain ∧ chain.level = level := by
  subst rank
  cases rule with
  | expression => exact absurd above (by decide)
  | chain chain => exact ⟨chain, rfl, rfl⟩
  | unary => exact absurd below (by decide)
  | primary => exact absurd below (by decide)

theorem Category.eq_unary {rule : Category} (rank : rule.rank = TokenType.operandLevel) :
    rule = .unary := by
  cases rule with
  | expression => exact absurd rank (by decide)
  | chain chain => exact absurd rank (Nat.ne_of_lt chain.level_lt_operandLevel)
  | unary => rfl
  | primary => exact absurd rank (by decide)

namespace Parser

/-- What a rule does with the expression for which it has called another rule. -/
inductive Waiting where
  | equality
  | first (rule : Chain)
  | right (rule : Chain) (left : Expr) (operator : Token)
  /-- Without an operator, a unary expression is whatever the rule for primary expressions reads. -/
  | primary
  | operand (operator : Token)
  | parentheses

/-- Whether a rule that waits for this has passed a token itself. -/
def Waiting.hasRead : Waiting → Bool
  | equality | first _ | primary => false
  | right _ _ _ | operand _ | parentheses => true

/-- A rule that is being read while another one, which it has called, is read. -/
structure Activation where
  entry : Nat
  waiting : Waiting

def Activation.rule (a : Activation) : Category :=
  match a.waiting with
  | .equality => .expression
  | .first rule => .chain rule
  | .right rule _ _ => .chain rule
  | .primary => .unary
  | .operand _ => .unary
  | .parentheses => .primary

inductive Task where
  | call (rule : Category)
  | answer (outcome : Except SyntaxError Expr)
  | resume (error : SyntaxError)
  | done (outcome : Except SyntaxError Expr)

structure Descent where
  index : Nat
  /-- The rules that wait, the one called last in front. -/
  stack : List Activation
  task : Task

/-- The index behind a token. An end of input is not passed. -/
def passing (t : Token) (index : Nat) : Nat :=
  if t.type = .endOfInput then index else index + 1

def statementStarts : List TokenType :=
  [.kwClass, .kwFun, .kwVar, .kwFor, .kwIf, .kwWhile, .kwPrint, .kwReturn]

theorem startsStatement_iff (type : TokenType) :
    type.startsStatement = true ↔ type ∈ statementStarts := by
  cases type <;> decide

/-- Whether a rule that looks for one of some types takes a token. -/
def takes (types : List TokenType) (t : Token) : Bool :=
  decide (t.type ∈ types) && decide (t.type ≠ .endOfInput)

namespace Descent

def start (index : Nat) : Descent :=
  ⟨index, [], .call .expression⟩

def enter (t : Token) (index : Nat) (below : List Activation) : Category → Descent
  | .expression => ⟨index, ⟨index, .equality⟩ :: below, .call (.chain .equality)⟩
  | .chain rule => ⟨index, ⟨index, .first rule⟩ :: below, .call rule.operand⟩
  | .unary =>
    if takes [.bang, .minus] t then
      ⟨passing t index, ⟨index, .operand t⟩ :: below, .call (.chain .term)⟩
    else ⟨index, ⟨index, .primary⟩ :: below, .call .primary⟩
  | .primary =>
    match t.value? with
    | some value => ⟨passing t index, below, .answer (.ok (.literal value))⟩
    | none =>
      if t.type = .leftParen then
        ⟨passing t index, ⟨index, .parentheses⟩ :: below, .call .expression⟩
      else ⟨index, below, .answer (.error ⟨.expectedExpression, t⟩)⟩

/-- What a chain does with the expression so far: it reads on if an operator of its own follows. -/
def goOn (t : Token) (index : Nat) (below : List Activation) (entry : Nat) (rule : Chain)
    (e : Expr) : Descent :=
  if takes rule.operators t then
    ⟨passing t index, ⟨entry, .right rule e t⟩ :: below, .call rule.operand⟩
  else ⟨index, below, .answer (.ok e)⟩

/-- What a rule does with the expression that it has waited for. -/
def receive (t : Token) (index : Nat) (below : List Activation) (e : Expr) (a : Activation) :
    Descent :=
  match a.waiting with
  | .equality => ⟨index, below, .answer (.ok e)⟩
  | .first rule => goOn t index below a.entry rule e
  | .right rule left operator => goOn t index below a.entry rule (.binary left operator e)
  | .primary => ⟨index, below, .answer (.ok e)⟩
  | .operand operator => ⟨index, below, .answer (.ok (.unary operator e))⟩
  | .parentheses =>
    if takes [.rightParen] t then ⟨passing t index, below, .answer (.ok (.grouping e))⟩
    else ⟨index, below, .answer (.error ⟨.expectedRightParen, t⟩)⟩

/-- What becomes of the answer of a rule. An error gets through to the bottom of the stack, where an
expression has to reach up to the end of input. -/
def settle (t : Token) (index : Nat) : List Activation → Except SyntaxError Expr → Descent
  | a :: below, .ok e => receive t index below e a
  | _ :: below, .error error => ⟨index, below, .answer (.error error)⟩
  | [], .ok e =>
    if t.type = .endOfInput then ⟨index, [], .done (.ok e)⟩
    else ⟨index, [], .answer (.error ⟨.expectedEnd, t⟩)⟩
  | [], .error error => ⟨passing t index, [], .resume error⟩

/-- One token more is dropped, unless the descent has come to a place to go on at. -/
def skip (before t : Token) (index : Nat) (error : SyntaxError) : Descent :=
  if t.type = .endOfInput ∨ before.type = .semicolon ∨ t.type ∈ statementStarts then
    ⟨index, [], .done (.error error)⟩
  else ⟨passing t index, [], .resume error⟩

/-- One step; `none` if it needs a token that is not in the list. -/
def step (list : List Token) (d : Descent) : Option Descent :=
  match d.task with
  | .call rule => list[d.index]?.map fun t => enter t d.index d.stack rule
  | .answer outcome => list[d.index]?.map fun t => settle t d.index d.stack outcome
  | .resume error =>
    list[d.index]?.bind fun t => list[d.index - 1]?.map fun before => skip before t d.index error
  | .done _ => some d

/-- The descent after the given number of steps. -/
def run (list : List Token) : Nat → Descent → Option Descent
  | 0, d => some d
  | steps + 1, d => (d.step list).bind (run list steps)

end Descent

namespace Descent

theorem run_add (list : List Token) (first second : Nat) (d : Descent) :
    d.run list (first + second) = (d.run list first).bind (run list second) := by
  induction first generalizing d with
  | zero =>
    rw [Nat.zero_add]
    rfl
  | succ first ih =>
    rw [Nat.succ_add, run, run, Option.bind_assoc]
    exact congrArg _ (funext ih)

end Descent

/-- What a step at the given token can do. It passes at most that token, which is then no end of
input. A rule that waits has waited before or is the one that was called, and if it waits for
something new behind a token of its own, that is the token that was passed. A rule is called behind
a token that was passed, or by the rule in front of it. -/
structure Moves (t : Token) (d later : Descent) : Prop where
  index : later.index = d.index ∨ (t.type ≠ .endOfInput ∧ later.index = d.index + 1)
  stack : ∀ a ∈ later.stack, a ∈ d.stack ∨
    (a.waiting.hasRead = true → d.index < later.index) ∧
      ((∃ b ∈ d.stack, a.entry = b.entry ∧ a.rule = b.rule) ∨
        (d.task = .call a.rule ∧ a.entry = d.index))
  calls : ∀ rule, later.task = .call rule →
    d.index < later.index ∨ ∃ caller, d.task = .call caller ∧ caller.rank < rule.rank

section Moves

variable {t before : Token} {index : Nat} {types : List TokenType} {stack below : List Activation}

theorem passing_eq (t : Token) (index : Nat) :
    passing t index = index ∨ (t.type ≠ .endOfInput ∧ passing t index = index + 1) := by
  unfold passing
  split
  · exact .inl rfl
  · exact .inr ⟨‹_›, rfl⟩

theorem passing_of_ne (other : t.type ≠ .endOfInput) (index : Nat) :
    passing t index = index + 1 :=
  if_neg other

theorem lt_passing (other : t.type ≠ .endOfInput) (index : Nat) : index < passing t index := by
  rw [passing_of_ne other]
  exact Nat.lt_succ_self index

theorem ne_endOfInput_of_takes (taken : takes types t = true) : t.type ≠ .endOfInput := by
  simp only [takes, Bool.and_eq_true, decide_eq_true_eq] at taken
  exact taken.2

theorem takes_operators (rule : Chain) (t : Token) :
    takes rule.operators t = decide (t.type.level = rule.level) := by
  have running : t.type ∈ rule.operators → t.type ≠ .endOfInput := by
    intro listed ends
    rw [ends] at listed
    cases rule <;> simp [Chain.operators] at listed
  rw [takes, ← Bool.decide_and, decide_eq_decide, ← rule.mem_operators_iff]
  exact and_iff_left_of_imp running

theorem takes_unary (t : Token) : takes [.bang, .minus] t = t.type.isUnary := by
  unfold takes
  cases t.type <;> rfl

theorem takes_rightParen (t : Token) : takes [.rightParen] t = decide (t.type = .rightParen) := by
  unfold takes
  cases t.type <;> rfl

namespace Moves

theorem of_subset {later : Nat} {task next : Task}
    (moved : later = index ∨ (t.type ≠ .endOfInput ∧ later = index + 1)) (kept : below ⊆ stack)
    (noCall : ∀ rule, next ≠ .call rule) :
    Moves t ⟨index, stack, task⟩ ⟨later, below, next⟩ := by
  exact ⟨moved, fun a member => .inl (kept member), fun rule called => absurd called (noCall rule)⟩

theorem of_call {later : Nat} {caller rule : Category} {waiting : Waiting}
    (isCaller : (Activation.mk index waiting).rule = caller)
    (moved : later = index ∨ (t.type ≠ .endOfInput ∧ later = index + 1))
    (deeper : index < later ∨ waiting.hasRead = false ∧ caller.rank < rule.rank) :
    Moves t ⟨index, stack, .call caller⟩ ⟨later, ⟨index, waiting⟩ :: stack, .call rule⟩ := by
  refine ⟨moved, ?_, ?_⟩
  · intro a member
    rcases List.mem_cons.mp member with rfl | old
    · refine .inr ⟨fun hasRead => ?_, .inr ⟨by rw [isCaller], rfl⟩⟩
      exact deeper.resolve_right fun first => by simp [first.1] at hasRead
    · exact .inl old
  · intro called same
    obtain rfl := Task.call.inj same
    exact deeper.imp_right fun first => ⟨caller, rfl, first.2⟩

end Moves

theorem moves_enter (t : Token) (index : Nat) (stack : List Activation) (rule : Category) :
    Moves t ⟨index, stack, .call rule⟩ (Descent.enter t index stack rule) := by
  cases rule with
  | expression =>
    have deeper : Category.expression.rank < (Category.chain .equality).rank := Nat.one_pos
    exact Moves.of_call rfl (.inl rfl) (.inr ⟨rfl, deeper⟩)
  | chain rule =>
    have deeper : (Category.chain rule).rank < rule.operand.rank := by
      rw [rule.rank_operand]
      exact Nat.lt_succ_self _
    exact Moves.of_call rfl (.inl rfl) (.inr ⟨rfl, deeper⟩)
  | unary =>
    rw [Descent.enter]
    split
    next taken =>
      have further := lt_passing (ne_endOfInput_of_takes taken) index
      exact Moves.of_call rfl (passing_eq t index) (.inl further)
    next =>
      have deeper : Category.unary.rank < Category.primary.rank := Nat.lt_succ_self _
      exact Moves.of_call rfl (.inl rfl) (.inr ⟨rfl, deeper⟩)
  | primary =>
    rw [Descent.enter]
    split
    next value found =>
      exact .of_subset (passing_eq t index) (List.Subset.refl _) (by simp)
    next =>
      split
      next opens =>
        have other : t.type ≠ .endOfInput := by simp [opens]
        exact Moves.of_call rfl (passing_eq t index) (.inl (lt_passing other index))
      next => exact .of_subset (.inl rfl) (List.Subset.refl _) (by simp)

theorem moves_goOn {a : Activation} {rule : Chain} (isOwn : a.rule = .chain rule) (t : Token)
    (index : Nat) (below : List Activation) (outcome : Except SyntaxError Expr) (e : Expr) :
    Moves t ⟨index, a :: below, .answer outcome⟩
      (Descent.goOn t index below a.entry rule e) := by
  unfold Descent.goOn
  split
  next taken =>
    have further := lt_passing (ne_endOfInput_of_takes taken) index
    refine ⟨passing_eq t index, fun b member => ?_, fun called same => .inl further⟩
    rcases List.mem_cons.mp member with rfl | old
    · exact .inr ⟨fun _ => further, .inl ⟨a, List.mem_cons_self, rfl, isOwn.symm⟩⟩
    · exact .inl (List.mem_cons_of_mem _ old)
  next => exact .of_subset (.inl rfl) (List.subset_cons_self a below) (by simp)

theorem moves_settle (t : Token) (index : Nat) (stack : List Activation)
    (outcome : Except SyntaxError Expr) :
    Moves t ⟨index, stack, .answer outcome⟩ (Descent.settle t index stack outcome) := by
  match stack, outcome with
  | [], .error error => exact .of_subset (passing_eq t index) (List.Subset.refl _) (by simp)
  | [], .ok e =>
    rw [Descent.settle]
    split
    · exact .of_subset (.inl rfl) (List.Subset.refl _) (by simp)
    · exact .of_subset (.inl rfl) (List.Subset.refl _) (by simp)
  | a :: below, .error error =>
    exact .of_subset (.inl rfl) (List.subset_cons_self a below) (by simp)
  | ⟨entry, waiting⟩ :: below, .ok e =>
    have kept := List.subset_cons_self (⟨entry, waiting⟩ : Activation) below
    cases waiting with
    | equality => exact .of_subset (.inl rfl) kept (by simp)
    | first rule => exact moves_goOn rfl t index below _ e
    | right rule left operator => exact moves_goOn rfl t index below _ (.binary left operator e)
    | primary => exact .of_subset (.inl rfl) kept (by simp)
    | operand operator => exact .of_subset (.inl rfl) kept (by simp)
    | parentheses =>
      simp only [Descent.settle, Descent.receive]
      split
      · exact .of_subset (passing_eq t index) kept (by simp)
      · exact .of_subset (.inl rfl) kept (by simp)

theorem moves_skip (before t : Token) (index : Nat) (stack : List Activation)
    (error : SyntaxError) :
    Moves t ⟨index, stack, .resume error⟩ (Descent.skip before t index error) := by
  unfold Descent.skip
  split
  · exact .of_subset (.inl rfl) (List.nil_subset _) (by simp)
  · exact .of_subset (passing_eq t index) (List.nil_subset _) (by simp)

end Moves

namespace Descent

/-- While the current token is in the list, so are all tokens that a step needs. -/
theorem exists_step {list : List Token} {t : Token} {d : Descent}
    (present : list[d.index]? = some t) :
    ∃ later, d.step list = some later ∧ (later = d ∨ Moves t d later) := by
  obtain ⟨index, stack, task⟩ := d
  change list[index]? = some t at present
  cases task with
  | call rule =>
    exact ⟨enter t index stack rule, by simp [step, present], .inr (moves_enter ..)⟩
  | answer outcome =>
    exact ⟨settle t index stack outcome, by simp [step, present], .inr (moves_settle ..)⟩
  | resume error =>
    have inside : index < list.length := (List.getElem?_eq_some_iff.mp present).1
    have earlier : list[index - 1]? = some list[index - 1] := List.getElem?_eq_getElem (by omega)
    exact ⟨skip list[index - 1] t index error, by simp [step, present, earlier],
      .inr (moves_skip ..)⟩
  | done outcome => exact ⟨_, rfl, .inl rfl⟩

end Descent

/-- What holds all through a descent in front of the token with the given index. -/
structure Sound (last : Nat) (d : Descent) : Prop where
  within : d.index ≤ last
  entered : ∀ a ∈ d.stack, a.entry ≤ d.index
  /-- A rule that has passed a token is further on than where it was called. -/
  further : ∀ a ∈ d.stack, a.waiting.hasRead = true → a.entry < d.index
  /-- A rule that is called again inside itself, or inside one that binds more tightly, is called
  further on than that one was. -/
  deeper : ∀ rule, d.task = .call rule →
    ∀ a ∈ d.stack, rule.rank ≤ a.rule.rank → a.entry < d.index

section Sound

variable {list : List Token} {last : Nat} {ending t : Token} {d later : Descent}

theorem sound_start {index : Nat} (within : index ≤ last) : Sound last (.start index) :=
  ⟨within, by simp [Descent.start], by simp [Descent.start], by simp [Descent.start]⟩

theorem Moves.le (moves : Moves t d later) : d.index ≤ later.index := by
  have := moves.index
  omega

/-- No rule that waits was called further on than the token at hand. -/
theorem Moves.entry_le (moves : Moves t d later) (sound : Sound last d) {a : Activation}
    (member : a ∈ later.stack) : a.entry ≤ d.index := by
  rcases moves.stack a member with old | ⟨_, ⟨b, waited, entry, _⟩ | ⟨_, entry⟩⟩
  · exact sound.entered a old
  · have := sound.entered b waited
    omega
  · omega

/-- A rule that has come to wait is one that waited or the one that was called. -/
theorem Moves.rule_cases (moves : Moves t d later) {a : Activation} (member : a ∈ later.stack) :
    (∃ b ∈ d.stack, a.entry = b.entry ∧ a.rule = b.rule) ∨ d.task = .call a.rule := by
  rcases moves.stack a member with old | ⟨_, same | ⟨called, _⟩⟩
  · exact .inl ⟨a, old, rfl, rfl⟩
  · exact .inl same
  · exact .inr called

theorem Moves.sound (moves : Moves t d later) (sound : Sound last d)
    (present : list[d.index]? = some t) (final : list[last]? = some ending)
    (ends : ending.type = .endOfInput) : Sound last later := by
  have forward := moves.le
  refine ⟨?_, ?_, ?_, ?_⟩
  · have within := sound.within
    rcases moves.index with same | ⟨other, next⟩
    · omega
    · have notLast : d.index ≠ last := by
        intro same
        rw [same, final] at present
        obtain rfl := Option.some.inj present
        exact other ends
      omega
  · intro a member
    have := moves.entry_le sound member
    omega
  · intro a member hasRead
    rcases moves.stack a member with old | ⟨passed, _⟩
    · have := sound.further a old hasRead
      omega
    · have := moves.entry_le sound member
      have := passed hasRead
      omega
  · intro rule called a member above
    rcases moves.calls rule called with passed | ⟨caller, calling, lower⟩
    · have := moves.entry_le sound member
      omega
    -- Without a token passed the new rule binds more tightly than its caller, so those that waited
    -- and bind as tightly as it bind more tightly than the caller too.
    · rcases moves.rule_cases member with ⟨b, waited, entry, same⟩ | new
      · rw [same] at above
        have := sound.deeper caller calling b waited (by omega)
        omega
      · rw [calling] at new
        obtain rfl := Task.call.inj new
        omega

theorem Sound.exists_step (sound : Sound last d) (final : list[last]? = some ending)
    (ends : ending.type = .endOfInput) :
    ∃ later, d.step list = some later ∧ d.index ≤ later.index ∧ Sound last later := by
  have inside : d.index < list.length := by
    have := sound.within
    have := (List.getElem?_eq_some_iff.mp final).1
    omega
  have present := List.getElem?_eq_getElem inside
  obtain ⟨later, stepped, rfl | moves⟩ := Descent.exists_step present
  · exact ⟨_, stepped, Nat.le_refl _, sound⟩
  · exact ⟨later, stepped, moves.le, moves.sound sound present final ends⟩

theorem Sound.exists_run (sound : Sound last d) (final : list[last]? = some ending)
    (ends : ending.type = .endOfInput) (steps : Nat) :
    ∃ later, d.run list steps = some later ∧ d.index ≤ later.index ∧ Sound last later := by
  induction steps generalizing d with
  | zero => exact ⟨d, rfl, Nat.le_refl _, sound⟩
  | succ steps ih =>
    obtain ⟨next, stepped, forward, kept⟩ := sound.exists_step final ends
    obtain ⟨later, ran, further, still⟩ := ih kept
    refine ⟨later, ?_, Nat.le_trans forward further, still⟩
    rw [Descent.run, stepped, Option.bind_some, ran]

end Sound

end Parser

end Lox
