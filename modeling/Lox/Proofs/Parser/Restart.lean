import Lox.Proofs.Parser.Progress

set_option autoImplicit false

namespace Lox.Parser

def Activation.relocated (count : Nat) (a : Activation) : Activation :=
  { a with entry := count + a.entry }

namespace Descent

/-- The same descent where the list has more tokens in front. -/
def relocated (count : Nat) (d : Descent) : Descent where
  index := count + d.index
  stack := d.stack.map (Activation.relocated count)
  task := d.task

/-- What a descent that drops tokens has done: it has passed one, or it is in front of the end of
input, where it does not look back. -/
def HasPassed (list : List Token) (d : Descent) : Prop :=
  ∀ error, d.task = .resume error →
    1 ≤ d.index ∨ ∃ t, list[d.index]? = some t ∧ t.type = .endOfInput

section Relocated

variable {list : List Token} {before t : Token} {d later : Descent} {error : SyntaxError}
variable (count index : Nat) (below : List Activation)

theorem passing_add (t : Token) : passing t (count + index) = count + passing t index := by
  unfold passing
  split
  · rfl
  · rfl

theorem enter_relocated (t : Token) (rule : Category) :
    enter t (count + index) (below.map (Activation.relocated count)) rule =
      (enter t index below rule).relocated count := by
  cases rule with
  | expression => rfl
  | chain rule => rfl
  | unary =>
    rw [enter, enter, passing_add]
    split
    · rfl
    · rfl
  | primary =>
    rw [enter, enter, passing_add]
    split
    · rfl
    · split
      · rfl
      · rfl

theorem goOn_relocated (t : Token) (entry : Nat) (rule : Chain) (e : Expr) :
    goOn t (count + index) (below.map (Activation.relocated count)) (count + entry) rule e =
      (goOn t index below entry rule e).relocated count := by
  rw [goOn, goOn, passing_add]
  split
  · rfl
  · rfl

theorem receive_relocated (t : Token) (e : Expr) (a : Activation) :
    receive t (count + index) (below.map (Activation.relocated count)) e (a.relocated count) =
      (receive t index below e a).relocated count := by
  obtain ⟨entry, waiting⟩ := a
  cases waiting with
  | equality => rfl
  | first rule => exact goOn_relocated count index below t entry rule e
  | right rule left operator =>
    exact goOn_relocated count index below t entry rule (.binary left operator e)
  | primary => rfl
  | operand operator => rfl
  | parentheses =>
    simp only [receive, Activation.relocated, passing_add]
    split
    · rfl
    · rfl

theorem settle_relocated (t : Token) (stack : List Activation)
    (outcome : Except SyntaxError Expr) :
    settle t (count + index) (stack.map (Activation.relocated count)) outcome =
      (settle t index stack outcome).relocated count := by
  cases stack with
  | nil =>
    cases outcome with
    | ok e =>
      simp only [List.map_nil, settle]
      split
      · rfl
      · rfl
    | error error =>
      simp only [List.map_nil, settle, passing_add]
      rfl
  | cons a below =>
    cases outcome with
    | ok e => exact receive_relocated count index below t e a
    | error error => rfl

theorem skip_relocated (before t : Token) (error : SyntaxError) :
    skip before t (count + index) error = (skip before t index error).relocated count := by
  rw [skip, skip, passing_add]
  split
  · rfl
  · rfl

/-- In front of the end of input no token is dropped, whatever stands in front of that. -/
theorem skip_of_end (ends : t.type = .endOfInput) (before : Token) (error : SyntaxError) :
    skip before t index error = ⟨index, [], .done (.error error)⟩ :=
  if_pos (.inl ends)

theorem exists_getElem?_pred {place : Nat} (present : list[place]? = some t) :
    ∃ before, list[place - 1]? = some before := by
  have inside : place < list.length := (List.getElem?_eq_some_iff.mp present).1
  exact ⟨list[place - 1], List.getElem?_eq_getElem (by omega)⟩

/-- A step takes the same course with more tokens in front. A descent that drops tokens looks back,
but not behind where it started. -/
theorem step_relocated (passed : d.HasPassed (list.drop count)) :
    (d.relocated count).step list = (d.step (list.drop count)).map (relocated count) := by
  obtain ⟨index, stack, task⟩ := d
  have here : (list.drop count)[index]? = list[count + index]? := List.getElem?_drop
  cases task with
  | call rule =>
    simp only [step, relocated, here, Option.map_map]
    exact congrArg (Option.map · _) (funext fun t => enter_relocated count index stack t rule)
  | answer outcome =>
    simp only [step, relocated, here, Option.map_map]
    exact congrArg (Option.map · _) (funext fun t => settle_relocated count index t stack outcome)
  | resume error =>
    simp only [step, relocated, here]
    cases present : list[count + index]? with
    | none => rfl
    | some t =>
      rw [Option.bind_some, Option.bind_some]
      rcases passed error rfl with further | ⟨u, isNext, ends⟩
      · have earlier : (list.drop count)[index - 1]? = list[count + index - 1]? := by
          rw [List.getElem?_drop, Nat.add_sub_assoc further]
        rw [earlier, Option.map_map]
        exact congrArg (Option.map · _)
          (funext fun before => skip_relocated count index before t error)
      · obtain ⟨last, atLast⟩ := exists_getElem?_pred present
        obtain ⟨first, atFirst⟩ := exists_getElem?_pred isNext
        obtain rfl : t = u := Option.some.inj (present.symm.trans (here.symm.trans isNext))
        rw [atLast, atFirst, Option.map_some, Option.map_some, skip_of_end _ ends,
          Option.map_some, skip_of_end _ ends]
        rfl
  | done outcome => rfl

theorem hasPassed_passing {place : Nat} (present : list[place]? = some t)
    (stack : List Activation) (task : Task) : HasPassed list ⟨passing t place, stack, task⟩ := by
  intro error _
  by_cases ends : t.type = .endOfInput
  · have stays : passing t place = place := if_pos ends
    exact .inr ⟨t, by rw [stays, present], ends⟩
  · exact .inl (Nat.zero_lt_of_lt (lt_passing ends place))

theorem hasPassed_of_ne {place : Nat} {stack : List Activation} {task : Task}
    (other : ∀ error, task ≠ .resume error) : HasPassed list ⟨place, stack, task⟩ :=
  fun error same => absurd same (other error)

theorem hasPassed_goOn (t : Token) (entry : Nat) (rule : Chain) (e : Expr) :
    (goOn t index below entry rule e).HasPassed list := by
  unfold goOn
  split
  · exact hasPassed_of_ne (by simp)
  · exact hasPassed_of_ne (by simp)

theorem hasPassed_receive (t : Token) (e : Expr) (a : Activation) :
    (receive t index below e a).HasPassed list := by
  obtain ⟨entry, waiting⟩ := a
  cases waiting with
  | first rule => exact hasPassed_goOn index below t entry rule e
  | right rule left operator => exact hasPassed_goOn index below t entry rule _
  | parentheses =>
    simp only [receive]
    split
    · exact hasPassed_of_ne (by simp)
    · exact hasPassed_of_ne (by simp)
  | _ => exact hasPassed_of_ne (by simp)

theorem hasPassed_enter (t : Token) (rule : Category) :
    (enter t index below rule).HasPassed list := by
  cases rule with
  | expression => exact hasPassed_of_ne (by simp)
  | chain rule => exact hasPassed_of_ne (by simp)
  | unary =>
    simp only [enter]
    split
    · exact hasPassed_of_ne (by simp)
    · exact hasPassed_of_ne (by simp)
  | primary =>
    simp only [enter]
    split
    · exact hasPassed_of_ne (by simp)
    · split
      · exact hasPassed_of_ne (by simp)
      · exact hasPassed_of_ne (by simp)

/-- An error at the bottom of the stack is the only outcome after which tokens are dropped. -/
theorem hasPassed_settle {place : Nat} (present : list[place]? = some t) (stack : List Activation)
    (outcome : Except SyntaxError Expr) : (settle t place stack outcome).HasPassed list := by
  cases stack with
  | nil =>
    cases outcome with
    | ok e =>
      simp only [settle]
      split
      · exact hasPassed_of_ne (by simp)
      · exact hasPassed_of_ne (by simp)
    | error error => exact hasPassed_passing present [] _
  | cons a below =>
    cases outcome with
    | ok e => exact hasPassed_receive place below t e a
    | error error => exact hasPassed_of_ne (by simp)

/-- Of all steps only two lead to the dropping of tokens, and both pass one first. -/
theorem hasPassed_of_step (stepped : d.step list = some later) : later.HasPassed list := by
  obtain ⟨place, stack, task⟩ := d
  cases task with
  | call rule =>
    obtain ⟨t, _, rfl⟩ := Option.map_eq_some_iff.mp stepped
    exact hasPassed_enter place stack t rule
  | answer outcome =>
    obtain ⟨t, present, rfl⟩ := Option.map_eq_some_iff.mp stepped
    exact hasPassed_settle present stack outcome
  | resume error =>
    obtain ⟨t, present, rest⟩ := Option.bind_eq_some_iff.mp stepped
    obtain ⟨before, _, rfl⟩ := Option.map_eq_some_iff.mp rest
    rw [skip]
    split
    · exact hasPassed_of_ne (by simp)
    · exact hasPassed_passing present [] _
  | done outcome =>
    obtain rfl := Option.some.inj stepped
    exact hasPassed_of_ne (by simp)

theorem run_relocated (steps : Nat) (passed : d.HasPassed (list.drop count)) :
    (d.relocated count).run list steps = (d.run (list.drop count) steps).map (relocated count) := by
  induction steps generalizing d with
  | zero => rfl
  | succ steps ih =>
    rw [run, run, step_relocated count passed]
    cases stepped : d.step (list.drop count) with
    | none => rfl
    | some later => exact ih (hasPassed_of_step stepped)

/-- A descent that starts somewhere in a list is one that starts at the first of the tokens from
there on. -/
theorem run_start (list : List Token) (count steps : Nat) :
    (start count).run list steps =
      ((start 0).run (list.drop count) steps).map (relocated count) := by
  have passed : (start 0).HasPassed (list.drop count) := hasPassed_of_ne (by simp)
  exact run_relocated count steps passed

end Relocated

section Locality

variable {list other : List Token} {last : Nat} {ending : Token} {d : Descent}

/-- A step reads the current token and the one in front of it. -/
theorem step_of_agrees (agrees : ∀ index ≤ last, list[index]? = other[index]?)
    (within : d.index ≤ last) : d.step list = d.step other := by
  have here := agrees d.index within
  have earlier := agrees (d.index - 1) (by omega)
  rw [step, step, here, earlier]

/-- A descent that stays in front of an end of input takes the same course in all lists that have
the same tokens up to there. -/
theorem run_of_agrees (agrees : ∀ index ≤ last, list[index]? = other[index]?)
    (final : list[last]? = some ending) (ends : ending.type = .endOfInput)
    (sound : Sound last d) (steps : Nat) : d.run list steps = d.run other steps := by
  induction steps generalizing d with
  | zero => rfl
  | succ steps ih =>
    obtain ⟨next, stepped, _, kept⟩ := sound.exists_step final ends
    rw [run, run, ← step_of_agrees agrees sound.within, stepped, Option.bind_some,
      Option.bind_some, ih kept]

end Locality

end Descent

/-- The same parser where its list has more tokens in front. -/
def relocated (count : Nat) (p : Parser) : Parser :=
  { p with position := count + p.position }

section Parser

variable {list : List Token} {p : Parser}

theorem moveTo_relocated (count : Nat) (rest : List Token) (p : Parser) :
    (p.relocated count).moveTo rest = (p.moveTo rest).relocated count := by
  simp only [moveTo, relocated, Nat.add_assoc]

/-- An attempt does not depend on the number of tokens in front. -/
theorem parse_relocated (count : Nat) (p : Parser) :
    (p.relocated count).parse = (p.parse.1, p.parse.2.relocated count) := by
  have same : (p.relocated count).pending = p.pending := rfl
  rw [parse, parse, same]
  cases State.start.run p.pending with
  | ok e => rw [moveTo_relocated]
  | error failure =>
    simp only [moveTo_relocated]
    rfl

/-- A new parser on the tokens that are ahead is the old one, but for the tokens passed. -/
theorem StandsIn.relocated_ofTokens (stands : StandsIn list p) :
    (ofTokens (list.drop p.position)).relocated p.position = p := by
  obtain ⟨behind, ahead⟩ := stands.ahead
  rw [ahead, ofTokens_append stands.running stands.ends]
  rfl

theorem ofTokens_completed (tokens : List Token) :
    ofTokens (completed tokens) = ofTokens tokens := by
  have stands := standsIn_ofTokens tokens
  obtain ⟨behind, whole⟩ := completed_eq tokens
  rw [whole, ofTokens_append stands.running stands.ends]
  rfl

theorem position_le_firstEnd (tokens : List Token) (calls : Nat) :
    ((ofTokens tokens).after calls).position ≤ firstEnd tokens := by
  obtain ⟨place, _⟩ := position_after calls (ofTokens tokens)
  have start : (ofTokens tokens).position = 0 := rfl
  rw [firstEnd_eq]
  omega

theorem getElem?_upTo (front : List Token) (t : Token) (behind other : List Token) {index : Nat}
    (inside : index ≤ front.length) :
    (front ++ t :: behind)[index]? = (front ++ t :: other)[index]? := by
  rcases Nat.lt_or_eq_of_le inside with before | rfl
  · rw [List.getElem?_append_left before, List.getElem?_append_left before]
  · rw [List.getElem?_append_right (Nat.le_refl _), List.getElem?_append_right (Nat.le_refl _),
      Nat.sub_self]
    rfl

theorem getLast?_completed (tokens : List Token) :
    (completed tokens).getLast?.map Token.type = some .endOfInput := by
  unfold completed
  split
  next last => exact last
  next => rw [List.getLast?_concat]; rfl

/-- Nothing is missing from the tokens ahead. -/
theorem completed_drop {tokens : List Token} (stands : StandsIn (completed tokens) p) :
    completed ((completed tokens).drop p.position) = (completed tokens).drop p.position := by
  have inside : p.position < (completed tokens).length :=
    (List.getElem?_eq_some_iff.mp stands.getElem?_position).1
  apply completed_of_ends
  rw [List.getLast?_drop, if_neg (Nat.not_le.mpr inside), getLast?_completed]

end Parser

/-- A parser that goes on in its list does what a new one does on the tokens from its position on:
it has the same outcome and moves by the same distance, through the same steps. And nothing behind
the first end of input makes a difference to any attempt or to any step of it. -/
theorem resumed_as_restarted (tokens : List Token) (calls : Nat) :
    let list := completed tokens
    let p := (ofTokens tokens).after calls
    let ahead := list.drop p.position
    (completed ahead = ahead ∧
        p.parse.1 = (ofTokens ahead).parse.1 ∧
        p.parse.2.position = p.position + (ofTokens ahead).parse.2.position ∧
        ∀ steps, (Descent.start p.position).run list steps =
          ((Descent.start 0).run ahead steps).map (Descent.relocated p.position)) ∧
      ∀ front ending behind other, list = front ++ ending :: behind →
        (∀ t ∈ front, t.type ≠ .endOfInput) → ending.type = .endOfInput →
          let changed := front ++ ending :: other
          let q := (ofTokens changed).after calls
          q.position = p.position ∧ q.parse.1 = p.parse.1 ∧
            q.parse.2.position = p.parse.2.position ∧
            ∀ steps, (Descent.start q.position).run (completed changed) steps =
              (Descent.start p.position).run list steps := by
  intro list p ahead
  have stands : StandsIn list p := (standsIn_ofTokens tokens).after calls
  constructor
  · have parsed := parse_relocated p.position (ofTokens ahead)
    rw [stands.relocated_ofTokens] at parsed
    refine ⟨completed_drop stands, ?_, ?_, Descent.run_start list p.position⟩
    · rw [parsed]
    · exact congrArg (fun outcome => outcome.2.position) parsed
  · intro front ending behind other whole running ends changed q
    have new : ofTokens changed = ⟨0, front, ending⟩ := ofTokens_append running ends other
    have old : ofTokens tokens = ⟨0, front, ending⟩ := by
      rw [← ofTokens_completed]
      exact (congrArg ofTokens whole).trans (ofTokens_append running ends behind)
    have same : q = p := congrArg (after calls) (new.trans old.symm)
    obtain ⟨rest, wholeChanged⟩ := completed_eq changed
    rw [new] at wholeChanged
    refine ⟨by rw [same], by rw [same], by rw [same], fun steps => ?_⟩
    have within : p.position ≤ front.length := by
      have pending : (ofTokens tokens).pending = front := by rw [old]
      rw [← pending, ← firstEnd_eq]
      exact position_le_firstEnd tokens calls
    have final : list[front.length]? = some ending := by
      rw [whole, List.getElem?_append_right (Nat.le_refl _), Nat.sub_self]
      rfl
    have agrees : ∀ index ≤ front.length, list[index]? = (completed changed)[index]? := by
      intro index inside
      rw [whole, wholeChanged]
      exact getElem?_upTo front ending behind rest inside
    rw [same]
    exact (Descent.run_of_agrees agrees final ends (sound_start within) steps).symm

end Lox.Parser
