import Lox.Proofs.Expr.Operands
import Lox.Proofs.Number.Text
import Lox.Proofs.Parser.Lines
import Lox.Proofs.Token.Literal

set_option autoImplicit false

namespace Lox

def marks : List Char :=
  [' ', '(', ')']

structure IsWord (text : List Char) : Prop where
  nonempty : text ≠ []
  solid : ∀ c ∈ text, c ∉ marks

/-- A mark is next, if anything is. -/
def MarkNext (text : List Char) : Prop :=
  ∀ c ∈ text.head?, c ∈ marks

section Words

variable {text word other r s : List Char}

theorem markNext_cons {c : Char} (listed : c ∈ marks) (rest : List Char) : MarkNext (c :: rest) :=
  fun _ head => Option.some.inj head ▸ listed

theorem IsWord.of_all (nonempty : word ≠ []) (solid : word.all (· ∉ marks) = true) :
    IsWord word :=
  ⟨nonempty, fun c member => of_decide_eq_true (List.all_eq_true.mp solid c member)⟩

theorem IsWord.takeWhile_append (isWord : IsWord word) (next : MarkNext r) :
    (word ++ r).takeWhile (· ∉ marks) = word := by
  have solid : ∀ c ∈ word, decide (c ∉ marks) = true :=
    fun c member => decide_eq_true (isWord.solid c member)
  have nothing : r.takeWhile (· ∉ marks) = [] := by
    cases r with
    | nil => rfl
    | cons c rest =>
      have listed : c ∈ marks := next c rfl
      exact List.takeWhile_cons_of_neg (by simpa using listed)
  rw [List.takeWhile_append_of_pos solid, nothing, List.append_nil]

/-- A word in front of a mark is known where it ends. -/
theorem IsWord.append_inj (first : IsWord word) (second : IsWord other) (next : MarkNext r)
    (later : MarkNext s) (same : word ++ r = other ++ s) : word = other ∧ r = s := by
  have words : word = other := by
    rw [← first.takeWhile_append next, same, second.takeWhile_append later]
  subst words
  exact ⟨rfl, List.append_cancel_left same⟩

theorem IsWord.ne_mark {c : Char} (isWord : IsWord word) (listed : c ∈ marks) :
    word ++ r ≠ c :: s := by
  obtain ⟨d, rest, rfl⟩ := List.exists_cons_of_ne_nil isWord.nonempty
  intro same
  obtain ⟨rfl, _⟩ := List.cons.inj same
  exact isWord.solid d List.mem_cons_self listed

end Words

section Operators

def operatorTexts : List (List Char) :=
  [['-'], ['+'], ['/'], ['*'], ['!'], ['!', '='], ['=', '='], ['<'], ['<', '='], ['>'],
    ['>', '=']]

/-- The token is found in a text and can be applied to operands. -/
structure Token.IsOperator (t : Token) : Prop where
  genuine : t.Genuine
  applies : t.type.isUnary = true ∨ 1 ≤ t.type.level

theorem Matches.mem_operatorTexts {text : List Char} {type : TokenType}
    (matched : Matches text type) (applies : type.isUnary = true ∨ 1 ≤ type.level) :
    text ∈ operatorTexts := by
  have inSingles : ∀ entry ∈ singles,
      entry.2.isUnary = true ∨ 1 ≤ entry.2.level → [entry.1] ∈ operatorTexts := by decide
  have inPairs : ∀ entry ∈ pairs,
      (entry.2.1.isUnary = true ∨ 1 ≤ entry.2.1.level → [entry.1] ∈ operatorTexts) ∧
        [entry.1, '='] ∈ operatorTexts := by decide
  have inKeywords : ∀ entry ∈ keywords,
      ¬ (entry.2.isUnary = true ∨ 1 ≤ entry.2.level) := by decide
  cases matched with
  | single listed => exact inSingles _ listed applies
  | alone listed => exact (inPairs _ listed).1 applies
  | joined listed => exact (inPairs _ listed).2
  | whole isWhole => exact absurd applies (by decide)
  | fraction isWhole isFraction => exact absurd applies (by decide)
  | word start inside typed =>
    cases typed with
    | keyword listed => exact absurd applies (inKeywords _ listed)
    | identifier others => exact absurd applies (by decide)
  | string inside => exact absurd applies (by decide)

variable {t : Token}

theorem Token.IsOperator.isWord (isOperator : t.IsOperator) : IsWord t.lexeme.toList := by
  have listed := isOperator.genuine.matched.mem_operatorTexts isOperator.applies
  have table : ∀ text ∈ operatorTexts, text ≠ [] ∧ text.all (· ∉ marks) = true := by decide
  exact .of_all (table _ listed).1 (table _ listed).2

theorem Token.IsOperator.ne_group (isOperator : t.IsOperator) :
    t.lexeme.toList ≠ "group".toList := by
  have listed := isOperator.genuine.matched.mem_operatorTexts isOperator.applies
  intro same
  rw [same] at listed
  exact absurd listed (by decide)

end Operators

theorem startsApart_inf : StartsApart "inf" :=
  .of_isLetter (by decide : "inf".toList = 'i' :: "nf".toList)
    (.inr (.inl ⟨by decide, by decide⟩)) (by decide)

namespace Number

variable {n : Number}

/-- No number is written with a mark or with one of these letters, which tell apart the keywords. -/
theorem not_mem_text (notNaN : n.isNaN = false) {c : Char} (other : c ∈ ['t', 'a', 'l'] ++ marks) :
    c ∉ (n.text "inf").toList := by
  have table : (['t', 'a', 'l'] ++ marks).all (fun c =>
      ¬ ('0' ≤ c ∧ c ≤ '9') ∧ c ≠ '.' ∧ c ≠ '-' ∧ c ∉ "inf".toList) = true := by decide
  obtain ⟨noDigit, noPoint, noSign, outside⟩ :=
    of_decide_eq_true (List.all_eq_true.mp table c other)
  intro member
  rcases mem_text notNaN "inf" c member with digit | point | sign | inside
  · exact noDigit digit
  · exact noPoint point
  · exact noSign sign
  · exact outside inside

theorem text_ne_keyword (notNaN : n.isNaN = false) {keyword : String}
    (letter : keyword.toList.any (· ∈ ['t', 'a', 'l']) = true) : n.text "inf" ≠ keyword := by
  obtain ⟨c, member, other⟩ := List.any_eq_true.mp letter
  rintro rfl
  exact not_mem_text notNaN (List.mem_append_left marks (of_decide_eq_true other)) member

theorem isWord_text (notNaN : n.isNaN = false) : IsWord (n.text "inf").toList := by
  refine ⟨?_, fun c member listed => ?_⟩
  · obtain ⟨c, rest, magnitude, _⟩ := exists_magnitudeText_eq_cons startsApart_inf n
    rw [toList_text notNaN, magnitude]
    split <;> exact List.cons_ne_nil _ _
  · exact not_mem_text notNaN (List.mem_append_right _ listed) member

end Number

namespace Value

variable {v w : Value}

/-- Neither a string nor a NaN. -/
def IsPlain : Value → Prop
  | number n => n.isNaN = false
  | string _ => False
  | boolean _ | nil => True

theorem IsPlain.isWord (plain : v.IsPlain) : IsWord (v.textWith "inf").toList := by
  cases v with
  | number n => exact Number.isWord_text plain
  | string s => exact plain.elim
  | boolean b => cases b <;> exact .of_all (by decide) (by decide)
  | nil => exact .of_all (by decide) (by decide)

theorem IsPlain.eq_of_textWith (first : v.IsPlain) (second : w.IsPlain)
    (same : v.textWith "inf" = w.textWith "inf") : v = w := by
  cases v with
  | number a =>
    cases w with
    | number b => rw [Number.eq_of_text startsApart_inf first second same]
    | string s => exact second.elim
    | boolean b => exact absurd same (Number.text_ne_keyword first (by cases b <;> decide))
    | nil => exact absurd same (Number.text_ne_keyword first (by decide))
  | string s => exact first.elim
  | boolean b =>
    cases w with
    | number a => exact absurd same.symm (Number.text_ne_keyword second (by cases b <;> decide))
    | string s => exact second.elim
    | boolean c =>
      have told : ∀ b c : Bool,
          (boolean b).textWith "inf" = (boolean c).textWith "inf" → b = c := by decide
      rw [told b c same]
    | nil => cases b <;> exact absurd same (by decide)
  | nil =>
    cases w with
    | number a => exact absurd same.symm (Number.text_ne_keyword second (by decide))
    | string s => exact second.elim
    | boolean c => cases c <;> exact absurd same (by decide)
    | nil => rfl

end Value

namespace Expr

variable {a b e : Expr} {r s : List Char}

def IsPlain : Expr → Prop
  | literal value => value.IsPlain
  | grouping inner => inner.IsPlain
  | unary operator operand => operator.IsOperator ∧ operand.IsPlain
  | binary left operator right => operator.IsOperator ∧ left.IsPlain ∧ right.IsPlain

theorem IsPlain.of_mem_operands (plain : e.IsPlain) : ∀ x ∈ e.operands, x.IsPlain := by
  cases e with
  | literal value => simp [operands]
  | grouping inner =>
    have inside : inner.IsPlain := plain
    simpa [operands] using inside
  | unary operator operand => simpa [operands] using plain.2
  | binary left operator right => simpa [operands] using plain.2

def headword : Expr → List Char
  | literal value => (value.textWith "inf").toList
  | grouping _ => "group".toList
  | unary operator _ | binary _ operator _ => operator.lexeme.toList

/-- The text of some operands up to the closing parenthesis, and the text behind it. -/
def closing (rest : List Char) : List Expr → List Char
  | [] => ')' :: rest
  | e :: more => ' ' :: (e.text.toList ++ closing rest more)

theorem IsPlain.isWord_headword (plain : e.IsPlain) : IsWord e.headword := by
  cases e with
  | literal value => exact Value.IsPlain.isWord plain
  | grouping inner =>
    show IsWord "group".toList
    exact .of_all (by decide) (by decide)
  | unary operator operand => exact plain.1.isWord
  | binary left operator right => exact plain.1.isWord

theorem text_of_operands_eq_nil (leaf : e.operands = []) : e.text.toList = e.headword := by
  cases e with
  | literal value => rfl
  | _ => cases leaf

theorem text_of_operands_ne_nil (composite : e.operands ≠ []) (rest : List Char) :
    e.text.toList ++ rest = '(' :: (e.headword ++ closing rest e.operands) := by
  cases e with
  | literal value => exact absurd rfl composite
  | grouping inner => simp [text, headword, operands, closing]
  | unary operator operand => simp [text, headword, operands, closing]
  | binary left operator right => simp [text, headword, operands, closing]

theorem markNext_closing (rest : List Char) (trees : List Expr) :
    MarkNext (closing rest trees) := by
  cases trees with
  | nil => exact markNext_cons (by decide) _
  | cons e more => exact markNext_cons (by decide) _

/-- A text that starts with either tree and a mark behind it can be taken apart in one way: the
trees differ in no more than lines, and the same is behind both. -/
def ToldApart (a b : Expr) : Prop :=
  ∀ {r s : List Char}, MarkNext r → MarkNext s → a.text.toList ++ r = b.text.toList ++ s →
    a.unlined = b.unlined ∧ r = s

/-- Operands are told apart together if they are told apart one by one. -/
theorem closing_inj {trees others : List Expr}
    (apart : ∀ x ∈ trees, ∀ y ∈ others, ToldApart x y)
    (same : closing r trees = closing s others) :
    trees.map unlined = others.map unlined ∧ r = s := by
  induction trees generalizing others with
  | nil =>
    cases others with
    | nil => exact ⟨rfl, (List.cons.inj same).2⟩
    | cons y others => exact absurd (List.cons.inj same).1 (by decide)
  | cons x trees ih =>
    cases others with
    | nil => exact absurd (List.cons.inj same).1 (by decide)
    | cons y others =>
      obtain ⟨first, rest⟩ := apart x List.mem_cons_self y List.mem_cons_self
        (markNext_closing r trees) (markNext_closing s others) (List.cons.inj same).2
      obtain ⟨more, behind⟩ := ih
        (fun x member y member' =>
          apart x (List.mem_cons_of_mem _ member) y (List.mem_cons_of_mem _ member'))
        rest
      exact ⟨by rw [List.map_cons, List.map_cons, first, more], behind⟩

/-- The word of the topmost node and the operands determine a tree. Whether an operator is unary or
binary is seen from the number of its operands. -/
theorem unlined_eq_of_headword (first : a.IsPlain) (second : b.IsPlain)
    (word : a.headword = b.headword)
    (below : a.operands.map unlined = b.operands.map unlined) : a.unlined = b.unlined := by
  cases a with
  | literal v =>
    cases b with
    | literal w =>
      rw [Value.IsPlain.eq_of_textWith first second (String.toList_inj.mp word)]
    | _ => simp [operands] at below
  | grouping inner =>
    cases b with
    | grouping other =>
      simp only [operands, List.map_cons, List.cons.injEq] at below
      rw [unlined, unlined, below.1]
    | unary g y => exact absurd word.symm second.1.ne_group
    | _ => simp [operands] at below
  | unary f x =>
    cases b with
    | grouping other => exact absurd word first.1.ne_group
    | unary g y =>
      simp only [operands, List.map_cons, List.cons.injEq] at below
      have operator := first.1.genuine.unlined_eq second.1.genuine (String.toList_inj.mp word)
      rw [unlined, unlined, operator, below.1]
    | _ => simp [operands] at below
  | binary x f y =>
    cases b with
    | binary z g w =>
      simp only [operands, List.map_cons, List.cons.injEq] at below
      have operator := first.1.genuine.unlined_eq second.1.genuine (String.toList_inj.mp word)
      rw [unlined, unlined, operator, below.1, below.2.1]
    | _ => simp [operands] at below

/-- Plain trees are told apart by their text, which says where it ends. -/
theorem IsPlain.toldApart (first : a.IsPlain) (second : b.IsPlain) : ToldApart a b := by
  induction a using operands_induction generalizing b with
  | step a ih =>
    intro r s next later same
    -- The first character says whether a tree has operands: a word starts with no parenthesis.
    by_cases leaf : a.operands = []
    · by_cases leaf' : b.operands = []
      · rw [text_of_operands_eq_nil leaf, text_of_operands_eq_nil leaf'] at same
        obtain ⟨word, behind⟩ := first.isWord_headword.append_inj second.isWord_headword next later
          same
        exact ⟨unlined_eq_of_headword first second word (by rw [leaf, leaf']), behind⟩
      · rw [text_of_operands_eq_nil leaf, text_of_operands_ne_nil leaf'] at same
        exact absurd same (first.isWord_headword.ne_mark (by decide))
    · by_cases leaf' : b.operands = []
      · rw [text_of_operands_ne_nil leaf, text_of_operands_eq_nil leaf'] at same
        exact absurd same.symm (second.isWord_headword.ne_mark (by decide))
      · rw [text_of_operands_ne_nil leaf, text_of_operands_ne_nil leaf'] at same
        obtain ⟨word, rest⟩ := first.isWord_headword.append_inj second.isWord_headword
          (markNext_closing r _) (markNext_closing s _) (List.cons.inj same).2
        have apart : ∀ x ∈ a.operands, ∀ y ∈ b.operands, ToldApart x y :=
          fun x member y member' =>
            ih x member (first.of_mem_operands x member) (second.of_mem_operands y member')
        obtain ⟨below, behind⟩ := closing_inj apart rest
        exact ⟨unlined_eq_of_headword first second word below, behind⟩

theorem text_unlined (e : Expr) : e.unlined.text = e.text := by
  induction e with
  | literal value => rfl
  | grouping inner ih => simp only [unlined, text, ih]
  | unary operator operand ih => simp only [unlined, text, ih, Token.unlined]
  | binary left operator right ihl ihr => simp only [unlined, text, ihl, ihr, Token.unlined]

/-- Plain trees have the same text exactly when they differ in no more than lines. -/
theorem IsPlain.text_eq_iff (first : a.IsPlain) (second : b.IsPlain) :
    a.text = b.text ↔ a.unlined = b.unlined := by
  constructor
  · intro same
    have nothing : MarkNext [] := fun _ head => by cases head
    exact (first.toldApart second nothing nothing (by rw [same])).1
  · intro same
    rw [← a.text_unlined, same, b.text_unlined]

/-- A string is written without its quotes, so it can be written like a number. -/
example :
    (literal (.string "1")).text = (literal (.number (.ofDecimal ⟨1, 0⟩))).text := by
  decide +kernel

end Expr

end Lox
