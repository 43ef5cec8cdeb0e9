import Lox.Proofs.Number.Overflow
import Lox.Proofs.Program.Literals
import Lox.Proofs.Program.Strings

set_option autoImplicit false

namespace Lox

namespace Number

variable {n : Number} {word other : String}

theorem isInfinite_of_isNaN (isNaN : n.isNaN = true) : n.isInfinite = false := by
  have above := of_decide_eq_true isNaN
  exact decide_eq_false (Nat.ne_of_gt above)

theorem text_eq_of_not_isInfinite (finite : n.isInfinite = false) (word other : String) :
    n.text word = n.text other := by
  simp only [text, finite, Bool.false_eq_true, ↓reduceIte]

theorem text_of_isInfinite (infinite : n.isInfinite = true) (word : String) :
    n.text word = if n.isNegative then "-" ++ word else word := by
  have notNaN : n.isNaN = false := by
    cases isNaN : n.isNaN with
    | false => rfl
    | true => rw [isInfinite_of_isNaN isNaN] at infinite; cases infinite
  simp only [text, notNaN, infinite, Bool.false_eq_true, ↓reduceIte]

theorem text_eq_text_iff (different : word ≠ other) :
    n.text word = n.text other ↔ n.isInfinite = false := by
  cases infinite : n.isInfinite with
  | false => exact iff_of_true (text_eq_of_not_isInfinite infinite word other) rfl
  | true =>
    refine iff_of_false (fun same => different ?_) nofun
    rw [text_of_isInfinite infinite, text_of_isInfinite infinite] at same
    split at same
    next => exact (String.append_right_inj "-").mp same
    next => exact same

end Number

def Value.IsInfinite : Value → Prop
  | .number n => n.isInfinite = true
  | _ => False

/-- As a tree, a literal has the text of its value unless it is infinite. -/
theorem Expr.text_literal_eq_iff (v : Value) :
    (Expr.literal v).text = v.text ↔ ¬ v.IsInfinite := by
  cases v with
  | number n =>
    have words : "inf" ≠ "Infinity" := by decide
    exact (Number.text_eq_text_iff words).trans Bool.eq_false_iff
  | string s => exact iff_of_true rfl id
  | boolean b => exact iff_of_true rfl id
  | nil => exact iff_of_true rfl id

section Source

variable {v : Value} {word source : String}

theorem parseSource_of_writtenAs (written : v.WrittenAs word) :
    parseSource word = .ok (.literal v) := by
  have noTexts : ∀ s ∈ ([] : List String), '"' ∉ s.toList := List.forall_mem_nil _
  have alone := parseSource_plusStrings written noTexts
  rwa [List.map_nil, String.intercalate_singleton] at alone

/-- A source that is read as one literal has one token. -/
theorem exists_words_of_literal (read : parseSource source = .ok (.literal v)) :
    ∃ t, TokenStream.words source = [t] ∧ t.StandsFor v ∧ t.IsScanned := by
  obtain ⟨tokens, consists, _, spelled⟩ := (parseSource_eq_ok_iff source _).mp read
  have ⟨whole, _⟩ := TokenStream.tokens_eq_words_append source
  rw [(TokenStream.tokens_of_items (TokenStream.items_of_consistsOf consists)).1] at whole
  rw [← List.append_cancel_right whole]
  cases spelled with
  | literal stands =>
    have member := mem_tokens_of_consistsOf consists List.mem_cons_self
    exact ⟨_, rfl, stands, TokenStream.isScanned_of_mem_tokens member⟩

theorem Token.StandsFor.exists_number {t : Token} (stands : t.StandsFor v)
    (isNumber : t.type = .number) : ∃ n, v = .number n := by
  cases v with
  | number n => exact ⟨n, rfl⟩
  | string s => cases isNumber.symm.trans stands.1
  | boolean b => cases b <;> cases isNumber.symm.trans stands
  | nil => cases isNumber.symm.trans stands

theorem Token.IsScanned.eq_ofDecimal {t : Token} (scanned : t.IsScanned) (stands : t.StandsFor v)
    (isNumber : t.type = .number) :
    v = .number (.ofDecimal (Decimal.ofText t.lexeme.toList)) := by
  obtain ⟨n, rfl⟩ := stands.exists_number isNumber
  obtain ⟨_, m, literal, rfl, _⟩ := scanned.number isNumber
  rw [stands.2] at literal
  exact congrArg Value.number (Literal.number.inj (Option.some.inj literal))

theorem Number.text_ofDecimal_of_overflows {d : Decimal} (tooLarge : d.Overflows)
    (word : String) : (ofDecimal d).text word = word := by
  have infinite := (isInfinite_ofDecimal_iff d).mpr tooLarge
  have unsigned := (isUnsigned_ofDecimal d).notNegative
  rw [text_of_isInfinite infinite, unsigned]
  rfl

theorem run_of_literal (read : parseSource source = .ok (.literal v)) (sink : Sink)
    (room : sink.HasRoom (Bytes.ofText (v.text ++ "\n"))) :
    run source sink =
      (.ok (), { sink with written := sink.written ++ Bytes.ofText (v.text ++ "\n") }) := by
  rw [run_eq_written read rfl, Value.written, Value.output, Sink.write_of_hasRoom room]

/-- Of one literal, the tree is printed as the value is, but for infinite numbers, whose word is
`inf` in a tree and `Infinity` in the output. In a source these are the numerals from the middle
between the greatest double and 2^1024 on; every other source that is one literal, however long it
is, prints the text of its tree. -/
theorem literal_text_unless_infinite (v : Value) :
    ((Expr.literal v).text = v.text ↔ ¬ v.IsInfinite) ∧
      ∀ source : String, parseSource source = .ok (.literal v) →
        (∀ sink : Sink, sink.HasRoom (Bytes.ofText (v.text ++ "\n")) →
          run source sink =
            (.ok (), { sink with written := sink.written ++ Bytes.ofText (v.text ++ "\n") })) ∧
        ∃ t, TokenStream.words source = [t] ∧ t.StandsFor v ∧
          if t.type = .number ∧ (Decimal.ofText t.lexeme.toList).Overflows then
            (Expr.literal v).text = "inf" ∧ v.text = "Infinity"
          else (Expr.literal v).text = v.text := by
  refine ⟨Expr.text_literal_eq_iff v, fun source read => ⟨fun sink room => ?_, ?_⟩⟩
  · exact run_of_literal read sink room
  · obtain ⟨t, words, stands, scanned⟩ := exists_words_of_literal read
    refine ⟨t, words, stands, ?_⟩
    by_cases isNumber : t.type = .number
    · obtain rfl := scanned.eq_ofDecimal stands isNumber
      split
      next tooLarge =>
        exact ⟨Number.text_ofDecimal_of_overflows tooLarge.2 "inf",
          Number.text_ofDecimal_of_overflows tooLarge.2 "Infinity"⟩
      next fits =>
        refine (Expr.text_literal_eq_iff _).mpr fun infinite => fits ⟨isNumber, ?_⟩
        exact (Number.isInfinite_ofDecimal_iff _).mp infinite
    · rw [if_neg fun tooLarge => isNumber tooLarge.1]
      refine (Expr.text_literal_eq_iff v).mpr fun infinite => isNumber ?_
      cases v with
      | number n => exact stands.1
      | string s => exact infinite.elim
      | boolean b => exact infinite.elim
      | nil => exact infinite.elim

theorem digits_one_zeros (n : Nat) :
    Digits (String.ofList ('1' :: List.replicate n '0')).toList := by
  rw [String.toList_ofList]
  refine ⟨List.cons_ne_nil _ _, fun c member => isDigit_iff.mp ?_⟩
  rcases List.mem_cons.mp member with rfl | zero
  · rfl
  · rw [List.eq_of_mem_replicate zero]
    rfl

/-- The text of a tree is not always what its source prints: the numeral for 10^309 is read as an
infinite literal. -/
theorem literal_text_differs_from_output :
    let source := String.ofList ('1' :: List.replicate 309 '0')
    ∃ v, parseSource source = .ok (.literal v) ∧ (Expr.literal v).text = "inf" ∧
      run source .unlimited = (.ok (), ⟨Bytes.ofText "Infinity\n", none, .sinkFull⟩) := by
  intro source
  have digits : Digits source.toList := digits_one_zeros 309
  have tooLarge : (Decimal.ofText source.toList).Overflows := by
    rw [String.toList_ofList]
    decide +kernel
  have read := parseSource_of_writtenAs (.number (.whole digits))
  have word := Number.text_ofDecimal_of_overflows tooLarge
  have prints := run_of_literal read .unlimited Nat.le.refl
  refine ⟨_, read, word "inf", ?_⟩
  rw [prints, Value.text, Value.textWith, word "Infinity"]
  rfl

end Source

end Lox
