import Lox.Proofs.Token.Items

set_option autoImplicit false

namespace Lox

/-- The text, which starts on the given line, has these tokens and no faults. -/
inductive ConsistsOf : Nat → List Char → List Token → Prop
  | gap {line : Nat} {gap : List Char} (longest : Longest Gap gap []) : ConsistsOf line gap []
  | piece {line : Nat} {gap text behind : List Char} {t : Token} {tokens : List Token}
    (longest : Longest Gap gap (text ++ behind))
    (isItem : ItemAt (lineAfter line gap) text behind (.ok t))
    (more : ConsistsOf (lineAfter line (gap ++ text)) behind tokens) :
    ConsistsOf line (gap ++ (text ++ behind)) (t :: tokens)

theorem Matches.type_ne_endOfInput {text : List Char} {type : TokenType}
    (matched : Matches text type) : type ≠ .endOfInput := by
  have inSingles : ∀ entry ∈ singles, entry.2 ≠ .endOfInput := by decide
  have inPairs : ∀ entry ∈ pairs, entry.2.1 ≠ .endOfInput ∧ entry.2.2 ≠ .endOfInput := by decide
  have inKeywords : ∀ entry ∈ keywords, entry.2 ≠ .endOfInput := by decide
  cases matched with
  | single listed => exact inSingles _ listed
  | alone listed => exact (inPairs _ listed).1
  | joined listed => exact (inPairs _ listed).2
  | whole _ => decide
  | fraction _ _ => decide
  | word _ _ typed =>
    cases typed with
    | keyword listed => exact inKeywords _ listed
    | identifier _ => decide
  | string _ => decide

namespace ConsistsOf

variable {line : Nat} {gap text behind other : List Char} {t : Token} {tokens others : List Token}

theorem nil (line : Nat) : ConsistsOf line [] [] :=
  .gap (longest_gap_iff.mpr ⟨.nil, rfl⟩)

theorem hasItems (consists : ConsistsOf line text tokens) :
    HasItems line text (tokens.map .ok) := by
  induction consists with
  | gap longest => exact .gap longest
  | piece longest isItem more ih => exact .piece longest isItem ih

theorem of_hasItems {items : List (Except ScanError Token)} (has : HasItems line text items)
    (same : items = tokens.map .ok) : ConsistsOf line text tokens := by
  induction has generalizing tokens with
  | gap longest =>
    rw [List.map_eq_nil_iff.mp same.symm]
    exact .gap longest
  | piece longest isItem more ih =>
    obtain ⟨t, later, rfl, rfl, rest⟩ := List.map_eq_cons_iff.mp same.symm
    exact .piece longest isItem (ih rest.symm)

theorem gap_append (isGap : Gap text gap) (consists : ConsistsOf (lineAfter line gap) text tokens) :
    ConsistsOf line (gap ++ text) tokens :=
  of_hasItems (.gap_append isGap consists.hasItems) rfl

theorem token_append (noGap : gapLength (text ++ behind) = 0)
    (isItem : ItemAt line text behind (.ok t))
    (more : ConsistsOf (lineAfter line text) behind tokens) :
    ConsistsOf line (text ++ behind) (t :: tokens) :=
  .piece (longest_gap_iff.mpr ⟨.nil, noGap⟩) isItem more

theorem string_append {contents : List Char} (inside : '"' ∉ contents)
    (more : ConsistsOf (lineAfter line contents) behind tokens) :
    ConsistsOf line ('"' :: (contents ++ '"' :: behind))
      (⟨.string, String.ofList ('"' :: (contents ++ ['"'])),
        some (.string (String.ofList contents)), line⟩ :: tokens) := by
  have text : '"' :: (contents ++ '"' :: behind) = '"' :: (contents ++ ['"']) ++ behind := by
    rw [List.cons_append, List.append_assoc, List.singleton_append]
  have noGap : gapLength ('"' :: (contents ++ '"' :: behind)) = 0 :=
    gapLength_cons_eq_zero_iff.mpr ⟨by decide, fun slashes => absurd slashes.1 (by decide)⟩
  have literal : literalOf .string ('"' :: (contents ++ ['"'])) =
      some (.string (String.ofList contents)) := by
    simp only [literalOf, List.tail_cons, List.dropLast_concat]
  have sameLine : lineAfter line ('"' :: (contents ++ ['"'])) = lineAfter line contents := by
    simp [lineAfter]
  have isItem : ItemAt line ('"' :: (contents ++ ['"'])) behind (.ok ⟨.string, _, _, line⟩) :=
    .token (longest_string inside behind) (.string inside)
  rw [literal] at isItem
  rw [text] at noGap ⊢
  rw [← sameLine] at more
  exact token_append noGap isItem more

theorem piece_append (longest : Longest Gap gap (text ++ behind))
    (isItem : ItemAt (lineAfter line gap) text behind (.ok t))
    (agrees : AgreesToBlank behind other)
    (more : ConsistsOf (lineAfter line (gap ++ text)) other tokens) :
    ConsistsOf line (gap ++ (text ++ other)) (t :: tokens) :=
  of_hasItems (.piece_append longest isItem (isClosed_ok t) agrees more.hasItems) rfl

theorem append {more : List Char} (first : ConsistsOf line text tokens)
    (second : ConsistsOf (lineAfter line text) ('\n' :: more) others) :
    ConsistsOf line (text ++ '\n' :: more) (tokens ++ others) := by
  have closed : ∀ item ∈ tokens.map Except.ok, IsClosed item :=
    List.forall_mem_map.mpr fun t _ => isClosed_ok t
  exact of_hasItems (first.hasItems.append closed second.hasItems) List.map_append.symm

theorem moved (consists : ConsistsOf line text tokens) (distance : Nat) :
    ConsistsOf (line + distance) text (tokens.map (Token.moved distance)) := by
  apply of_hasItems (consists.hasItems.moved distance)
  rw [List.map_map, List.map_map]
  rfl

theorem running (consists : ConsistsOf line text tokens) : ∀ t ∈ tokens, t.type ≠ .endOfInput := by
  induction consists with
  | gap longest => exact fun t member => absurd member List.not_mem_nil
  | piece longest isItem more ih =>
    intro other member
    rcases List.mem_cons.mp member with rfl | later
    · cases isItem with
      | token longest matched => exact matched.type_ne_endOfInput
    · exact ih other later

end ConsistsOf

/-- A text consists of tokens if all its pieces are tokens. -/
theorem Splits.exists_consistsOf {line : Nat} {text last : List Char} {pieces : List Piece}
    (split : Splits line text pieces last) (noErrors : ∀ piece ∈ pieces, ∃ t, piece.item = .ok t) :
    ∃ tokens, ConsistsOf line text tokens := by
  induction split with
  | last longest => exact ⟨[], .gap longest⟩
  | piece parts longest isItem more ih =>
    subst parts
    obtain ⟨t, rfl⟩ := noErrors _ List.mem_cons_self
    obtain ⟨tokens, consists⟩ := ih fun piece member => noErrors piece (.tail _ member)
    exact ⟨t :: tokens, .piece longest isItem consists⟩

namespace TokenStream

variable {source : String} {tokens : List Token}

theorem items_of_consistsOf (consists : ConsistsOf firstLine source.toList tokens) :
    (ofSource source).items = (tokens ++ [ending source]).map .ok := by
  rw [items_of_hasItems consists.hasItems, List.map_append]
  rfl

theorem tokens_of_items {s : TokenStream} (same : s.items = tokens.map .ok) :
    s.tokens = tokens ∧ s.errors = [] := by
  rw [TokenStream.tokens, errors, same, List.filterMap_map, List.filterMap_map]
  constructor
  · exact List.filterMap_some
  · exact List.filterMap_eq_nil_iff.mpr fun t member => rfl

theorem exists_consistsOf (noErrors : (ofSource source).errors = []) :
    ∃ tokens, ConsistsOf firstLine source.toList tokens := by
  obtain ⟨pieces, last, split⟩ := Lox.exists_splits firstLine source.toList
  rw [errors, items_of_splits split rfl rfl rfl, List.filterMap_append,
    List.append_eq_nil_iff] at noErrors
  apply split.exists_consistsOf
  intro piece member
  have notError := List.filterMap_eq_nil_iff.mp noErrors.1 _ (List.mem_map_of_mem member)
  cases worth : piece.item with
  | ok t => exact ⟨t, rfl⟩
  | error error =>
    rw [worth] at notError
    cases notError

end TokenStream

end Lox
