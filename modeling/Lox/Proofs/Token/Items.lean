import Lox.Proofs.Token.Context

set_option autoImplicit false

namespace Lox

def Token.moved (distance : Nat) (t : Token) : Token :=
  { t with line := t.line + distance }

def ScanError.moved (distance : Nat) (e : ScanError) : ScanError :=
  { e with line := e.line + distance }

def movedItem (distance : Nat) : Except ScanError Token → Except ScanError Token
  | .ok t => .ok (t.moved distance)
  | .error e => .error (e.moved distance)

/-- The text, which starts on the given line, has these items. -/
inductive HasItems : Nat → List Char → List (Except ScanError Token) → Prop
  | gap {line : Nat} {gap : List Char} (longest : Longest Gap gap []) : HasItems line gap []
  | piece {line : Nat} {gap text behind : List Char} {item : Except ScanError Token}
    {items : List (Except ScanError Token)} (longest : Longest Gap gap (text ++ behind))
    (isItem : ItemAt (lineAfter line gap) text behind item)
    (more : HasItems (lineAfter line (gap ++ text)) behind items) :
    HasItems line (gap ++ (text ++ behind)) (item :: items)

theorem ItemAt.moved {line : Nat} {text behind : List Char} {item : Except ScanError Token}
    (isItem : ItemAt line text behind item) (distance : Nat) :
    ItemAt (line + distance) text behind (movedItem distance item) := by
  cases isItem with
  | token longest matched => exact .token longest matched
  | @openString contents inside =>
    have isMoved : ItemAt (line + distance) ('"' :: contents) [] _ := .openString inside
    rwa [lineAfter_add] at isMoved
  | stray noQuote noToken => exact .stray noQuote noToken

namespace HasItems

variable {line : Nat} {gap text behind other : List Char} {item : Except ScanError Token}
  {items others : List (Except ScanError Token)}

theorem gap_append (isGap : Gap text gap) (has : HasItems (lineAfter line gap) text items) :
    HasItems line (gap ++ text) items := by
  cases has with
  | gap longest =>
    have whole : Gap [] (gap ++ text) := by
      apply Gap.append _ longest.holds
      rwa [List.append_nil]
    exact .gap (longest_gap_iff.mpr ⟨whole, rfl⟩)
  | @piece _ second text behind _ _ longest isItem more =>
    obtain ⟨isSecond, noGap⟩ := longest_gap_iff.mp longest
    rw [← lineAfter_append] at isItem
    rw [← lineAfter_append, ← List.append_assoc] at more
    rw [← List.append_assoc]
    exact .piece (longest_gap_iff.mpr ⟨isGap.append isSecond, noGap⟩) isItem more

/-- A piece of one text is a piece of another that goes on in the same way up to some blank. -/
theorem piece_append (longest : Longest Gap gap (text ++ behind))
    (isItem : ItemAt (lineAfter line gap) text behind item) (closed : IsClosed item)
    (agrees : AgreesToBlank behind other)
    (more : HasItems (lineAfter line (gap ++ text)) other items) :
    HasItems line (gap ++ (text ++ other)) (item :: items) := by
  obtain ⟨isGap, noGap⟩ := longest_gap_iff.mp longest
  have isGap : Gap (text ++ other) gap :=
    isGap.in_front_of fun ends => absurd ends (isItem.not_lineEnds longest)
  have noGap := gapLength_append_of_agrees isItem.text_ne_nil agrees noGap
  exact .piece (longest_gap_iff.mpr ⟨isGap, noGap⟩)
    (isItem.of_agrees_of_isClosed closed agrees) more

/-- The items of a text and of what begins with the line feed behind it. -/
theorem append {more : List Char} (first : HasItems line text items)
    (closed : ∀ item ∈ items, IsClosed item)
    (second : HasItems (lineAfter line text) ('\n' :: more) others) :
    HasItems line (text ++ '\n' :: more) (items ++ others) := by
  induction first with
  | gap longest => exact gap_append (longest.holds.in_front_of fun _ => .inr rfl) second
  | @piece line gap text behind item items longest isItem _ ih =>
    have agrees : AgreesToBlank behind (behind ++ '\n' :: more) := by
      have stops : AgreesToBlank [] ('\n' :: more) := .blank (by decide) [] more
      have agrees := stops.append_left behind
      rwa [List.append_nil] at agrees
    rw [← List.append_assoc, lineAfter_append] at second
    rw [List.append_assoc, List.append_assoc]
    have first := closed item List.mem_cons_self
    have later := fun item member => closed item (List.mem_cons_of_mem _ member)
    exact piece_append longest isItem first agrees (ih later second)

theorem moved (has : HasItems line text items) (distance : Nat) :
    HasItems (line + distance) text (items.map (movedItem distance)) := by
  induction has with
  | gap longest => exact .gap longest
  | piece longest isItem more ih =>
    have isMoved := isItem.moved distance
    rw [← lineAfter_add] at isMoved ih
    exact .piece longest isMoved ih

/-- The items of a text are those of the pieces that it comes apart into. -/
theorem exists_splits (has : HasItems line text items) :
    ∃ pieces last, Splits line text pieces last ∧ pieces.map Piece.item = items := by
  induction has with
  | gap longest => exact ⟨[], _, .last longest, rfl⟩
  | @piece line gap text behind item items longest isItem more ih =>
    obtain ⟨pieces, last, split, rfl⟩ := ih
    exact ⟨⟨gap, text, item⟩ :: pieces, last, .piece rfl longest isItem split, rfl⟩

end HasItems

theorem Splits.hasItems {line : Nat} {text last : List Char} {pieces : List Piece}
    (split : Splits line text pieces last) : HasItems line text (pieces.map Piece.item) := by
  induction split with
  | last longest => exact .gap longest
  | piece parts longest isItem more ih =>
    subst parts
    exact .piece longest isItem ih

namespace TokenStream

def ending (source : String) : Token :=
  Token.endOfInput (lineAfter firstLine source.toList)

theorem items_of_hasItems {source : String} {items : List (Except ScanError Token)}
    (has : HasItems firstLine source.toList items) :
    (ofSource source).items = items ++ [.ok (ending source)] := by
  obtain ⟨pieces, last, split, rfl⟩ := has.exists_splits
  exact items_of_splits split rfl rfl rfl

theorem exists_hasItems (source : String) :
    ∃ items, HasItems firstLine source.toList items := by
  obtain ⟨pieces, last, split⟩ := Lox.exists_splits firstLine source.toList
  exact ⟨_, split.hasItems⟩

end TokenStream

end Lox
