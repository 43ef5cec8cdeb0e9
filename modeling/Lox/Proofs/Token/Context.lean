import Lox.Proofs.Token.Pieces

set_option autoImplicit false

namespace Lox

/-- The second text is the first one up to some blank of its own, or all of it. -/
inductive AgreesToBlank : List Char → List Char → Prop
  | same (text : List Char) : AgreesToBlank text text
  | blank {c : Char} (listed : c ∈ blanks) (text other : List Char) :
    AgreesToBlank text (c :: other)
  | cons (c : Char) {text other : List Char} (agrees : AgreesToBlank text other) :
    AgreesToBlank (c :: text) (c :: other)

namespace AgreesToBlank

variable {text other : List Char}

theorem append_left (agrees : AgreesToBlank text other) (front : List Char) :
    AgreesToBlank (front ++ text) (front ++ other) := by
  induction front with
  | nil => exact agrees
  | cons c front ih => exact .cons c ih

theorem exists_append {part rest : List Char} (agrees : AgreesToBlank text (part ++ rest))
    (clean : ∀ c ∈ part, c ∉ blanks) : ∃ behind, part ++ behind = text := by
  induction part generalizing text with
  | nil => exact ⟨text, rfl⟩
  | cons c part ih =>
    have first := clean c List.mem_cons_self
    have later : ∀ d ∈ part, d ∉ blanks := fun d member => clean d (List.mem_cons_of_mem c member)
    rw [List.cons_append] at agrees
    cases agrees with
    | same => exact ⟨rest, rfl⟩
    | blank listed => exact absurd listed first
    | cons _ agrees =>
      obtain ⟨behind, split⟩ := ih agrees later
      exact ⟨behind, congrArg (c :: ·) split⟩

theorem head?_of_not_blank {c : Char} (agrees : AgreesToBlank text other) (clean : c ∉ blanks)
    (head : other.head? = some c) : text.head? = some c := by
  cases agrees with
  | same => exact head
  | blank listed => exact absurd (Option.some.inj head ▸ listed) clean
  | cons _ _ => exact head

end AgreesToBlank

section Gaps

variable {gap behind other : List Char}

/-- A gap is a gap in front of every text that ends its line where it has to be ended. -/
theorem Gap.in_front_of (isGap : Gap behind gap) (ends : LineEnds behind → LineEnds other) :
    Gap other gap := by
  induction isGap with
  | nil => exact .nil
  | blank listed more ih => exact .blank listed ih
  | @comment body gap inside stops more ih =>
    refine .comment inside ?_ ih
    cases gap with
    | nil => exact ends stops
    | cons c gap => exact stops

theorem Gap.append {first second : List Char} (isFirst : Gap (second ++ behind) first)
    (isSecond : Gap behind second) : Gap behind (first ++ second) := by
  induction isFirst with
  | nil => exact isSecond
  | blank listed more ih => exact .blank listed ih
  | @comment body gap inside stops more ih =>
    rw [List.cons_append, List.cons_append, List.append_assoc]
    refine .comment inside ?_ ih
    rwa [List.append_assoc]

theorem gap_of_blanks (behind : List Char) {text : List Char} (blank : ∀ c ∈ text, c ∈ blanks) :
    Gap behind text := by
  induction text with
  | nil => exact .nil
  | cons c text ih =>
    exact .blank (blank c List.mem_cons_self) (ih fun d member => blank d (.tail c member))

theorem longest_gap_iff : Longest Gap gap behind ↔ Gap behind gap ∧ gapLength behind = 0 := by
  constructor
  · intro longest
    refine ⟨longest.holds, ?_⟩
    have parts : behind.take (gapLength behind) ++ behind.drop (gapLength behind) = behind :=
      List.take_append_drop _ _
    have isGap : Gap (behind.drop (gapLength behind)) (gap ++ behind.take (gapLength behind)) := by
      apply Gap.append _ (gap_take_gapLength behind)
      rw [parts]
      exact longest.holds
    have le := longest.longest _ _ (by rw [List.append_assoc, parts]) isGap
    rw [List.length_append, List.length_take] at le
    cases behind with
    | nil => rfl
    | cons c rest =>
      rw [List.length_cons] at le
      omega
  · rintro ⟨isGap, noGap⟩
    refine ⟨isGap, fun longer rest same isLonger => ?_⟩
    have length := isGap.gapLength_append
    rw [← same, isLonger.gapLength_append, noGap] at length
    omega

theorem gapLength_cons_eq_zero_iff {c : Char} {rest : List Char} :
    gapLength (c :: rest) = 0 ↔ c ∉ blanks ∧ ¬ (c = '/' ∧ rest.head? = some '/') := by
  constructor
  · intro noGap
    refine ⟨fun listed => ?_, fun ⟨slash, second⟩ => ?_⟩
    · rw [gapLength_blank listed] at noGap
      cases noGap
    · obtain ⟨tail, rfl⟩ := List.head?_eq_some_iff.mp second
      rw [slash, gapLength_comment] at noGap
      cases noGap
  · rintro ⟨notBlank, noComment⟩
    exact gapLength_other notBlank noComment

/-- No gap starts at a text, and none would if the text went on differently from some blank on. -/
theorem gapLength_append_of_agrees {text : List Char} (nonempty : text ≠ [])
    (agrees : AgreesToBlank behind other) (noGap : gapLength (text ++ behind) = 0) :
    gapLength (text ++ other) = 0 := by
  cases text with
  | nil => exact absurd rfl nonempty
  | cons c text =>
    rw [List.cons_append, gapLength_cons_eq_zero_iff] at noGap ⊢
    refine ⟨noGap.1, fun ⟨slash, second⟩ => noGap.2 ⟨slash, ?_⟩⟩
    exact (agrees.append_left text).head?_of_not_blank (by decide) second

/-- Where a gap is over, the line goes on. -/
theorem not_lineEnds_of_gapLength {text : List Char} (nonempty : text ≠ [])
    (noGap : gapLength text = 0) : ¬ LineEnds text := by
  cases text with
  | nil => exact absurd rfl nonempty
  | cons c rest =>
    have notBlank := (gapLength_cons_eq_zero_iff.mp noGap).1
    rintro (none | lineFeed)
    · cases none
    · obtain rfl := Option.some.inj lineFeed
      exact notBlank (by decide)

end Gaps

section Tokens

variable {text behind other : List Char} {type : TokenType}

theorem not_quote_or_blank_of_symbol {c : Char} (listed : c ∈ symbolStarts) :
    c ∉ '"' :: blanks := by
  have table : symbolStarts.all (fun c => !('"' :: blanks).contains c) = true := by decide
  have outside := List.all_eq_true.mp table c listed
  rwa [Bool.not_eq_true', List.contains_eq_mem, decide_eq_false_iff_not] at outside

theorem not_quote_or_blank {c : Char} (inWord : IsLetter c ∨ IsDigit c) : c ∉ '"' :: blanks := by
  have table : ('"' :: blanks).all (fun c => !isWordChar c) = true := by decide
  intro listed
  have outside := List.all_eq_true.mp table c listed
  rw [isWordChar_iff.mpr inWord] at outside
  cases outside

/-- Only strings hold quotes and blanks. -/
theorem Matches.string_or_clean (matched : Matches text type) :
    (∃ contents, '"' ∉ contents ∧ text = '"' :: (contents ++ ['"'])) ∨
      ∀ c ∈ text, c ∉ '"' :: blanks := by
  cases matched with
  | single listed =>
    refine .inr fun d member => ?_
    rw [List.mem_singleton.mp member]
    exact not_quote_or_blank_of_symbol (List.mem_append_left _ (List.mem_map_of_mem listed))
  | alone listed =>
    refine .inr fun d member => ?_
    rw [List.mem_singleton.mp member]
    exact not_quote_or_blank_of_symbol (List.mem_append_right _ (List.mem_map_of_mem listed))
  | joined listed =>
    refine .inr fun d member => ?_
    rcases List.mem_cons.mp member with rfl | equals
    · exact not_quote_or_blank_of_symbol (List.mem_append_right _ (List.mem_map_of_mem listed))
    · rw [List.mem_singleton.mp equals]
      decide
  | whole isWhole => exact .inr fun d member => not_quote_or_blank (.inr (isWhole.digits d member))
  | fraction isWhole isFraction =>
    refine .inr fun d member => ?_
    rcases List.mem_append.mp member with inWhole | point
    · exact not_quote_or_blank (.inr (isWhole.digits d inWhole))
    · rcases List.mem_cons.mp point with rfl | inFraction
      · decide
      · exact not_quote_or_blank (.inr (isFraction.digits d inFraction))
  | word start inside typed =>
    refine .inr fun d member => ?_
    rcases List.mem_cons.mp member with rfl | later
    · exact not_quote_or_blank (.inl start)
    · exact not_quote_or_blank (inside d later)
  | string inside => exact .inl ⟨_, inside, rfl⟩

theorem longest_string {contents : List Char} (inside : '"' ∉ contents) (behind : List Char) :
    Longest TokenText ('"' :: (contents ++ ['"'])) behind := by
  apply ItemAt.longest_of_first? _ (Lexeme.denotes_string inside)
  rw [List.cons_append, List.append_assoc, List.singleton_append]
  exact Lexeme.first?_string inside

/-- The longest token is the longest one in front of every text that goes on in the same way up to
some blank: a longer token would have to hold that blank, and a string ends where it does. -/
theorem Longest.of_agrees (longest : Longest TokenText text behind)
    (agrees : AgreesToBlank behind other) : Longest TokenText text other := by
  obtain ⟨type, matched⟩ := longest.holds
  rcases matched.string_or_clean with ⟨contents, inside, rfl⟩ | clean
  · exact longest_string inside other
  · refine ⟨⟨type, matched⟩, fun longer rest same ⟨longerType, longerMatched⟩ => ?_⟩
    rcases List.append_eq_append_iff.mp same with ⟨more, split, _⟩ | ⟨more, rfl, split⟩
    · rw [split, List.length_append]
      exact Nat.le_add_right _ _
    · have moreClean : ∀ c ∈ more, c ∉ '"' :: blanks := by
        rcases longerMatched.string_or_clean with ⟨contents, _, quoted⟩ | longerClean
        · have isItem : ItemAt firstLine text behind _ := .token longest matched
          obtain ⟨c, word, rfl⟩ := List.exists_cons_of_ne_nil isItem.text_ne_nil
          obtain ⟨rfl, _⟩ := List.cons.inj quoted
          exact absurd List.mem_cons_self (clean _ List.mem_cons_self)
        · exact fun c member => longerClean c (List.mem_append_right text member)
      have noBlank : ∀ c ∈ more, c ∉ blanks :=
        fun c member blank => moreClean c member (List.mem_cons_of_mem _ blank)
      rw [split] at agrees
      obtain ⟨after, whole⟩ := agrees.exists_append noBlank
      apply longest.longest (text ++ more) after
      · rw [List.append_assoc, whole]
      · exact ⟨longerType, longerMatched⟩

theorem ItemAt.not_lineEnds {line : Nat} {gap : List Char} {item : Except ScanError Token}
    (isItem : ItemAt line text behind item) (longest : Longest Gap gap (text ++ behind)) :
    ¬ LineEnds (text ++ behind) := by
  apply not_lineEnds_of_gapLength _ (longest_gap_iff.mp longest).2
  exact fun empty => isItem.text_ne_nil (List.append_eq_nil_iff.mp empty).1

/-- An item other than a string that is still open where its text ends. -/
def IsClosed (item : Except ScanError Token) : Prop :=
  ∀ error, item = .error error → error.fault ≠ .unterminatedString

theorem isClosed_ok (t : Token) : IsClosed (.ok t) :=
  nofun

/-- A character stays a stray one, since a token that starts with it holds no blank. -/
theorem ItemAt.of_agrees_of_isClosed {line : Nat} {item : Except ScanError Token}
    (isItem : ItemAt line text behind item) (closed : IsClosed item)
    (agrees : AgreesToBlank behind other) : ItemAt line text other item := by
  cases isItem with
  | token longest matched => exact .token (longest.of_agrees agrees) matched
  | openString inside => exact absurd rfl (closed _ rfl)
  | @stray c behind noQuote noToken =>
    refine .stray noQuote ?_
    rintro word rest same ⟨type, matched⟩
    rcases matched.string_or_clean with ⟨contents, _, rfl⟩ | clean
    · exact noQuote (List.cons.inj same).1.symm
    · have agrees := agrees.append_left [c]
      rw [List.singleton_append, List.singleton_append, ← same] at agrees
      have noBlank : ∀ d ∈ word, d ∉ blanks :=
        fun d member blank => clean d member (List.mem_cons_of_mem _ blank)
      obtain ⟨after, whole⟩ := agrees.exists_append noBlank
      exact noToken word after whole ⟨type, matched⟩

theorem ItemAt.of_agrees {line : Nat} {t : Token} (isItem : ItemAt line text behind (.ok t))
    (agrees : AgreesToBlank behind other) : ItemAt line text other (.ok t) :=
  isItem.of_agrees_of_isClosed (isClosed_ok t) agrees

end Tokens

end Lox
