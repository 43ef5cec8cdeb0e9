import Lox.Proofs.Token.Sequence

set_option autoImplicit false

namespace Lox

/-- Blanks, and comments that a line feed ends. -/
inductive IsLayout : List Char → Prop
  | nil : IsLayout []
  | blank {c : Char} {rest : List Char} (listed : c ∈ blanks) (more : IsLayout rest) :
    IsLayout (c :: rest)
  | comment {body rest : List Char} (inside : '\n' ∉ body) (more : IsLayout rest) :
    IsLayout ('/' :: '/' :: (body ++ '\n' :: rest))

/-- A blank is next, if anything is. -/
def BlankNext (text : List Char) : Prop :=
  ∀ c ∈ text.head?, c ∈ blanks

/-- Layout behind each of some tokens. It starts with a blank, and only behind the last token it can
be empty. -/
structure Spaced (gaps : List (List Char)) : Prop where
  isLayout : ∀ gap ∈ gaps, IsLayout gap
  blankNext : ∀ gap ∈ gaps, BlankNext gap
  separates : ∀ gap ∈ gaps.dropLast, gap ≠ []

/-- Layout around a number of tokens, some in front of the first one and some behind each. -/
structure Layout (count : Nat) where
  front : List Char
  behind : List (List Char)
  isLayout_front : IsLayout front
  spaced_behind : Spaced behind
  length_behind : behind.length = count

theorem spaced_replicate (count : Nat) : Spaced (List.replicate count [' ']) := by
  have space : ∀ gap ∈ List.replicate count [' '], gap = [' '] :=
    fun gap member => List.eq_of_mem_replicate member
  refine ⟨fun gap member => ?_, fun gap member => ?_, fun gap member => ?_⟩
  · rw [space gap member]
    exact .blank (by decide) .nil
  · rw [space gap member]
    exact fun c head => Option.some.inj head ▸ (by decide : ' ' ∈ blanks)
  · rw [space gap (List.dropLast_subset _ member)]
    exact List.cons_ne_nil _ _

/-- A space behind each token. -/
instance (count : Nat) : Inhabited (Layout count) where
  default := ⟨[], List.replicate count [' '], .nil, spaced_replicate count, List.length_replicate⟩

/-- The lexemes of some tokens, with a gap behind each. -/
def spread : List Token → List (List Char) → List Char
  | t :: tokens, gap :: gaps => t.lexeme.toList ++ (gap ++ spread tokens gaps)
  | _, _ => []

def Layout.around {count : Nat} (layout : Layout count) (tokens : List Token) : String :=
  String.ofList (layout.front ++ spread tokens layout.behind)

namespace Token

/-- The token on no line. What is left are its type, its lexeme and its literal. -/
def unlined (t : Token) : Token :=
  { t with line := noLine }

/-- The token is what its lexeme is worth by itself. -/
structure Genuine (t : Token) : Prop where
  matched : Matches t.lexeme.toList t.type
  literal : t.literal = literalOf t.type t.lexeme.toList

end Token

theorem IsLayout.gap {text : List Char} (isLayout : IsLayout text) (behind : List Char) :
    Gap behind text := by
  induction isLayout with
  | nil => exact .nil
  | blank listed more ih => exact .blank listed ih
  | comment inside more ih => exact .comment inside (.inr rfl) (.blank (by decide) ih)

section Tokens

variable {line : Nat} {text behind : List Char} {type : TokenType} {t : Token}

/-- No token starts a gap: two slashes are no part of one token. -/
theorem Matches.gapLength_eq_zero (matched : Matches text type) : gapLength text = 0 := by
  cases text with
  | nil => rfl
  | cons c rest =>
    refine gapLength_cons_eq_zero_iff.mpr ⟨fun blank => ?_, fun ⟨slash, second⟩ => ?_⟩
    · rcases matched.string_or_clean with ⟨contents, _, quoted⟩ | clean
      · rw [(List.cons.inj quoted).1] at blank
        exact absurd blank (by decide)
      · exact clean c List.mem_cons_self (List.mem_cons_of_mem _ blank)
    · subst slash
      obtain ⟨tail, rfl⟩ := List.head?_eq_some_iff.mp second
      have isSlash : ('/', TokenType.slash) ∈ singles := by decide
      obtain ⟨found, first, covers⟩ := matched.first? []
      rw [List.cons_append, Lexeme.first?_symbol (symbol?_single isSlash)] at first
      obtain rfl := Option.some.inj first
      have le := covers.length_le
      simp only [List.length_cons, Lexeme.length] at le
      omega

theorem agreesToBlank_of_blankNext (next : BlankNext behind) (nonempty : behind ≠ []) :
    AgreesToBlank [] behind := by
  cases behind with
  | nil => exact absurd rfl nonempty
  | cons c rest => exact .blank (next c rfl) [] rest

theorem Matches.longest_last (matched : Matches text type) : Longest TokenText text [] := by
  refine ⟨⟨type, matched⟩, fun other rest same _ => ?_⟩
  have length := congrArg List.length same
  simp only [List.length_append, List.length_nil] at length
  omega

/-- In front of a blank or the end, every token is the longest one. -/
theorem Matches.longest (matched : Matches text type) (next : BlankNext behind) :
    Longest TokenText text behind := by
  by_cases nothing : behind = []
  · rw [nothing]
    exact matched.longest_last
  · exact matched.longest_last.of_agrees (agreesToBlank_of_blankNext next nothing)

theorem Matches.gapLength_append (matched : Matches text type) (next : BlankNext behind) :
    gapLength (text ++ behind) = 0 := by
  have alone : gapLength (text ++ []) = 0 := by
    rw [List.append_nil]
    exact matched.gapLength_eq_zero
  by_cases nothing : behind = []
  · rwa [nothing]
  · have isItem : ItemAt firstLine text [] _ := .token matched.longest_last matched
    exact gapLength_append_of_agrees isItem.text_ne_nil
      (agreesToBlank_of_blankNext next nothing) alone

theorem ConsistsOf.matched_append {tokens : List Token} (matched : Matches text type)
    (next : BlankNext behind) (more : ConsistsOf (lineAfter line text) behind tokens) :
    ConsistsOf line (text ++ behind)
      (⟨type, String.ofList text, literalOf type text, line⟩ :: tokens) :=
  .token_append (matched.gapLength_append next) (.token (matched.longest next) matched) more

theorem Token.Genuine.itemAt (genuine : t.Genuine) (next : BlankNext behind) (line : Nat) :
    ItemAt line t.lexeme.toList behind (.ok { t with line := line }) := by
  have isItem : ItemAt line t.lexeme.toList behind _ :=
    .token (genuine.matched.longest next) genuine.matched
  rwa [← genuine.literal, String.ofList_toList] at isItem

theorem ItemAt.genuine (isItem : ItemAt line text behind (.ok t)) : t.Genuine := by
  cases isItem with
  | token longest matched =>
    refine ⟨?_, ?_⟩
    · rwa [String.toList_ofList]
    · rw [String.toList_ofList]

theorem Token.Genuine.type_ne_endOfInput (genuine : t.Genuine) : t.type ≠ .endOfInput :=
  genuine.matched.type_ne_endOfInput

end Tokens

theorem HasItems.genuine {line : Nat} {text : List Char} {items : List (Except ScanError Token)}
    (has : HasItems line text items) : ∀ t, .ok t ∈ items → t.Genuine := by
  induction has with
  | gap longest => exact fun t member => absurd member List.not_mem_nil
  | piece longest isItem more ih =>
    intro t member
    rcases List.mem_cons.mp member with rfl | later
    · exact isItem.genuine
    · exact ih t later

section Spread

variable {tokens : List Token} {gap : List Char} {gaps : List (List Char)}

theorem Spaced.tail (spaced : Spaced (gap :: gaps)) : Spaced gaps := by
  refine ⟨fun gap member => spaced.isLayout gap (.tail _ member),
    fun gap member => spaced.blankNext gap (.tail _ member), ?_⟩
  cases gaps with
  | nil => exact fun gap member => absurd member List.not_mem_nil
  | cons second gaps => exact fun gap member => spaced.separates gap (.tail _ member)

theorem Spaced.blankNext_append (spaced : Spaced (gap :: gaps)) (tokens : List Token) :
    BlankNext (gap ++ spread tokens gaps) := by
  cases gap with
  | nil =>
    cases gaps with
    | nil =>
      intro c head
      cases tokens <;> cases head
    | cons second gaps => exact absurd rfl (spaced.separates [] List.mem_cons_self)
  | cons c gap => exact spaced.blankNext (c :: gap) List.mem_cons_self

/-- Tokens in layout are scanned as these tokens: each stands in front of a blank or the end, and
the gap behind it is over where the next one starts. -/
theorem exists_consistsOf_spread (genuine : ∀ t ∈ tokens, t.Genuine) (spaced : Spaced gaps)
    (length : gaps.length = tokens.length) (line : Nat) :
    ∃ others, ConsistsOf line (spread tokens gaps) others ∧
      others.map Token.unlined = tokens.map Token.unlined := by
  induction tokens generalizing gaps line with
  | nil => exact ⟨[], .nil line, rfl⟩
  | cons t tokens ih =>
    cases gaps with
    | nil => cases length
    | cons gap gaps =>
      have first := genuine t List.mem_cons_self
      have next := spaced.blankNext_append tokens
      have isGap := (spaced.isLayout gap List.mem_cons_self).gap (spread tokens gaps)
      obtain ⟨others, consists, same⟩ := ih (fun t member => genuine t (.tail _ member)) spaced.tail
        (Nat.succ.inj length) (lineAfter (lineAfter line t.lexeme.toList) gap)
      refine ⟨{ t with line := line } :: others, ?_, ?_⟩
      · exact .token_append (first.matched.gapLength_append next) (first.itemAt next line)
          (.gap_append isGap consists)
      · rw [List.map_cons, List.map_cons, same]
        rfl

end Spread

namespace TokenStream

/-- The tokens of a source in front of the end of input. Errors are left out. -/
def words (source : String) : List Token :=
  (ofSource source).tokens.filter (·.type ≠ .endOfInput)

theorem tokens_eq_words_append (source : String) :
    (ofSource source).tokens = words source ++ [ending source] ∧
      ∀ t ∈ words source, t.Genuine := by
  obtain ⟨items, has⟩ := exists_hasItems source
  have genuine : ∀ t ∈ items.filterMap Except.toOption, t.Genuine := by
    intro t member
    obtain ⟨item, inItems, isToken⟩ := List.mem_filterMap.mp member
    cases item with
    | ok u => exact Option.some.inj isToken ▸ has.genuine u inItems
    | error e => cases isToken
  have whole : (ofSource source).tokens =
      items.filterMap Except.toOption ++ [ending source] := by
    rw [tokens, items_of_hasItems has, List.filterMap_append]
    rfl
  have kept : words source = items.filterMap Except.toOption := by
    have proper : ∀ t ∈ items.filterMap Except.toOption, decide (t.type ≠ .endOfInput) = true :=
      fun t member => decide_eq_true (genuine t member).type_ne_endOfInput
    rw [words, whole, List.filter_append, List.filter_eq_self.mpr proper]
    exact List.append_nil _
  rw [kept]
  exact ⟨whole, genuine⟩

/-- The tokens of a source, laid out anew, are scanned as the same tokens up to their lines. -/
theorem items_around (source : String) (layout : Layout (words source).length) :
    ∃ tokens, (ofSource (layout.around (words source))).items =
        (tokens ++ [ending (layout.around (words source))]).map .ok ∧
      tokens.map Token.unlined = (words source).map Token.unlined := by
  have ⟨_, genuine⟩ := tokens_eq_words_append source
  obtain ⟨tokens, consists, same⟩ := exists_consistsOf_spread genuine layout.spaced_behind
    layout.length_behind (lineAfter firstLine layout.front)
  have isGap := layout.isLayout_front.gap (spread (words source) layout.behind)
  have whole := ConsistsOf.gap_append isGap consists
  rw [← String.toList_ofList (l := layout.front ++ spread (words source) layout.behind)] at whole
  exact ⟨tokens, items_of_consistsOf whole, same⟩

end TokenStream

end Lox
