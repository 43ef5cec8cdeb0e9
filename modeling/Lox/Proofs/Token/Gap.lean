import Lox.Token.Lexeme

set_option autoImplicit false

namespace Lox

/-- The first part of a text has the property where the second part follows it, and no longer part
of the same text has. -/
structure Longest (p : List Char → List Char → Prop) (part behind : List Char) : Prop where
  holds : p behind part
  longest : ∀ other rest, other ++ rest = part ++ behind → p rest other → other.length ≤ part.length

theorem Longest.unique {p : List Char → List Char → Prop} {part behind other rest : List Char}
    (first : Longest p part behind) (second : Longest p other rest)
    (same : other ++ rest = part ++ behind) : other = part ∧ rest = behind := by
  have le := first.longest other rest same second.holds
  have ge := second.longest part behind same.symm first.holds
  exact List.append_inj same (Nat.le_antisymm le ge)

def blanks : List Char := [' ', '\t', '\r', '\n']

/-- Nothing or a line feed is next. -/
def LineEnds (text : List Char) : Prop :=
  text.head? = none ∨ text.head? = some '\n'

/-- A run of blanks and comments in front of `behind`. -/
inductive Gap (behind : List Char) : List Char → Prop
  | nil : Gap behind []
  | blank {c : Char} {gap : List Char} (listed : c ∈ blanks) (more : Gap behind gap) :
    Gap behind (c :: gap)
  | comment {body gap : List Char} (inside : '\n' ∉ body) (stops : LineEnds (gap ++ behind))
    (more : Gap behind gap) : Gap behind ('/' :: '/' :: (body ++ gap))

theorem isBlank_iff (c : Char) : isBlank c = true ↔ c ∈ blanks := by
  simp only [isBlank, blanks, Bool.or_eq_true, beq_iff_eq, List.mem_cons, List.not_mem_nil,
    or_false, or_assoc]

section Length

variable {c : Char} {rest text body : List Char}

theorem gapLength_blank (listed : c ∈ blanks) : gapLength (c :: rest) = gapLength rest + 1 := by
  rw [gapLength, if_pos ((isBlank_iff c).mpr listed)]

theorem gapLength_comment : gapLength ('/' :: '/' :: rest) = commentLength rest + 2 := by
  have slash : '/' ≠ '\n' := by decide
  rw [gapLength, if_neg (by decide), if_pos ⟨rfl, rfl⟩, commentLength, if_neg slash]

theorem gapLength_other (notBlank : c ∉ blanks) (noComment : ¬ (c = '/' ∧ rest.head? = some '/')) :
    gapLength (c :: rest) = 0 := by
  rw [gapLength, if_neg (mt (isBlank_iff c).mp notBlank), if_neg noComment]

/-- Where its line ends, a comment is as long as the gap that goes on there. -/
theorem commentLength_of_lineEnds (ends : LineEnds text) : commentLength text = gapLength text := by
  rcases ends with none | lineFeed
  · rw [List.head?_eq_none_iff.mp none]
    rfl
  · obtain ⟨rest, rfl⟩ := List.head?_eq_some_iff.mp lineFeed
    rw [gapLength_blank (by decide), commentLength, if_pos rfl]

theorem commentLength_append (inside : '\n' ∉ body) :
    commentLength (body ++ text) = body.length + commentLength text := by
  induction body with
  | nil => rw [List.nil_append, List.length_nil, Nat.zero_add]
  | cons c body ih =>
    have different : c ≠ '\n' := fun same => inside (same ▸ List.mem_cons_self)
    have later : '\n' ∉ body := fun member => inside (List.mem_cons_of_mem c member)
    rw [List.cons_append, commentLength, if_neg different, ih later, List.length_cons]
    omega

theorem lineEnds_dropWhile (text : List Char) : LineEnds (text.dropWhile (· ≠ '\n')) := by
  have stops := List.head?_dropWhile_not (· ≠ '\n') text
  unfold LineEnds
  split at stops
  next c next => exact .inr (next.trans (congrArg some (by simpa using stops)))
  next ends => exact .inl ends

theorem gapLength_slashes (text : List Char) :
    gapLength ('/' :: '/' :: text) =
      (text.takeWhile (· ≠ '\n')).length + 2 + gapLength (text.dropWhile (· ≠ '\n')) := by
  have parts : text.takeWhile (· ≠ '\n') ++ text.dropWhile (· ≠ '\n') = text :=
    List.takeWhile_append_dropWhile
  have inside : '\n' ∉ text.takeWhile (· ≠ '\n') := by
    intro member
    have different := List.all_eq_true.mp List.all_takeWhile '\n' member
    exact absurd rfl (of_decide_eq_true different)
  have length : commentLength text =
      (text.takeWhile (· ≠ '\n')).length + gapLength (text.dropWhile (· ≠ '\n')) := by
    rw [← commentLength_of_lineEnds (lineEnds_dropWhile text), ← commentLength_append inside, parts]
  rw [gapLength_comment, length]
  omega

end Length

/-- The gap at the start of a text is every gap there, and the gap that goes on behind that one. -/
theorem Gap.gapLength_append {gap behind : List Char} (isGap : Gap behind gap) :
    gapLength (gap ++ behind) = gap.length + gapLength behind := by
  induction isGap with
  | nil => rw [List.nil_append, List.length_nil, Nat.zero_add]
  | blank listed more ih =>
    rw [List.cons_append, gapLength_blank listed, ih, List.length_cons]
    omega
  | @comment body gap inside stops more ih =>
    have length : gapLength ('/' :: '/' :: (body ++ gap) ++ behind) =
        commentLength (body ++ (gap ++ behind)) + 2 := by
      rw [List.cons_append, List.cons_append, List.append_assoc, gapLength_comment]
    rw [length, commentLength_append inside, commentLength_of_lineEnds stops, ih]
    simp only [List.length_cons, List.length_append]
    omega

/-- Text up to the end of a line, and the gap that goes on there. -/
def CommentGap (behind text : List Char) : Prop :=
  ∃ body gap, text = body ++ gap ∧ '\n' ∉ body ∧ LineEnds (gap ++ behind) ∧ Gap behind gap

theorem CommentGap.cons {c : Char} {behind text : List Char} (different : c ≠ '\n')
    (comment : CommentGap behind text) : CommentGap behind (c :: text) := by
  obtain ⟨body, gap, rfl, inside, stops, isGap⟩ := comment
  refine ⟨c :: body, gap, rfl, ?_, stops, isGap⟩
  intro member
  rcases List.mem_cons.mp member with same | later
  · exact different same.symm
  · exact inside later

mutual

theorem gap_take_gapLength : (text : List Char) →
    Gap (text.drop (gapLength text)) (text.take (gapLength text))
  | [] => .nil
  | c :: rest => by
    by_cases listed : c ∈ blanks
    · rw [gapLength_blank listed]
      exact .blank listed (gap_take_gapLength rest)
    · by_cases slashes : c = '/' ∧ rest.head? = some '/'
      -- `commentLength` starts at the second slash, the body of the comment behind it.
      · match c, rest, slashes with
        | _, _ :: tail, ⟨rfl, rfl⟩ =>
          obtain ⟨body, gap, taken, inside, stops, isGap⟩ := comment_take_commentLength tail
          rw [gapLength_comment, List.take_succ_cons, List.take_succ_cons, taken]
          exact .comment inside stops isGap
      · rw [gapLength_other listed slashes]
        exact .nil

theorem comment_take_commentLength : (text : List Char) →
    CommentGap (text.drop (commentLength text)) (text.take (commentLength text))
  | [] => ⟨[], [], rfl, List.not_mem_nil, .inl rfl, .nil⟩
  | c :: rest => by
    by_cases lineFeed : c = '\n'
    · rw [commentLength, if_pos lineFeed, lineFeed]
      have isGap := Gap.blank (show '\n' ∈ blanks by decide) (gap_take_gapLength rest)
      exact ⟨[], _, rfl, List.not_mem_nil, .inr rfl, isGap⟩
    · rw [commentLength, if_neg lineFeed]
      exact (comment_take_commentLength rest).cons lineFeed

end

/-- What `gapLength` measures is the longest gap. -/
theorem longest_gap (text : List Char) :
    Longest Gap (text.take (gapLength text)) (text.drop (gapLength text)) := by
  refine ⟨gap_take_gapLength text, ?_⟩
  intro other rest same isGap
  rw [List.take_append_drop] at same
  have length : gapLength text = other.length + gapLength rest := by
    rw [← same, isGap.gapLength_append]
  have room : text.length = other.length + rest.length := by
    rw [← same, List.length_append]
  rw [List.length_take]
  omega

end Lox
