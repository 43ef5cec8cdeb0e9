import Lox.CommandLine.Prompt

set_option autoImplicit false

namespace Lox.CommandLine

abbrev lineFeed : UInt8 := 10

/-- A line that had a line feed, without a carriage return at its end. -/
def withoutReturn (line : Bytes) : Bytes :=
  if line.getLast? = some 13 then line.dropLast else line

/-- The lines made of the parts of an input between its line feeds. Behind the last line feed there
is a line only if there is anything. -/
def linesOfParts : List Bytes → List Bytes
  | [] => []
  | [last] => if last = [] then [] else [last]
  | part :: parts => withoutReturn part :: linesOfParts parts

/-- The lines of an input. -/
def inputLines (input : Bytes) : List Bytes :=
  linesOfParts (input.splitOn lineFeed)

def endedParts : List Bytes → List Bytes
  | [] => []
  | [last] => if last = [] then [] else [last]
  | part :: parts => (part ++ [lineFeed]) :: endedParts parts

theorem rawLines_eq (input : Bytes) : rawLines input = endedParts (input.splitOn lineFeed) := by
  induction input with
  | nil => rfl
  | cons byte rest ih =>
    obtain ⟨part, parts, split⟩ := List.exists_cons_of_ne_nil (List.splitOn_ne_nil lineFeed rest)
    rw [rawLines, List.splitOn_cons_eq_if_modifyHead, ih, split]
    by_cases feed : byte = lineFeed
    · simp [feed, endedParts]
    · cases parts with
      | nil =>
        by_cases empty : part = []
        · simp [feed, endedParts, empty]
        · simp [feed, endedParts, empty]
      | cons next parts => simp [feed, endedParts]

theorem not_mem_of_mem_splitOn (input : Bytes) :
    ∀ part ∈ input.splitOn lineFeed, lineFeed ∉ part := by
  induction input with
  | nil => simp
  | cons byte rest ih =>
    obtain ⟨part, parts, split⟩ := List.exists_cons_of_ne_nil (List.splitOn_ne_nil lineFeed rest)
    rw [List.splitOn_cons_eq_if_modifyHead]
    rw [split] at ih ⊢
    intro found member
    by_cases feed : byte = lineFeed
    · rw [if_pos (by simp [feed])] at member
      rcases List.mem_cons.mp member with rfl | other
      · exact List.not_mem_nil
      · exact ih found other
    · rw [if_neg (by simp [feed]), List.modifyHead_cons] at member
      rcases List.mem_cons.mp member with rfl | other
      · have inside := ih part List.mem_cons_self
        simp [inside, Ne.symm feed]
      · exact ih found (List.mem_cons_of_mem _ other)

theorem withoutEnding_append (part : Bytes) :
    withoutEnding (part ++ [lineFeed]) = withoutReturn part := by
  rcases List.eq_nil_or_concat part with rfl | ⟨front, byte, rfl⟩
  · rfl
  · by_cases isReturn : byte = 13
    · simp [withoutEnding, withoutReturn, isReturn]
    · simp [withoutEnding, withoutReturn, isReturn]

theorem withoutEnding_of_not_mem {line : Bytes} (inside : lineFeed ∉ line) :
    withoutEnding line = line := by
  rcases List.eq_nil_or_concat line with rfl | ⟨front, byte, rfl⟩
  · rfl
  · have other : byte ≠ 10 := by
      rintro rfl
      exact inside (by simp)
    simp [withoutEnding, other]

theorem map_withoutEnding {parts : List Bytes} (inside : ∀ part ∈ parts, lineFeed ∉ part) :
    (endedParts parts).map withoutEnding = linesOfParts parts := by
  induction parts with
  | nil => rfl
  | cons part parts ih =>
    have first := inside part List.mem_cons_self
    cases parts with
    | nil =>
      rw [endedParts, linesOfParts]
      split
      · rfl
      · rw [List.map_singleton, withoutEnding_of_not_mem first]
    | cons next parts =>
      have others := ih fun other member => inside other (List.mem_cons_of_mem _ member)
      rw [endedParts, linesOfParts, List.map_cons, withoutEnding_append, others]
      · simp
      · simp

theorem map_withoutEnding_rawLines (input : Bytes) :
    (rawLines input).map withoutEnding = inputLines input := by
  rw [rawLines_eq, map_withoutEnding (not_mem_of_mem_splitOn input), inputLines]

theorem mem_of_mem_withoutReturn {line : Bytes} {byte : UInt8}
    (member : byte ∈ withoutReturn line) : byte ∈ line := by
  unfold withoutReturn at member
  split at member
  · exact List.dropLast_subset line member
  · exact member

theorem not_mem_of_mem_linesOfParts {parts : List Bytes}
    (inside : ∀ part ∈ parts, lineFeed ∉ part) : ∀ line ∈ linesOfParts parts, lineFeed ∉ line := by
  induction parts with
  | nil => simp [linesOfParts]
  | cons part parts ih =>
    have first := inside part List.mem_cons_self
    intro line member
    cases parts with
    | nil =>
      rw [linesOfParts] at member
      split at member
      · simp at member
      · rwa [List.mem_singleton.mp member]
    | cons next parts =>
      rw [linesOfParts] at member
      · rcases List.mem_cons.mp member with rfl | later
        · exact fun feed => first (mem_of_mem_withoutReturn feed)
        · exact ih (fun other inParts => inside other (List.mem_cons_of_mem _ inParts)) line later
      · simp

theorem lineFeed_not_mem {input line : Bytes} (member : line ∈ inputLines input) :
    lineFeed ∉ line :=
  not_mem_of_mem_linesOfParts (not_mem_of_mem_splitOn input) line member

theorem linesOfParts_append (parts : List Bytes) {more : List Bytes} (nonempty : more ≠ []) :
    linesOfParts (parts ++ more) = parts.map withoutReturn ++ linesOfParts more := by
  induction parts with
  | nil => rfl
  | cons part parts ih =>
    rw [List.cons_append, linesOfParts, ih, List.map_cons, List.cons_append]
    exact fun nothing => nonempty (List.append_eq_nil_iff.mp nothing).2

/-- What stands behind a line feed changes no line in front of it. -/
theorem inputLines_append (front more : Bytes) :
    inputLines (front ++ lineFeed :: more) =
      inputLines (front ++ [lineFeed]) ++ inputLines more := by
  have ended : ∀ behind : Bytes, inputLines (front ++ lineFeed :: behind) =
      (front.splitOn lineFeed).map withoutReturn ++ inputLines behind := by
    intro behind
    rw [inputLines, List.splitOn_append_cons_self,
      linesOfParts_append _ (List.splitOn_ne_nil lineFeed behind), inputLines]
  have nothing : inputLines [] = [] := rfl
  rw [ended more, ended [], nothing, List.append_nil]

end Lox.CommandLine
