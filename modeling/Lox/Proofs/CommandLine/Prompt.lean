import Lox.CommandLine.Command
import Lox.Proofs.CommandLine.Lines
import Lox.Proofs.Program.Faults
import Lox.Proofs.Program.Session

set_option autoImplicit false

namespace Lox.CommandLine

/-- The text is `exit` with nothing but white space around it. -/
def AsksExit (text : List Char) : Prop :=
  ∃ before behind, text = before ++ ("exit".toList ++ behind) ∧
    ∀ c ∈ before ++ behind, c ∈ whiteSpace

theorem trimmed_eq_exit_iff (text : List Char) :
    trimmed text = "exit".toList ↔ AsksExit text := by
  have nonempty : "exit".toList ≠ [] := by decide
  have starts : isWhiteSpace ("exit".toList.head nonempty) = false := rfl
  have ends : isWhiteSpace ("exit".toList.getLast nonempty) = false := rfl
  simp only [trimmed_eq_iff nonempty, starts, ends, true_and, isWhiteSpace_iff, AsksExit]

instance (text : List Char) : Decidable (AsksExit text) :=
  decidable_of_iff _ (trimmed_eq_exit_iff text)

/-- The program on a line; `none` if the line ends the prompt. -/
def program? (line : Bytes) : Option String :=
  match line.toText? with
  | none => none
  | some text => if AsksExit text.toList then none else some text

/-- The programs on the lines in front of the first one that ends the prompt. -/
def programs : List Bytes → List String
  | [] => []
  | line :: lines =>
    match program? line with
    | none => []
    | some source => source :: programs lines

/-- The line that ends the prompt; `none` if the end of the input does. -/
def stop? (lines : List Bytes) : Option Bytes :=
  lines[(programs lines).length]?

/-- Whether the prompt ends because a line is not UTF-8. -/
def breaksOff (lines : List Bytes) : Bool :=
  (stop? lines).any fun line => line.toText?.isNone

/-- What a program writes when it runs alone. -/
def writtenAlone (source : String) : Bytes :=
  (run source Sink.unlimited).2.written

/-- What is reported about a program. -/
def complaint (source : String) : String :=
  match (run source Sink.unlimited).1 with
  | .ok _ => ""
  | .error error => error.text ++ "\n"

section Programs

variable {line : Bytes} {lines : List Bytes} {source : String}

theorem toText?_of_program? (isProgram : program? line = some source) :
    line.toText? = some source := by
  unfold program? at isProgram
  split at isProgram
  next => cases isProgram
  next text decoded =>
    split at isProgram
    next => cases isProgram
    next => rwa [← Option.some.inj isProgram]

theorem programs_cons (isProgram : program? line = some source) (lines : List Bytes) :
    programs (line :: lines) = source :: programs lines := by
  rw [programs, isProgram]

theorem programs_of_none (noProgram : program? line = none) (lines : List Bytes) :
    programs (line :: lines) = [] := by
  rw [programs, noProgram]

theorem exists_line_of_mem_programs (member : source ∈ programs lines) :
    ∃ line ∈ lines, program? line = some source := by
  induction lines with
  | nil => cases member
  | cons line lines ih =>
    cases isProgram : program? line with
    | none =>
      rw [programs_of_none isProgram] at member
      cases member
    | some own =>
      rw [programs_cons isProgram] at member
      rcases List.mem_cons.mp member with rfl | later
      · exact ⟨line, List.mem_cons_self, isProgram⟩
      · obtain ⟨found, inLines, same⟩ := ih later
        exact ⟨found, List.mem_cons_of_mem _ inLines, same⟩

/-- A program on a line is one line long. -/
theorem lineFeeds_of_mem_programs {input : Bytes} (member : source ∈ programs (inputLines input)) :
    lineFeeds source = 0 := by
  obtain ⟨line, inLines, isProgram⟩ := exists_line_of_mem_programs member
  have bytes : Bytes.ofText source = line := Bytes.ofText_of_toText? (toText?_of_program? isProgram)
  rw [Bytes.ofText_eq_flatMap] at bytes
  apply List.count_eq_zero.mpr
  intro feed
  have encoded : lineFeed ∈ String.utf8EncodeChar '\n' := by decide
  have inLine : lineFeed ∈ line := bytes ▸ List.mem_flatMap.mpr ⟨'\n', feed, encoded⟩
  exact lineFeed_not_mem inLines inLine

/-- Lines behind the one that ends the prompt hold no programs. -/
theorem programs_append {front : List Bytes} (stops : (programs front).length < front.length)
    (more : List Bytes) : programs (front ++ more) = programs front := by
  induction front with
  | nil => exact absurd stops (Nat.lt_irrefl 0)
  | cons line front ih =>
    rw [List.cons_append]
    cases isProgram : program? line with
    | none => rw [programs_of_none isProgram, programs_of_none isProgram]
    | some source =>
      rw [programs_cons isProgram, List.length_cons, List.length_cons] at stops
      rw [programs_cons isProgram, programs_cons isProgram, ih (Nat.lt_of_succ_lt_succ stops)]

theorem length_programs_le (front more : List Bytes) :
    (programs front).length ≤ (programs (front ++ more)).length := by
  induction front with
  | nil => exact Nat.zero_le _
  | cons line front ih =>
    rw [List.cons_append]
    cases isProgram : program? line with
    | none =>
      rw [programs_of_none isProgram]
      exact Nat.zero_le _
    | some source =>
      rw [programs_cons isProgram, programs_cons isProgram]
      exact Nat.succ_le_succ ih

end Programs

section Run

variable {sink : Sink}

/-- A program adds to a sink without a limit what it writes alone. -/
theorem run_of_unlimited (unlimited : sink.capacity = none) (source : String) :
    run source sink = ((run source Sink.unlimited).1,
      { sink with written := sink.written ++ writtenAlone source }) := by
  have fresh : Sink.unlimited.capacity = none := rfl
  rw [writtenAlone]
  cases valued : valueOf source with
  | error error =>
    rw [run_of_error valued, run_of_error valued]
    exact congrArg _ (by simp [Sink.unlimited])
  | ok value =>
    rw [run_of_value valued, run_of_value valued, Sink.write_of_unlimited unlimited,
      Sink.write_of_unlimited fresh]
    rfl

theorem ofLine_eq (line : Bytes) :
    Turn.ofLine line =
      match program? (withoutEnding line) with
      | some source => .program source
      | none => if (withoutEnding line).toText?.isNone then .undecodable else .exit := by
  rw [Turn.ofLine, program?]
  cases (withoutEnding line).toText? with
  | none => rfl
  | some text =>
    simp only [trimmed_eq_exit_iff]
    by_cases isExit : AsksExit text.toList
    · rw [if_pos isExit, if_pos isExit]
      rfl
    · rw [if_neg isExit, if_neg isExit]

/-- What a prompt over some lines leaves behind if something has been written before. -/
def reportOf (lines : List Bytes) (written : Bytes) : Report where
  status := if breaksOff lines then .ioError else .success
  output := written ++ ((programs lines).flatMap (fun source =>
    Bytes.ofText promptMark ++ writtenAlone source) ++ Bytes.ofText promptMark)
  errors := String.join ((programs lines).map complaint) ++
    if breaksOff lines then ReadError.notText.message ++ "\n" else ""

theorem reportOf_of_none {line : Bytes} (noProgram : program? line = none) (lines : List Bytes)
    (written : Bytes) :
    reportOf (line :: lines) written =
      if line.toText?.isNone then
        ⟨.ioError, written ++ Bytes.ofText promptMark, ReadError.notText.message ++ "\n"⟩
      else ⟨.success, written ++ Bytes.ofText promptMark, ""⟩ := by
  have stops : stop? (line :: lines) = some line := by
    rw [stop?, programs_of_none noProgram]
    rfl
  simp only [reportOf, breaksOff, stops, programs_of_none noProgram, Option.any_some]
  by_cases undecodable : line.toText?.isNone = true
  · simp [undecodable]
  · simp [undecodable]

theorem reportOf_cons {line : Bytes} {source : String} (isProgram : program? line = some source)
    (lines : List Bytes) (written : Bytes) :
    reportOf (line :: lines) written =
      let later := reportOf lines (written ++ Bytes.ofText promptMark ++ writtenAlone source)
      { later with errors := complaint source ++ later.errors } := by
  have stops : stop? (line :: lines) = stop? lines := by
    rw [stop?, programs_cons isProgram, List.length_cons, List.getElem?_cons_succ, stop?]
  simp only [reportOf, breaksOff, stops, programs_cons isProgram, List.map_cons, String.join_cons,
    List.flatMap_cons, List.append_assoc, String.append_assoc]
  rfl

theorem runLines_nil (unlimited : sink.capacity = none) :
    runLines [] sink = ⟨.success, sink.written ++ Bytes.ofText promptMark, ""⟩ := by
  unfold runLines
  rw [Sink.write_of_unlimited unlimited]

theorem runLines_of_none {line : Bytes} (unlimited : sink.capacity = none)
    (noProgram : program? (withoutEnding line) = none) (lines : List Bytes) :
    runLines (line :: lines) sink =
      if (withoutEnding line).toText?.isNone then
        ⟨.ioError, sink.written ++ Bytes.ofText promptMark, ReadError.notText.message ++ "\n"⟩
      else ⟨.success, sink.written ++ Bytes.ofText promptMark, ""⟩ := by
  unfold runLines
  rw [Sink.write_of_unlimited unlimited]
  simp only [ofLine_eq, noProgram]
  by_cases undecodable : (withoutEnding line).toText?.isNone = true
  · rw [if_pos undecodable, if_pos undecodable]
  · rw [if_neg undecodable, if_neg undecodable]

theorem runLines_cons {line : Bytes} {source : String} (unlimited : sink.capacity = none)
    (isProgram : program? (withoutEnding line) = some source) (lines : List Bytes) :
    runLines (line :: lines) sink =
      let later := runLines lines { sink with
        written := sink.written ++ Bytes.ofText promptMark ++ writtenAlone source }
      { later with errors := complaint source ++ later.errors } := by
  have still : ({ sink with written := sink.written ++ Bytes.ofText promptMark } : Sink).capacity =
      none := unlimited
  conv => lhs; unfold runLines
  rw [Sink.write_of_unlimited unlimited]
  simp only [ofLine_eq, isProgram, run_of_unlimited still, complaint]
  cases (run source Sink.unlimited).1 with
  | ok _ => simp only [String.empty_append]
  | error error => rfl

/-- The prompt reads on from a sink that its lines so far have filled. -/
theorem runLines_eq (unlimited : sink.capacity = none) (lines : List Bytes) :
    runLines lines sink = reportOf (lines.map withoutEnding) sink.written := by
  induction lines generalizing sink with
  | nil =>
    rw [runLines_nil unlimited]
    rfl
  | cons line lines ih =>
    rw [List.map_cons]
    cases isProgram : program? (withoutEnding line) with
    | none => rw [runLines_of_none unlimited isProgram, reportOf_of_none isProgram]
    | some source =>
      have still : ({ sink with
          written := sink.written ++ Bytes.ofText promptMark ++ writtenAlone source } :
          Sink).capacity = none := unlimited
      rw [runLines_cons unlimited isProgram, reportOf_cons isProgram, ih still]

end Run

theorem reportOf_append {front : List Bytes} (stops : (programs front).length < front.length)
    (more : List Bytes) (written : Bytes) :
    reportOf (front ++ more) written = reportOf front written := by
  have sameStop : stop? (front ++ more) = stop? front := by
    rw [stop?, programs_append stops, List.getElem?_append_left stops, stop?]
  rw [reportOf, reportOf, breaksOff, breaksOff, sameStop, programs_append stops]

/-- Without a file the command is a prompt over the lines of the input. -/
theorem command_eq_reportOf {arguments : List String}
    (prompted : Request.ofArguments arguments = .ok .prompt) (directory : Directory)
    (input : Bytes) :
    command arguments directory input Sink.unlimited = reportOf (inputLines input) [] := by
  have unlimited : Sink.unlimited.capacity = none := rfl
  rw [command, prompted, ← map_withoutEnding_rawLines]
  exact runLines_eq unlimited (rawLines input)

/-- The prompt runs the programs on the lines of the input, up to the first line that asks for its
end or is not UTF-8. Standard output shows the mark and what each program writes when it runs alone,
and the mark once more; standard error tells the errors of the programs in their order, and that a
line could not be read if that is the end. Only that makes the command fail. Whatever stands behind
the line feed of the last line that is read could be anything else. A program is one line long, so
its errors are all on line 1. -/
theorem prompt_runs_lines (directory : Directory) (input : Bytes) :
    let lines := inputLines input
    let sources := programs lines
    let report := command [] directory input Sink.unlimited
    (report.output = sources.flatMap (fun source =>
        Bytes.ofText ">> " ++ (run source Sink.unlimited).2.written) ++ Bytes.ofText ">> ") ∧
      (report.errors = String.join (sources.map complaint) ++
        if breaksOff lines then "stream did not contain valid UTF-8\n" else "") ∧
      (report.status.code = if breaksOff lines then 74 else 0) ∧
      (∀ front more, front ++ lineFeed :: more = input →
        sources.length < (inputLines (front ++ [lineFeed])).length →
          ∀ other, command [] directory (front ++ lineFeed :: other) Sink.unlimited = report) ∧
      (∀ arguments, Request.ofArguments arguments = .ok .prompt →
        command arguments directory input Sink.unlimited = report) ∧
      ∀ source ∈ sources, ∀ error, (run source Sink.unlimited).1 = .error error →
        ∀ line ∈ error.lines, line = 1 := by
  intro lines sources report
  have folded : report = reportOf lines [] := command_eq_reportOf rfl directory input
  refine ⟨?_, ?_, ?_, ?_, ?_, ?_⟩
  · rw [folded]
    rfl
  · rw [folded]
    rfl
  · rw [folded, reportOf]
    cases breaksOff lines with
    | true => rfl
    | false => rfl
  · intro front more whole inside other
    have split : lines = inputLines (front ++ [lineFeed]) ++ inputLines more := by
      rw [← inputLines_append, whole]
    have stops : (programs (inputLines (front ++ [lineFeed]))).length <
        (inputLines (front ++ [lineFeed])).length := by
      have le := length_programs_le (inputLines (front ++ [lineFeed])) (inputLines more)
      rw [← split] at le
      exact Nat.lt_of_le_of_lt le inside
    rw [command_eq_reportOf rfl, inputLines_append, reportOf_append stops, folded, split,
      reportOf_append stops]
  · intro arguments prompted
    rw [command_eq_reportOf prompted, folded]
  · intro source member error failed line named
    have bounds := mem_lines_bounds failed line named
    rw [lineFeeds_of_mem_programs member] at bounds
    omega

/-- White space around `exit` is ignored, and a line behind it is not run. -/
example : command [] ⟨[], []⟩ (Bytes.ofText "(true\r\n!nil\n\texit \n!nil") Sink.unlimited =
    ⟨.success, Bytes.ofText ">> >> true\n>> ",
      "[line 1] Error at end: Expect ')' after expression\n"⟩ := by
  decide +kernel

end Lox.CommandLine
