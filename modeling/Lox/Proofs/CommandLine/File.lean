import Lox.CommandLine.Command
import Lox.Proofs.Program.Session

set_option autoImplicit false

namespace Lox

namespace Sink

def IsWritable (s : Sink) : Prop :=
  ∀ data, s.write data = (.ok (), { s with written := s.written ++ data })

/-- The sink takes nothing, and says so as soon as there is something to take. -/
def IsFull (s : Sink) : Prop :=
  ∀ data, data ≠ [] → s.write data = (.error s.refusal, s)

theorem isWritable_unlimited : unlimited.IsWritable :=
  write_of_unlimited rfl

theorem isFull_fullDevice : fullDevice.IsFull := by
  intro data nonempty
  have limit : fullDevice.capacity = some 0 := rfl
  have exceeds : ¬ data.length ≤ 0 - fullDevice.written.length := by
    rw [Nat.zero_sub, Nat.not_le]
    exact List.length_pos_iff.mpr nonempty
  rw [write_of_limit limit, if_neg exceeds, Nat.zero_sub, List.take_zero, List.append_nil]

end Sink

theorem Bytes.toText?_eq_none_iff (bytes : Bytes) :
    bytes.toText? = none ↔ ∀ text, Bytes.ofText text ≠ bytes := by
  constructor
  · rintro undecodable text rfl
    rw [Bytes.toText?_ofText] at undecodable
    cases undecodable
  · intro noText
    cases decoded : bytes.toText? with
    | none => rfl
    | some text => exact absurd (Bytes.ofText_of_toText? decoded) (noText text)

namespace CommandLine

/-- What can be seen of a report: the number that the command ends with, standard output and
standard error. -/
def Report.shown (report : Report) : Nat × Bytes × String :=
  (report.status.code, report.output, report.errors)

section File

variable {name source : String} {contents : Bytes} {sink : Sink} {value : Value} {error : RunError}

theorem runFile_of_undecodable (undecodable : contents.toText? = none) :
    runFile name (.ok contents) sink =
      ⟨.ioError, sink.written, "Could not read " ++ name ++ "\n\nCaused by:\n    " ++
        ReadError.notText.message ++ "\n"⟩ := by
  have noText : decoded (.ok contents) = .error .notText := by rw [decoded, undecodable]
  rw [runFile, noText]

theorem decoded_ofText (source : String) : decoded (.ok (Bytes.ofText source)) = .ok source := by
  rw [decoded, Bytes.toText?_ofText]

/-- Without a value, the report says why, and the sink is not touched whatever state it is in. -/
theorem runFile_of_error (failed : valueOf source = .error error) :
    runFile name (.ok (Bytes.ofText source)) sink =
      ⟨statusOf error, sink.written, error.text ++ "\n"⟩ := by
  rw [runFile, decoded_ofText]
  simp only [run_of_error failed]

theorem runFile_of_writable (valued : valueOf source = .ok value) (writable : sink.IsWritable) :
    runFile name (.ok (Bytes.ofText source)) sink =
      ⟨.success, sink.written ++ value.output, ""⟩ := by
  rw [runFile, decoded_ofText]
  simp only [run_of_value valued, printed_of_value valued, writable value.output, delivered]

theorem runFile_of_full (valued : valueOf source = .ok value) (full : sink.IsFull) :
    runFile name (.ok (Bytes.ofText source)) sink =
      ⟨.ioError, sink.written, sink.refusal.message ++ "\n"⟩ := by
  rw [runFile, decoded_ofText]
  simp only [run_of_value valued, printed_of_value valued, full _ (output_ne_nil value), delivered]
  rfl

/-- A file run shows a value and is silent about errors, or it fails and leaves the sink alone. -/
theorem runFile_cases (name : String) (contents : Bytes) (state : sink.IsWritable ∨ sink.IsFull) :
    (∃ value : Value, runFile name (.ok contents) sink =
        ⟨.success, sink.written ++ value.output, ""⟩) ∨
      ∃ status complaint, status ≠ .success ∧
        runFile name (.ok contents) sink = ⟨status, sink.written, complaint ++ "\n"⟩ := by
  cases decoded : contents.toText? with
  | none => exact .inr ⟨.ioError, _, nofun, runFile_of_undecodable decoded⟩
  | some source =>
    rw [← Bytes.ofText_of_toText? decoded]
    cases outcome : valueOf source with
    | error error =>
      refine .inr ⟨statusOf error, error.text, ?_, runFile_of_error outcome⟩
      cases error <;> nofun
    | ok value =>
      rcases state with writable | full
      · exact .inl ⟨value, runFile_of_writable outcome writable⟩
      · exact .inr ⟨.ioError, sink.refusal.message, nofun, runFile_of_full outcome full⟩

theorem ExitStatus.code_eq_zero_iff (status : ExitStatus) :
    status.code = 0 ↔ status = .success := by
  cases status <;> decide

/-- The report of a file run, for every contents of the file. Bytes that are no text are not run,
and a text that is no expression or has no value fails with its errors; nothing is written then, and
the state of standard output makes no difference. A value is written with a line feed behind it if
standard output takes it, and if it is full the command fails with what the device says. So the
command succeeds exactly if it writes something, and exactly if it reports no error. -/
theorem file_run_reports {arguments : List String} {directory : Directory}
    (named : Request.ofArguments arguments = .ok (.file name))
    (present : directory.read name = .ok contents) (input : Bytes) (sink : Sink) :
    let report := command arguments directory input sink
    ((∀ source, Bytes.ofText source ≠ contents) →
      report.shown = (74, sink.written, "Could not read " ++ name ++
        "\n\nCaused by:\n    stream did not contain valid UTF-8\n")) ∧
    (∀ source, Bytes.ofText source = contents →
      match parseSource source with
      | .error diagnostics => report.shown =
          (65, sink.written, "\n".intercalate (diagnostics.map Diagnostic.text) ++ "\n")
      | .ok e =>
        match e.evaluate with
        | .error error => report.shown =
            (70, sink.written, error.fault.message ++ "\n[line " ++ toString error.line ++ "]\n")
        | .ok value =>
          (sink.IsWritable →
            report.shown = (0, sink.written ++ Bytes.ofText (value.text ++ "\n"), "")) ∧
          (sink.IsFull → report.shown = (74, sink.written, sink.refusal.message ++ "\n"))) ∧
    (sink.written = [] → sink.IsWritable ∨ sink.IsFull →
      (report.status.code = 0 ↔ report.output ≠ []) ∧
        (report.status.code = 0 ↔ report.errors = "")) := by
  intro report
  have ran : report = runFile name (.ok contents) sink := by
    simp only [report, command, named, present]
  refine ⟨?_, ?_, ?_⟩
  · intro noText
    have message : "\n\nCaused by:\n    " ++ (ReadError.notText.message ++ "\n") =
        "\n\nCaused by:\n    stream did not contain valid UTF-8\n" := by decide
    rw [ran, runFile_of_undecodable ((Bytes.toText?_eq_none_iff contents).mpr noText)]
    simp only [Report.shown, String.append_assoc, message]
    rfl
  · rintro source rfl
    cases read : parseSource source with
    | error diagnostics =>
      have failed : valueOf source = .error (.compile diagnostics) := by rw [valueOf, read]
      rw [ran, runFile_of_error failed]
      rfl
    | ok e =>
      dsimp only
      cases evaluated : e.evaluate with
      | error error =>
        have failed : valueOf source = .error (.runtime error) := by
          simp only [valueOf, read, evaluated]
        have message : "]" ++ "\n" = "]\n" := by decide
        rw [ran, runFile_of_error failed]
        simp only [Report.shown, RunError.text, RuntimeError.text, String.append_assoc, message]
        rfl
      | ok value =>
        have valued : valueOf source = .ok value := by
          simp only [valueOf, read, evaluated]
        refine ⟨fun writable => ?_, fun full => ?_⟩
        · rw [ran, runFile_of_writable valued writable]
          rfl
        · rw [ran, runFile_of_full valued full]
          rfl
  · intro fresh state
    rw [ran, ExitStatus.code_eq_zero_iff]
    rcases runFile_cases name contents state with ⟨value, same⟩ | ⟨status, complaint, failed, same⟩
    · simp [same, fresh, output_ne_nil]
    · simp [same, fresh, failed]

/-- The same program with both kinds of standard output. -/
theorem file_run_reports_nil :
    let directory := Directory.ofEntries [("a.lox", [110, 105, 108])] []
    (command ["a.lox"] directory [] .unlimited).shown = (0, [110, 105, 108, 10], "") ∧
      (command ["a.lox"] directory [] .fullDevice).shown =
        (74, [], "No space left on device (os error 28)\n") := by
  intro directory
  have named : Request.ofArguments ["a.lox"] = .ok (.file "a.lox") := rfl
  have present : directory.read "a.lox" = .ok [110, 105, 108] := by with_unfolding_all rfl
  have read : parseSource "nil" = .ok (.literal .nil) := by with_unfolding_all rfl
  have written := (file_run_reports named present [] .unlimited).2.1 "nil" rfl
  have refused := (file_run_reports named present [] .fullDevice).2.1 "nil" rfl
  rw [read] at written refused
  exact ⟨written.1 Sink.isWritable_unlimited, refused.2 Sink.isFull_fullDevice⟩

end File

end CommandLine

end Lox
