import Lox.Proofs.Program.Composition

set_option autoImplicit false

namespace Lox

/-- The part of some bytes that a sink of the given capacity takes. -/
def kept (capacity : Option Nat) (data : Bytes) : Bytes :=
  match capacity with
  | none => data
  | some n => data.take n

/-- A sink of the given capacity takes all of the bytes. -/
def Fits (capacity : Option Nat) (data : Bytes) : Prop :=
  ∀ n, capacity = some n → data.length ≤ n

instance (capacity : Option Nat) (data : Bytes) : Decidable (Fits capacity data) :=
  match capacity with
  | none => .isTrue fun _ limit => nomatch limit
  | some n => decidable_of_iff (data.length ≤ n)
      ⟨fun le _ limit => Option.some.inj limit ▸ le, fun fits => fits n rfl⟩

theorem fits_some (n : Nat) (data : Bytes) : Fits (some n) data = (data.length ≤ n) :=
  propext ⟨fun fits => fits n rfl, fun le _ limit => Option.some.inj limit ▸ le⟩

namespace Sink

/-- Writes pieces one after the other, up to the first one for which there is no room. -/
def writeAll : List Bytes → Sink → Except WriteError Unit × Sink
  | [], s => (.ok (), s)
  | piece :: pieces, s =>
    match s.write piece with
    | (.ok _, later) => writeAll pieces later
    | (.error error, later) => (.error error, later)

/-- The sink has taken what it could of the bytes, which are all that was written to it. -/
def HasSeen (s : Sink) (total : Bytes) : Prop :=
  s.written = kept s.capacity total

variable {s : Sink} {total data : Bytes} {n : Nat}

theorem write_of_unlimited (unlimited : s.capacity = none) (data : Bytes) :
    s.write data = (.ok (), { s with written := s.written ++ data }) := by
  simp only [write, room, unlimited, Nat.lt_irrefl, ↓reduceIte, List.take_length]

theorem write_of_limit (limit : s.capacity = some n) (data : Bytes) :
    s.write data =
      (if data.length ≤ n - s.written.length then .ok () else .error s.refusal,
        { s with written := s.written ++ data.take (n - s.written.length) }) := by
  have taken : data.take (min data.length (n - s.written.length)) =
      data.take (n - s.written.length) := by
    rw [Nat.min_comm, ← List.take_eq_take_min]
  have refused : (min data.length (n - s.written.length) < data.length) =
      ¬ data.length ≤ n - s.written.length := by
    apply propext
    omega
  simp only [write, room, limit, taken, refused, ite_not]

/-- A text in two pieces. What is refused of the first one leaves no room for the second. -/
theorem write_append (first second : Bytes) (s : Sink) :
    s.write (first ++ second) =
      match s.write first with
      | (.ok _, later) => later.write second
      | (.error error, later) => (.error error, later) := by
  cases limit : s.capacity with
  | none =>
    have later : ({ s with written := s.written ++ first } : Sink).capacity = none := limit
    rw [write_of_unlimited limit, write_of_unlimited limit]
    simp only [write_of_unlimited later, List.append_assoc]
  | some n =>
    have later : ({ s with written := s.written ++ first } : Sink).capacity = some n := limit
    rw [write_of_limit limit, write_of_limit limit]
    by_cases room : first.length ≤ n - s.written.length
    · have left : n - (s.written ++ first).length = n - s.written.length - first.length := by
        rw [List.length_append]
        omega
      have fits : ((first ++ second).length ≤ n - s.written.length) =
          (second.length ≤ n - s.written.length - first.length) := by
        rw [List.length_append]
        apply propext
        omega
      simp only [if_pos room, List.take_of_length_le room, write_of_limit later, left, fits,
        List.take_append, List.append_assoc]
    · have exceeds : ¬ (first ++ second).length ≤ n - s.written.length := by
        rw [List.length_append]
        omega
      have nothing : n - s.written.length - first.length = 0 := by omega
      simp only [if_neg room, if_neg exceeds, List.take_append, nothing, List.take_zero,
        List.append_nil]

theorem write_nil (s : Sink) : s.write [] = (.ok (), s) := by
  simp only [write, List.length_nil, Nat.not_lt_zero, ↓reduceIte, List.take_nil, List.append_nil]

/-- How a text is cut makes no difference: the pieces leave a sink as the whole text does. -/
theorem writeAll_eq_write (pieces : List Bytes) (s : Sink) :
    s.writeAll pieces = s.write pieces.flatten := by
  induction pieces generalizing s with
  | nil => rw [List.flatten_nil, write_nil, writeAll]
  | cons piece pieces ih =>
    rw [List.flatten_cons, write_append, writeAll]
    cases s.write piece with
    | mk outcome later =>
      cases outcome with
      | ok _ => exact ih later
      | error error => rfl

/-- One more text is kept as far as it fits. There is no room for a part of it exactly when there is
none for all of the bytes together. -/
theorem write_of_hasSeen (seen : s.HasSeen total) (nonempty : data ≠ []) :
    s.write data =
      (if Fits s.capacity (total ++ data) then .ok () else .error s.refusal,
        { s with written := kept s.capacity (total ++ data) }) := by
  cases limit : s.capacity with
  | none =>
    have fits : Fits none (total ++ data) := fun _ limit => nomatch limit
    rw [write_of_unlimited limit, seen, limit, if_pos fits]
    rfl
  | some n =>
    have positive : 0 < data.length := List.length_pos_iff.mpr nonempty
    have written : s.written = total.take n := by rw [seen, limit, kept]
    have left : n - s.written.length = n - total.length := by
      rw [written, List.length_take]
      omega
    have fits : (data.length ≤ n - total.length) = Fits (some n) (total ++ data) := by
      rw [fits_some, List.length_append]
      apply propext
      omega
    rw [write_of_limit limit, left]
    simp only [fits, written, kept, List.take_append, limit]

end Sink

/-- The value of a program, or why it has none. -/
def valueOf (source : String) : Except RunError Value :=
  match parseSource source with
  | .error diagnostics => .error (.compile diagnostics)
  | .ok e =>
    match e.evaluate with
    | .error error => .error (.runtime error)
    | .ok value => .ok value

/-- What a program has to print: the text of its value, and nothing if it has none. -/
def printed (source : String) : Bytes :=
  match valueOf source with
  | .error _ => []
  | .ok value => value.output

/-- The sink behind programs that ran one after the other. -/
def sinkAfter (sources : List String) (sink : Sink) : Sink :=
  sources.foldl (fun sink source => (run source sink).2) sink

def delivered : Except WriteError Unit × Sink → Except RunError Unit × Sink
  | (.ok _, later) => (.ok (), later)
  | (.error error, later) => (.error (.output error), later)

section Session

variable {sources : List String} {source : String} {value : Value} {error : RunError} {sink : Sink}
  {total : Bytes}

/-- A text ends with a line feed, so there is always something to write. -/
theorem output_ne_nil (value : Value) : value.output ≠ [] := by
  have lineFeed : "\n".toList = ['\n'] := rfl
  rw [Value.output, Bytes.ofText_eq_flatMap, String.toList_append, List.flatMap_append, lineFeed]
  exact List.append_ne_nil_of_right_ne_nil _ (List.cons_ne_nil _ _)

theorem printed_of_value (valued : valueOf source = .ok value) : printed source = value.output := by
  rw [printed, valued]

theorem printed_of_error (failed : valueOf source = .error error) : printed source = [] := by
  rw [printed, failed]

theorem run_eq (source : String) (sink : Sink) :
    run source sink =
      match valueOf source with
      | .error error => (.error error, sink)
      | .ok value => delivered (sink.write value.output) := by
  rw [run, valueOf]
  cases parseSource source with
  | error diagnostics => rfl
  | ok e =>
    simp only [interpret]
    cases e.evaluate with
    | error error => rfl
    | ok value => rfl

theorem run_of_error (failed : valueOf source = .error error) (sink : Sink) :
    run source sink = (.error error, sink) := by
  rw [run_eq, failed]

theorem run_of_value (valued : valueOf source = .ok value) (sink : Sink) :
    run source sink = delivered (sink.write (printed source)) := by
  rw [run_eq, valued, printed_of_value valued]

/-- A program adds what it has to print, as far as that fits, and does nothing else to a sink. -/
theorem sink_run (seen : sink.HasSeen total) (source : String) :
    (run source sink).2 =
      { sink with written := kept sink.capacity (total ++ printed source) } := by
  cases valued : valueOf source with
  | error error =>
    rw [run_of_error valued, printed_of_error valued, List.append_nil, ← seen]
  | ok value =>
    have nonempty : printed source ≠ [] := printed_of_value valued ▸ output_ne_nil value
    rw [run_of_value valued, Sink.write_of_hasSeen seen nonempty]
    by_cases fits : Fits sink.capacity (total ++ printed source)
    · rw [if_pos fits, delivered]
    · rw [if_neg fits, delivered]

theorem outcome_run (seen : sink.HasSeen total) (valued : valueOf source = .ok value) :
    (run source sink).1 =
      if Fits sink.capacity (total ++ printed source) then .ok ()
      else .error (.output sink.refusal) := by
  have nonempty : printed source ≠ [] := printed_of_value valued ▸ output_ne_nil value
  rw [run_of_value valued, Sink.write_of_hasSeen seen nonempty]
  by_cases fits : Fits sink.capacity (total ++ printed source)
  · rw [if_pos fits, if_pos fits, delivered]
  · rw [if_neg fits, if_neg fits, delivered]

theorem sinkAfter_of_hasSeen (seen : sink.HasSeen total) (sources : List String) :
    sinkAfter sources sink =
      { sink with written := kept sink.capacity (total ++ sources.flatMap printed) } := by
  induction sources generalizing sink total with
  | nil =>
    rw [List.flatMap_nil, List.append_nil, ← seen]
    rfl
  | cons source sources ih =>
    have first := sink_run seen source
    have later : (run source sink).2.HasSeen (total ++ printed source) := by
      rw [first]
      rfl
    rw [List.flatMap_cons, ← List.append_assoc, sinkAfter, List.foldl_cons, ← sinkAfter, ih later,
      first]

theorem sinkAfter_take_succ {k : Nat} (present : sources[k]? = some source) (sink : Sink) :
    sinkAfter (sources.take (k + 1)) sink = (run source (sinkAfter (sources.take k) sink)).2 := by
  rw [List.take_add_one, present, Option.toList_some, sinkAfter, List.foldl_append,
    List.foldl_cons, List.foldl_nil, sinkAfter]

theorem getElem?_session (sources : List String) (sink : Sink) (k : Nat) :
    (session sources sink)[k]? =
      sources[k]?.map fun source => run source (sinkAfter (sources.take k) sink) := by
  induction sources generalizing sink k with
  | nil => rfl
  | cons source sources ih =>
    cases k with
    | zero => rfl
    | succ k => exact ih (run source sink).2 k

/-- A sink that several programs share is filled as if by one text. After every number of programs
it holds the first bytes of all their texts together. A program that is no expression or has no
value fails with its own errors and leaves the sink as it was. One with a value succeeds exactly if
all texts up to its own fit, and its text can reach the sink in any pieces. -/
theorem session_fills_sink (sources : List String) (capacity : Option Nat) (k : Nat) :
    let start : Sink := ⟨[], capacity, .sinkFull⟩
    let before := sinkAfter (sources.take k) start
    let later := sinkAfter (sources.take (k + 1)) start
    before.written = kept capacity ((sources.take k).flatMap printed) ∧
      ∀ source, sources[k]? = some source →
        ∃ outcome, (session sources start)[k]? = some (outcome, later) ∧
          match valueOf source with
          | .error error => outcome = .error error ∧ later = before
          | .ok value =>
            printed source = Bytes.ofText (value.text ++ "\n") ∧
              (outcome = if Fits capacity ((sources.take (k + 1)).flatMap printed) then .ok ()
                else .error (.output .sinkFull)) ∧
              ∀ pieces, pieces.flatten = printed source →
                delivered (before.writeAll pieces) = (outcome, later) := by
  intro start before later
  have nothing : start.HasSeen [] := by
    cases capacity with
    | none => rfl
    | some n => exact List.take_nil.symm
  have filled : before = ⟨kept capacity ((sources.take k).flatMap printed), capacity, .sinkFull⟩ :=
    sinkAfter_of_hasSeen nothing (sources.take k)
  have seen : before.HasSeen ((sources.take k).flatMap printed) := by
    rw [filled]
    rfl
  refine ⟨by rw [filled], fun source present => ⟨(run source before).1, ?_, ?_⟩⟩
  · have step := sinkAfter_take_succ present start
    rw [getElem?_session, present, Option.map_some]
    exact congrArg (fun sink => some ((run source before).1, sink)) step.symm
  · have step : later = (run source before).2 := sinkAfter_take_succ present start
    cases valued : valueOf source with
    | error error =>
      rw [step, run_of_error valued]
      exact ⟨rfl, rfl⟩
    | ok value =>
      have texts : (sources.take (k + 1)).flatMap printed =
          (sources.take k).flatMap printed ++ printed source := by
        rw [List.take_add_one, present, List.flatMap_append, Option.toList_some,
          List.flatMap_singleton]
      have outcome := outcome_run seen valued
      rw [← texts, filled] at outcome
      refine ⟨printed_of_value valued, ?_, fun pieces whole => ?_⟩
      · rw [← outcome, filled]
      · rw [Sink.writeAll_eq_write, whole, ← run_of_value valued, step]

/-- The first byte of a character fills the sink; a program that fails in between adds nothing. -/
example : (session ["\"a\"", "-nil", "\"\u00e9\""] ⟨[], some 3, .sinkFull⟩).map (·.2.written) =
    [[97, 10], [97, 10], [97, 10, 0xC3]] := by
  decide +kernel

end Session

end Lox
