import Lox.Text.Utf8

set_option autoImplicit false

namespace Lox

inductive WriteError where
  /-- The sink took some or none of the bytes, and has no room for the others. -/
  | sinkFull
  /-- The device behind the sink has no space. -/
  | deviceFull
deriving DecidableEq

def WriteError.message : WriteError → String
  | sinkFull => "failed to write whole buffer"
  | deviceFull => "No space left on device (os error 28)"

structure Sink where
  written : Bytes
  /-- The number of bytes that it takes in all; `none` if there is no limit. -/
  capacity : Option Nat
  refusal : WriteError
deriving DecidableEq

namespace Sink

def unlimited : Sink :=
  ⟨[], none, .sinkFull⟩

def limited (n : Nat) : Sink :=
  ⟨[], some n, .sinkFull⟩

def fullDevice : Sink :=
  ⟨[], some 0, .deviceFull⟩

/-- The number of bytes that a sink would still take out of `wanted`. -/
def room (s : Sink) (wanted : Nat) : Nat :=
  match s.capacity with
  | none => wanted
  | some n => min wanted (n - s.written.length)

def write (data : Bytes) (s : Sink) : Except WriteError Unit × Sink :=
  let taken := s.room data.length
  (if taken < data.length then .error s.refusal else .ok (),
    { s with written := s.written ++ data.take taken })

end Sink

end Lox
