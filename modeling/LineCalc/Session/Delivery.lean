import LineCalc.Session.Basic
/-
  Delivery: the events of a session on streams that may be full

  `Session.deliver` performs a list of events on two streams that may each take
  only so many bytes. A write that crosses the limit leaves the bytes that fit
  and ends the session; a write of nothing never fails. `Session.run` delivers
  the script of a whole session.
-/

namespace LineCalc

namespace Session

/-- What a session left behind. -/
structure Transcript where
  out : Bytes
  err : Bytes
  records : List Record
  ending : Ending

/-- The transcript of a session in which nothing happened. -/
def Transcript.empty (ending : Ending) : Transcript := ⟨[], [], [], ending⟩

/-- How many bytes a stream may still take; none means any number. -/
abbrev Room := Option Nat

/-- The room left behind a write, if the write fits. -/
def Room.after (room : Room) (size : Nat) : Option Room :=
  match room with
  | none => some none
  | some n => if size ≤ n then some (some (n - size)) else none

/-- The bytes of a write that a stream takes. -/
def Room.take (room : Room) (bytes : Bytes) : Bytes :=
  match room with
  | none => bytes
  | some n => bytes.take n

/-- Performs events in order until one of them fails. -/
def deliver (ending : Ending) : Room → Room → List Event → Transcript
  | _, _, [] => .empty ending
  | outRoom, errRoom, .log record :: rest =>
    let later := deliver ending outRoom errRoom rest
    { later with records := record :: later.records }
  | outRoom, errRoom, .out text :: rest =>
    let bytes := Bytes.ofString text
    match outRoom.after bytes.length with
    | some left =>
      let later := deliver ending left errRoom rest
      { later with out := bytes ++ later.out }
    | none => { Transcript.empty (.stopped .writeLimit) with out := outRoom.take bytes }
  | outRoom, errRoom, .err text :: rest =>
    let bytes := Bytes.ofString text
    match errRoom.after bytes.length with
    | some left =>
      let later := deliver ending outRoom left rest
      { later with err := bytes ++ later.err }
    | none => { Transcript.empty (.stopped .writeLimit) with err := errRoom.take bytes }

/-- A session over an input, on streams that take so many bytes. -/
def run (o : Options) (outRoom errRoom : Room) (input : Bytes) : Transcript :=
  let all := script o input
  deliver all.2 outRoom errRoom all.1

end Session

end LineCalc
