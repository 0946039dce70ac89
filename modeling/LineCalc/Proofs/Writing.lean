import LineCalc.Session.Delivery
/-
  Writing: what events leave on two streams

  `Session.written` lists the bytes that events write to a stream when every
  write succeeds. A stream with room for all of them holds just that. Events
  that do not fit are performed up to the first one that crosses the limit of
  its stream, and that stream is left full.

  What is proved:
    1. `Session.deliver_append` — events that fit are performed, and the others
       find what room they leave;
    2. `Session.deliver_of_fits` — a delivery within the limits;
    3. `Session.exists_crosses`, `Session.deliver_of_crosses` — otherwise there is
       a first event that crosses a limit, and the delivery stops at it.
-/

namespace LineCalc

namespace Session

/-- The two streams of a session. -/
inductive Stream where
  | out
  | err
  deriving DecidableEq, Repr

def Stream.other : Stream → Stream
  | out => err
  | err => out

/-- The bytes that an event writes to a stream. -/
def Event.bytes : Event → Stream → Bytes
  | .out text, .out => Bytes.ofString text
  | .err text, .err => Bytes.ofString text
  | .out _, .err => []
  | .err _, .out => []
  | .log _, _ => []

/-- The bytes that events write to a stream. -/
def written (stream : Stream) (events : List Event) : Bytes :=
  events.flatMap fun event => event.bytes stream

@[simp] theorem written_nil (stream : Stream) : written stream [] = [] := rfl

@[simp] theorem written_cons (stream : Stream) (event : Event) (events : List Event) :
    written stream (event :: events) = event.bytes stream ++ written stream events := rfl

@[simp] theorem written_append (stream : Stream) (events more : List Event) :
    written stream (events ++ more) = written stream events ++ written stream more :=
  List.flatMap_append

def Event.record? : Event → Option Record
  | .log record => some record
  | .out _ => none
  | .err _ => none

/-- The records among events. -/
def recorded (events : List Event) : List Record := events.filterMap Event.record?

/-- The transcript of a session that does something and then leaves this one. -/
def Transcript.behind (events : List Event) (later : Transcript) : Transcript :=
  ⟨written .out events ++ later.out, written .err events ++ later.err,
    recorded events ++ later.records, later.ending⟩

/-- What a stream holds at the end of a session. -/
def Transcript.held (transcript : Transcript) : Stream → Bytes
  | .out => transcript.out
  | .err => transcript.err

/-! ## Room -/

namespace Room
variable {room : Room} {size more : Nat}

/-- Whether a stream takes so many bytes. -/
def Holds (room : Room) (size : Nat) : Prop := ∀ limit, room = some limit → size ≤ limit

/-- The room that so many bytes leave. -/
def less (room : Room) (size : Nat) : Room := room.map fun limit => limit - size

theorem after_of_holds (h : room.Holds size) : room.after size = some (room.less size) := by
  cases room with
  | none => rfl
  | some limit => exact if_pos (h limit rfl)

theorem after_of_lt {left : Nat} (h : left < size) : after (some left) size = none :=
  if_neg (Nat.not_le_of_lt h)

theorem holds_less (h : room.Holds (size + more)) : (room.less size).Holds more := by
  cases room with
  | none => nofun
  | some limit =>
    intro left hleft
    obtain rfl : limit - size = left := Option.some.inj hleft
    have := h limit rfl
    omega

theorem holds_of_add (h : room.Holds (size + more)) : room.Holds size := by
  intro limit hlimit
  have := h limit hlimit
  omega

theorem holds_zero (room : Room) : room.Holds 0 := fun _ _ => Nat.zero_le _

theorem less_zero (room : Room) : room.less 0 = room := by
  cases room <;> rfl

theorem less_less : (room.less size).less more = room.less (size + more) := by
  cases room with
  | none => rfl
  | some limit => exact congrArg some (Nat.sub_sub limit size more)

theorem not_holds_iff : ¬ room.Holds size ↔ ∃ limit, room = some limit ∧ limit < size := by
  simp only [Holds, Classical.not_forall, Nat.not_le, exists_prop]

end Room

/-! ## Deliveries -/

variable {ending : Ending} {outRoom errRoom : Room} {events before rest : List Event}

/-- Whether events fit the room of both streams. -/
structure Fits (outRoom errRoom : Room) (events : List Event) : Prop where
  out : outRoom.Holds (written .out events).length
  err : errRoom.Holds (written .err events).length

theorem fits_nil (outRoom errRoom : Room) : Fits outRoom errRoom [] :=
  ⟨outRoom.holds_zero, errRoom.holds_zero⟩

theorem Fits.of_append (h : Fits outRoom errRoom (events ++ rest)) :
    Fits outRoom errRoom events ∧
      Fits (outRoom.less (written .out events).length) (errRoom.less (written .err events).length)
        rest := by
  obtain ⟨hout, herr⟩ := h
  rw [written_append, List.length_append] at hout herr
  exact ⟨⟨Room.holds_of_add hout, Room.holds_of_add herr⟩,
    ⟨Room.holds_less hout, Room.holds_less herr⟩⟩

theorem Transcript.behind_behind (events more : List Event) (later : Transcript) :
    (later.behind more).behind events = later.behind (events ++ more) := by
  simp only [behind, written_append, recorded, List.filterMap_append, List.append_assoc]

/-- An event that fits is performed. -/
theorem deliver_cons {event : Event} (h : Fits outRoom errRoom [event]) :
    deliver ending outRoom errRoom (event :: rest) =
      (deliver ending (outRoom.less (written .out [event]).length)
        (errRoom.less (written .err [event]).length) rest).behind [event] := by
  cases event with
  | log record =>
    rw [deliver, show written .out [Event.log record] = [] from rfl,
      show written .err [Event.log record] = [] from rfl, List.length_nil, Room.less_zero,
      Room.less_zero]
    rfl
  | out text =>
    have hbytes : written .out [Event.out text] = Bytes.ofString text := List.append_nil _
    have hout := h.out
    rw [hbytes] at hout
    rw [deliver, Room.after_of_holds hout, hbytes,
      show written .err [Event.out text] = [] from rfl, List.length_nil, Room.less_zero]
    simp only [Transcript.behind, hbytes]
    rfl
  | err text =>
    have hbytes : written .err [Event.err text] = Bytes.ofString text := List.append_nil _
    have herr := h.err
    rw [hbytes] at herr
    rw [deliver, Room.after_of_holds herr, hbytes,
      show written .out [Event.err text] = [] from rfl, List.length_nil, Room.less_zero]
    simp only [Transcript.behind, hbytes]
    rfl

/-- Events that fit are performed, and what follows them finds the room they leave. -/
theorem deliver_append (h : Fits outRoom errRoom events) :
    deliver ending outRoom errRoom (events ++ rest) =
      (deliver ending (outRoom.less (written .out events).length)
        (errRoom.less (written .err events).length) rest).behind events := by
  induction events generalizing outRoom errRoom with
  | nil =>
    rw [List.nil_append, written_nil, written_nil, List.length_nil, Room.less_zero,
      Room.less_zero]
    rfl
  | cons event events ih =>
    have h : Fits outRoom errRoom ([event] ++ events) := h
    obtain ⟨hfirst, hevents⟩ := h.of_append
    rw [List.cons_append, deliver_cons hfirst, ih hevents, Transcript.behind_behind,
      Room.less_less, Room.less_less, ← List.length_append, ← List.length_append,
      ← written_append, ← written_append, List.singleton_append]

theorem deliver_of_fits (h : Fits outRoom errRoom events) :
    deliver ending outRoom errRoom events =
      ⟨written .out events, written .err events, recorded events, ending⟩ := by
  have hdeliver : deliver ending outRoom errRoom (events ++ []) = _ := deliver_append h
  rw [List.append_nil] at hdeliver
  simp [hdeliver, deliver, Transcript.behind, Transcript.empty]

theorem deliver_unlimited (ending : Ending) (events : List Event) :
    deliver ending none none events =
      ⟨written .out events, written .err events, recorded events, ending⟩ :=
  deliver_of_fits ⟨nofun, nofun⟩

theorem run_unlimited (o : Options) (input : Bytes) :
    run o none none input =
      ⟨written .out (script o input).1, written .err (script o input).1,
        recorded (script o input).1, (script o input).2⟩ :=
  deliver_unlimited _ _

/-! ## The first event that does not fit -/

/-- What holds of nothing and not of a list ceases to hold at one of its elements. -/
theorem exists_first_failure {α : Type} (holds : List α → Prop) {xs : List α} (hnil : holds [])
    (h : ¬ holds xs) :
    ∃ before x after, xs = before ++ x :: after ∧ holds before ∧ ¬ holds (before ++ [x]) := by
  induction xs generalizing holds with
  | nil => exact absurd hnil h
  | cons x xs ih =>
    by_cases hx : holds [x]
    · obtain ⟨before, y, after, rfl, hbefore, hfailure⟩ :=
        ih (fun ys => holds (x :: ys)) hx h
      exact ⟨x :: before, y, after, rfl, hbefore, hfailure⟩
    · exact ⟨[], x, xs, rfl, hnil, hx⟩

/-- The room of a stream. -/
def roomOf (outRoom errRoom : Room) : Stream → Room
  | .out => outRoom
  | .err => errRoom

/-- How events before an event are the last ones to fit: that event writes to a
stream, and crosses its limit. -/
structure Crosses (outRoom errRoom : Room) (before : List Event) (event : Event)
    (stream : Stream) (limit : Nat) : Prop where
  fits : Fits outRoom errRoom before
  room : roomOf outRoom errRoom stream = some limit
  silent : event.bytes stream.other = []
  crosses : limit < (written stream (before ++ [event])).length

theorem Fits.holds (h : Fits outRoom errRoom events) (stream : Stream) :
    (roomOf outRoom errRoom stream).Holds (written stream events).length := by
  cases stream with
  | out => exact h.out
  | err => exact h.err

theorem Event.bytes_other {event : Event} {stream : Stream} (h : event.bytes stream ≠ []) :
    event.bytes stream.other = [] := by
  cases event with
  | log record => rfl
  | out text =>
    cases stream with
    | out => rfl
    | err => exact absurd rfl h
  | err text =>
    cases stream with
    | out => exact absurd rfl h
    | err => rfl

theorem Fits.exists_crosses {event : Event} {stream : Stream} (h : Fits outRoom errRoom before)
    (hevent : ¬ (roomOf outRoom errRoom stream).Holds (written stream (before ++ [event])).length) :
    ∃ limit, Crosses outRoom errRoom before event stream limit := by
  obtain ⟨limit, hroom, hcrosses⟩ := Room.not_holds_iff.mp hevent
  refine ⟨limit, h, hroom, Event.bytes_other ?_, hcrosses⟩
  intro hsilent
  rw [written_append, written_cons, hsilent, written_nil, List.append_nil,
    List.append_nil] at hevent
  exact hevent (h.holds stream)

/-- Events that do not fit hold a first one that crosses a limit. -/
theorem exists_crosses (h : ¬ Fits outRoom errRoom events) :
    ∃ before event after stream limit, events = before ++ event :: after ∧
      Crosses outRoom errRoom before event stream limit := by
  obtain ⟨before, event, after, rfl, hbefore, hfailure⟩ :=
    exists_first_failure (Fits outRoom errRoom) (fits_nil outRoom errRoom) h
  by_cases hout : outRoom.Holds (written .out (before ++ [event])).length
  · have herr : ¬ errRoom.Holds (written .err (before ++ [event])).length :=
      fun herr => hfailure ⟨hout, herr⟩
    obtain ⟨limit, hcrosses⟩ : ∃ limit, Crosses outRoom errRoom before event .err limit :=
      hbefore.exists_crosses herr
    exact ⟨before, event, after, .err, limit, rfl, hcrosses⟩
  · obtain ⟨limit, hcrosses⟩ : ∃ limit, Crosses outRoom errRoom before event .out limit :=
      hbefore.exists_crosses hout
    exact ⟨before, event, after, .out, limit, rfl, hcrosses⟩

/-- The transcript of a session that ends at once with one stream full. -/
def Transcript.full : Stream → Bytes → Transcript
  | .out, bytes => ⟨bytes, [], [], .stopped .writeLimit⟩
  | .err, bytes => ⟨[], bytes, [], .stopped .writeLimit⟩

/-- An event that does not fit ends the session and leaves the bytes that do. -/
theorem deliver_full {event : Event} {stream : Stream} {left : Nat}
    (hroom : roomOf outRoom errRoom stream = some left)
    (hlarge : left < (event.bytes stream).length) :
    deliver ending outRoom errRoom (event :: rest) =
      .full stream ((event.bytes stream).take left) := by
  cases stream with
  | out =>
    cases event with
    | out text =>
      obtain rfl : outRoom = some left := hroom
      have hafter : Room.after (some left) (Bytes.ofString text).length = none :=
        Room.after_of_lt hlarge
      rw [deliver, hafter]
      rfl
    | err text => exact absurd hlarge (Nat.not_lt_zero _)
    | log record => exact absurd hlarge (Nat.not_lt_zero _)
  | err =>
    cases event with
    | err text =>
      obtain rfl : errRoom = some left := hroom
      have hafter : Room.after (some left) (Bytes.ofString text).length = none :=
        Room.after_of_lt hlarge
      rw [deliver, hafter]
      rfl
    | out text => exact absurd hlarge (Nat.not_lt_zero _)
    | log record => exact absurd hlarge (Nat.not_lt_zero _)

theorem Transcript.held_full (stream : Stream) (bytes : Bytes) :
    (full stream bytes).held stream = bytes ∧ (full stream bytes).held stream.other = [] := by
  cases stream <;> exact ⟨rfl, rfl⟩

theorem Transcript.ending_full (stream : Stream) (bytes : Bytes) :
    (full stream bytes).ending = .stopped .writeLimit := by
  cases stream <;> rfl

theorem Transcript.held_behind (events : List Event) (later : Transcript) (stream : Stream) :
    (later.behind events).held stream = written stream events ++ later.held stream := by
  cases stream <;> rfl

theorem roomOf_less (outRoom errRoom : Room) (sizes : Stream → Nat) (stream : Stream) :
    roomOf (outRoom.less (sizes .out)) (errRoom.less (sizes .err)) stream =
      (roomOf outRoom errRoom stream).less (sizes stream) := by
  cases stream <;> rfl

theorem deliver_of_crosses {event : Event} {stream : Stream} {limit : Nat}
    (h : Crosses outRoom errRoom before event stream limit) :
    (deliver ending outRoom errRoom (before ++ event :: rest)).held stream =
        (written stream (before ++ [event])).take limit ∧
      (deliver ending outRoom errRoom (before ++ event :: rest)).held stream.other =
        written stream.other before ∧
      (deliver ending outRoom errRoom (before ++ event :: rest)).ending =
        .stopped .writeLimit := by
  have hbefore : (written stream before).length ≤ limit := h.fits.holds stream limit h.room
  have hroom : roomOf (outRoom.less (written .out before).length)
      (errRoom.less (written .err before).length) stream =
        some (limit - (written stream before).length) := by
    rw [roomOf_less outRoom errRoom (fun stream => (written stream before).length) stream, h.room]
    rfl
  have hsplit : written stream (before ++ [event]) =
      written stream before ++ event.bytes stream := by
    rw [written_append, written_cons, written_nil, List.append_nil]
  have hlarge : limit - (written stream before).length < (event.bytes stream).length := by
    have hcrosses := h.crosses
    rw [hsplit, List.length_append] at hcrosses
    omega
  obtain ⟨hfull, hother⟩ :=
    Transcript.held_full stream ((event.bytes stream).take (limit - (written stream before).length))
  rw [deliver_append h.fits, deliver_full hroom hlarge]
  refine ⟨?_, ?_, Transcript.ending_full _ _⟩
  · rw [Transcript.held_behind, hfull, hsplit, List.take_append, List.take_of_length_le hbefore]
  · rw [Transcript.held_behind, hother, List.append_nil]

end Session

end LineCalc
