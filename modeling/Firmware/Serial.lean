/-! The writing half of a serial line.
A sink takes one byte per attempt. An attempt may be answered busy, and the writer waits; once the
sink is full every attempt fails. A write of many bytes stops at the first failure and leaves
what was written before.
-/

namespace Firmware

/-- The sink takes no more bytes. -/
inductive SerialError where
  | sinkFull
deriving DecidableEq, Repr

/-- The answer to one attempt to write a byte. -/
inductive Attempt where
  | accepted
  /-- Nothing happened yet; the writer has to try again. -/
  | busy
  | failed (error : SerialError)
deriving DecidableEq, Repr

/-- A sink that records what is written. -/
structure Sink where
  /-- The bytes written so far. -/
  record : List UInt8 := []
  /-- The number of bytes after which the sink is full; without one it never is. -/
  limit : Option Nat := none
  /-- How many attempts at a write are answered busy before it proceeds, by the number of writes
  that proceeded before. -/
  delay : Nat → Nat := fun _ => 0
  /-- The number of writes that proceeded. -/
  proceeded : Nat := 0
  /-- The number of busy answers to the write at hand. -/
  waited : Nat := 0

namespace Sink

/-- Whether the sink takes no more bytes. -/
def IsFull (sink : Sink) : Prop := ∃ limit ∈ sink.limit, limit ≤ sink.record.length

instance (sink : Sink) : Decidable sink.IsFull :=
  match h : sink.limit with
  | none => .isFalse (by simp [IsFull, h])
  | some limit =>
    if reached : limit ≤ sink.record.length then .isTrue ⟨limit, by simp [h], reached⟩
    else .isFalse (by simpa [IsFull, h] using reached)

/-- The sink after a write has proceeded. -/
def settled (sink : Sink) : Sink := { sink with proceeded := sink.proceeded + 1, waited := 0 }

/-- Attempts to write a byte. -/
def attempt (sink : Sink) (byte : UInt8) : Attempt × Sink :=
  if sink.waited < sink.delay sink.proceeded then
    (.busy, { sink with waited := sink.waited + 1 })
  else if sink.IsFull then (.failed .sinkFull, sink.settled)
  else (.accepted, { sink.settled with record := sink.record ++ [byte] })

/-- The number of busy answers still to come before the next write proceeds. -/
def patience (sink : Sink) : Nat := sink.delay sink.proceeded - sink.waited

theorem patience_lt_of_attempt_eq_busy {sink later : Sink} {byte : UInt8}
    (busy : sink.attempt byte = (.busy, later))
    : later.patience < sink.patience := by
  unfold attempt at busy
  split at busy
  case isTrue waiting =>
    cases busy
    simp only [patience]
    omega
  case isFalse =>
    split at busy <;> simp at busy

/-- Writes a byte, waiting as long as the sink is busy. -/
def writeByte (sink : Sink) (byte : UInt8) : Except SerialError Unit × Sink :=
  match _answer : sink.attempt byte with
  | (.accepted, later) => (.ok (), later)
  | (.failed error, later) => (.error error, later)
  | (.busy, later) => later.writeByte byte
termination_by sink.patience
decreasing_by exact patience_lt_of_attempt_eq_busy _answer

/-- Writes bytes up to the first failure. -/
def write (sink : Sink) : List UInt8 → Except SerialError Unit × Sink
  | [] => (.ok (), sink)
  | byte :: rest =>
    match sink.writeByte byte with
    | (.ok _, later) => later.write rest
    | (.error error, later) => (.error error, later)

/-- Writes the pieces of a formatted text up to the first failure. -/
def writePieces (sink : Sink) : List (List UInt8) → Except SerialError Unit × Sink
  | [] => (.ok (), sink)
  | piece :: rest =>
    match sink.write piece with
    | (.ok _, later) => later.writePieces rest
    | (.error error, later) => (.error error, later)

end Sink

end Firmware
