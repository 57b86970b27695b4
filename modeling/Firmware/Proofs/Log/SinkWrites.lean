import Firmware.Serial

/-! What writes leave in a sink.
Busy answers delay a byte and do not change what becomes of it (`writeByte_eq`). A sink records the
bytes of a write up to its limit, and the write fails if these are not all (`written_write`); one
without a limit records everything (`writePieces_endless`). A format is one write of all its pieces
(`writePieces_eq_write`), and every write is over after finitely many attempts
(`exists_writeWithin`).
-/

namespace Firmware.Sink

/-- What an attempt to write a byte comes to. -/
inductive Attempted (sink : Sink) (byte : UInt8) : Attempt × Sink → Prop where
  | busy : Attempted sink byte (.busy, { sink with waited := sink.waited + 1 })
  | failed (full : sink.IsFull) : Attempted sink byte (.failed .sinkFull, sink.settled)
  | accepted (room : ¬ sink.IsFull)
    : Attempted sink byte (.accepted, { sink.settled with record := sink.record ++ [byte] })

theorem attempted (sink : Sink) (byte : UInt8) : sink.Attempted byte (sink.attempt byte) := by
  rw [attempt]
  split
  · exact .busy
  · split
    case isTrue full => exact .failed full
    case isFalse room => exact .accepted room

/-- The outcome of writing a byte, once the sink no longer answers busy. The induction is on the
busy answers that are still to come.
-/
theorem writeByte_eq (sink : Sink) (byte : UInt8)
    : sink.writeByte byte
      = if sink.IsFull then (.error .sinkFull, sink.settled)
        else (.ok (), { sink.settled with record := sink.record ++ [byte] }) := by
  induction sink using writeByte.induct byte with
  | case1 sink later answer =>
      have attempted := sink.attempted byte
      rw [writeByte, answer]
      rw [answer] at attempted
      cases attempted with
      | accepted room => rw [if_neg room]
  | case2 sink error later answer =>
      have attempted := sink.attempted byte
      rw [writeByte, answer]
      rw [answer] at attempted
      cases attempted with
      | failed full => rw [if_pos full]
  | case3 sink later answer ih =>
      have attempted := sink.attempted byte
      rw [writeByte, answer]
      rw [answer] at attempted
      cases attempted
      exact ih

--------------------------------------------------------------------------------
-- Writes up to the limit
--------------------------------------------------------------------------------

/-- The bytes of a write that the sink has room for. -/
def taken (sink : Sink) (bytes : List UInt8) : List UInt8 :=
  match sink.limit with
  | none => bytes
  | some limit => bytes.take (limit - sink.record.length)

/-- What is left of a write: the sink records the bytes it has room for, and the write fails if
these are not all.
-/
structure Written (sink : Sink) (bytes : List UInt8)
    (outcome : Except SerialError Unit × Sink)
    : Prop where
  limit : outcome.2.limit = sink.limit
  record : outcome.2.record = sink.record ++ sink.taken bytes
  result : outcome.1 = if sink.taken bytes = bytes then .ok () else .error .sinkFull

theorem taken_endless {sink : Sink} (endless : sink.limit = none) (bytes : List UInt8)
    : sink.taken bytes = bytes := by
  rw [taken, endless]

theorem taken_limited {sink : Sink} {limit : Nat} (limited : sink.limit = some limit)
    (bytes : List UInt8)
    : sink.taken bytes = bytes.take (limit - sink.record.length) := by
  rw [taken, limited]

theorem taken_nil (sink : Sink) : sink.taken [] = [] := by
  unfold taken
  split <;> simp

theorem taken_of_isFull {sink : Sink} (full : sink.IsFull) (bytes : List UInt8)
    : sink.taken bytes = [] := by
  obtain ⟨limit, member, reached⟩ := full
  rw [taken_limited member, Nat.sub_eq_zero_of_le reached, List.take_zero]

theorem taken_cons_of_room {sink next : Sink} {byte : UInt8} (room : ¬ sink.IsFull)
    (sameLimit : next.limit = sink.limit) (record : next.record = sink.record ++ [byte])
    (bytes : List UInt8)
    : sink.taken (byte :: bytes) = byte :: next.taken bytes := by
  unfold taken
  rw [sameLimit]
  split
  case h_1 => rfl
  case h_2 limit limited =>
      have below : sink.record.length < limit := by
        apply Nat.lt_of_not_le
        exact fun reached => room ⟨limit, limited, reached⟩
      rw [record, List.length_append, List.length_singleton,
        show limit - sink.record.length = limit - (sink.record.length + 1) + 1 by omega,
        List.take_succ_cons]

/-- A write of bytes, by induction on the bytes: either the sink is full and the write is over, or
the first byte is recorded and the rest is written after it.
-/
theorem written_write (sink : Sink) (bytes : List UInt8)
    : sink.Written bytes (sink.write bytes) := by
  induction bytes generalizing sink with
  | nil =>
      have record : sink.record = sink.record ++ sink.taken [] := by
        rw [taken_nil, List.append_nil]
      exact ⟨rfl, record, (if_pos sink.taken_nil).symm⟩
  | cons byte rest ih =>
      rw [write, writeByte_eq]
      by_cases full : sink.IsFull
      · have nothing := taken_of_isFull full (byte :: rest)
        have cut : sink.taken (byte :: rest) ≠ byte :: rest := by simp [nothing]
        rw [if_pos full]
        refine ⟨rfl, ?_, (if_neg cut).symm⟩
        rw [nothing, List.append_nil]
        rfl
      · let next : Sink := { sink.settled with record := sink.record ++ [byte] }
        have first : sink.taken (byte :: rest) = byte :: next.taken rest :=
          @taken_cons_of_room sink next byte full rfl rfl rest
        obtain ⟨limit, record, result⟩ := ih next
        rw [if_neg full]
        refine ⟨limit, ?_, ?_⟩
        · rw [first, record, List.append_assoc, List.singleton_append]
        · simp only [first, List.cons.injEq, true_and]
          exact result

--------------------------------------------------------------------------------
-- Formats
--------------------------------------------------------------------------------

theorem write_append (sink : Sink) (bytes more : List UInt8)
    : sink.write (bytes ++ more)
      = match sink.write bytes with
        | (.ok _, later) => later.write more
        | (.error error, later) => (.error error, later) := by
  induction bytes generalizing sink with
  | nil => rfl
  | cons byte rest ih =>
      rw [List.cons_append, write, write]
      cases sink.writeByte byte with
      | mk result later =>
          cases result with
          | ok _ => exact ih later
          | error _ => rfl

/-- Where a format is cut into pieces does not matter. -/
theorem writePieces_eq_write (sink : Sink) (pieces : List (List UInt8))
    : sink.writePieces pieces = sink.write pieces.flatten := by
  induction pieces generalizing sink with
  | nil => rfl
  | cons piece rest ih =>
      rw [writePieces, List.flatten_cons, write_append]
      cases sink.write piece with
      | mk result later =>
          cases result with
          | ok _ => exact ih later
          | error _ => rfl

--------------------------------------------------------------------------------
-- Attempts
--------------------------------------------------------------------------------

/-- A write that is given up after so many attempts; nothing if it is not over by then. -/
def writeWithin : (attempts : Nat) → Sink → List UInt8 → Option (Except SerialError Unit × Sink)
  | _, sink, [] => some (.ok (), sink)
  | 0, _, _ :: _ => none
  | attempts + 1, sink, byte :: rest =>
      match sink.attempt byte with
      | (.accepted, later) => writeWithin attempts later rest
      | (.failed error, later) => some (.error error, later)
      | (.busy, later) => writeWithin attempts later (byte :: rest)

/-- A byte is written, or fails, after finitely many attempts, by induction on the busy answers
that are still to come.
-/
theorem exists_writeWithin_cons (sink : Sink) (byte : UInt8) (rest : List UInt8)
    : ∃ attempts, ∀ more,
        writeWithin (more + attempts) sink (byte :: rest)
        = match sink.writeByte byte with
          | (.ok _, later) => writeWithin more later rest
          | (.error error, later) => some (.error error, later) := by
  induction sink using writeByte.induct byte with
  | case1 sink later answer =>
      refine ⟨1, fun more => ?_⟩
      rw [writeWithin, writeByte, answer]
  | case2 sink error later answer =>
      refine ⟨1, fun more => ?_⟩
      rw [writeWithin, writeByte, answer]
  | case3 sink later answer ih =>
      obtain ⟨attempts, finished⟩ := ih
      refine ⟨attempts + 1, fun more => ?_⟩
      rw [← Nat.add_assoc, writeWithin, writeByte, answer]
      exact finished more

/-- Every write is over after finitely many attempts, by induction on its bytes. -/
theorem exists_writeWithin (sink : Sink) (bytes : List UInt8)
    : ∃ attempts, writeWithin attempts sink bytes = some (sink.write bytes) := by
  induction bytes generalizing sink with
  | nil => exact ⟨0, rfl⟩
  | cons byte rest ih =>
      obtain ⟨first, firstOver⟩ := exists_writeWithin_cons sink byte rest
      rw [write]
      cases written : sink.writeByte byte with
      | mk result later =>
          cases result with
          | ok _ =>
              obtain ⟨others, restOver⟩ := ih later
              refine ⟨others + first, ?_⟩
              rw [firstOver, written]
              exact restOver
          | error _ =>
              refine ⟨0 + first, ?_⟩
              rw [firstOver, written]

--------------------------------------------------------------------------------
-- Sinks without a limit
--------------------------------------------------------------------------------

theorem writePieces_endless {sink : Sink} (endless : sink.limit = none)
    (pieces : List (List UInt8))
    : ∃ later,
        sink.writePieces pieces = (.ok (), later)
        ∧ later.limit = none
        ∧ later.record = sink.record ++ pieces.flatten := by
  have all := taken_endless endless pieces.flatten
  obtain ⟨limit, record, result⟩ := sink.written_write pieces.flatten
  rw [if_pos all] at result
  rw [endless] at limit
  rw [all] at record
  exact ⟨_, (sink.writePieces_eq_write pieces).trans (Prod.ext result rfl), limit, record⟩

end Firmware.Sink
