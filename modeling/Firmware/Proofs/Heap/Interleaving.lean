import Firmware.Proofs.Heap.Tasks
import Mathlib.Data.List.Perm.Basic

/-! Calls of the primitives that interrupt each other.
Between any two steps of a call other calls may be begun, take steps and return, as interrupt
handlers do, nested to any depth. A block that is given to a call is not live while the call is
under way, so no other call is given it, and no client writes into it. In every such interleaving
the heap is in order at each point: no step is stopped or touches the blocks of others, and a call
that is answered has done what it does undisturbed (`Traffic.interrupt_safe`).
-/

namespace Firmware

/-- What can happen next to a region heap. -/
inductive Move where
  /-- A call is begun. -/
  | enter (call : Call)
  /-- A call under way takes its next step. -/
  | advance (index : Nat)
  /-- A call that is answered returns to its client. -/
  | leave (index : Nat)
  /-- A client writes into a live block. -/
  | write (handle offset : Nat) (bytes : List UInt8)
deriving DecidableEq, Repr

/-- A region heap and the calls under way. -/
structure Traffic where
  region : Region
  /-- The blocks that were handed out, and not given to a call since. -/
  live : List Block := []
  /-- The calls under way, the one that was begun last first. -/
  underway : List Task := []

namespace Traffic

/-- The live block at the handle. -/
def find? (traffic : Traffic) (handle : Nat) : Option Block :=
  traffic.live.find? fun block => block.address = handle

/-- Calls are given live blocks only, and writes stay inside the usable bytes of a live block. -/
def Allows (traffic : Traffic) : Move → Prop
  | .enter call => ∀ handle ∈ call.block?, (traffic.find? handle).isSome
  | .advance _ | .leave _ => True
  | .write handle offset bytes =>
      ∃ block ∈ traffic.live, block.address = handle ∧ offset + bytes.length ≤ block.size

instance (traffic : Traffic) : (move : Move) → Decidable (traffic.Allows move)
  | .enter call =>
      inferInstanceAs (Decidable (∀ handle ∈ call.block?, (traffic.find? handle).isSome))
  | .advance _ | .leave _ => inferInstanceAs (Decidable True)
  | .write handle offset bytes =>
      inferInstanceAs
        (Decidable
          (∃ block ∈ traffic.live, block.address = handle ∧ offset + bytes.length ≤ block.size))

/-- A call is begun: its block is its own from now on. -/
def enter (traffic : Traffic) (call : Call) : Traffic :=
  let given := call.block?.bind traffic.find?
  { traffic with
    live :=
      match given with
      | none => traffic.live
      | some block => Ledger.without traffic.live block.address
    underway := ⟨call, given, traffic.region.memory, .entry call⟩ :: traffic.underway }

/-- A call under way takes its next step. -/
def advance (traffic : Traffic) (index : Nat) : Except HeapFault Traffic :=
  match traffic.underway[index]? with
  | none => .ok traffic
  | some task =>
      let outcome := task.stage.next traffic.region
      outcome.result.map fun stage =>
        { traffic with
          region := outcome.heap
          underway := traffic.underway.set index { task with stage } }

/-- A call that is answered returns, and what it hands out becomes live. -/
def leave (traffic : Traffic) (index : Nat) : Traffic :=
  match traffic.underway[index]? with
  | some task =>
      match task.stage with
      | .done answer =>
          { traffic with
            live := (task.handed answer).toList ++ traffic.live
            underway := traffic.underway.eraseIdx index }
      | _ => traffic
  | none => traffic

/-- What a move makes of the traffic. -/
def perform (traffic : Traffic) : Move → Except HeapFault Traffic
  | .enter call => .ok (traffic.enter call)
  | .advance index => traffic.advance index
  | .leave index => .ok (traffic.leave index)
  | .write handle offset bytes =>
      let memory :=
        traffic.region.memory.overwrite (handle + offset) bytes.length fun i => bytes.getD i 0
      .ok { traffic with region := { traffic.region with memory } }

/-- The traffic after a number of moves; a fault is the end. -/
def after (traffic : Traffic) : List Move → Except HeapFault Traffic
  | [] => .ok traffic
  | move :: rest =>
      match traffic.perform move with
      | .error fault => .error fault
      | .ok next => next.after rest

/-- Every move is allowed when it is made. -/
def Admits (traffic : Traffic) : List Move → Prop
  | [] => True
  | move :: rest =>
      traffic.Allows move ∧ ∀ next ∈ (traffic.perform move).toOption, next.Admits rest

instance decidableAdmits (traffic : Traffic)
    : (moves : List Move) → Decidable (traffic.Admits moves)
  | [] => inferInstanceAs (Decidable True)
  | move :: rest =>
      have := fun next : Traffic => decidableAdmits next rest
      inferInstanceAs
        (Decidable
          (traffic.Allows move ∧ ∀ next ∈ (traffic.perform move).toOption, next.Admits rest))

/-- A heap without calls under way, from which nothing was handed out yet. -/
def fresh (region : Region) : Traffic := { region }

/-- The blocks that the calls under way have for themselves. -/
def held (traffic : Traffic) : List Block := traffic.underway.flatMap Task.held

/-- The blocks of the other calls under way. -/
def others (traffic : Traffic) (index : Nat) : List Block :=
  (traffic.underway.eraseIdx index).flatMap Task.held

--------------------------------------------------------------------------------
-- The invariant
--------------------------------------------------------------------------------

/-- The region is sound for what the calls under way hold, and each call finds what it relies on. -/
structure Sound (traffic : Traffic) : Prop where
  region : traffic.region.Sound traffic.held { live := traffic.live }
  ready : ∀ task ∈ traffic.underway, task.Ready traffic.region.memory

theorem held_perm {underway : List Task} {index : Nat} {task : Task}
    (found : underway[index]? = some task)
    : (task.held ++ (underway.eraseIdx index).flatMap Task.held).Perm
        (underway.flatMap Task.held) := by
  obtain ⟨inside, rfl⟩ := List.getElem?_eq_some_iff.mp found
  exact (List.getElem_cons_eraseIdx_perm inside).flatMap_right Task.held

theorem held_set_perm {underway : List Task} {index : Nat} {task : Task}
    (found : underway[index]? = some task) (changed : Task)
    : ((underway.set index changed).flatMap Task.held).Perm
        (changed.held ++ (underway.eraseIdx index).flatMap Task.held) := by
  obtain ⟨inside, _⟩ := List.getElem?_eq_some_iff.mp found
  exact (List.set_perm_cons_eraseIdx inside changed).flatMap_right Task.held

namespace Sound

variable {traffic : Traffic} {index : Nat} {task : Task}

/-- Seen from one call under way, the region is sound for its blocks and those of the others. -/
theorem focus (sound : traffic.Sound) (found : traffic.underway[index]? = some task)
    : traffic.region.Sound (task.held ++ traffic.others index) { live := traffic.live } :=
  sound.region.regroup ((held_perm found).symm.append_right _) sound.region.headers

/-- The next step of a call under way goes through. -/
theorem next (sound : traffic.Sound) (found : traffic.underway[index]? = some task)
    (unfinished : 0 < task.stage.remaining)
    : ∃ stage after,
        task.Steps (traffic.others index) traffic.live traffic.region stage after
        ∧ traffic.perform (.advance index)
          = .ok {
              traffic with
              region := after
              underway := traffic.underway.set index { task with stage } } := by
  have ready := sound.ready task (List.mem_of_getElem? found)
  obtain ⟨stage, after, steps⟩ := ready.next (sound.focus found) unfinished
  refine ⟨stage, after, steps, ?_⟩
  simp only [perform, advance, found, steps.taken]
  rfl

/-- A call stays ready while other blocks are written. -/
theorem ready_kept (sound : traffic.Sound) (member : task ∈ traffic.underway) {blocks : List Block}
    {memory : Memory} (included : task.held ⊆ blocks)
    (kept : Kept blocks traffic.region.memory memory)
    : task.Ready memory := by
  refine (sound.ready task member).kept (fun block own => ?_) (kept.subset included)
  refine sound.region.placed block (List.mem_append_left _ ?_)
  exact List.mem_flatMap.mpr ⟨task, member, own⟩

theorem of_steps (sound : traffic.Sound) (found : traffic.underway[index]? = some task)
    {stage : Stage} {after : Region}
    (steps : task.Steps (traffic.others index) traffic.live traffic.region stage after)
    : Sound {
        traffic with
        region := after
        underway := traffic.underway.set index { task with stage } } where
  region :=
    steps.sound.regroup ((held_set_perm found { task with stage }).symm.append_right _)
      steps.sound.headers
  ready := by
    obtain ⟨inside, _⟩ := List.getElem?_eq_some_iff.mp found
    intro other member
    have either := (List.set_perm_cons_eraseIdx inside { task with stage }).mem_iff.mp member
    rcases List.mem_cons.mp either with rfl | rest
    · exact steps.ready
    · refine sound.ready_kept (List.mem_of_mem_eraseIdx rest) ?_ steps.kept
      intro block own
      exact List.mem_append_left _ (List.mem_flatMap.mpr ⟨other, rest, own⟩)

/-- A call that is answered takes no more steps. -/
theorem advance_done {traffic : Traffic} (found : traffic.underway[index]? = some task)
    (finished : task.stage.remaining = 0)
    : traffic.advance index = .ok traffic := by
  obtain ⟨answer, done⟩ := Stage.eq_done_of_remaining finished
  obtain ⟨inside, same⟩ := List.getElem?_eq_some_iff.mp found
  have unchanged : traffic.underway.set index { task with stage := .done answer }
      = traffic.underway := by
    rw [← done, ← same]
    exact List.set_getElem_self inside
  have stays : task.stage.next traffic.region = .answer (.done answer) traffic.region := by
    rw [done]
    rfl
  simp only [advance, found, stays, Outcome.answer, Except.map, unchanged]

/-- A call that has done nothing yet will find the block that it was given live. -/
theorem given_live (sound : traffic.Sound) (member : task ∈ traffic.underway) {call : Call}
    (begun : task.stage = .entry call)
    : call = task.call
      ∧ call.block? = task.given.map Block.address
      ∧ ∀ block ∈ task.given, traffic.region.inspect block.address = some block.size := by
  cases sound.ready task member with
  | entry about headers _ =>
      obtain rfl := Stage.entry.inj begun
      exact ⟨rfl, about, headers⟩
  | done finished _ => cases finished.symm.trans begun
  | clear | stamp | retireToResize | retireToRelease | free | reserve | restore | copy | vacate =>
      cases begun

theorem effect (sound : traffic.Sound) (found : traffic.underway[index]? = some task)
    {answer : Option Nat} (finished : task.stage = .done answer)
    : task.Effect traffic.region.memory answer := by
  have ready := sound.ready task (List.mem_of_getElem? found)
  cases ready with
  | done same effect =>
      obtain rfl := Stage.done.inj (finished.symm.trans same)
      exact effect
  | entry | clear | stamp | retireToResize | retireToRelease | free | reserve | restore | copy
  | vacate => cases finished

/-- The block of a call that returns is handed out. -/
theorem leave (sound : traffic.Sound) (index : Nat) : (traffic.leave index).Sound := by
  rw [Traffic.leave]
  split
  next task found =>
    split
    next answer finished =>
      have region := sound.focus found
      have effect := sound.effect found finished
      have holds : task.held = (task.handed answer).toList := by
        simp only [Task.held, finished]
      rw [holds] at region
      refine ⟨?_, fun other member => sound.ready other (List.mem_of_mem_eraseIdx member)⟩
      cases handed : task.handed answer with
      | none =>
          rw [handed] at region
          exact region
      | some block =>
          rw [handed] at region
          exact region.settle (effect.headers block handed)
    next => exact sound
  next => exact sound

/-- The block that a call is given is held by the call from then on. -/
theorem enter (sound : traffic.Sound) {call : Call} (allowed : traffic.Allows (.enter call))
    : (traffic.enter call).Sound := by
  have readyWith {given : Option Block} (about : call.block? = given.map Block.address)
      (live : ∀ block ∈ given, block ∈ traffic.live)
      : Task.Ready traffic.region.memory ⟨call, given, traffic.region.memory, .entry call⟩ :=
    .entry about (fun block member => sound.region.headers block (live block member))
      fun _ _ _ _ => rfl
  cases about : call.block? with
  | none =>
      simp only [Traffic.enter, about, Option.bind_none]
      exact ⟨sound.region, List.forall_mem_cons.mpr ⟨readyWith about nofun, sound.ready⟩⟩
  | some handle =>
      obtain ⟨block, found⟩ := Option.isSome_iff_exists.mp (allowed handle about)
      have live : block ∈ traffic.live := List.mem_of_find?_eq_some found
      have same : block.address = handle := by simpa using List.find?_some found
      simp only [Traffic.enter, about, Option.bind_some, found]
      refine ⟨sound.region.hold live, List.forall_mem_cons.mpr ⟨readyWith ?_ ?_, sound.ready⟩⟩
      · rw [about, ← same]
        rfl
      · rintro _ ⟨⟩
        exact live

theorem write (sound : traffic.Sound) {block : Block} {offset : Nat} {bytes : List UInt8}
    (live : block ∈ traffic.live) (inside : offset + bytes.length ≤ block.size)
    : Sound {
        traffic with
        region := {
          traffic.region with
          memory :=
            traffic.region.memory.overwrite (block.address + offset) bytes.length
              fun i => bytes.getD i 0 } } := by
  obtain ⟨written, kept⟩ := sound.region.overwrite live inside
  refine ⟨written, fun task member => sound.ready_kept member ?_ kept⟩
  intro own ownMember
  exact List.mem_append_left _ (List.mem_flatMap.mpr ⟨task, member, ownMember⟩)

/-- Every allowed move goes through and keeps the invariant over the same region, by cases on the
move.
-/
theorem perform (sound : traffic.Sound) {move : Move} (allowed : traffic.Allows move)
    : ∃ next,
        traffic.perform move = .ok next
        ∧ next.Sound
        ∧ next.region.pool.bottom = traffic.region.pool.bottom
        ∧ next.region.pool.size = traffic.region.pool.size := by
  cases move with
  | enter call => exact ⟨_, rfl, sound.enter allowed, rfl, rfl⟩
  | advance index =>
      cases found : traffic.underway[index]? with
      | none =>
          refine ⟨traffic, ?_, sound, rfl, rfl⟩
          simp only [Traffic.perform, advance, found]
      | some task =>
          rcases Nat.eq_zero_or_pos task.stage.remaining with finished | unfinished
          · exact ⟨traffic, advance_done found finished, sound, rfl, rfl⟩
          · obtain ⟨stage, after, steps, performed⟩ := sound.next found unfinished
            exact ⟨_, performed, sound.of_steps found steps, steps.sameBottom, steps.sameSize⟩
  | leave index =>
      have sameRegion : (traffic.leave index).region = traffic.region := by
        rw [Traffic.leave]
        split
        next => split <;> rfl
        next => rfl
      exact ⟨_, rfl, sound.leave index, by rw [sameRegion], by rw [sameRegion]⟩
  | write handle offset bytes =>
      obtain ⟨block, live, rfl, inside⟩ := allowed
      exact ⟨_, rfl, sound.write live inside, rfl, rfl⟩

/-- Admitted moves go through to the end and keep the invariant, by induction on the moves. -/
theorem after (sound : traffic.Sound) {moves : List Move} (admitted : traffic.Admits moves)
    : ∃ last,
        traffic.after moves = .ok last
        ∧ last.Sound
        ∧ last.region.pool.bottom = traffic.region.pool.bottom
        ∧ last.region.pool.size = traffic.region.pool.size := by
  induction moves generalizing traffic with
  | nil => exact ⟨traffic, rfl, sound, rfl, rfl⟩
  | cons move rest ih =>
      obtain ⟨allowed, restAdmitted⟩ := admitted
      obtain ⟨next, performed, nextSound, nextBottom, nextSize⟩ := sound.perform allowed
      rw [performed] at restAdmitted
      obtain ⟨last, reached, lastSound, lastBottom, lastSize⟩ :=
        ih nextSound (restAdmitted next rfl)
      refine ⟨last, ?_, lastSound, lastBottom.trans nextBottom, lastSize.trans nextSize⟩
      simp only [Traffic.after, performed]
      exact reached

end Sound

--------------------------------------------------------------------------------
-- Every interleaving is in order
--------------------------------------------------------------------------------

/-- The extents of live blocks and of blocks that calls under way hold, and the holes. -/
def extents (traffic : Traffic) : List Extent :=
  (traffic.held ++ traffic.live).map Block.extent ++ traffic.region.pool.holes

/-- What holds at every point over a region that was set up as the pool `usable`. -/
structure Orderly (traffic : Traffic) (usable : Pool) : Prop where
  /-- Live blocks, held blocks and holes share no byte. -/
  apart : traffic.extents.Pairwise Extent.Apart
  /-- Together they are the whole usable region. -/
  whole : ∀ address, Covers traffic.extents address ↔ usable.InRegion address
  nodes : Pool.NodesStored traffic.region.memory traffic.region.pool.holes
  headers : ∀ block ∈ traffic.live, traffic.region.inspect block.address = some block.size
  used
    : traffic.region.pool.used
      = (((traffic.held ++ traffic.live).map Block.extent).map Extent.size).sum
  /-- A call that has done nothing yet will find the block that it was given live. -/
  given
    : ∀ task ∈ traffic.underway,
        ∀ call,
          task.stage = .entry call →
          call = task.call
          ∧ call.block? = task.given.map Block.address
          ∧ ∀ block ∈ task.given, traffic.region.inspect block.address = some block.size
  /-- The next step of every call goes through, brings it nearer to its end, and rewrites no byte of
  a live block or of a block of another call.
  -/
  progress
    : ∀ index task,
        traffic.underway[index]? = some task →
        0 < task.stage.remaining →
        ∃ stage after,
          task.Steps (traffic.others index) traffic.live traffic.region stage after
          ∧ traffic.perform (.advance index)
            = .ok {
                traffic with
                region := after
                underway := traffic.underway.set index { task with stage } }
  /-- A call without steps left is answered and has had its effect, and returns with what it hands
  out.
  -/
  effect
    : ∀ index task,
        traffic.underway[index]? = some task →
        task.stage.remaining = 0 →
        ∃ answer,
          task.stage = .done answer
          ∧ task.Effect traffic.region.memory answer
          ∧ traffic.perform (.leave index)
            = .ok {
                traffic with
                live := (task.handed answer).toList ++ traffic.live
                underway := traffic.underway.eraseIdx index }

theorem Sound.orderly {traffic : Traffic} (sound : traffic.Sound) {usable : Pool}
    (sameBottom : traffic.region.pool.bottom = usable.bottom)
    (sameSize : traffic.region.pool.size = usable.size)
    : traffic.Orderly usable where
  apart := sound.region.tiled.allApart
  whole address := by
    have inside := sound.region.tiled.inRegion_iff address
    rw [Pool.InRegion, sameBottom, sameSize] at inside
    exact inside.symm
  nodes := sound.region.nodes
  headers := sound.region.headers
  used := sound.region.tiled.used
  given _ member _ begun := sound.given_live member begun
  progress _ _ found unfinished := sound.next found unfinished
  effect index task found finished := by
    obtain ⟨answer, same⟩ := Stage.eq_done_of_remaining finished
    refine ⟨answer, same, sound.effect found same, ?_⟩
    simp only [Traffic.perform, Traffic.leave, found, same]

/-- The primitives of the region heap may interrupt each other, as the heap declares: undisturbed,
the steps of a call are the primitive; and over every region that was set up, or never was, every
interleaving of steps goes through and is in order at each point.
-/
theorem interrupt_safe {region : Region} (opened : region.Opened) {moves : List Move}
    (admitted : (fresh region).Admits moves)
    : BlockHeap.interruptSafe Region = true
      ∧ (∀ (call : Call) (before : Region),
          (Stage.entry call).steps 6 before = (call.perform before).map .done)
      ∧ ∃ traffic, (fresh region).after moves = .ok traffic ∧ traffic.Orderly region.pool := by
  have sound : (fresh region).Sound := ⟨opened.sound, nofun⟩
  obtain ⟨traffic, reached, trafficSound, sameBottom, sameSize⟩ := sound.after admitted
  exact ⟨rfl, Stage.steps_entry, traffic, reached, trafficSound.orderly sameBottom sameSize⟩

/-- With its tag wiped, a resize is interrupted by a call that takes the place it needs, and that
call by a release; the resize is refused, and its block is live again.
-/
theorem interrupt_safe_of_nested
    : let usable : Pool := { bottom := 4096, size := 64, holes := [⟨4096, 64⟩] }
      let region : Region := ⟨Pool.storeNodes (fun _ => 7) usable.holes, usable⟩
      let moves := [
        .enter (.allocate 8), .advance 0, .advance 0, .leave 0,
        .enter (.allocate 8), .advance 0, .advance 0, .leave 0,
        .write 4104 0 [1, 2, 3],
        .enter (.reallocate 4104 20), .advance 0, .advance 0,
        .enter (.allocateZeroed 8), .advance 0,
        .enter (.release 4120), .advance 0, .advance 0, .advance 0, .leave 0,
        .advance 0, .advance 0, .leave 0,
        .advance 0, .advance 0, .leave 0
      ]
      Region.init? (fun _ => 7) 4096 64 = .ok region
      ∧ (fresh region).Admits moves
      ∧ ∃ traffic,
          (fresh region).after moves = .ok traffic
          ∧ traffic.Orderly usable
          ∧ traffic.live = [⟨4104, 8⟩, ⟨4136, 8⟩]
          ∧ traffic.underway.length = 0
          ∧ traffic.region.pool.holes = [⟨4112, 16⟩, ⟨4144, 16⟩] := by
  intro usable region moves
  have ready : Region.init? (fun _ => 7) 4096 64 = .ok region := rfl
  have admitted : (fresh region).Admits moves := by decide
  obtain ⟨_, _, traffic, reached, orderly⟩ := interrupt_safe (.init ready) admitted
  have ends : ((fresh region).after moves).toOption.map
        (fun last => (last.live, last.underway.length, last.region.pool.holes))
      = some ([⟨4104, 8⟩, ⟨4136, 8⟩], 0, [⟨4112, 16⟩, ⟨4144, 16⟩]) := by decide
  simp only [reached, Except.toOption, Option.map_some, Option.some.injEq, Prod.mk.injEq] at ends
  obtain ⟨live, finished, holes⟩ := ends
  exact ⟨ready, admitted, traffic, reached, orderly, live, finished, holes⟩

end Traffic

end Firmware
