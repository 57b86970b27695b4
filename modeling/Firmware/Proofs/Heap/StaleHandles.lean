import Firmware.Proofs.Heap.SessionSteps

/-! Handles that were given back stay harmless.
Once a block was released or moved away, its old handle is refused, without a change to a byte or
to the pool, for as long as no block that is handed out later reaches the tag in front of it
(`Session.stale_handle_refused`). Hole nodes are written over the tag in the meantime, and never
make it a live one, since they hold multiples of eight.
-/

namespace Firmware

namespace Ledger

variable {ledger : Ledger} {call : Call} {answer : Option Nat} {handle : Nat}

theorem mem_stale_giveBack_self (live : ledger.Live handle)
    : handle ∈ (ledger.giveBack handle).stale := by
  rw [giveBack, if_pos live]
  exact List.mem_cons_self

/-- Giving back a handle takes no other handle away. -/
theorem mem_stale_giveBack_of_gone {returned : Nat} (live : ledger.Live handle)
    (gone : ¬ (ledger.giveBack returned).Live handle)
    : handle ∈ (ledger.giveBack returned).stale := by
  obtain ⟨block, member, rfl⟩ := live
  by_cases same : block.address = returned
  · rw [same]
    exact mem_stale_giveBack_self ⟨block, member, same⟩
  · have stays : block ∈ (ledger.giveBack returned).live := by
      rw [live_giveBack]
      exact mem_without.mpr ⟨member, same⟩
    exact absurd ⟨block, stays, rfl⟩ gone

theorem mem_stale_giveBack {returned : Nat} (known : handle ∈ ledger.stale)
    : handle ∈ (ledger.giveBack returned).stale := by
  by_cases live : ledger.Live returned
  · rw [giveBack, if_pos live]
    exact List.mem_cons_of_mem _ known
  · rwa [giveBack, if_neg live]

/-- A handle that a call leaves no longer live was given back by it. -/
theorem mem_stale_of_gone (live : ledger.Live handle)
    (gone : ¬ (ledger.record call answer).Live handle)
    : handle ∈ (ledger.record call answer).stale := by
  rw [record] at gone ⊢
  generalize call.granted? answer = granted, call.returned? answer = returned at gone ⊢
  cases granted with
  | none =>
      cases returned with
      | none => exact absurd live gone
      | some other => exact mem_stale_giveBack_of_gone live gone
  | some new =>
      obtain ⟨block, member, same⟩ := live
      have stillLive : (ledger.grant new).Live handle :=
        ⟨block, List.mem_cons_of_mem _ member, same⟩
      cases returned with
      | none => exact absurd stillLive gone
      | some other => exact mem_stale_giveBack_of_gone stillLive gone

/-- A stale handle stays stale if the call hands out no block that reaches its tag. -/
theorem mem_stale_record (known : handle ∈ ledger.stale)
    (unreached : ∀ block ∈ call.granted? answer, ¬ block.ReachesTag handle)
    : handle ∈ (ledger.record call answer).stale := by
  rw [record]
  cases granted : call.granted? answer with
  | none =>
      cases call.returned? answer with
      | none => exact known
      | some other => exact mem_stale_giveBack known
  | some block =>
      have stillKnown : handle ∈ (ledger.grant block).stale :=
        List.mem_filter.mpr ⟨known, decide_eq_true (unreached block granted)⟩
      cases call.returned? answer with
      | none => exact stillKnown
      | some other => exact mem_stale_giveBack stillKnown

/-- A live handle that the call gives back is stale afterwards. -/
theorem mem_stale_record_of_returned (live : ledger.Live handle)
    (returned : call.returned? answer = some handle)
    : handle ∈ (ledger.record call answer).stale := by
  rw [record, returned]
  cases call.granted? answer with
  | none => exact mem_stale_giveBack_self live
  | some block =>
      obtain ⟨other, member, same⟩ := live
      exact mem_stale_giveBack_self ⟨other, List.mem_cons_of_mem _ member, same⟩

end Ledger

namespace Session

variable {session : Session} {event : Event} {handle : Nat}

/-- A step either changes the ledger as its call and its answer say, or leaves it alone. -/
theorem ledger_step (session : Session) (event : Event)
    : (session.step event).ledger = session.ledger
      ∨ ∃ call answer,
          (session.step event).ledger = session.ledger.record call answer
          ∧ event.granted? (session.perform event).1 = call.granted? answer := by
  cases event with
  | write => exact Or.inl rfl
  | ask surface request =>
      cases reached : surface.call? Region request with
      | none =>
          refine Or.inl ?_
          simp only [step, perform, Ledger.afterRequest, reached]
      | some call =>
          cases answered : (surface.serve request session.region).result with
          | error fault =>
              refine Or.inl ?_
              simp only [step, perform, Ledger.afterRequest, reached, answered]
          | ok reply =>
              refine Or.inr ⟨call, reply.block?, ?_, ?_⟩
              · simp only [step, perform, Ledger.afterRequest, reached, answered]
              · simp only [perform, Event.granted?, reached, answered, Option.bind_some]

theorem mem_stale_of_gone (live : session.ledger.Live handle)
    (gone : ¬ (session.step event).ledger.Live handle)
    : handle ∈ (session.step event).ledger.stale := by
  rcases session.ledger_step event with same | ⟨call, answer, same, _⟩
  · exact absurd live (same ▸ gone)
  · rw [same] at gone ⊢
    exact Ledger.mem_stale_of_gone live gone

/-- A stale handle stays stale in a run that hands out no block that reaches its tag, by induction
on the run.
-/
theorem mem_stale_after {events : List Event} (known : handle ∈ session.ledger.stale)
    (unreached : ∀ block ∈ session.handedOut events, ¬ block.ReachesTag handle)
    : handle ∈ (session.after events).ledger.stale := by
  induction events generalizing session with
  | nil => exact known
  | cons event rest ih =>
      obtain ⟨now, later⟩ := List.forall_mem_append.mp unreached
      refine ih ?_ later
      rcases session.ledger_step event with same | ⟨call, answer, same, granted⟩
      · exact same ▸ known
      · rw [same]
        refine Ledger.mem_stale_record known fun block member => now block ?_
        rw [granted]
        exact Option.mem_toList.mpr member

/-- A request about a dead handle is answered without a block and changes nothing, on any surface.
-/
theorem perform_dead (dead : session.region.inspect handle = none) (surface : Surface)
    {request : Request} (about : request.block? = some handle)
    : (session.step (.ask surface request)).region = session.region
      ∧ ∃ reply,
          (session.perform (.ask surface request)).1 = .ok reply ∧ reply.block? = none := by
  cases reached : surface.call? Region request with
  | none =>
      obtain ⟨refusal, noBlock, answered⟩ := perform_unreached reached
      rw [step, answered]
      exact ⟨rfl, refusal, rfl, noBlock⟩
  | some call =>
      have callAbout : call.block? = some handle := (Surface.block?_call? reached).trans about
      have refused : call.perform session.region = .answer none session.region := by
        cases call with
        | allocate size | allocateZeroed size => cases callAbout
        | reallocate other size =>
            cases callAbout
            exact Region.reallocate_of_dead dead
        | release other =>
            cases callAbout
            exact congrArg (Outcome.map fun _ => none) (Region.release_of_dead dead)
      have served : surface.serve request session.region
          = .answer (surface.reply call none) session.region := by
        rw [Surface.serve_reached reached, refused]
        rfl
      have noBlock : (surface.reply call none).block? = none := by
        cases call <;> cases surface <;> rfl
      simp only [step, perform, served, Outcome.answer]
      exact ⟨trivial, _, rfl, noBlock⟩

/-- A handle that was live before some step of a run, and not after it, is refused at the end of the
run, if no block handed out after the step reaches the tag in front of it: the header is not live,
and no request about the handle changes a byte or the pool. Blocks start and end at multiples of
eight, as tags do, so a block that reaches one byte of a tag takes all four.
-/
theorem stale_handle_refused {region : Region} (opened : region.Opened) {earlier later : List Event}
    (admitted : (fresh region).Admits (earlier ++ event :: later))
    (live : ((fresh region).after earlier).ledger.Live handle)
    (gone : ¬ ((fresh region).after (earlier ++ [event])).ledger.Live handle)
    (unreached
      : ∀ block ∈ ((fresh region).after (earlier ++ [event])).handedOut later,
          ¬ block.ReachesTag handle)
    : let reached := (fresh region).after (earlier ++ event :: later)
      reached.region.inspect handle = none
      ∧ Region.release handle reached.region = .answer () reached.region
      ∧ (∀ size, Region.reallocate handle size reached.region = .answer none reached.region)
      ∧ ∀ surface request,
          request.block? = some handle →
          (reached.step (.ask surface request)).region = reached.region
          ∧ ∃ reply,
              (reached.perform (.ask surface request)).1 = .ok reply ∧ reply.block? = none := by
  intro reached
  rw [after_append] at gone unreached
  have known := mem_stale_of_gone live gone
  have stale : handle ∈ reached.ledger.stale := by
    have keeps : handle ∈ ((((fresh region).after earlier).step event).after later).ledger.stale :=
      mem_stale_after known unreached
    rw [show reached = _ from after_append ..]
    exact keeps
  have sound := (opened.sound.after admitted).1
  have dead : reached.region.inspect handle = none := (sound.inert handle stale).inspect
  exact ⟨dead, Region.release_of_dead dead, fun _ => Region.reallocate_of_dead dead,
    fun surface _ about => perform_dead dead surface about⟩

/-- A block is moved away, its neighbour is released, and its extent becomes part of a hole with a
node right on the old tag; then a block is handed out elsewhere.
-/
theorem stale_handle_refused_of_merge
    : let usable : Pool := { bottom := 4096, size := 256, holes := [⟨4096, 256⟩] }
      let region : Region := ⟨Pool.storeNodes (fun _ => 7) usable.holes, usable⟩
      let earlier := [
        .ask .plain (.allocate 10),
        .ask .plain (.allocate 20),
        .ask .plain (.allocate 30)
      ]
      let move := .ask .typed (.reallocate (some 4104) 40)
      let later := [
        .ask .linked (.release (some 4128)),
        .ask .linked (.release (some 4104)),
        .ask .primitive (.allocateZeroed 1 80)
      ]
      let reached := (fresh region).after (earlier ++ move :: later)
      Region.init? (fun _ => 7) 4096 256 = .ok region
      ∧ (fresh region).Admits (earlier ++ move :: later)
      ∧ ((fresh region).after earlier).ledger.Live 4104
      ∧ ¬ ((fresh region).after (earlier ++ [move])).ledger.Live 4104
      ∧ (∀ block ∈ ((fresh region).after (earlier ++ [move])).handedOut later,
          ¬ block.ReachesTag 4104)
      ∧ reached.region.pool.holes = [⟨4096, 56⟩, ⟨4328, 24⟩]
      ∧ reached.region.inspect 4104 = none
      ∧ Region.release 4104 reached.region = .answer () reached.region := by
  intro usable region earlier move later reached
  have ready : Region.init? (fun _ => 7) 4096 256 = .ok region := rfl
  have admitted : (fresh region).Admits (earlier ++ move :: later) := by decide
  have live : ((fresh region).after earlier).ledger.Live 4104 := by decide
  have gone : ¬ ((fresh region).after (earlier ++ [move])).ledger.Live 4104 := by decide
  have unreached : ∀ block ∈ ((fresh region).after (earlier ++ [move])).handedOut later,
      ¬ block.ReachesTag 4104 := by decide
  obtain ⟨dead, released, _⟩ :=
    stale_handle_refused (.init ready) admitted live gone unreached
  exact ⟨ready, admitted, live, gone, unreached, by decide, dead, released⟩

end Session

end Firmware
