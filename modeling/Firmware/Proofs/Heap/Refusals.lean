import Firmware.Heap.Budget
import Firmware.Proofs.Heap.HeapViews
import Firmware.Proofs.Heap.SessionSteps

/-! Refused requests leave no trace.
Whatever surface a request was made on and whatever it was refused for, the region heap is the same
afterwards, byte for byte; a resize that wiped a header before it found no room has written the
header again. The budget heap has counted the call, and its host may have noticed that it was asked
(`Session.refusal_atomic`).
-/

namespace Firmware

/-- The answers that tell a client that its request was refused, or was not even made. -/
def Reply.Refuses : Reply → Prop
  | .handle none | .refused _ | .noLayout | .skipped => True
  | .handle (some _) | .done => False

theorem Reply.Refuses.block? {reply : Reply} (refuses : reply.Refuses) : reply.block? = none := by
  match reply with
  | .handle none | .refused _ | .noLayout | .skipped => rfl
  | .handle (some _) | .done => exact refuses.elim

/-- A call is answered with a refusal exactly if it asked for a block and got none. -/
theorem Surface.refuses_reply_iff {surface : Surface} {call : Call} {answer : Option Nat}
    : (surface.reply call answer).Refuses ↔ call.size?.isSome ∧ answer = none := by
  cases call <;> cases surface <;> cases answer <;>
    simp [Surface.reply, Reply.Refuses, Call.size?]

/-- A request is refused without the heap, or because its call for a block is answered with none. -/
theorem Surface.refused_cases {H : Type} [BlockHeap H] {surface : Surface} {request : Request}
    {heap : H} {reply : Reply} (answered : (surface.serve request heap).result = .ok reply)
    (refuses : reply.Refuses)
    : surface.call? H request = none ∧ (surface.serve request heap).heap = heap
      ∨ ∃ call,
          surface.call? H request = some call
          ∧ call.size?.isSome
          ∧ call.perform heap = .answer none (surface.serve request heap).heap := by
  cases reached : surface.call? H request with
  | none =>
      obtain ⟨refusal, _, served⟩ := serve_unreached reached
      refine Or.inl ⟨rfl, ?_⟩
      rw [served]
      rfl
  | some call =>
      rw [serve_reached reached] at answered ⊢
      refine Or.inr ⟨call, rfl, ?_⟩
      rcases performed : call.perform heap with ⟨fault | answer, after⟩
      · rw [performed] at answered
        cases answered
      · rw [performed] at answered
        cases answered
        obtain ⟨asks, rfl⟩ := refuses_reply_iff.mp refuses
        exact ⟨asks, rfl⟩

--------------------------------------------------------------------------------
-- The region heap
--------------------------------------------------------------------------------

/-- A call for a block that is answered with none leaves the region as it was, whatever state the
region is in, by cases on how far the call gets.
-/
theorem Region.perform_refused {region after : Region} {call : Call} (asks : call.size?.isSome)
    (refused : call.perform region = .answer none after)
    : after = region := by
  have unchanged {outcome : Outcome Region (Option Nat)} (same : outcome = .answer none region)
      (answered : outcome = .answer none after)
      : after = region :=
    congrArg Outcome.heap (answered.symm.trans same)
  cases call with
  | allocate size =>
      cases placed : region.pool.place? size with
      | none => exact unchanged (allocate_of_no_place placed) refused
      | some place =>
          have fits := (Pool.place?_eq_some_iff.mp placed).1
          simp only [Call.perform, BlockHeap.allocate, allocate, BlockHeader.rawSize?, if_pos fits,
            reserve?_of_place placed] at refused
          cases refused
  | allocateZeroed size =>
      cases placed : region.pool.place? size with
      | none => exact unchanged (allocateZeroed_of_no_place placed) refused
      | some place =>
          have fits := (Pool.place?_eq_some_iff.mp placed).1
          simp only [Call.perform, BlockHeap.allocateZeroed, allocateZeroed, BlockHeader.rawSize?,
            if_pos fits, reserve?_of_place placed] at refused
          cases refused
  | reallocate handle size =>
      cases live : region.inspect handle with
      | none => exact unchanged (reallocate_of_dead live) refused
      | some old =>
          cases placed : region.pool.place? size with
          | none => exact unchanged (reallocate_of_no_place live placed) refused
          | some place =>
              have fits := (Pool.place?_eq_some_iff.mp placed).1
              have reserved : (region.retire (BlockHeader.rawOf handle)).reserve? _ = _ :=
                reserve?_of_place placed
              have result := congrArg Outcome.result refused
              simp only [Call.perform, BlockHeap.reallocate, reallocate, BlockHeader.rawSize?,
                if_pos fits, live, reserved] at result
              -- there was room, so the move goes through or stops the program
              revert result
              generalize Outcome.result (relinquish _ _ _) = released
              intro result
              cases released <;> cases result
  | release handle => cases asks

theorem Ledger.record_refused (ledger : Ledger) {call : Call} (asks : call.size?.isSome)
    : ledger.record call none = ledger := by
  cases call with
  | allocate size | allocateZeroed size | reallocate handle size => rfl
  | release handle => cases asks

/-- A step that refuses its request changes neither the region nor the ledger. -/
theorem Session.step_refused {session : Session} {surface : Surface} {request : Request}
    {reply : Reply} (answered : (session.perform (.ask surface request)).1 = .ok reply)
    (refuses : reply.Refuses)
    : session.step (.ask surface request) = session := by
  have served : (surface.serve request session.region).result = .ok reply := answered
  rcases Surface.refused_cases served refuses with
    ⟨unreached, sameRegion⟩ | ⟨call, reached, asks, performed⟩
  · simp only [step, perform, Ledger.afterRequest, unreached, sameRegion]
  · have sameRegion := Region.perform_refused asks performed
    simp only [step, perform, served, Ledger.afterRequest, reached, refuses.block?,
      Ledger.record_refused _ asks, sameRegion]

/-- A live block that is to be resized is refused if there is no room for the new size, and its
header is as it was.
-/
theorem Session.Sound.resize_refused {session : Session} (sound : session.Sound) {block : Block}
    {surface : Surface} {size : Nat} (live : block ∈ session.ledger.live)
    (reached
      : surface.call? Region (.reallocate (some block.address) size)
        = some (.reallocate block.address size))
    (noRoom : session.region.pool.place? size = none)
    : (∃ reply,
        (session.perform (.ask surface (.reallocate (some block.address) size))).1 = .ok reply
        ∧ reply.Refuses)
      ∧ session.region.inspect block.address = some block.size := by
  have header := sound.headers block live
  have served := Surface.serve_reached reached session.region
  have refused : Call.perform (.reallocate block.address size) session.region
      = .answer none session.region :=
    Region.reallocate_of_no_place header noRoom
  rw [refused] at served
  exact ⟨⟨_, congrArg Outcome.result served, Surface.refuses_reply_iff.mpr ⟨rfl, rfl⟩⟩, header⟩

--------------------------------------------------------------------------------
-- The budget heap
--------------------------------------------------------------------------------

/-- The host has been asked for a block and has refused it. -/
inductive HostAllocator.Refused {S : Type} [HostAllocator S] : S → S → Prop where
  | allocate {size : Nat} {zeroed : Bool} {before after : S}
    (refused : HostAllocator.allocate size zeroed before = (none, after))
    : Refused before after
  | resize {block old new : Nat} {before after : S}
    (refused : HostAllocator.resize block old new before = (none, after))
    : Refused before after

namespace BudgetHeap

variable {S : Type} [HostAllocator S]

/-- The heap after more calls. -/
def countedBy (count : Nat) (heap : BudgetHeap S) : BudgetHeap S :=
  { heap with calls := heap.calls + count }

/-- The same heap but for its host and for calls that have been counted. -/
structure Spared (before after : BudgetHeap S) : Prop where
  same : ∃ count host, count ≤ 1 ∧ after = { before.countedBy count with host }
  host : after.host = before.host ∨ HostAllocator.Refused before.host after.host

theorem take_refused {zeroed : Bool} {size : Nat} {heap after : BudgetHeap S}
    (refused : take zeroed size heap = .answer none after)
    : heap.Spared after := by
  rw [take] at refused
  split at refused
  · cases refused
    exact ⟨⟨1, _, Nat.le_refl _, rfl⟩, Or.inl rfl⟩
  · split at refused
    · cases refused
    · split at refused
      next host asked =>
        cases refused
        exact ⟨⟨1, _, Nat.le_refl _, rfl⟩, Or.inr (.allocate asked)⟩
      next => cases refused

theorem reallocate_refused {block size : Nat} {heap after : BudgetHeap S}
    (refused : reallocate block size heap = .answer none after)
    : heap.Spared after := by
  rw [reallocate] at refused
  split at refused
  · cases refused
    exact ⟨⟨1, _, Nat.le_refl _, rfl⟩, Or.inl rfl⟩
  · split at refused
    · cases refused
      exact ⟨⟨1, _, Nat.le_refl _, rfl⟩, Or.inl rfl⟩
    · split at refused
      · cases refused
      · split at refused
        next host asked =>
          cases refused
          exact ⟨⟨1, _, Nat.le_refl _, rfl⟩, Or.inr (.resize asked)⟩
        next => cases refused

/-- A request that is refused spares the heap, for whatever reason it is refused. -/
theorem serve_refused {surface : Surface} {request : Request} {heap : BudgetHeap S} {reply : Reply}
    (answered : (surface.serve request heap).result = .ok reply) (refuses : reply.Refuses)
    : heap.Spared (surface.serve request heap).heap := by
  rcases Surface.refused_cases answered refuses with ⟨_, unchanged⟩ | ⟨call, _, asks, performed⟩
  · rw [unchanged]
    exact ⟨⟨0, _, Nat.zero_le _, rfl⟩, Or.inl rfl⟩
  · cases call with
    | allocate size | allocateZeroed size => exact take_refused performed
    | reallocate block size => exact reallocate_refused performed
    | release block => cases asks

omit [HostAllocator S] in
theorem counted_countedBy (count : Nat) (heap : BudgetHeap S)
    : (heap.countedBy count).counted = heap.counted.countedBy count := by
  simp only [counted, countedBy, Nat.add_right_comm]

theorem take_countedBy (zeroed : Bool) (size count : Nat) (heap : BudgetHeap S)
    : (take zeroed size heap).mapHeap (countedBy count)
      = take zeroed size (heap.countedBy count) := by
  simp only [take, counted_countedBy]
  generalize heap.counted = counted
  have sameFits : (counted.countedBy count).Fits size ↔ counted.Fits size := Iff.rfl
  have sameHost : (counted.countedBy count).host = counted.host := rfl
  by_cases fits : counted.Fits size
  · by_cases possible : HasLayout size
    · simp only [sameFits, fits, possible, not_true_eq_false, if_false, sameHost]
      rcases HostAllocator.allocate (hostSize size) zeroed counted.host with
        ⟨_ | block, host⟩ <;> rfl
    · simp only [sameFits, fits, possible, not_true_eq_false, not_false_eq_true, if_false, if_true]
      rfl
  · simp only [sameFits, fits, not_false_eq_true, if_true]
    rfl

theorem reallocate_countedBy (block size count : Nat) (heap : BudgetHeap S)
    : (reallocate block size heap).mapHeap (countedBy count)
      = reallocate block size (heap.countedBy count) := by
  simp only [reallocate, counted_countedBy]
  generalize heap.counted = counted
  have sameSize : (counted.countedBy count).sizeOf? block = counted.sizeOf? block := rfl
  have sameHost : (counted.countedBy count).host = counted.host := rfl
  rw [sameSize]
  cases counted.sizeOf? block with
  | none => rfl
  | some old =>
      have sameFits : (counted.countedBy count).Fits (size - old) ↔ counted.Fits (size - old) :=
        Iff.rfl
      by_cases exceeds : old < size ∧ ¬ counted.Fits (size - old)
      · simp only [sameFits, exceeds, not_false_eq_true, and_self, if_true]
        rfl
      · simp only [sameFits, exceeds, if_false]
        by_cases possible : HasLayout old
        · simp only [possible, not_true_eq_false, if_false, sameHost]
          rcases HostAllocator.resize block (hostSize old) (hostSize size) counted.host with
            ⟨_ | moved, host⟩ <;> rfl
        · simp only [possible, not_false_eq_true, if_true]
          rfl

theorem release_countedBy (block count : Nat) (heap : BudgetHeap S)
    : (release block heap).mapHeap (countedBy count) = release block (heap.countedBy count) := by
  simp only [release, counted_countedBy]
  generalize heap.counted = counted
  have sameSize : (counted.countedBy count).sizeOf? block = counted.sizeOf? block := rfl
  rw [sameSize]
  cases counted.sizeOf? block with
  | none => rfl
  | some old =>
      by_cases possible : HasLayout old
      · simp only [possible, not_true_eq_false, if_false]
        rfl
      · simp only [possible, not_false_eq_true, if_true]
        rfl

/-- The number of calls decides nothing. -/
theorem countedBy_heapView (count : Nat)
    : HeapView (countedBy count : BudgetHeap S → BudgetHeap S) where
  alignment := rfl
  perform call heap := by
    cases call with
    | allocate size => exact take_countedBy false size count heap
    | allocateZeroed size => exact take_countedBy true size count heap
    | reallocate block size => exact reallocate_countedBy block size count heap
    | release block => exact congrArg (Outcome.map _) (release_countedBy block count heap)

/-- A heap that was spared while its host did not change serves every request as before. -/
theorem Spared.serve {before after : BudgetHeap S} (spared : before.Spared after)
    (sameHost : after.host = before.host) (surface : Surface) (request : Request)
    : surface.serve request after
      = (surface.serve request before).mapHeap (countedBy (after.calls - before.calls)) := by
  obtain ⟨count, host, _, rfl⟩ := spared.same
  cases sameHost
  have counted : before.calls + count - before.calls = count := Nat.add_sub_cancel_left ..
  simp only [countedBy, counted]
  exact ((countedBy_heapView count).serve surface request before).symm

end BudgetHeap

/-- The sample host that refuses a block is as it was. -/
theorem FreshHost.eq_of_refused {before after : FreshHost}
    (refused : HostAllocator.Refused before after)
    : after = before := by
  cases refused with
  | @allocate size zeroed _ _ refused =>
      by_cases tooLarge : largest < size
      · simp only [HostAllocator.allocate, allocate, if_pos tooLarge] at refused
        cases refused
        rfl
      · simp only [HostAllocator.allocate, allocate, if_neg tooLarge] at refused
        cases refused
  | @resize block old new _ _ refused =>
      by_cases tooLarge : largest < new
      · simp only [HostAllocator.resize, resize, if_pos tooLarge] at refused
        cases refused
        rfl
      · simp only [HostAllocator.resize, resize, if_neg tooLarge] at refused
        cases refused

namespace Session

/-- In every run over a region that was set up, or never was, a request that is refused leaves the
session as it was, so the rest of the run is what it would have been without the request. A live
block for which there is no room is refused, and keeps its header. A request that a budget heap
refuses rewrites no byte, provided that its host rewrites none when it refuses, and moves at most
the number of calls, which nothing depends on.
-/
theorem refusal_atomic {region : Region} (opened : region.Opened) {events : List Event}
    (admitted : (fresh region).Admits events) {S : Type} [InspectableHost S]
    (harmless
      : ∀ before after : S,
          HostAllocator.Refused before after →
          InspectableHost.memory after = InspectableHost.memory before)
    : let reached := (fresh region).after events
      (∀ surface request reply,
        (reached.perform (.ask surface request)).1 = .ok reply →
        reply.Refuses →
        reached.step (.ask surface request) = reached
        ∧ ∀ later,
            reached.after (.ask surface request :: later) = reached.after later
            ∧ reached.results (.ask surface request :: later)
              = .ok reply :: reached.results later)
      ∧ (∀ surface size,
          ∀ block ∈ reached.ledger.live,
            surface.call? Region (.reallocate (some block.address) size)
              = some (.reallocate block.address size) →
            reached.region.pool.place? size = none →
            (∃ reply,
              (reached.perform (.ask surface (.reallocate (some block.address) size))).1 = .ok reply
              ∧ reply.Refuses)
            ∧ reached.region.inspect block.address = some block.size)
      ∧ ∀ (surface : Surface) (request : Request) (heap : BudgetHeap S) (reply : Reply),
          (surface.serve request heap).result = .ok reply →
          reply.Refuses →
          let after := (surface.serve request heap).heap
          heap.Spared after
          ∧ InspectableHost.memory after.host = InspectableHost.memory heap.host
          ∧ (after.host = heap.host →
              ∀ (other : Surface) (later : Request),
                other.serve later after
                  = (other.serve later heap).mapHeap
                      (BudgetHeap.countedBy (after.calls - heap.calls))) := by
  intro reached
  refine ⟨?region, ?resize, ?budget⟩
  case region =>
    intro surface request reply answered refuses
    have unchanged := step_refused answered refuses
    refine ⟨unchanged, fun later => ⟨?_, ?_⟩⟩
    · rw [after, unchanged]
    · rw [results, answered, unchanged]
  case resize =>
    intro surface size block live resizes noRoom
    exact (opened.sound.after admitted).1.resize_refused live resizes noRoom
  case budget =>
    intro surface request heap reply answered refuses after
    have spared := BudgetHeap.serve_refused answered refuses
    refine ⟨spared, ?_, fun sameHost => spared.serve sameHost⟩
    rcases spared.host with sameHost | refused
    · rw [sameHost]
    · exact harmless _ _ refused

/-- A block is not moved for want of room, and a host refuses a block that is too large for it. -/
theorem refusal_atomic_of_full_region
    : let usable : Pool := { bottom := 4096, size := 64, holes := [⟨4096, 64⟩] }
      let region : Region := ⟨Pool.storeNodes (fun _ => 7) usable.holes, usable⟩
      let events := [
        .ask .plain (.allocate 10),
        .write 4104 0 [1, 2, 3],
        .ask .linked (.allocate 8)
      ]
      let reached := (fresh region).after events
      let heap : BudgetHeap FreshHost := { capacity := 0x200000, host := ⟨8, fun _ => 0⟩ }
      let after := (Surface.plain.serve (.allocate 0x100001) heap).heap
      Region.init? (fun _ => 7) 4096 64 = .ok region
      ∧ (fresh region).Admits events
      ∧ (reached.perform (.ask .typed (.reallocate (some 4104) 20))).1
        = .ok (.refused .outOfMemory)
      ∧ reached.step (.ask .typed (.reallocate (some 4104) 20)) = reached
      ∧ reached.region.inspect 4104 = some 10
      ∧ (Surface.plain.serve (.allocate 0x100001) heap).result = .ok (.handle none)
      ∧ heap.Spared after
      ∧ after.calls = 1 := by
  intro usable region events reached heap after
  have ready : Region.init? (fun _ => 7) 4096 64 = .ok region := rfl
  have admitted : (fresh region).Admits events := by decide
  have harmless : ∀ before after : FreshHost,
      HostAllocator.Refused before after →
      InspectableHost.memory after = InspectableHost.memory before :=
    fun before after refused => congrArg FreshHost.memory (FreshHost.eq_of_refused refused)
  obtain ⟨whole, resize, budget⟩ := refusal_atomic (.init ready) admitted harmless
  have refused : (reached.perform (.ask .typed (.reallocate (some 4104) 20))).1
      = .ok (.refused .outOfMemory) := by decide
  have hostRefused : (Surface.plain.serve (.allocate 0x100001) heap).result
      = .ok (.handle none) := by decide
  refine ⟨ready, admitted, refused, (whole _ _ _ refused trivial).1, ?_, hostRefused,
    (budget _ _ heap _ hostRefused trivial).1, by decide⟩
  exact (resize .typed 20 ⟨4104, 10⟩ (by decide) rfl (by decide)).2

end Session

end Firmware
