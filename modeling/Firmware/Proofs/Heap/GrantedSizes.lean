import Firmware.Proofs.Heap.HistoryIndependence
import Firmware.Proofs.Heap.StoreHeaps
import Firmware.Proofs.Heap.SurfaceAgreement

/-! Blocks have exactly the size that was asked for.
A block that is granted on any surface records the number of bytes that its request names, a product
of count and size without any wrapping, and has room for all of them; the bytes of a zeroed block are
zero, whatever lay there before. This holds of the region heap in every session, and of the budget
heap in every state that its clients can bring about (`Session.granted_sizes_exact`).
-/

namespace Firmware

--------------------------------------------------------------------------------
-- What a request asks for
--------------------------------------------------------------------------------

/-- A block of zeros is asked for. -/
def Request.Zeroes : Request → Prop
  | .allocateZeroed _ _ => True
  | .allocate _ | .reallocate _ _ | .release _ => False

instance : (request : Request) → Decidable request.Zeroes
  | .allocateZeroed _ _ => inferInstanceAs (Decidable True)
  | .allocate _ | .reallocate _ _ | .release _ => inferInstanceAs (Decidable False)

namespace Surface

/-- The number of bytes that a request asks for. Layouts tell the size of new blocks, and neither they
nor the primitives know counts.
-/
def asks? : Surface → Request → Option Nat
  | .layout choice, .allocate size | .layout choice, .allocateZeroed _ size =>
      some (choice.size.getD size)
  | .primitive, .allocateZeroed _ size => some size
  | _, .allocate size | _, .reallocate _ size => some size
  | _, .allocateZeroed count size => some (count * size)
  | _, .release _ => none

theorem size_layout? {choice : LayoutChoice} {natural : Nat} {layout : Layout}
    (found : choice.layout? natural = some layout)
    : layout.size = choice.size.getD natural := by
  rw [LayoutChoice.layout?, Layout.ofSize?] at found
  split at found
  · cases found
    rfl
  · cases found

/-- A request that is passed on by the bridge asks for its own size, and for zeros if it says so. -/
theorem asks_of_forwards {request : Request} {call : Call} (forwards : request.Forwards call)
    : call.size? = Surface.plain.asks? request
      ∧ (request.Zeroes → call.draws? = (Surface.plain.asks? request).map (true, ·)) := by
  cases forwards with
  | allocateZeroed count size => exact ⟨rfl, fun _ => rfl⟩
  | allocate size | reallocateNull size | reallocate block size | release block =>
      exact ⟨rfl, fun zeroes => zeroes.elim⟩

/-- A request reaches the heap as a call for exactly what it asks for. -/
theorem asks_of_call? {H : Type} [BlockHeap H] {surface : Surface} {request : Request} {call : Call}
    (reached : surface.call? H request = some call)
    : call.size? = surface.asks? request
      ∧ (request.Zeroes → call.draws? = (surface.asks? request).map (true, ·)) := by
  cases surface with
  | typed | plain | linked | reentrant _ =>
      have asks := asks_of_forwards (Bridge.forwards_of_call? reached)
      cases request <;> exact asks
  | layout choice =>
      obtain ⟨made, layoutReached, bridgeReached⟩ := Option.bind_eq_some_iff.mp reached
      have asks := asks_of_forwards (Bridge.forwards_of_call? bridgeReached)
      rw [layoutRequest?_eq] at layoutReached
      split at layoutReached
      · cases layoutReached
      next chosen found =>
        obtain ⟨_, ⟨⟩⟩ := Option.ite_none_left_eq_some.mp layoutReached
        have size := size_layout? found
        cases request with
        | allocate natural =>
            simp only [Request.sizedBy, asks?, size, Request.layoutSize] at asks
            exact asks
        | allocateZeroed count natural =>
            simp only [Request.sizedBy, asks?, size, Request.layoutSize, Nat.one_mul] at asks
            exact asks
        | reallocate block size | release block => exact asks
  | primitive =>
      cases request with
      | allocate size =>
          cases reached
          exact ⟨rfl, fun zeroes => zeroes.elim⟩
      | allocateZeroed count size =>
          cases reached
          exact ⟨rfl, fun _ => rfl⟩
      | reallocate block size | release block =>
          obtain ⟨_, _, rfl⟩ := Option.map_eq_some_iff.mp reached
          exact ⟨rfl, fun zeroes => zeroes.elim⟩

/-- A reply that tells a block tells the answer to the call. -/
theorem answer_of_block? {surface : Surface} {call : Call} {answer : Option Nat} {address : Nat}
    (granted : (surface.reply call answer).block? = some address)
    : answer = some address := by
  cases call with
  | allocate _ | allocateZeroed _ | reallocate _ _ =>
      rwa [block?_reply surface rfl] at granted
  | release _ => cases granted

end Surface

--------------------------------------------------------------------------------
-- The region heap
--------------------------------------------------------------------------------

/-- A call that is answered with a block asks for as many bytes as a header can record. -/
theorem Call.size?_of_answer? {call : Call} {pool : Pool} {ledger : Ledger} {address : Nat}
    (answered : call.answer? pool ledger = some address)
    : ∃ size, call.size? = some size ∧ size < BlockHeader.sizeLimit := by
  have limited {size : Nat} (placed : pool.blockFor? size = some address)
      : size < BlockHeader.sizeLimit := by
    obtain ⟨place, found, _⟩ := Option.map_eq_some_iff.mp placed
    exact (Pool.place?_eq_some_iff.mp found).1
  cases call with
  | allocate size | allocateZeroed size => exact ⟨size, rfl, limited answered⟩
  | reallocate block size =>
      exact ⟨size, rfl, limited (Option.ite_none_right_eq_some.mp answered).2⟩
  | release block => cases answered

namespace Session

/-- The block is live and has its size on record, and a raw block with room for its header and all its
bytes is reserved for it alone.
-/
structure Keeps (session : Session) (block : Block) : Prop where
  live : block ∈ session.ledger.live
  recorded : session.region.inspect block.address = some block.size
  header : block.extent.start + BlockHeader.size = block.address
  room : block.size + BlockHeader.size ≤ block.extent.size
  inside
    : ∀ address, block.extent.Contains address → session.region.pool.InRegion address
  noHole : ∀ hole ∈ session.region.pool.holes, block.extent.Apart hole
  noOther : ∀ other ∈ session.ledger.live, other ≠ block → block.extent.Apart other.extent

theorem Sound.keeps {session : Session} (sound : session.Sound) {block : Block}
    (live : block ∈ session.ledger.live)
    : session.Keeps block where
  live := live
  recorded := sound.headers block live
  header := Nat.sub_add_cancel (sound.placed block live)
  room := Pool.le_extentSize _
  inside := sound.tiled.takenInside _ (List.mem_map_of_mem live)
  noHole _ := sound.tiled.apart_of_hole (List.mem_map_of_mem live)
  noOther _ otherLive different := sound.apart live otherLive different.symm

/-- A block that is granted is live with the size that was asked for, and zeroed if so it was asked. -/
theorem Sound.granted_exact {session : Session} (sound : session.Sound) {surface : Surface}
    {request : Request} {reply : Reply} {address : Nat}
    (allowed : (Event.ask surface request).Allowed session.ledger)
    (answered : (session.perform (.ask surface request)).1 = .ok reply)
    (granted : reply.block? = some address)
    : ∃ size,
        surface.asks? request = some size
        ∧ size < BlockHeader.sizeLimit
        ∧ (session.step (.ask surface request)).Keeps ⟨address, size⟩
        ∧ (request.Zeroes →
            ∀ i, i < size →
              (session.step (.ask surface request)).region.memory (address + i) = 0) := by
  cases reached : surface.call? Region request with
  | none =>
      obtain ⟨refusal, noBlock, refused⟩ := perform_unreached reached
      rw [refused] at answered
      cases answered
      cases noBlock.symm.trans granted
  | some call =>
      obtain ⟨after, performed, follows, filled⟩ := sound.perform_reached allowed reached
      rw [performed] at answered
      cases answered
      rw [block?_reply] at granted
      obtain ⟨size, sized, limited⟩ := Call.size?_of_answer? granted
      obtain ⟨asked, zeroes⟩ := Surface.asks_of_call? reached
      rw [sized] at asked
      rw [granted] at performed follows filled
      have next : session.step (.ask surface request)
          = ⟨after, session.ledger.record call (some address)⟩ :=
        congrArg Prod.snd performed
      have nextSound : Session.Sound ⟨after, session.ledger.record call (some address)⟩ :=
        follows.sound
      have live : ⟨address, size⟩ ∈ (session.ledger.record call (some address)).live := by
        refine Ledger.mem_live_record.mpr ⟨Or.inl ?_, ?_⟩
        · rw [Call.granted?, sized]
          rfl
        · intro handle returned
          cases call with
          | allocate _ | allocateZeroed _ => cases returned
          | reallocate block _ =>
              cases returned
              exact (filled address rfl).1
          | release block => cases sized
      rw [next]
      refine ⟨size, asked.symm, limited, nextSound.keeps live, fun zeroed => ?_⟩
      have drawn := zeroes zeroed
      rw [← asked] at drawn
      cases call with
      | allocateZeroed _ =>
          cases drawn
          exact filled address rfl
      | allocate _ | reallocate _ _ | release _ => cases drawn

end Session

--------------------------------------------------------------------------------
-- The budget heap
--------------------------------------------------------------------------------

/-- A block that is answered is stored with the size that its call asks for. -/
theorem BlockStore.Answers.stored {store later : BlockStore} {call : Call} {address : Nat}
    (answers : store.Answers call (some address) later)
    : ∃ bytes,
        later address = some bytes
        ∧ call.size? = some bytes.length
        ∧ ∀ size, call.draws? = some (true, size) → bytes = List.replicate size 0 := by
  cases answers with
  | allocated absent length =>
      refine ⟨_, store.set_self .., congrArg some length.symm, ?_⟩
      rintro size ⟨⟩
  | zeroed absent =>
      refine ⟨_, store.set_self .., congrArg some List.length_replicate.symm, ?_⟩
      rintro size ⟨⟩
      rfl
  | resized present absent length common =>
      refine ⟨_, BlockStore.set_self .., congrArg some length.symm, ?_⟩
      rintro size ⟨⟩

/-- Bytes may be written over with themselves. -/
theorem Memory.overwrite_widened {memory : Memory} {start count wide : Nat} {value : Nat → UInt8}
    (within : count ≤ wide)
    : memory.overwrite start count value
      = memory.overwrite start wide fun i => if i < count then value i else memory (start + i) := by
  funext address
  simp only [overwrite_apply]
  by_cases inside : start ≤ address ∧ address < start + count
  · have inWide : start ≤ address ∧ address < start + wide := by omega
    rw [if_pos inside, if_pos inWide, if_pos (by omega)]
  · rw [if_neg inside]
    split
    · rw [if_neg (by omega), Nat.add_sub_cancel' (by omega)]
    · rfl

theorem Memory.eq_of_read_eq_replicate {memory : Memory} {start count other : Nat} {byte : UInt8}
    (same : memory.read start count = List.replicate other byte) {i : Nat} (inside : i < count)
    : memory (start + i) = byte :=
  (List.eq_replicate_iff.mp same).2 _ (List.mem_map_of_mem (List.mem_range.mpr inside))

namespace BudgetHeap

variable {S : Type} [InspectableHost S]

/-- The states that the clients of a heap can bring about: they make requests on any surface, with any
handles, and write any bytes into live blocks. A request that stops the program is the last one.
-/
inductive Reached (start : BudgetHeap S) : BudgetHeap S → Prop where
  | start : Reached start start
  | ask {heap surface request reply} (reached : Reached start heap)
    (answered : (Surface.serve surface request heap).result = .ok reply)
    : Reached start (surface.serve request heap).heap
  | write {heap handle size offset} {bytes : List UInt8} (reached : Reached start heap)
    (live : heap.sizeOf? handle = some size) (inside : offset + bytes.length ≤ size)
    : Reached start
        (InspectableHeap.withMemory heap
          ((InspectableHeap.memory heap).overwrite (handle + offset) bytes.length fun i =>
            bytes.getD i 0))

variable {contract : HostContract S} {heap : BudgetHeap S} {store : BlockStore}

/-- A call that names a dead block is answered with none, and what is live stays as it was. -/
theorem Holds.dead {call : Call} {answer : Option Nat} {handle : Nat}
    (holds : heap.Holds contract store) (about : call.block? = some handle)
    (gone : store handle = none) (answered : (call.perform heap).result = .ok answer)
    : answer = none ∧ Holds contract (call.perform heap).heap store := by
  have dead : heap.sizeOf? handle = none := by
    rw [← holds.2, stored, Option.map_eq_none_iff] at gone
    exact gone
  have effect := heap.effect_perform call
  generalize call.perform heap = outcome at effect answered ⊢
  cases effect with
  | refused | unknown =>
      cases answered
      exact ⟨rfl, holds⟩
  | drawStopped | resizeStopped | releaseStopped => cases answered
  | drawRefused draws asked => cases (Call.block?_of_draws? draws).symm.trans about
  | drawn draws fits possible asked => cases (Call.block?_of_draws? draws).symm.trans about
  | resizeRefused live asked =>
      cases about
      cases dead.symm.trans live
  | resized live fits possible asked =>
      cases about
      cases dead.symm.trans live
  | released live possible =>
      cases about
      cases dead.symm.trans live

/-- A call answers as a store does, or is answered with none. -/
theorem Holds.answers {call : Call} {answer : Option Nat} (holds : heap.Holds contract store)
    (answered : (call.perform heap).result = .ok answer)
    : ∃ later,
        Holds contract (call.perform heap).heap later
        ∧ (answer = none ∨ store.Answers call answer later) := by
  by_cases named : ∃ handle ∈ call.block?, store handle = none
  · obtain ⟨handle, about, gone⟩ := named
    obtain ⟨refused, holdsLater⟩ := holds.dead about gone answered
    exact ⟨store, holdsLater, Or.inl refused⟩
  · have present : ∀ handle ∈ call.block?, store handle ≠ none :=
      fun handle about gone => named ⟨handle, about, gone⟩
    obtain ⟨later, answers, holdsLater⟩ := holds.performs present answered
    exact ⟨later, holdsLater, Or.inr answers⟩

/-- Bytes written into a live block change nothing else. -/
theorem Holds.write {handle size offset : Nat} {bytes : List UInt8}
    (holds : heap.Holds contract store) (live : heap.sizeOf? handle = some size)
    (inside : offset + bytes.length ≤ size)
    : ∃ later,
        Holds contract
          (InspectableHeap.withMemory heap
            ((InspectableHeap.memory heap).overwrite (handle + offset) bytes.length fun i =>
              bytes.getD i 0))
          later := by
  have present : store handle = some ((InspectableHost.memory heap.host).read handle size) := by
    rw [← holds.2, stored, live]
    rfl
  have written := holds.writes offset
    (fun i =>
      if i < bytes.length then bytes.getD i 0
      else InspectableHost.memory heap.host (handle + offset + i))
    present
  rw [Memory.length_read, ← Memory.overwrite_widened (by omega)] at written
  exact ⟨_, written⟩

/-- A request is answered without the heap, or as its call is. -/
theorem Holds.serve {surface : Surface} {request : Request} {reply : Reply}
    (holds : heap.Holds contract store)
    (answered : (surface.serve request heap).result = .ok reply)
    : ∃ later,
        Holds contract (surface.serve request heap).heap later
        ∧ ∀ address,
            reply.block? = some address →
            ∃ call,
              surface.call? (BudgetHeap S) request = some call
              ∧ store.Answers call (some address) later := by
  cases reached : surface.call? (BudgetHeap S) request with
  | none =>
      obtain ⟨refusal, noBlock, served⟩ := Surface.serve_unreached reached
      rw [served] at answered ⊢
      cases answered
      refine ⟨store, holds, fun address granted => ?_⟩
      cases noBlock.symm.trans granted
  | some call =>
      rw [Surface.serve_reached reached] at answered ⊢
      cases performed : (call.perform heap).result with
      | error fault =>
          rw [Outcome.result_map, performed] at answered
          cases answered
      | ok answer =>
          rw [Outcome.result_map, performed] at answered
          cases answered
          obtain ⟨later, holdsLater, answers⟩ := holds.answers performed
          refine ⟨later, holdsLater, fun address granted => ⟨call, rfl, ?_⟩⟩
          have block : answer = some address := Surface.answer_of_block? granted
          rw [block] at answers
          exact answers.resolve_left (by simp)

/-- In every state that clients can bring about the heap keeps byte strings, by induction on how they
do.
-/
theorem Reached.holds {start : BudgetHeap S} (holds : start.Holds contract store)
    (reached : start.Reached heap)
    : ∃ current, heap.Holds contract current := by
  induction reached with
  | start => exact ⟨store, holds⟩
  | ask _ answered ih =>
      obtain ⟨current, holdsCurrent⟩ := ih
      obtain ⟨later, holdsLater, _⟩ := holdsCurrent.serve answered
      exact ⟨later, holdsLater⟩
  | write _ live inside ih =>
      obtain ⟨current, holdsCurrent⟩ := ih
      exact holdsCurrent.write live inside

/-- The block has its size on record, and the host has lent enough bytes for it, which it has lent for
no other block.
-/
structure Keeps (heap : BudgetHeap S) (contract : HostContract S) (block : Block) : Prop where
  recorded : heap.sizeOf? block.address = some block.size
  room : ∃ lent, contract.Lends heap.host lent ∧ ∃ size ≥ block.size, lent block.address = some size

/-- A block that is granted is recorded with the size that was asked for, and zeroed if so it was
asked.
-/
theorem Holds.granted_exact {surface : Surface} {request : Request} {reply : Reply} {address : Nat}
    (holds : heap.Holds contract store)
    (answered : (surface.serve request heap).result = .ok reply)
    (granted : reply.block? = some address)
    : let after := (surface.serve request heap).heap
      ∃ size,
        surface.asks? request = some size
        ∧ after.Keeps contract ⟨address, size⟩
        ∧ (request.Zeroes →
            ∀ i, i < size → InspectableHost.memory after.host (address + i) = 0) := by
  intro after
  obtain ⟨later, holdsLater, answers⟩ := holds.serve answered
  obtain ⟨call, reached, callAnswers⟩ := answers address granted
  obtain ⟨bytes, present, sized, zeros⟩ := callAnswers.stored
  obtain ⟨asked, zeroes⟩ := Surface.asks_of_call? reached
  obtain ⟨recorded, read⟩ := holdsLater.recorded present
  rw [sized] at asked
  refine ⟨bytes.length, asked.symm, ⟨recorded, _, holdsLater.1, _, le_hostSize _, ?_⟩, ?_⟩
  · rw [loans, recorded]
    rfl
  · intro zeroed i inside
    have drawn := zeroes zeroed
    rw [← asked] at drawn
    exact Memory.eq_of_read_eq_replicate (read.trans (zeros _ drawn)) inside

end BudgetHeap

--------------------------------------------------------------------------------
-- Both heaps
--------------------------------------------------------------------------------

namespace Session

/-- A request on any surface that is granted, in any state that clients can bring about, hands out a
block of exactly the size that it asks for, all of it zero if so it asks. The region heap records no
size that is cut to fit its header, and has reserved the header and all the bytes for this block. The
budget heap does the same as long as its host keeps its promises.
-/
theorem granted_sizes_exact {region : Region} (opened : region.Opened) {events : List Event}
    (admitted : (fresh region).Admits events) {S : Type} [InspectableHost S]
    (contract : HostContract S) {host : S} (unlent : contract.Lends host Loans.none)
    {capacity : Nat} {heap : BudgetHeap S}
    (reached : BudgetHeap.Reached { capacity, host } heap)
    : let session := (fresh region).after events
      (∀ surface request reply address,
        (Event.ask surface request).Allowed session.ledger →
        (session.perform (.ask surface request)).1 = .ok reply →
        reply.block? = some address →
        let after := session.step (.ask surface request)
        ∃ size,
          surface.asks? request = some size
          ∧ size < BlockHeader.sizeLimit
          ∧ after.Keeps ⟨address, size⟩
          ∧ (request.Zeroes → ∀ i, i < size → after.region.memory (address + i) = 0))
      ∧ ∀ (surface : Surface) request reply address,
          (surface.serve request heap).result = .ok reply →
          reply.block? = some address →
          let after := (surface.serve request heap).heap
          ∃ size,
            surface.asks? request = some size
            ∧ after.Keeps contract ⟨address, size⟩
            ∧ (request.Zeroes →
                ∀ i, i < size → InspectableHost.memory after.host (address + i) = 0) := by
  intro session
  have sound := (opened.sound.after admitted).1
  have empty : BudgetHeap.Holds contract { capacity, host } BlockStore.empty := ⟨unlent, rfl⟩
  obtain ⟨store, holds⟩ := reached.holds empty
  refine ⟨fun surface request reply address allowed => sound.granted_exact allowed, ?_⟩
  intro surface request reply address answered granted
  exact holds.granted_exact answered granted

/-- Three elements of five bytes are asked for after a block was written and given back. -/
theorem granted_sizes_exact_of_leftovers
    : let usable : Pool := { bottom := 4096, size := 128, holes := [⟨4096, 128⟩] }
      let region : Region := ⟨Pool.storeNodes (fun _ => 7) usable.holes, usable⟩
      let events := [
        .ask .plain (.allocate 20),
        .write 4104 2 [1, 2, 3],
        .ask .linked (.release (some 4104))
      ]
      let session := (fresh region).after events
      let zeroed := Request.allocateZeroed 3 5
      let host : FreshHost := { next := 8, memory := fun _ => 3 }
      let start : BudgetHeap FreshHost := { capacity := 100, host }
      let heap := (Surface.typed.serve (.allocate 20) start).heap
      Region.init? (fun _ => 7) 4096 128 = .ok region
      ∧ (fresh region).Admits events
      ∧ FreshHost.contract.Lends host Loans.none
      ∧ start.Reached heap
      ∧ (session.perform (.ask .linked zeroed)).1 = .ok (.handle (some 4104))
      ∧ (session.step (.ask .linked zeroed)).Keeps ⟨4104, 15⟩
      ∧ (∀ i, i < 15 → (session.step (.ask .linked zeroed)).region.memory (4104 + i) = 0)
      ∧ (Surface.typed.serve zeroed heap).result = .ok (.handle (some 32))
      ∧ (Surface.typed.serve zeroed heap).heap.Keeps FreshHost.contract ⟨32, 15⟩ := by
  intro usable region events session zeroed host start heap
  have ready : Region.init? (fun _ => 7) 4096 128 = .ok region := rfl
  have admitted : (fresh region).Admits events := by decide
  have unlent : FreshHost.contract.Lends host Loans.none :=
    ⟨by rintro _ _ _ _ ⟨⟩, by rintro _ _ ⟨⟩⟩
  have asked : (Surface.typed.serve (.allocate 20) start).result = .ok (.handle (some 8)) := rfl
  have reached : start.Reached heap := .ask .start asked
  have granted : (session.perform (.ask .linked zeroed)).1 = .ok (.handle (some 4104)) := by decide
  have drawn : (Surface.typed.serve zeroed heap).result = .ok (.handle (some 32)) := rfl
  obtain ⟨onRegion, onBudget⟩ :=
    granted_sizes_exact (.init ready) admitted FreshHost.contract unlent reached
  obtain ⟨size, asks, _, keeps, zeros⟩ := onRegion .linked zeroed _ 4104 (by decide) granted rfl
  obtain ⟨budgetSize, budgetAsks, budgetKeeps, _⟩ := onBudget .typed zeroed _ 32 drawn rfl
  have sized : 15 = size := Option.some.inj asks
  have budgetSized : 15 = budgetSize := Option.some.inj budgetAsks
  subst sized budgetSized
  have zeroes : zeroed.Zeroes := by decide
  refine ⟨ready, admitted, unlent, reached, granted, keeps, ?_, drawn, budgetKeeps⟩
  with_reducible exact zeros zeroes

end Session

end Firmware
