import Firmware.Proofs.Heap.BlockStore
import Firmware.Proofs.Heap.BudgetCalls
import Firmware.Proofs.Heap.Hosts
import Firmware.Proofs.Heap.StaleHandles

/-! Heaps that keep byte strings under handles.
The region heap does so as long as its blocks and headers are sound (`Region.storeHeap`), and the
budget heap does so over any host that keeps its promises (`BudgetHeap.storeHeap`). What a call does
to the byte strings, given its answer, is the same for both (`BlockStore.Answers`): so a program
that is proved right over one such heap is right over the other. A handle that was given back is
dead on both, until a block that is handed out reaches it (`Call.dead`).
-/

namespace Firmware

--------------------------------------------------------------------------------
-- Memory
--------------------------------------------------------------------------------

theorem Memory.overwrite_eq_bytes (memory : Memory) (start count : Nat) (value : Nat → UInt8)
    : memory.overwrite start count value
      = memory.overwrite start ((List.range count).map value).length
          fun i => ((List.range count).map value).getD i 0 := by
  funext address
  rw [overwrite_apply, overwrite_apply, List.length_map, List.length_range]
  by_cases inside : start ≤ address ∧ address < start + count
  · have offset : address - start < count := by omega
    rw [if_pos inside, if_pos inside]
    simp [offset]
  · rw [if_neg inside, if_neg inside]

/-- Overwriting all of a range but its first bytes. -/
theorem Memory.read_overwrite_rest (memory : Memory) (start first count : Nat)
    (value : Nat → UInt8)
    : (memory.overwrite (start + first) (count - first) value).read start count
      = (memory.read start count).take first ++ (List.range (count - first)).map value := by
  by_cases inside : first ≤ count
  · have length : ((List.range (count - first)).map value).length = count - first := by
      rw [List.length_map, List.length_range]
    have fits : first + ((List.range (count - first)).map value).length ≤ count := by omega
    have all : (memory.read start count).drop
        (first + ((List.range (count - first)).map value).length) = [] := by
      apply List.drop_eq_nil_of_le
      rw [length_read]
      omega
    rw [overwrite_eq_bytes, read_overwrite fits, all, List.append_nil]
  · have nothing : count - first = 0 := by omega
    have whole : (memory.read start count).take first = memory.read start count := by
      apply List.take_of_length_le
      rw [length_read]
      omega
    rw [nothing, whole, List.range_zero, List.map_nil, List.append_nil]
    apply read_congr
    intro i _
    exact overwrite_of_outside (by omega)

--------------------------------------------------------------------------------
-- Stores
--------------------------------------------------------------------------------

namespace BlockStore

/-- What a call may do to a store, given its answer. A block that is resized may be handed out under
its own handle.
-/
inductive Answers (store : BlockStore) : Call → Option Nat → BlockStore → Prop where
  | refused {call} (asks : call.size?.isSome) : Answers store call none store
  | allocated {size address bytes} (absent : store address = none) (length : bytes.length = size)
    : Answers store (.allocate size) (some address) (store.set address bytes)
  | zeroed {size address} (absent : store address = none)
    : Answers store (.allocateZeroed size) (some address)
        (store.set address (List.replicate size 0))
  | resized {handle size address old bytes} (present : store handle = some old)
    (absent : store.remove handle address = none) (length : bytes.length = size)
    (common : bytes.take (min old.length size) = old.take (min old.length size))
    : Answers store (.reallocate handle size) (some address)
        ((store.remove handle).set address bytes)
  | released {handle} : Answers store (.release handle) none (store.remove handle)

theorem Answers.of_release {store later : BlockStore} {handle : Nat} {answer : Option Nat}
    (answers : store.Answers (.release handle) answer later)
    : answer = none := by
  cases answers <;> rfl

theorem Answers.of_refused {store later : BlockStore} {call : Call} (asks : call.size?.isSome)
    (answers : store.Answers call none later)
    : later = store := by
  cases answers with
  | refused => rfl
  | released => cases asks

theorem set_self (store : BlockStore) (handle : Nat) (bytes : List UInt8)
    : store.set handle bytes handle = some bytes :=
  if_pos rfl

theorem set_of_ne (store : BlockStore) {handle other : Nat} (different : other ≠ handle)
    (bytes : List UInt8)
    : store.set handle bytes other = store other :=
  if_neg different

theorem remove_self (store : BlockStore) (handle : Nat) : store.remove handle handle = none :=
  if_pos rfl

theorem remove_of_ne (store : BlockStore) {handle other : Nat} (different : other ≠ handle)
    : store.remove handle other = store other :=
  if_neg different

theorem set_set (store : BlockStore) (handle : Nat) (bytes others : List UInt8)
    : (store.set handle bytes).set handle others = store.set handle others := by
  funext other
  by_cases asked : other = handle <;> simp [set, asked]

theorem set_eq_self {store : BlockStore} {handle : Nat} {bytes : List UInt8}
    (present : store handle = some bytes)
    : store.set handle bytes = store := by
  funext other
  by_cases asked : other = handle
  · rw [asked, set_self, present]
  · exact store.set_of_ne asked bytes

/-- Nothing is kept under a handle under which nothing was kept, or that is given back, unless a
block is handed out there.
-/
theorem Answers.absent {store later : BlockStore} {call : Call} {answer : Option Nat} {handle : Nat}
    (answers : store.Answers call answer later)
    (gone : store handle = none ∨ call.returned? answer = some handle)
    (unreached : ∀ block ∈ call.granted? answer, block.address ≠ handle)
    : later handle = none := by
  cases answers with
  | @refused call asks =>
      have nothing : call.returned? none ≠ some handle := by
        cases call with
        | release => cases asks
        | allocate | allocateZeroed | reallocate => simp [Call.returned?]
      exact gone.resolve_right nothing
  | allocated =>
      rw [set_of_ne _ (unreached _ rfl).symm]
      exact gone.resolve_right (by simp [Call.returned?])
  | zeroed =>
      rw [set_of_ne _ (unreached _ rfl).symm]
      exact gone.resolve_right (by simp [Call.returned?])
  | @resized returned =>
      rw [set_of_ne _ (unreached _ rfl).symm]
      by_cases same : handle = returned
      · rw [same, remove_self]
      · rw [remove_of_ne _ same]
        exact gone.resolve_right fun back => same (Option.some.inj back).symm
  | @released returned =>
      by_cases same : handle = returned
      · rw [same, remove_self]
      · rw [remove_of_ne _ same]
        exact gone.resolve_right fun back => same (Option.some.inj back).symm

end BlockStore

/-- The handles that are dead after a call with this answer: those that were dead before and the one
that is given back, but for those that the block reaches that is handed out.
-/
def Call.dead (call : Call) (reaches : Block → Nat → Prop) (answer : Option Nat) (dead : Set Nat)
    : Set Nat :=
  { handle |
    (handle ∈ dead ∨ call.returned? answer = some handle)
    ∧ ∀ block ∈ call.granted? answer, ¬ reaches block handle }

/-- A heap that keeps byte strings under handles, and knows handles that are dead. -/
structure StoreHeap (H : Type) [InspectableHeap H] where
  Holds : H → BlockStore → Set Nat → Prop
  /-- A block that is handed out may bring back to life what it reaches. -/
  Reaches : Block → Nat → Prop
  aligned : BlockHeap.alignment H = 8
  measures
    : ∀ {heap store dead handle bytes},
        Holds heap store dead →
        store handle = some bytes →
        InspectableHeap.sizeOf? heap handle = some bytes.length
  forgets
    : ∀ {heap store dead handle},
        Holds heap store dead →
        handle ∈ dead →
        InspectableHeap.sizeOf? heap handle = none
  reads
    : ∀ {heap store dead handle bytes},
        Holds heap store dead →
        store handle = some bytes →
        (InspectableHeap.memory heap).read handle bytes.length = bytes
  /-- A call that does not stop the program, and names no handle that is not live. -/
  performs
    : ∀ {heap store dead call answer},
        Holds heap store dead →
        (∀ handle ∈ call.block?, store handle ≠ none) →
        (call.perform heap).result = .ok answer →
        ∃ later,
          store.Answers call answer later
          ∧ Holds (call.perform heap).heap later (call.dead Reaches answer dead)
  writes
    : ∀ {heap store dead handle old} first value,
        Holds heap store dead →
        store handle = some old →
        let memory :=
          (InspectableHeap.memory heap).overwrite (handle + first) (old.length - first) value
        Holds (InspectableHeap.withMemory heap memory)
          (store.set handle (old.take first ++ (List.range (old.length - first)).map value)) dead

--------------------------------------------------------------------------------
-- The region heap
--------------------------------------------------------------------------------

namespace Region

/-- The dead handles are stale. -/
def Holds (region : Region) (store : BlockStore) (dead : Set Nat) : Prop :=
  ∃ ledger,
    Session.Sound ⟨region, ledger⟩
    ∧ Session.store ⟨region, ledger⟩ = store
    ∧ ∀ handle ∈ dead, handle ∈ ledger.stale

/-- The live block behind an entry of the store. -/
theorem exists_live_of_store {session : Session} {handle : Nat} {bytes : List UInt8}
    (present : session.store handle = some bytes)
    : ∃ block ∈ session.ledger.live,
        block.address = handle ∧ session.region.memory.read handle block.size = bytes := by
  obtain ⟨block, found, read⟩ := Option.map_eq_some_iff.mp present
  have address : block.address = handle := by simpa using List.find?_some found
  subst address
  exact ⟨block, List.mem_of_find?_eq_some found, rfl, read⟩

/-- The request that passes a call on as it is. -/
def requestOf : Call → Request
  | .allocate size => .allocate size
  | .allocateZeroed size => .allocateZeroed 1 size
  | .reallocate block size => .reallocate (some block) size
  | .release block => .release (some block)

theorem call?_requestOf (call : Call)
    : Surface.primitive.call? Region (requestOf call) = some call := by
  cases call <;> rfl

/-- A step of the store at a request is an answer to its call. -/
theorem answers_of_step {store later : BlockStore} {surface : Surface} {request : Request}
    {call : Call} {reply : Reply} (reached : surface.call? Region request = some call)
    (step : BlockStore.Step store (.ask surface request) reply later)
    : ∃ answer, reply = surface.reply call answer ∧ store.Answers call answer later := by
  cases step with
  | unreached unreached =>
      rw [unreached] at reached
      cases reached
  | refused other asks =>
      cases other.symm.trans reached
      exact ⟨none, rfl, .refused asks⟩
  | allocated other absent length =>
      cases other.symm.trans reached
      exact ⟨_, rfl, .allocated absent length⟩
  | zeroed other absent =>
      cases other.symm.trans reached
      exact ⟨_, rfl, .zeroed absent⟩
  | @moved _ _ handle size address old bytes other present absent length common =>
      cases other.symm.trans reached
      refine ⟨_, rfl, .resized present ?_ length common⟩
      by_cases same : address = handle
      · rw [same, BlockStore.remove_self]
      · rw [BlockStore.remove_of_ne _ same, absent]
  | released other =>
      cases other.symm.trans reached
      exact ⟨none, rfl, .released⟩

theorem Holds.performs {region : Region} {store : BlockStore} {dead : Set Nat} {call : Call}
    {answer : Option Nat} (holds : region.Holds store dead)
    (present : ∀ handle ∈ call.block?, store handle ≠ none)
    (answered : (call.perform region).result = .ok answer)
    : ∃ later,
        store.Answers call answer later
        ∧ (call.perform region).heap.Holds later (call.dead Block.ReachesTag answer dead) := by
  obtain ⟨ledger, sound, rfl, stale⟩ := holds
  let session : Session := ⟨region, ledger⟩
  have live : ∀ handle ∈ call.block?, ledger.Live handle := by
    intro handle about
    obtain ⟨bytes, found⟩ := Option.ne_none_iff_exists'.mp (present handle about)
    obtain ⟨block, blockLive, same, _⟩ := exists_live_of_store found
    exact ⟨block, blockLive, same⟩
  obtain ⟨after, performed, follows, filled⟩ :=
    Region.Sound.perform sound fun handle about notLive => absurd (live handle about) notLive
  rw [performed] at answered ⊢
  cases answered
  have step := Session.Sound.step_call sound (call?_requestOf call) follows filled
  obtain ⟨answer, same, answers⟩ := answers_of_step (call?_requestOf call) step
  -- the reply tells the answer, unless the call is a release, which has none
  have sameAnswer : answer = session.answer? call := by
    cases call with
    | release handle => exact answers.of_release
    | allocate size | allocateZeroed size | reallocate handle size =>
        rw [← Session.block?_reply session .primitive, same]
        exact (Surface.block?_reply .primitive rfl answer).symm
  rw [sameAnswer] at answers
  refine ⟨_, answers, _, follows.sound, rfl, ?_⟩
  rintro handle ⟨known | returned, unreached⟩
  · exact Ledger.mem_stale_record (stale handle known) unreached
  · have wasLive := live handle (Call.block?_of_returned? returned)
    exact Ledger.mem_stale_record_of_returned wasLive returned

theorem Holds.measures {region : Region} {store : BlockStore} {dead : Set Nat} {handle : Nat}
    {bytes : List UInt8} (holds : region.Holds store dead) (present : store handle = some bytes)
    : region.inspect handle = some bytes.length
      ∧ region.memory.read handle bytes.length = bytes := by
  obtain ⟨ledger, sound, rfl, _⟩ := holds
  obtain ⟨block, live, rfl, rfl⟩ := exists_live_of_store present
  rw [Memory.length_read]
  exact ⟨sound.headers block live, rfl⟩

theorem Holds.forgets {region : Region} {store : BlockStore} {dead : Set Nat} {handle : Nat}
    (holds : region.Holds store dead) (gone : handle ∈ dead)
    : region.inspect handle = none := by
  obtain ⟨ledger, sound, _, stale⟩ := holds
  exact (sound.inert handle (stale handle gone)).inspect

theorem Holds.writes {region : Region} {store : BlockStore} {dead : Set Nat} {handle : Nat}
    {old : List UInt8} (first : Nat) (value : Nat → UInt8) (holds : region.Holds store dead)
    (present : store handle = some old)
    : let memory := region.memory.overwrite (handle + first) (old.length - first) value
      Holds { region with memory }
        (store.set handle (old.take first ++ (List.range (old.length - first)).map value))
        dead := by
  obtain ⟨ledger, sound, rfl, stale⟩ := holds
  obtain ⟨block, live, rfl, read⟩ := exists_live_of_store present
  have size : old.length = block.size := by rw [← read, Memory.length_read]
  by_cases inside : first ≤ old.length
  · have length : ((List.range (old.length - first)).map value).length = old.length - first := by
      rw [List.length_map, List.length_range]
    have fits : first + ((List.range (old.length - first)).map value).length ≤ block.size := by
      omega
    have stored := Session.Sound.store_written sound live fits
    have follows := Session.Sound.perform_write sound live fits
    have all : old.drop (first + ((List.range (old.length - first)).map value).length) = [] :=
      List.drop_eq_nil_of_le (by omega)
    simp only [read, all, List.append_nil] at stored
    rw [Memory.overwrite_eq_bytes]
    exact ⟨ledger, follows.sound, stored, stale⟩
  · have nothing : old.length - first = 0 := by omega
    have whole : old.take first = old := List.take_of_length_le (by omega)
    rw [nothing, whole]
    have same : region.memory.overwrite (block.address + first) 0 value = region.memory := by
      funext address
      exact Memory.overwrite_of_outside (by omega)
    simp only [same, List.range_zero, List.map_nil, List.append_nil]
    exact ⟨ledger, sound, (BlockStore.set_eq_self present).symm, stale⟩

/-- On the region a block that covers the tag of a handle may make it live again. -/
def storeHeap : StoreHeap Region where
  Holds := Holds
  Reaches := Block.ReachesTag
  aligned := rfl
  measures holds present := (holds.measures present).1
  forgets holds gone := holds.forgets gone
  reads holds present := (holds.measures present).2
  performs holds present answered := holds.performs present answered
  writes first value holds present := holds.writes first value present

theorem Opened.holds {region : Region} (opened : region.Opened) : region.Holds .empty ∅ :=
  ⟨{}, opened.sound, rfl, fun _ => False.elim⟩

end Region

--------------------------------------------------------------------------------
-- The budget heap
--------------------------------------------------------------------------------

namespace BudgetHeap

/-- The loans behind recorded sizes. -/
def loans (sizes : Nat → Option Nat) : Loans := fun handle => (sizes handle).map hostSize

/-- The bytes behind recorded sizes. -/
def stored (sizes : Nat → Option Nat) (memory : Memory) : BlockStore :=
  fun handle => (sizes handle).map (memory.read handle)

section Sizes

variable {sizes : Nat → Option Nat} {handle size : Nat}

theorem loans_track : loans (Function.update sizes handle (some size))
    = (loans sizes).lend handle (hostSize size) := by
  funext other
  by_cases same : other = handle
  · subst other
    simp [loans, Loans.lend]
  · simp [loans, Loans.lend, same]

theorem loans_untrack : loans (Function.update sizes handle none) = (loans sizes).drop handle := by
  funext other
  by_cases same : other = handle
  · subst other
    simp [loans, Loans.drop]
  · simp [loans, Loans.drop, same]

theorem stored_track (memory : Memory)
    : stored (Function.update sizes handle (some size)) memory
      = (stored sizes memory).set handle (memory.read handle size) := by
  funext other
  by_cases same : other = handle
  · subst other
    simp [stored, BlockStore.set]
  · simp [stored, BlockStore.set, same]

theorem stored_untrack (memory : Memory)
    : stored (Function.update sizes handle none) memory
      = (stored sizes memory).remove handle := by
  funext other
  by_cases same : other = handle
  · subst other
    simp [stored, BlockStore.remove]
  · simp [stored, BlockStore.remove, same]

theorem le_hostSize (size : Nat) : size ≤ hostSize size := Nat.le_max_left size 1

theorem hostSize_pos (size : Nat) : 0 < hostSize size := Nat.le_max_right size 1

theorem stored_kept {before after : Memory} (kept : (loans sizes).Kept before after)
    : stored sizes after = stored sizes before := by
  funext handle
  cases live : sizes handle with
  | none => simp [stored, live]
  | some size =>
      have same : after.read handle size = before.read handle size := by
        apply Memory.read_congr
        intro i inside
        have lent : loans sizes handle = some (hostSize size) := by simp [loans, live]
        exact kept lent (Nat.lt_of_lt_of_le inside (le_hostSize size))
      simp [stored, live, same]

theorem stored_eq_none_iff (memory : Memory)
    : stored sizes memory handle = none ↔ loans sizes handle = none := by
  simp [stored, loans]

end Sizes

section Holds

variable {S : Type} [InspectableHost S] (contract : HostContract S)

def Holds (heap : BudgetHeap S) (store : BlockStore) : Prop :=
  contract.Lends heap.host (loans heap.sizeOf?)
  ∧ stored heap.sizeOf? (InspectableHost.memory heap.host) = store

variable {contract} {heap : BudgetHeap S} {store : BlockStore}

theorem Holds.recorded {handle : Nat} {bytes : List UInt8} (holds : heap.Holds contract store)
    (present : store handle = some bytes)
    : heap.sizeOf? handle = some bytes.length
      ∧ (InspectableHost.memory heap.host).read handle bytes.length = bytes := by
  obtain ⟨_, rfl⟩ := holds
  obtain ⟨size, live, rfl⟩ := Option.map_eq_some_iff.mp present
  rw [Memory.length_read]
  exact ⟨live, rfl⟩

/-- The host was asked and refused. -/
theorem Holds.refused {host : S} (holds : heap.Holds contract store)
    (lends : contract.Lends host (loans heap.sizeOf?))
    (kept
      : (loans heap.sizeOf?).Kept (InspectableHost.memory heap.host) (InspectableHost.memory host))
    : Holds contract { heap.counted with host } store :=
  ⟨lends, (stored_kept kept).trans holds.2⟩

theorem Holds.drawn {call : Call} {zeroed : Bool} {size block : Nat} {host : S}
    (holds : heap.Holds contract store) (draws : call.draws? = some (zeroed, size))
    (asked : HostAllocator.allocate (hostSize size) zeroed heap.host = (some block, host))
    : ∃ later,
        store.Answers call (some block) later
        ∧ Holds contract ({ heap.counted with host }.track block size) later := by
  obtain ⟨lends, rfl⟩ := holds
  obtain ⟨free, lent, kept, zeros⟩ := contract.grants lends (hostSize_pos size) asked
  have absent := (stored_eq_none_iff (InspectableHost.memory heap.host)).mpr free
  let bytes := (InspectableHost.memory host).read block size
  refine ⟨(stored heap.sizeOf? (InspectableHost.memory heap.host)).set block bytes, ?_, ?_, ?_⟩
  · cases call with
    | allocate asked =>
        cases draws
        exact .allocated absent (Memory.length_read ..)
    | allocateZeroed asked =>
        cases draws
        have zero : bytes = List.replicate size 0 := by
          apply Memory.read_eq_replicate
          exact fun i inside => zeros rfl i (Nat.lt_of_lt_of_le inside (le_hostSize size))
        rw [zero]
        exact .zeroed absent
    | reallocate _ _ | release _ => cases draws
  · rw [sizeOf?_track, loans_track]
    exact lent
  · rw [sizeOf?_track, stored_track]
    exact congrArg (BlockStore.set · block bytes) (stored_kept kept)

theorem Holds.resized {size old block moved : Nat} {host : S} (holds : heap.Holds contract store)
    (live : heap.sizeOf? block = some old)
    (asked
      : HostAllocator.resize block (hostSize old) (hostSize size) heap.host = (some moved, host))
    : ∃ later,
        store.Answers (.reallocate block size) (some moved) later
        ∧ Holds contract (({ heap.counted with host }.untrack block old).track moved size)
            later := by
  obtain ⟨lends, rfl⟩ := holds
  have lentBlock : loans heap.sizeOf? block = some (hostSize old) := by simp [loans, live]
  obtain ⟨free, lent, kept, common⟩ := contract.resizes lends lentBlock (hostSize_pos size) asked
  rw [← loans_untrack] at free lent kept
  have absent := (stored_eq_none_iff (InspectableHost.memory heap.host)).mpr free
  rw [stored_untrack] at absent
  have present : stored heap.sizeOf? (InspectableHost.memory heap.host) block
      = some ((InspectableHost.memory heap.host).read block old) := by
    simp [stored, live]
  have length := Memory.length_read (InspectableHost.memory host) moved size
  refine ⟨_, .resized present absent length ?_, ?_, ?_⟩
  · rw [Memory.length_read, Memory.take_read, Memory.take_read,
      Nat.min_eq_left (Nat.min_le_left ..), Nat.min_eq_left (Nat.min_le_right ..)]
    apply Memory.read_congr
    intro i inside
    apply common
    have oldFits := le_hostSize old
    have newFits := le_hostSize size
    omega
  · rw [sizeOf?_track, sizeOf?_untrack, loans_track]
    exact lent
  · rw [sizeOf?_track, sizeOf?_untrack, stored_track]
    refine congrArg (BlockStore.set · moved _) ?_
    exact (stored_kept kept).trans (stored_untrack _)

theorem Holds.released {size block : Nat} (holds : heap.Holds contract store)
    (live : heap.sizeOf? block = some size)
    : Holds contract {
        heap.counted.untrack block size with
        host := HostAllocator.release block (hostSize size) heap.host
      } (store.remove block) := by
  obtain ⟨lends, rfl⟩ := holds
  have lentBlock : loans heap.sizeOf? block = some (hostSize size) := by simp [loans, live]
  obtain ⟨lent, kept⟩ := contract.releases lends lentBlock
  rw [← loans_untrack] at lent kept
  have sizes := sizeOf?_untrack heap.counted block size
  constructor
  · change contract.Lends _ (loans (heap.counted.untrack block size).sizeOf?)
    rw [sizes]
    exact lent
  · change stored (heap.counted.untrack block size).sizeOf? _ = _
    rw [sizes]
    exact (stored_kept kept).trans (stored_untrack _)

theorem Holds.performs {call : Call} {answer : Option Nat} (holds : heap.Holds contract store)
    (present : ∀ handle ∈ call.block?, store handle ≠ none)
    (answered : (call.perform heap).result = .ok answer)
    : ∃ later, store.Answers call answer later ∧ Holds contract (call.perform heap).heap later := by
  have effect := heap.effect_perform call
  generalize call.perform heap = outcome at effect answered ⊢
  cases effect with
  | refused asks =>
      cases answered
      exact ⟨store, .refused asks, holds⟩
  | drawStopped | resizeStopped | releaseStopped => cases answered
  | @drawRefused _ zeroed size host draws asked =>
      cases answered
      obtain ⟨lends, kept⟩ := contract.refuses holds.1 asked
      have asks : call.size?.isSome := Option.isSome_of_eq_some (Call.size?_of_draws? draws)
      exact ⟨store, .refused asks, holds.refused lends kept⟩
  | drawn draws fits possible asked =>
      cases answered
      exact holds.drawn draws asked
  | @resizeRefused block size old host live asked =>
      cases answered
      have lent : loans heap.sizeOf? block = some (hostSize old) := by simp [loans, live]
      obtain ⟨lends, kept⟩ := contract.refusesResize holds.1 lent asked
      exact ⟨store, .refused rfl, holds.refused lends kept⟩
  | resized live fits possible asked =>
      cases answered
      exact holds.resized live asked
  | @unknown block dead =>
      refine absurd ?_ (present block rfl)
      rw [← holds.2, stored, dead]
      rfl
  | released live possible =>
      cases answered
      exact ⟨_, .released, holds.released live⟩

theorem Holds.writes {handle : Nat} {old : List UInt8} (first : Nat) (value : Nat → UInt8)
    (holds : heap.Holds contract store) (present : store handle = some old)
    : let memory :=
        (InspectableHost.memory heap.host).overwrite (handle + first) (old.length - first) value
      Holds contract { heap with host := InspectableHost.withMemory heap.host memory }
        (store.set handle (old.take first ++ (List.range (old.length - first)).map value)) := by
  intro memory
  obtain ⟨size, read⟩ := holds.recorded present
  obtain ⟨lends, rfl⟩ := holds
  have lent : loans heap.sizeOf? handle = some (hostSize old.length) := by simp [loans, size]
  have reach := le_hostSize old.length
  have outside : ∀ address,
      address < handle ∨ handle + hostSize old.length ≤ address →
      memory address = InspectableHost.memory heap.host address := by
    intro address apart
    exact Memory.overwrite_of_outside (by omega)
  have confined : (loans heap.sizeOf?).Confines (InspectableHost.memory heap.host) memory := by
    intro address changed
    refine ⟨handle, _, lent, ?_⟩
    by_contra notInside
    exact changed (outside address (by omega))
  obtain ⟨lendsLater, written⟩ := contract.writes lends confined
  refine ⟨lendsLater, ?_⟩
  change stored heap.sizeOf?
    (InspectableHost.memory (InspectableHost.withMemory heap.host memory)) = _
  rw [written]
  funext other
  by_cases same : other = handle
  · subst other
    rw [BlockStore.set_self, stored, size, Option.map_some, ← read, Memory.length_read]
    exact congrArg some (Memory.read_overwrite_rest ..)
  · rw [BlockStore.set_of_ne _ same]
    cases live : heap.sizeOf? other with
    | none => simp [stored, live]
    | some otherSize =>
        have otherLent : loans heap.sizeOf? other = some (hostSize otherSize) := by
          simp [loans, live]
        have apart := contract.apart lends otherLent lent same
        have otherReach := le_hostSize otherSize
        have kept : memory.read other otherSize
            = (InspectableHost.memory heap.host).read other otherSize := by
          apply Memory.read_congr
          intro i inside
          exact outside _ (by omega)
        simp [stored, live, kept]

theorem Holds.forgotten {handle : Nat} (holds : heap.Holds contract store)
    (absent : store handle = none)
    : heap.sizeOf? handle = none := by
  rw [← holds.2, stored_eq_none_iff] at absent
  exact Option.map_eq_none_iff.mp absent

end Holds

/-- On the budget heap only a block that is handed out at the address of a handle makes it live
again.
-/
def storeHeap {S : Type} [InspectableHost S] (contract : HostContract S)
    : StoreHeap (BudgetHeap S) where
  Holds heap store dead := Holds contract heap store ∧ ∀ handle ∈ dead, store handle = none
  Reaches block handle := block.address = handle
  aligned := rfl
  measures holds present := (holds.1.recorded present).1
  forgets holds gone := holds.1.forgotten (holds.2 _ gone)
  reads holds present := (holds.1.recorded present).2
  performs holds present answered := by
    obtain ⟨later, answers, laterHolds⟩ := holds.1.performs present answered
    refine ⟨later, answers, laterHolds, ?_⟩
    rintro handle ⟨gone, unreached⟩
    exact answers.absent (gone.imp_left (holds.2 handle)) unreached
  writes first value holds present := by
    refine ⟨holds.1.writes first value present, fun handle gone => ?_⟩
    have absent := holds.2 handle gone
    rw [BlockStore.set_of_ne, absent]
    rintro rfl
    cases absent.symm.trans present

end BudgetHeap

end Firmware
