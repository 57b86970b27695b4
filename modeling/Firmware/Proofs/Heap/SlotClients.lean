import Firmware.Proofs.Heap.SlotPrograms

/-! Clients over a heap that keeps byte strings do what their slots say.
The addresses that the heap chooses are in the slots of the client and nowhere else: what it learns
from a command, but for these addresses, and what its slots hold afterwards is the same over every
such heap, as long as the same requests are granted (`Client.Shows.perform`).
-/

namespace Firmware

variable {H : Type} [InspectableHeap H]

/-- A request is answered without the heap, or with what the store answers to its call. -/
theorem StoreHeap.serves (model : StoreHeap H) {heap : H} {store : BlockStore} {dead : Set Nat}
    {surface : Surface} {request : Request} (holds : model.Holds heap store dead)
    (present : ∀ handle ∈ request.block?, store handle ≠ none)
    (goesOn : ∀ fault, (surface.serve request heap).result ≠ .error fault)
    : surface.call? H request = none
        ∧ surface.serve request heap = .answer (surface.refusal request) heap
      ∨ ∃ call answer after later,
          surface.call? H request = some call
          ∧ surface.serve request heap = .answer (surface.reply call answer) after
          ∧ store.Answers call answer later
          ∧ model.Holds after later (call.dead model.Reaches answer dead) := by
  cases reached : surface.call? H request with
  | none => exact Or.inl ⟨rfl, Surface.serve_eq_refusal reached heap⟩
  | some call =>
      rw [Surface.serve_reached reached] at goesOn ⊢
      rw [← Surface.block?_call? reached] at present
      cases answered : (call.perform heap).result with
      | error fault =>
          refine absurd ?_ (goesOn fault)
          rw [Outcome.result_map, answered]
          rfl
      | ok answer =>
          obtain ⟨later, answers, laterHolds⟩ := model.performs holds present answered
          refine Or.inr ⟨call, answer, _, later, rfl, ?_, answers, laterHolds⟩
          simp only [Outcome.map, answered, Outcome.answer]
          rfl

/-- The call that a request comes down to has the size that the slots expect. -/
theorem StoreHeap.call?_erase (model : StoreHeap H) (surface : Surface) (request : Request)
    : Slots.call? surface request.erase = (surface.call? H request).map Call.erase :=
  Surface.call?_erase model.aligned surface request

namespace Client

/-- The handles in the slots. -/
def names (client : Client H) (index : Nat) : Option Nat := client.slots.lookup index

/-- The slots of the client hold handles of the byte strings that the heap keeps, or handles that
are dead unless one of the blocks that were handed out since reaches them.
-/
def Shows (model : StoreHeap H) (client : Client H) (slots : Slots) (since : Nat → List Block)
    : Prop :=
  ∃ store dead,
    model.Holds client.heap store dead
    ∧ Naming client.names slots store
    ∧ Retired model.Reaches client.names slots since dead

omit [InspectableHeap H] in
theorem names_put (client : Client H) (slot block : Nat)
    : (client.put slot (some block)).names = Function.update client.names slot (some block) := by
  funext index
  by_cases same : index = slot
  · subst index
    rw [Function.update_self]
    exact List.lookup_cons_self
  · have passed : (index == slot) = false := beq_false_of_ne same
    rw [Function.update_of_ne same, names, put, List.lookup_cons, passed]
    rfl

variable {model : StoreHeap H} {client : Client H} {slots : Slots} {store : BlockStore}
  {dead : Set Nat} {since : Nat → List Block}

/-- An operand that may be used is null, or names a block that is live. -/
theorem resolve_usable (holds : model.Holds client.heap store dead)
    (naming : Naming client.names slots store) {operand : Operand} (usable : slots.Usable operand)
    : slots.bytes? operand = none ∧ client.resolve operand = none
      ∨ ∃ index bytes handle,
          operand = .slot index
          ∧ slots.bytes? operand = some bytes
          ∧ client.resolve operand = some handle
          ∧ store handle = some bytes
          ∧ InspectableHeap.sizeOf? client.heap handle = some bytes.length := by
  cases operand with
  | slot index =>
      cases content : slots index with
      | null => exact Or.inl ⟨by simp only [Slots.bytes?, content], naming.null content⟩
      | block bytes =>
          obtain ⟨handle, named, present⟩ := naming.block content
          exact Or.inr ⟨index, bytes, handle, rfl, Slots.bytes?_slot.mpr content, named, present,
            model.measures holds present⟩
      | spent => exact absurd content usable
  | null => exact Or.inl ⟨rfl, rfl⟩
  | address block => exact usable.elim

theorem resolve_present (holds : model.Holds client.heap store dead)
    (naming : Naming client.names slots store) {operand : Operand} (usable : slots.Usable operand)
    : ∀ handle ∈ client.resolve operand, store handle ≠ none := by
  intro handle named
  rcases resolve_usable holds naming usable with
    ⟨_, resolved⟩ | ⟨_, bytes, block, _, _, resolved, present, _⟩
  · cases resolved.symm.trans named
  · cases resolved.symm.trans named
    simp only [present, ne_eq, reduceCtorEq, not_false_iff]

theorem resolve_erased (holds : model.Holds client.heap store dead)
    (naming : Naming client.names slots store) {operand : Operand} (usable : slots.Usable operand)
    : (client.resolve operand).map (fun _ => 0) = slots.handle? operand := by
  rcases resolve_usable holds naming usable with
    ⟨nothing, resolved⟩ | ⟨_, bytes, block, _, live, resolved, _⟩
  · simp only [Slots.handle?, resolved, nothing, Option.map_none]
  · simp only [Slots.handle?, resolved, live, Option.map_some]

theorem write_slots (client : Client H) (block first : Nat) (value : Nat → UInt8)
    : (client.write block first value).slots = client.slots := by
  unfold write
  split <;> rfl

theorem write_holds (client : Client H) (holds : model.Holds client.heap store dead) {handle : Nat}
    {old : List UInt8} (present : store handle = some old) (first : Nat) (value : Nat → UInt8)
    : model.Holds (client.write handle first value).heap
        (store.set handle (old.take first ++ (List.range (old.length - first)).map value))
        dead := by
  have written := model.writes first value holds present
  simpa only [write, model.measures holds present] using written

--------------------------------------------------------------------------------
-- Requests
--------------------------------------------------------------------------------

/-- The bytes of a new block after the fresh ones are painted. -/
def painted (kept : Option Nat) (bytes : List UInt8) : List UInt8 :=
  match kept with
  | none => bytes
  | some kept => bytes.take kept ++ List.replicate (bytes.length - kept) freshByte

theorem length_painted (kept : Option Nat) (bytes : List UInt8)
    : (painted kept bytes).length = bytes.length := by
  cases kept with
  | none => rfl
  | some kept =>
      simp only [painted, List.length_append, List.length_take, List.length_replicate]
      omega

theorem obtain_goesOn {surface : Surface} {request : Request} {slot : Nat} {kept : Option Nat}
    (goesOn : (client.obtain surface request slot kept).1.stops = false) (fault : HeapFault)
    : (surface.serve request client.heap).result ≠ .error fault := by
  intro stopped
  rw [obtain] at goesOn
  simp only [Client.request, stopped] at goesOn
  cases goesOn

theorem obtain_refused {surface : Surface} {request : Request} {slot : Nat} {kept : Option Nat}
    {reply : Reply} {after : H} (served : surface.serve request client.heap = .answer reply after)
    (noBlock : reply.block? = none)
    : client.obtain surface request slot kept
      = ({ client with heap := after }.respond reply, { client with heap := after }) := by
  simp only [obtain, Client.request, served, Outcome.answer, noBlock]
  cases kept <;> rfl

/-- A block that is granted is painted, and its handle put into the slot. -/
theorem obtain_granted {surface : Surface} {request : Request} {slot address : Nat}
    {kept : Option Nat} {after : H} {bytes : List UInt8}
    (served : surface.serve request client.heap = .answer (.handle (some address)) after)
    (holds : model.Holds after (store.set address bytes) dead) (absent : store address = none)
    (naming : Naming client.names slots store)
    (retired
      : Retired model.Reaches (Function.update client.names slot (some address))
          (Function.update slots slot (.block (painted kept bytes))) since dead)
    : (client.obtain surface request slot kept).1
        = .block (some { address, size := some bytes.length })
      ∧ (client.obtain surface request slot kept).2.Shows model
          (Function.update slots slot (.block (painted kept bytes))) since := by
  let granted : Client H := { client with heap := after }
  let fresh : Client H := kept.elim granted fun kept => granted.paint kept (some address)
  have freshSlots : fresh.slots = client.slots := by
    cases kept with
    | none => rfl
    | some kept => exact granted.write_slots address kept _
  have freshHolds : model.Holds fresh.heap (store.set address (painted kept bytes)) dead := by
    cases kept with
    | none => exact holds
    | some kept =>
        have written := granted.write_holds holds (store.set_self address bytes) kept
          fun _ => freshByte
        rwa [BlockStore.set_set, List.map_const', List.length_range] at written
  have obtained : client.obtain surface request slot kept
      = (fresh.respond (.handle (some address)), fresh.put slot (some address)) := by
    simp only [obtain, Client.request, served, Outcome.answer, Reply.block?]
    cases kept <;> rfl
  rw [obtained]
  constructor
  · have size := model.measures freshHolds (store.set_self address _)
    rw [length_painted] at size
    simp only [respond, view, Option.map_some, size]
  · have names : fresh.names = client.names := by
      funext index
      rw [Client.names, freshSlots, Client.names]
    refine ⟨_, dead, freshHolds, ?_⟩
    rw [names_put, names]
    exact ⟨naming.grant absent slot _, retired⟩

theorem outline_respond (client : Client H) {reply : Reply} (noBlock : reply.block? = none)
    (size : Option Nat)
    : (client.respond reply).outline = reply.outline size
      ∧ (client.respond reply).grants = false := by
  cases reply with
  | handle block =>
      cases noBlock
      exact ⟨rfl, rfl⟩
  | refused _ | done | noLayout | skipped => exact ⟨rfl, rfl⟩

/-- What a client did at a command, but for addresses, is what was expected from its slots. -/
def Follows (model : StoreHeap H) (since : Nat → List Block) (performed : Response × Client H)
    (expected : Response × Slots)
    : Prop :=
  performed.1.outline = expected.1
  ∧ performed.2.Shows model expected.2 (expected.2.since since performed.1)

theorem answer_unreached (model : StoreHeap H) {surface : Surface} {request : Request}
    (unreached : surface.call? H request = none) (granted : Bool)
    : Slots.answer surface request.erase granted = (surface.refusal request).outline none := by
  rw [Slots.answer, model.call?_erase, unreached, Surface.refusal_erase]
  rfl

theorem answer_reached (model : StoreHeap H) {surface : Surface} {request : Request} {call : Call}
    (reached : surface.call? H request = some call) (granted : Bool)
    : Slots.answer surface request.erase granted
      = (surface.reply call (if granted then some 0 else none)).outline call.size? := by
  rw [Slots.answer, model.call?_erase, reached, Option.map_some]
  simp only [Surface.reply_erase, Call.size?_erase]

/-- A request that is answered without a block changes no slot. -/
theorem follows_refused {surface : Surface} {request : Request} {reply : Reply} {after : H}
    (slot : Nat) (kept : Option Nat) (contents : Nat → List UInt8)
    (served : surface.serve request client.heap = .answer reply after)
    (noBlock : reply.block? = none) (holds : model.Holds after store dead)
    (naming : Naming client.names slots store)
    (retired : Retired model.Reaches client.names slots since dead) {size : Option Nat}
    (answers : Slots.answer surface request.erase false = reply.outline size)
    : (client.obtain surface request slot kept).1.grants = false
      ∧ Follows model since (client.obtain surface request slot kept)
          (slots.obtain surface request.erase slot false contents) := by
  let after : Client H := { client with heap := after }
  obtain ⟨outline, grants⟩ := after.outline_respond noBlock size
  rw [obtain_refused served noBlock]
  exact ⟨grants, outline.trans answers.symm, store, dead, holds, naming, retired.idle _ id⟩

/-- A request that is answered with a block fills its slot, after it has spent the slot of the block
that it gives back.
-/
theorem follows_granted {surface : Surface} {request : Request} {call : Call} {address : Nat}
    {after : H} {bytes : List UInt8} {left : Slots} {base : BlockStore} (slot : Nat)
    {kept : Option Nat} (contents : Nat → List UInt8)
    (reached : surface.call? H request = some call) (size : call.size? = some bytes.length)
    (served : surface.serve request client.heap
      = .answer (surface.reply call (some address)) after)
    (laterHolds : model.Holds after (base.set address bytes)
      (call.dead model.Reaches (some address) dead))
    (absent : base address = none) (naming : Naming client.names left base)
    (retired : Retired model.Reaches client.names slots since dead)
    (spends : Slots.Spends client.names slots left (call.returned? (some address)))
    (content : painted kept bytes = contents bytes.length)
    : (client.obtain surface request slot kept).1.grants = true
      ∧ Follows model since (client.obtain surface request slot kept)
          (left.obtain surface request.erase slot true contents) := by
  have asks : call.size?.isSome := by rw [size]; rfl
  let response : Response := .block (some { address, size := some bytes.length })
  let filled : Slots := Function.update left slot (.block (painted kept bytes))
  have handedOut : response.block? = call.granted? (some address) := by
    rw [Call.granted?, size]
    rfl
  have sameNames : ∀ {index}, filled index = .spent →
      Function.update client.names slot (some address) index = client.names index := by
    intro index spent
    rcases Slots.update_eq_iff.mp spent with ⟨_, ⟨⟩⟩ | ⟨different, _⟩
    exact Function.update_of_ne different _ _
  have laterRetired
      : Retired model.Reaches (Function.update client.names slot (some address)) filled
          (filled.since since response) (call.dead model.Reaches (some address) dead) :=
    retired.call handedOut sameNames (spends.fill slot (painted kept bytes))
  rw [surface.reply_some asks] at served
  obtain ⟨responded, shows⟩ := obtain_granted served laterHolds absent naming laterRetired
  have expected : ((Slots.call? surface request.erase).bind Call.size?).getD 0 = bytes.length := by
    rw [model.call?_erase, reached, Option.map_some, Option.bind_some, Call.size?_erase, size]
    rfl
  simp only [Follows, responded, Slots.obtain, answer_reached model reached, expected, if_true,
    surface.reply_some asks, ← content]
  refine ⟨rfl, ?_, shows⟩
  simp only [Response.outline, Reply.outline, Option.map_some, size]

/-- A request for a block does what the slots expect, if a block that is granted has the expected
bytes once it is painted, the handles that are left are those of the slots that are left, and those
of other slots are given back.
-/
theorem follows_obtain {surface : Surface} {request : Request} {slot : Nat} {kept : Option Nat}
    (left : Slots) (contents : Nat → List UInt8) (holds : model.Holds client.heap store dead)
    (naming : Naming client.names slots store)
    (retired : Retired model.Reaches client.names slots since dead)
    (present : ∀ handle ∈ request.block?, store handle ≠ none)
    (goesOn : (client.obtain surface request slot kept).1.stops = false)
    (aligns : request.Aligns)
    (granted
      : ∀ {call address later},
          Surface.Makes request call →
          store.Answers call (some address) later →
          ∃ base bytes,
            later = base.set address bytes
            ∧ base address = none
            ∧ call.size? = some bytes.length
            ∧ Naming client.names left base
            ∧ Slots.Spends client.names slots left (call.returned? (some address))
            ∧ painted kept bytes = contents bytes.length)
    : let obtained := client.obtain surface request slot kept
      let remaining := if obtained.1.grants then left else slots
      Follows model since obtained
        (remaining.obtain surface request.erase slot obtained.1.grants contents) := by
  rcases model.serves holds present (obtain_goesOn goesOn) with
    ⟨unreached, served⟩ | ⟨call, answer, after, later, reached, served, answers, laterHolds⟩
  · obtain ⟨grants, follows⟩ :=
      follows_refused slot kept contents served (surface.block?_refusal request) holds naming
        retired (answer_unreached model unreached false)
    simp only [grants]
    exact follows
  · have makes := Surface.makes_of_call? reached
    have asks := makes.asks aligns
    cases answer with
    | none =>
        obtain rfl := answers.of_refused asks
        obtain ⟨grants, follows⟩ :=
          follows_refused slot kept contents served (Surface.block?_reply surface asks none)
            laterHolds naming (retired.mono (call.subset_dead_refused _ _))
            (answer_reached model reached false)
        simp only [grants]
        exact follows
    | some address =>
        obtain ⟨base, bytes, rfl, absent, size, leftNaming, spends, content⟩ :=
          granted makes answers
        obtain ⟨grants, follows⟩ :=
          follows_granted slot contents reached size served laterHolds absent leftNaming retired
            spends content
        simp only [grants]
        exact follows

--------------------------------------------------------------------------------
-- Commands
--------------------------------------------------------------------------------

section Commands

variable (holds : model.Holds client.heap store dead) (naming : Naming client.names slots store)
  (retired : Retired model.Reaches client.names slots since dead)
include holds naming retired

theorem follows_allocate {slot size : Nat} {surface : Surface}
    (goesOn : (client.perform (.allocate slot size surface)).1.stops = false)
    : Follows model since (client.perform (.allocate slot size surface))
        (slots.perform (.allocate slot size surface)
          (client.perform (.allocate slot size surface)).1.grants) := by
  have fresh : ∀ handle ∈ (Request.allocate size).block?, store handle ≠ none := by
    intro handle named
    cases named
  have follows := follows_obtain slots (fun size => List.replicate size freshByte) holds naming
    retired fresh goesOn trivial ?granted
  case granted =>
    intro call address later makes answers
    cases makes
    cases answers with
    | allocated absent length =>
        refine ⟨store, _, rfl, absent, congrArg some length.symm, naming, .refl, ?_⟩
        simp only [painted, List.take_zero, List.nil_append, Nat.sub_zero]
  simp only [ite_self] at follows
  exact follows

theorem follows_allocateZeroed {slot count size : Nat} {surface : Surface}
    (goesOn : (client.perform (.allocateZeroed slot count size surface)).1.stops = false)
    : Follows model since (client.perform (.allocateZeroed slot count size surface))
        (slots.perform (.allocateZeroed slot count size surface)
          (client.perform (.allocateZeroed slot count size surface)).1.grants) := by
  have fresh : ∀ handle ∈ (Request.allocateZeroed count size).block?, store handle ≠ none := by
    intro handle named
    cases named
  have follows := follows_obtain slots (fun size => List.replicate size 0) holds naming retired
    fresh goesOn trivial ?granted
  case granted =>
    intro call address later makes answers
    cases makes
    cases answers with
    | zeroed absent =>
        refine ⟨store, _, rfl, absent, ?_, naming, .refl, ?_⟩
        · rw [List.length_replicate]
          rfl
        · rw [painted, List.length_replicate]
  simp only [ite_self] at follows
  exact follows

theorem follows_reallocate {source : Operand} {size target : Nat} {surface : Surface}
    (usable : slots.Usable source)
    (goesOn : (client.perform (.reallocate source size target surface)).1.stops = false)
    : Follows model since (client.perform (.reallocate source size target surface))
        (slots.perform (.reallocate source size target surface)
          (client.perform (.reallocate source size target surface)).1.grants) := by
  let old := (slots.bytes? source).getD []
  have present : ∀ handle ∈ (Request.reallocate (client.resolve source) size).block?,
      store handle ≠ none :=
    resolve_present holds naming usable
  have follows := follows_obtain (slots.rewrite source .spent)
    (fun size => old.take size ++ List.replicate (size - old.length) freshByte) holds naming retired
    present goesOn trivial ?granted
  case granted =>
    intro call address later makes answers
    rcases resolve_usable holds naming usable with
      ⟨nothing, resolved⟩ | ⟨index, bytes, handle, rfl, live, resolved, found, recorded⟩
    · rw [resolved] at makes
      cases makes
      cases answers with
      | allocated absent length =>
          rw [Slots.rewrite_dead nothing]
          refine ⟨store, _, rfl, absent, congrArg some length.symm, naming, .refl, ?_⟩
          simp [old, nothing, resolved, sizeOf?, painted]
    · rw [resolved] at makes
      cases makes
      cases answers with
      | @resized _ size _ _ moved same absent length common =>
          cases same.symm.trans found
          have kept : moved.take bytes.length = bytes.take moved.length := by
            rw [List.take_eq_take_min, length, common, Nat.min_comm, ← List.take_eq_take_min]
          have content := Slots.bytes?_slot.mp live
          rw [Slots.rewrite_slot content]
          refine ⟨store.remove handle, moved, rfl, absent, congrArg some length.symm,
            naming.spend content resolved, .spend resolved, ?_⟩
          simp only [old, live, resolved, sizeOf?, recorded, painted, Option.bind_some,
            Option.getD_some, kept]
  have erased : (Request.reallocate (client.resolve source) size).erase
      = .reallocate (slots.handle? source) size := by
    rw [Request.erase, resolve_erased holds naming usable]
  rw [erased] at follows
  exact follows

theorem follows_release {source : Operand} {surface : Surface} (usable : slots.Usable source)
    (goesOn : (client.perform (.release source surface)).1.stops = false)
    (granted : Bool)
    : Follows model since (client.perform (.release source surface))
        (slots.perform (.release source surface) granted) := by
  have erased : (Request.release (client.resolve source)).erase
      = .release (slots.handle? source) := by
    rw [Request.erase, resolve_erased holds naming usable]
  have continues : ∀ fault,
      (surface.serve (.release (client.resolve source)) client.heap).result ≠ .error fault := by
    intro fault stopped
    simp only [Client.perform, Client.request, stopped] at goesOn
    cases goesOn
  have present : ∀ handle ∈ (Request.release (client.resolve source)).block?,
      store handle ≠ none :=
    resolve_present holds naming usable
  simp only [Slots.perform, ← erased]
  rcases model.serves holds present continues with
    ⟨unreached, served⟩ | ⟨call, answer, after, later, reached, served, answers, laterHolds⟩
  · have noBlock := surface.block?_refusal (.release (client.resolve source))
    rw [answer_unreached model unreached, model.call?_erase, unreached]
    simp only [Client.perform, Client.request, served, Outcome.answer]
    exact ⟨(client.outline_respond noBlock none).1, store, dead, holds, naming,
      retired.idle _ id⟩
  · have makes := Surface.makes_of_call? reached
    rcases resolve_usable holds naming usable with
      ⟨nothing, resolved⟩ | ⟨index, bytes, handle, rfl, live, resolved, found, recorded⟩
    · rw [resolved] at makes
      cases makes
    · rw [resolved] at makes
      cases makes
      obtain rfl := answers.of_release
      have content := Slots.bytes?_slot.mp live
      have noBlock : (surface.reply (.release handle) none).block? = none := rfl
      rw [answer_reached model reached, model.call?_erase, reached]
      simp only [Client.perform, Client.request, served, Outcome.answer, Option.map_some,
        Option.isSome_some, if_true, Slots.rewrite_slot content]
      refine ⟨?_, later, _, laterHolds, ?_, retired.call rfl (fun _ => rfl) (.spend resolved)⟩
      · exact (Client.outline_respond { client with heap := after } noBlock none).1
      · cases answers with
        | refused asks => cases asks
        | released => exact naming.spend content resolved

theorem follows_fill {source : Operand} (usable : slots.Usable source) (seed : UInt8)
    (granted : Bool)
    : Follows model since (client.perform (.fill source seed))
        (slots.perform (.fill source seed) granted) := by
  rcases resolve_usable holds naming usable with
    ⟨nothing, resolved⟩ | ⟨index, bytes, handle, rfl, live, resolved, present, recorded⟩
  · simp only [Client.perform, resolved, Slots.perform, nothing]
    exact ⟨rfl, store, dead, holds, naming, retired.idle _ id⟩
  · have written := client.write_holds holds present 0 fun i => seed + UInt8.ofNat i
    rw [List.take_zero, List.nil_append, Nat.sub_zero] at written
    have names : (client.write handle 0 fun i => seed + UInt8.ofNat i).names = client.names := by
      funext asked
      rw [Client.names, write_slots, Client.names]
    simp only [Client.perform, resolved, sizeOf?, Option.bind_some, recorded, Slots.perform, live]
    have content := Slots.bytes?_slot.mp live
    rw [Slots.rewrite_slot content]
    refine ⟨rfl, _, dead, written, ?_⟩
    rw [names]
    refine ⟨naming.rewrite content resolved _, retired.idle _ fun spent => ?_⟩
    rcases Slots.update_eq_iff.mp spent with ⟨_, ⟨⟩⟩ | ⟨_, old⟩
    exact old

theorem follows_read {source : Operand} (usable : slots.Usable source) (count : Nat)
    (granted : Bool)
    : Follows model since (client.perform (.read source count))
        (slots.perform (.read source count) granted) := by
  rcases resolve_usable holds naming usable with
    ⟨nothing, resolved⟩ | ⟨index, bytes, handle, rfl, live, resolved, present, recorded⟩
  · simp only [Client.perform, resolved, Slots.perform, nothing]
    exact ⟨rfl, store, dead, holds, naming, retired.idle _ id⟩
  · have read : (InspectableHeap.memory client.heap).read handle (min count bytes.length)
        = bytes.take (min count bytes.length) := by
      calc (InspectableHeap.memory client.heap).read handle (min count bytes.length)
      _ = ((InspectableHeap.memory client.heap).read handle bytes.length).take count :=
          (Memory.take_read ..).symm
      _ = bytes.take count := by rw [model.reads holds present]
      _ = bytes.take (min count bytes.length) := List.take_eq_take_min
    simp only [Client.perform, resolved, sizeOf?, Option.bind_some, recorded, Slots.perform, live,
      read]
    exact ⟨rfl, store, dead, holds, naming, retired.idle _ id⟩

theorem follows_look {source : Operand} (usable : slots.Usable source) (granted : Bool)
    : Follows model since (client.perform (.look source))
        (slots.perform (.look source) granted) := by
  refine ⟨?_, store, dead, holds, naming, retired.idle _ id⟩
  rcases resolve_usable holds naming usable with
    ⟨nothing, resolved⟩ | ⟨_, bytes, handle, _, live, resolved, _, recorded⟩
  · simp only [Client.perform, view, resolved, Slots.perform, nothing, Response.outline,
      Option.map_none]
  · simp only [Client.perform, view, resolved, Slots.perform, live, recorded, Response.outline,
      Option.map_some]

end Commands

/-- Every command that is allowed does what the slots say. -/
theorem Shows.perform (shows : client.Shows model slots since) {command : Command}
    (allowed : slots.Allows command)
    (goesOn : (client.perform command).1.stops = false)
    : Follows model since (client.perform command)
        (slots.perform command (client.perform command).1.grants) := by
  obtain ⟨store, dead, holds, naming, retired⟩ := shows
  cases command with
  | allocate slot size surface => exact follows_allocate holds naming retired goesOn
  | allocateZeroed slot count size surface =>
      exact follows_allocateZeroed holds naming retired goesOn
  | reallocate source size target surface =>
      exact follows_reallocate holds naming retired allowed goesOn
  | release source surface => exact follows_release holds naming retired allowed goesOn _
  | fill source seed => exact follows_fill holds naming retired allowed seed _
  | read source count => exact follows_read holds naming retired allowed count _
  | look source => exact follows_look holds naming retired allowed _
  | cycle size times => exact allowed.elim

end Client

end Firmware
