import Firmware.Heap.Client
import Firmware.Proofs.Heap.ErasedRequests
import Firmware.Proofs.Heap.StoreHeaps

/-! Slot programs over any heap that keeps byte strings.
What a client learns, but for addresses, and what its slots hold follows from its commands and from
which of its requests were granted (`Slots.perform`). A client over a heap that keeps byte strings
does the same, command by command (`Client.Shows.perform`). Live slots have handles of their own
(`Naming`), and those of spent slots are dead until a block that is handed out reaches them
(`Retired`).
-/

namespace Firmware

--------------------------------------------------------------------------------
-- Responses
--------------------------------------------------------------------------------

/-- Whether a request was answered with a block. -/
def Response.grants : Response → Bool
  | .block (some _) => true
  | _ => false

/-- The block that a request was answered with. -/
def Response.block? : Response → Option Block
  | .block (some view) => some { address := view.address, size := view.size.getD 0 }
  | _ => none

/-- Whether the program was stopped. -/
def Response.stops : Response → Bool
  | .stopped _ => true
  | _ => false

/-- What is left of a response without the addresses. -/
def Response.outline : Response → Response
  | .block view => .block (view.map fun view => { view with address := 0 })
  | .seen view => .seen (view.map fun view => { view with address := 0 })
  | response => response

/-- What a client learns from a reply that comes with a block of the given size, or with none. -/
def Reply.outline (size : Option Nat) : Reply → Response
  | .handle block => .block (block.map fun _ => { address := 0, size })
  | .refused cause => .refused cause
  | .done => .done
  | .noLayout => .noLayout
  | .skipped => .skipped

--------------------------------------------------------------------------------
-- Slots
--------------------------------------------------------------------------------

/-- What a slot holds. -/
inductive Slot where
  | null
  /-- The handle of a live block with these bytes. -/
  | block (bytes : List UInt8)
  /-- A handle that was given back. -/
  | spent
deriving DecidableEq, Repr

abbrev Slots := Nat → Slot

namespace Slots

def empty : Slots := fun _ => .null

/-- The bytes of the live block that an operand names. -/
def bytes? (slots : Slots) : Operand → Option (List UInt8)
  | .slot index =>
      match slots index with
      | .block bytes => some bytes
      | .null | .spent => none
  | .null | .address _ => none

/-- The operand is null or names a live block. -/
def Usable (slots : Slots) : Operand → Prop
  | .slot index => slots index ≠ .spent
  | .null => True
  | .address _ => False

instance (slots : Slots) : (operand : Operand) → Decidable (slots.Usable operand)
  | .slot index => inferInstanceAs (Decidable (slots index ≠ .spent))
  | .null => inferInstanceAs (Decidable True)
  | .address _ => inferInstanceAs (Decidable False)

/-- A command that allocates, resizes, releases, fills or reads, and uses a slot only while it is
null or holds the handle of a live block.
-/
def Allows (slots : Slots) : Command → Prop
  | .allocate _ _ _ | .allocateZeroed _ _ _ _ => True
  | .reallocate source _ _ _ | .release source _ | .fill source _ | .read source _ | .look source =>
      slots.Usable source
  | .cycle _ _ => False

instance (slots : Slots) : (command : Command) → Decidable (slots.Allows command)
  | .allocate _ _ _ | .allocateZeroed _ _ _ _ => inferInstanceAs (Decidable True)
  | .reallocate source _ _ _ | .release source _ | .fill source _ | .read source _ | .look source =>
      inferInstanceAs (Decidable (slots.Usable source))
  | .cycle _ _ => inferInstanceAs (Decidable False)

/-- The operand as a handle of which only matters whether it is null. -/
def handle? (slots : Slots) (operand : Operand) : Option Nat :=
  (slots.bytes? operand).map fun _ => 0

/-- The live block that an operand names has other bytes. -/
def rewrite (slots : Slots) (operand : Operand) (content : Slot) : Slots :=
  match operand, slots.bytes? operand with
  | .slot index, some _ => Function.update slots index content
  | _, _ => slots

theorem bytes?_slot {slots : Slots} {index : Nat} {bytes : List UInt8}
    : slots.bytes? (.slot index) = some bytes ↔ slots index = .block bytes := by
  simp only [bytes?]
  split <;> simp [*]

theorem rewrite_slot {slots : Slots} {index : Nat} {bytes : List UInt8}
    (live : slots index = .block bytes) (content : Slot)
    : slots.rewrite (.slot index) content = Function.update slots index content := by
  simp only [rewrite, bytes?_slot.mpr live]

theorem rewrite_dead {slots : Slots} {operand : Operand} (dead : slots.bytes? operand = none)
    (content : Slot)
    : slots.rewrite operand content = slots := by
  cases operand <;> simp only [rewrite, dead]

/-- The call that a request comes down to, on a heap that aligns to eight. -/
def call? (surface : Surface) (request : Request) : Option Call := surface.call? Region request

/-- What a client learns from a request. -/
def answer (surface : Surface) (request : Request) (granted : Bool) : Response :=
  match call? surface request with
  | none => (surface.refusal request).outline none
  | some call => (surface.reply call (if granted then some 0 else none)).outline call.size?

/-- A request for a block, with the bytes that a block of each size would have. -/
def obtain (slots : Slots) (surface : Surface) (request : Request) (slot : Nat) (granted : Bool)
    (contents : Nat → List UInt8)
    : Response × Slots :=
  let size := ((call? surface request).bind Call.size?).getD 0
  (answer surface request granted,
    if granted then Function.update slots slot (.block (contents size)) else slots)

/-- What a client learns from a command, and what its slots hold afterwards. -/
def perform (slots : Slots) (command : Command) (granted : Bool) : Response × Slots :=
  match command with
  | .allocate slot size surface =>
      slots.obtain surface (.allocate size) slot granted fun size =>
        List.replicate size Client.freshByte
  | .allocateZeroed slot count size surface =>
      slots.obtain surface (.allocateZeroed count size) slot granted fun size =>
        List.replicate size 0
  | .reallocate source size target surface =>
      let old := (slots.bytes? source).getD []
      let left := if granted then slots.rewrite source .spent else slots
      left.obtain surface (.reallocate (slots.handle? source) size) target granted fun size =>
        old.take size ++ List.replicate (size - old.length) Client.freshByte
  | .release source surface =>
      let request := .release (slots.handle? source)
      (answer surface request false,
        if (call? surface request).isSome then slots.rewrite source .spent else slots)
  | .fill source seed =>
      match slots.bytes? source with
      | none => (.dead, slots)
      | some bytes =>
          (.filled bytes.length,
            slots.rewrite source
              (.block ((List.range bytes.length).map fun i => seed + UInt8.ofNat i)))
  | .read source count =>
      match slots.bytes? source with
      | none => (.dead, slots)
      | some bytes => (.bytes (bytes.take (min count bytes.length)), slots)
  | .look source =>
      (.seen ((slots.bytes? source).map fun bytes => { address := 0, size := some bytes.length }),
        slots)
  | .cycle _ _ => (.granted 0, slots)

/-- The blocks that were handed out since each slot was spent, after a step that has left these
slots. What the step hands out that spends a slot counts.
-/
def since (slots : Slots) (earlier : Nat → List Block) (response : Response)
    : Nat → List Block :=
  fun index => if slots index = .spent then earlier index ++ response.block?.toList else []

end Slots

--------------------------------------------------------------------------------
-- Slots and handles
--------------------------------------------------------------------------------

/-- Slots that are null have no handle, the others have handles of their own. -/
structure Naming (names : Nat → Option Nat) (slots : Slots) (store : BlockStore) : Prop where
  null : ∀ {index}, slots index = .null → names index = none
  block
    : ∀ {index bytes},
        slots index = .block bytes →
        ∃ handle, names index = some handle ∧ store handle = some bytes
  distinct
    : ∀ {index other bytes otherBytes handle},
        slots index = .block bytes →
        slots other = .block otherBytes →
        names index = some handle →
        names other = some handle →
        index = other

/-- A slot that may have been updated holds the new content, or is another one. -/
theorem Slots.update_eq_iff {slots : Slots} {index other : Nat} {content found : Slot}
    : Function.update slots index content other = found
      ↔ other = index ∧ content = found ∨ other ≠ index ∧ slots other = found := by
  rw [Function.update_apply]
  split <;> simp [*]

namespace Naming

variable {names : Nat → Option Nat} {slots : Slots} {store : BlockStore} {index handle : Nat}
  {bytes : List UInt8}

theorem not_named_of_absent (naming : Naming names slots store) (absent : store handle = none)
    (live : slots index = .block bytes)
    : names index ≠ some handle := by
  intro named
  obtain ⟨found, foundNamed, present⟩ := naming.block live
  cases foundNamed.symm.trans named
  cases absent.symm.trans present

/-- A live slot keeps its block if no live slot names the handle at which the store changes. -/
theorem kept (naming : Naming names slots store) {later : BlockStore}
    (same : ∀ {other}, other ≠ handle → later other = store other)
    (live : slots index = .block bytes) (elsewhere : names index ≠ some handle)
    : ∃ found, names index = some found ∧ later found = some bytes := by
  obtain ⟨found, named, present⟩ := naming.block live
  refine ⟨found, named, (same ?_).trans present⟩
  rintro rfl
  exact elsewhere named

theorem spend (naming : Naming names slots store) (live : slots index = .block bytes)
    (named : names index = some handle)
    : Naming names (Function.update slots index .spent) (store.remove handle) := by
  refine ⟨?null, ?block, ?distinct⟩
  case null =>
    intro other found
    rcases Slots.update_eq_iff.mp found with ⟨_, ⟨⟩⟩ | ⟨_, old⟩
    exact naming.null old
  case block =>
    intro other others found
    rcases Slots.update_eq_iff.mp found with ⟨_, ⟨⟩⟩ | ⟨different, old⟩
    apply naming.kept (fun elsewhere => store.remove_of_ne elsewhere) old
    intro sameName
    exact different (naming.distinct old live sameName named)
  case distinct =>
    intro left right leftBytes rightBytes shared leftFound rightFound
    rcases Slots.update_eq_iff.mp leftFound with ⟨_, ⟨⟩⟩ | ⟨_, leftOld⟩
    rcases Slots.update_eq_iff.mp rightFound with ⟨_, ⟨⟩⟩ | ⟨_, rightOld⟩
    exact naming.distinct leftOld rightOld

theorem grant (naming : Naming names slots store) (absent : store handle = none) (index : Nat)
    (bytes : List UInt8)
    : Naming (Function.update names index (some handle))
        (Function.update slots index (.block bytes)) (store.set handle bytes) := by
  refine ⟨?null, ?block, ?distinct⟩
  case null =>
    intro other found
    rcases Slots.update_eq_iff.mp found with ⟨_, ⟨⟩⟩ | ⟨different, old⟩
    rw [Function.update_of_ne different]
    exact naming.null old
  case block =>
    intro other others found
    rcases Slots.update_eq_iff.mp found with ⟨rfl, ⟨⟩⟩ | ⟨different, old⟩
    · rw [Function.update_self]
      exact ⟨handle, rfl, store.set_self handle bytes⟩
    · rw [Function.update_of_ne different]
      exact naming.kept (fun elsewhere => store.set_of_ne elsewhere bytes) old
        (naming.not_named_of_absent absent old)
  case distinct =>
    intro left right leftBytes rightBytes shared leftFound rightFound leftNamed rightNamed
    rcases Slots.update_eq_iff.mp leftFound with ⟨rfl, _⟩ | ⟨leftDifferent, leftOld⟩
    · rcases Slots.update_eq_iff.mp rightFound with ⟨rfl, _⟩ | ⟨rightDifferent, rightOld⟩
      · rfl
      · rw [Function.update_self] at leftNamed
        rw [Function.update_of_ne rightDifferent] at rightNamed
        cases leftNamed
        exact absurd rightNamed (naming.not_named_of_absent absent rightOld)
    · rw [Function.update_of_ne leftDifferent] at leftNamed
      rcases Slots.update_eq_iff.mp rightFound with ⟨rfl, _⟩ | ⟨rightDifferent, rightOld⟩
      · rw [Function.update_self] at rightNamed
        cases rightNamed
        exact absurd leftNamed (naming.not_named_of_absent absent leftOld)
      · rw [Function.update_of_ne rightDifferent] at rightNamed
        exact naming.distinct leftOld rightOld leftNamed rightNamed

theorem rewrite (naming : Naming names slots store) (live : slots index = .block bytes)
    (named : names index = some handle) (others : List UInt8)
    : Naming names (Function.update slots index (.block others)) (store.set handle others) := by
  have spent := naming.spend live named
  have granted := spent.grant (store.remove_self handle) index others
  have sameNames : Function.update names index (some handle) = names :=
    Function.update_eq_self_iff.mpr named.symm
  have sameStore : (store.remove handle).set handle others = store.set handle others := by
    funext asked
    by_cases same : asked = handle <;> simp [BlockStore.set, BlockStore.remove, same]
  rwa [sameNames, Function.update_idem, sameStore] at granted

end Naming

--------------------------------------------------------------------------------
-- Spent slots
--------------------------------------------------------------------------------

namespace Slots

/-- Slots that are spent later were spent before, or have the handle that is given back. -/
def Spends (names : Nat → Option Nat) (slots later : Slots) (returned : Option Nat) : Prop :=
  ∀ index,
    later index = .spent →
    slots index = .spent ∨ ∃ handle, names index = some handle ∧ returned = some handle

namespace Spends

variable {names : Nat → Option Nat} {slots later : Slots} {returned : Option Nat} {index : Nat}

theorem refl : Spends names slots slots returned := fun _ => Or.inl

/-- The slot of the handle that is given back is spent. -/
theorem spend {handle : Nat} (named : names index = some handle)
    : Spends names slots (Function.update slots index .spent) (some handle) := by
  intro other spent
  rcases update_eq_iff.mp spent with ⟨rfl, _⟩ | ⟨_, old⟩
  · exact Or.inr ⟨handle, named, rfl⟩
  · exact Or.inl old

/-- A slot that is filled is not spent. -/
theorem fill (spends : Spends names slots later returned) (index : Nat) (bytes : List UInt8)
    : Spends names slots (Function.update later index (.block bytes)) returned := by
  intro other spent
  rcases update_eq_iff.mp spent with ⟨_, ⟨⟩⟩ | ⟨_, old⟩
  exact spends other old

end Spends

end Slots

/-- A refused call gives nothing back and hands nothing out. -/
theorem Call.subset_dead_refused (call : Call) (reaches : Block → Nat → Prop) (dead : Set Nat)
    : dead ⊆ call.dead reaches none dead := by
  intro handle known
  refine ⟨Or.inl known, ?_⟩
  cases call <;> rintro block ⟨⟩

/-- Spent slots have handles that are dead, unless a block that was handed out since reaches
them.
-/
def Retired (reaches : Block → Nat → Prop) (names : Nat → Option Nat) (slots : Slots)
    (since : Nat → List Block) (dead : Set Nat)
    : Prop :=
  ∀ {index},
    slots index = .spent →
    ∃ handle,
      names index = some handle
      ∧ ((∀ block ∈ since index, ¬ reaches block handle) → handle ∈ dead)

namespace Retired

variable {reaches : Block → Nat → Prop} {names laterNames : Nat → Option Nat}
  {slots laterSlots : Slots} {since : Nat → List Block} {dead later : Set Nat}

theorem mono (retired : Retired reaches names slots since dead) (more : dead ⊆ later)
    : Retired reaches names slots since later := by
  intro index spent
  obtain ⟨handle, named, gone⟩ := retired spent
  exact ⟨handle, named, fun unreached => more (gone unreached)⟩

/-- A step that brings no handle back to life and spends no slot. -/
theorem idle (retired : Retired reaches names slots since dead) (response : Response)
    (still : ∀ {index}, laterSlots index = .spent → slots index = .spent)
    : Retired reaches names laterSlots (laterSlots.since since response) dead := by
  intro index spent
  obtain ⟨handle, named, gone⟩ := retired (still spent)
  refine ⟨handle, named, fun unreached => gone fun block member => unreached block ?_⟩
  rw [Slots.since, if_pos spent]
  exact List.mem_append_left _ member

/-- A call that is answered with the block of the response, and gives back the handles of the slots
that it spends.
-/
theorem call (retired : Retired reaches names slots since dead) {call : Call} {answer : Option Nat}
    {response : Response} (granted : response.block? = call.granted? answer)
    (sameNames : ∀ {index}, laterSlots index = .spent → laterNames index = names index)
    (spends : Slots.Spends names slots laterSlots (call.returned? answer))
    : Retired reaches laterNames laterSlots (laterSlots.since since response)
        (call.dead reaches answer dead) := by
  intro index spent
  have now : ∀ {handle},
      (∀ block ∈ laterSlots.since since response index, ¬ reaches block handle) →
      ∀ block ∈ call.granted? answer, ¬ reaches block handle := by
    intro handle unreached block member
    apply unreached
    rw [Slots.since, if_pos spent, granted]
    exact List.mem_append_right _ (Option.mem_toList.mpr member)
  rw [sameNames spent]
  rcases spends index spent with old | ⟨handle, named, returned⟩
  · obtain ⟨handle, named, gone⟩ := retired old
    refine ⟨handle, named, fun unreached => ⟨Or.inl (gone fun block member => ?_), now unreached⟩⟩
    apply unreached
    rw [Slots.since, if_pos spent]
    exact List.mem_append_left _ member
  · exact ⟨handle, named, fun unreached => ⟨Or.inr returned, now unreached⟩⟩

end Retired

end Firmware
