import Firmware.Proofs.Heap.BudgetCalls
import Firmware.Proofs.Heap.Sessions
import Mathlib.Algebra.GroupWithZero.Nat
import Mathlib.Algebra.Ring.Int.Defs

/-! The books of a budget heap over any run of calls, misuse included.
What is live follows from the calls that were made and their results (`BudgetHeap.sizeAfter`),
whatever handles they name. The heap agrees with it after every call, also after one that stopped
the program, and its count of used bytes never leaves the address space
(`BudgetHeap.books_balance`).
-/

namespace Firmware.BudgetHeap

--------------------------------------------------------------------------------
-- Histories
--------------------------------------------------------------------------------

/-- A call that was made, with its result. -/
structure Entry where
  call : Call
  result : Except HeapFault (Option Nat)

namespace Entry

/-- The block that a call was answered with. -/
def answer (entry : Entry) : Option Nat := entry.result.toOption.join

/-- The size of the block that is live at the address after the call, given the size before. A
release gives a block back even if it stops the program.
-/
def sizeAfter (entry : Entry) (address : Nat) (before : Option Nat) : Option Nat :=
  let remaining := if entry.call.returned? entry.answer = some address then none else before
  match entry.call.granted? entry.answer with
  | none => remaining
  | some block => if block.address = address then some block.size else remaining

/-- What the call adds to the number of used bytes, update by update, if `old` is the size that was
recorded for the block that it names.
-/
def updates (entry : Entry) (old : Option Nat) : List Int :=
  match entry.call, entry.answer, old with
  | .allocate size, some _, _ | .allocateZeroed size, some _, _ => [size]
  | .reallocate _ size, some _, some old => [-old, size]
  | .release _, _, some old => [-old]
  | _, _, _ => []

end Entry

/-- The number of used bytes is in the address space, and stays there update by update. -/
def StaysInRange (used : Int) : List Int → Prop
  | [] => 0 ≤ used ∧ used < addressSpace
  | update :: rest => (0 ≤ used ∧ used < addressSpace) ∧ StaysInRange (used + update) rest

/-- The size of the block that is live at the address after a history, the oldest call first. -/
def sizeAfter (history : List Entry) (address : Nat) : Option Nat :=
  history.foldl (fun before entry => entry.sizeAfter address before) none

/-- The call releases an address that is not live after the past. -/
def Entry.ReleasesDead (entry : Entry) (past : List Entry) : Prop :=
  match entry.call with
  | .release address => BudgetHeap.sizeAfter past address = none
  | _ => False

instance (past : List Entry) : (entry : Entry) → Decidable (entry.ReleasesDead past)
  | ⟨.release address, _⟩ => inferInstanceAs (Decidable (sizeAfter past address = none))
  | ⟨.allocate _, _⟩ | ⟨.allocateZeroed _, _⟩ | ⟨.reallocate _ _, _⟩ =>
      inferInstanceAs (Decidable False)

/-- The number of releases of an address that was not live when it was released. -/
def deadReleases (past : List Entry) : List Entry → Nat
  | [] => 0
  | entry :: rest =>
      (if entry.ReleasesDead past then 1 else 0) + deadReleases (past ++ [entry]) rest

/-- The host has resized a block to the size, and answered with the address. -/
def ResizedTo (history : List Entry) (address size : Nat) : Prop :=
  ∃ block, Entry.mk (.reallocate block size) (.ok (some address)) ∈ history

theorem sizeAfter_append_singleton (history : List Entry) (entry : Entry) (address : Nat)
    : sizeAfter (history ++ [entry]) address
      = entry.sizeAfter address (sizeAfter history address) := by
  simp [sizeAfter]

theorem deadReleases_append_singleton (past history : List Entry) (entry : Entry)
    : deadReleases past (history ++ [entry])
      = deadReleases past history + if entry.ReleasesDead (past ++ history) then 1 else 0 := by
  induction history generalizing past with
  | nil => simp [deadReleases]
  | cons first rest ih =>
      simp only [List.cons_append, deadReleases, ih, List.append_assoc, List.nil_append]
      omega

theorem not_hasLayout_iff {size : Nat} : ¬ HasLayout size ↔ largestExtent - 8 < size := by
  simp only [HasLayout, hostSize, largestExtent, addressSpace]
  omega

--------------------------------------------------------------------------------
-- Runs
--------------------------------------------------------------------------------

section Runs

variable {S : Type} [HostAllocator S]

/-- The heap after a run of calls. A fault does not end the run. -/
def afterCalls (heap : BudgetHeap S) : List Call → BudgetHeap S
  | [] => heap
  | call :: rest => (call.perform heap).heap.afterCalls rest

/-- The calls of a run with their results. -/
def history (heap : BudgetHeap S) : List Call → List Entry
  | [] => []
  | call :: rest => ⟨call, (call.perform heap).result⟩ :: (call.perform heap).heap.history rest

/-- The host refuses the call, or answers it with an address at which nothing is live. A block that
is resized may also stay where it is.
-/
def AnsweredFresh (heap : BudgetHeap S) (call : Call) : Prop :=
  ∀ address ∈ (Entry.mk call (call.perform heap).result).answer,
    heap.sizeOf? address = none ∨ call.block? = some address

instance (heap : BudgetHeap S) (call : Call) : Decidable (heap.AnsweredFresh call) :=
  inferInstanceAs (Decidable (∀ address ∈ (Entry.mk call (call.perform heap).result).answer, _))

/-- The host answers every call of a run in this way. -/
def Admits (heap : BudgetHeap S) : List Call → Prop
  | [] => True
  | call :: rest => heap.AnsweredFresh call ∧ (call.perform heap).heap.Admits rest

instance decidableAdmits
    : (heap : BudgetHeap S) → (calls : List Call) → Decidable (heap.Admits calls)
  | _, [] => inferInstanceAs (Decidable True)
  | heap, call :: rest =>
      have := decidableAdmits (call.perform heap).heap rest
      inferInstanceAs (Decidable (heap.AnsweredFresh call ∧ (call.perform heap).heap.Admits rest))

theorem admits_append {heap : BudgetHeap S} {earlier later : List Call}
    : heap.Admits (earlier ++ later)
      ↔ heap.Admits earlier ∧ (heap.afterCalls earlier).Admits later := by
  induction earlier generalizing heap with
  | nil => simp [Admits, afterCalls]
  | cons call rest ih => simp only [List.cons_append, Admits, afterCalls, ih, and_assoc]

end Runs

--------------------------------------------------------------------------------
-- The sum of the recorded sizes
--------------------------------------------------------------------------------

section Books

variable {S : Type} {heap : BudgetHeap S}

/-- Every live address is recorded once, and the recorded sizes add up to the used bytes. -/
structure Summed (heap : BudgetHeap S) : Prop where
  distinct : (heap.live.map Prod.fst).Nodup
  used : heap.used = (heap.live.map Prod.snd).sum

theorem lookup_eq_some_iff {live : List (Nat × Nat)} {block size : Nat}
    (distinct : (live.map Prod.fst).Nodup)
    : live.lookup block = some size ↔ (block, size) ∈ live := by
  induction live with
  | nil => simp
  | cons entry rest ih =>
      obtain ⟨first, firstSize⟩ := entry
      obtain ⟨absent, restDistinct⟩ := List.nodup_cons.mp distinct
      by_cases same : block = first
      · subst block
        have elsewhere : (first, size) ∉ rest := fun member =>
          absent (List.mem_map.mpr ⟨_, member, rfl⟩)
        rw [List.lookup_cons_self, List.mem_cons]
        simp [elsewhere, eq_comm]
      · have passed : (block == first) = false := beq_false_of_ne same
        rw [List.lookup_cons, passed]
        simp [ih restDistinct, same]

theorem without_eq_self {live : List (Nat × Nat)} {block : Nat}
    (absent : live.lookup block = none)
    : without live block = live := by
  apply List.filter_eq_self.mpr
  intro entry member
  have different := List.lookup_eq_none_iff.mp absent entry member
  exact bne_iff_ne.mpr (bne_iff_ne.mp different).symm

theorem nodup_without {live : List (Nat × Nat)} (distinct : (live.map Prod.fst).Nodup)
    (block : Nat)
    : ((without live block).map Prod.fst).Nodup :=
  distinct.sublist (List.filter_sublist.map Prod.fst)

/-- Without a block the sizes add up to less by its size, by induction on the recorded blocks. -/
theorem sum_without {live : List (Nat × Nat)} {block size : Nat}
    (distinct : (live.map Prod.fst).Nodup) (found : live.lookup block = some size)
    : ((without live block).map Prod.snd).sum + size = (live.map Prod.snd).sum := by
  induction live with
  | nil => simp at found
  | cons entry rest ih =>
      obtain ⟨first, firstSize⟩ := entry
      obtain ⟨absent, restDistinct⟩ := List.nodup_cons.mp distinct
      by_cases same : block = first
      · subst block
        obtain rfl : firstSize = size := by simpa using found
        have gone : rest.lookup first = none := by
          apply List.lookup_eq_none_iff.mpr
          intro entry member
          apply bne_iff_ne.mpr
          rintro rfl
          exact absent (List.mem_map.mpr ⟨entry, member, rfl⟩)
        have dropped : without ((first, firstSize) :: rest) first = without rest first := by
          simp [without]
        rw [dropped, without_eq_self gone, List.map_cons, List.sum_cons, Nat.add_comm]
      · have passed : (block == first) = false := beq_false_of_ne same
        have kept : without ((first, firstSize) :: rest) block
            = (first, firstSize) :: without rest block := by
          simp [without, Ne.symm same]
        rw [List.lookup_cons, passed] at found
        rw [kept, List.map_cons, List.map_cons, List.sum_cons, List.sum_cons, Nat.add_assoc,
          ih restDistinct found]

theorem Summed.mem_live_iff (summed : heap.Summed) {address size : Nat}
    : (address, size) ∈ heap.live ↔ heap.sizeOf? address = some size :=
  (lookup_eq_some_iff summed.distinct).symm

theorem Summed.le_used (summed : heap.Summed) {block size : Nat}
    (live : heap.sizeOf? block = some size)
    : size ≤ heap.used := by
  have rest := sum_without summed.distinct live
  have used := summed.used
  omega

theorem Summed.untrack (summed : heap.Summed) {block size : Nat}
    (live : heap.sizeOf? block = some size)
    : (heap.untrack block size).Summed where
  distinct := nodup_without summed.distinct block
  used := by
    have rest := sum_without summed.distinct live
    have used := summed.used
    simp only [BudgetHeap.untrack]
    omega

theorem Summed.track (summed : heap.Summed) {block : Nat} (size : Nat)
    (absent : heap.sizeOf? block = none)
    : (heap.track block size).Summed where
  distinct := by
    have gone : block ∉ (without heap.live block).map Prod.fst := by
      intro member
      obtain ⟨entry, entryMember, same⟩ := List.mem_map.mp member
      exact (mem_without.mp entryMember).2 same
    exact List.nodup_cons.mpr ⟨gone, nodup_without summed.distinct block⟩
  used := by
    have used := summed.used
    simp only [BudgetHeap.track, without_eq_self absent, List.map_cons, List.sum_cons]
    omega

end Books

--------------------------------------------------------------------------------
-- Books and history
--------------------------------------------------------------------------------

namespace Entry

theorem sizeAfter_unanswered {entry : Entry} (asks : entry.call.size?.isSome)
    (unanswered : entry.answer = none) (address : Nat) (before : Option Nat)
    : entry.sizeAfter address before = before := by
  rcases entry with ⟨call, result⟩
  cases call with
  | allocate size | allocateZeroed size | reallocate block size =>
      simp [sizeAfter, unanswered, Call.granted?, Call.returned?]
  | release block => cases asks

theorem sizeAfter_drawn {entry : Entry} {zeroed : Bool} {size block : Nat}
    (draws : entry.call.draws? = some (zeroed, size)) (answered : entry.answer = some block)
    (address : Nat) (before : Option Nat)
    : entry.sizeAfter address before = if block = address then some size else before := by
  rcases entry with ⟨call, result⟩
  cases call with
  | allocate asked | allocateZeroed asked =>
      cases draws
      simp [sizeAfter, answered, Call.granted?, Call.returned?, Call.size?]
  | reallocate _ _ | release _ => cases draws

theorem sizeAfter_resized {block size moved : Nat} (address : Nat) (before : Option Nat)
    : (Entry.mk (.reallocate block size) (.ok (some moved))).sizeAfter address before
      = if moved = address then some size
        else if block = address then none
        else before := by
  have answered : (Entry.mk (.reallocate block size) (.ok (some moved))).answer = some moved := rfl
  simp [sizeAfter, answered, Call.granted?, Call.returned?, Call.size?]

theorem sizeAfter_released {block : Nat} {result : Except HeapFault (Option Nat)} (address : Nat)
    (before : Option Nat)
    : (Entry.mk (.release block) result).sizeAfter address before
      = if block = address then none else before := by
  simp [sizeAfter, Call.granted?, Call.returned?, Call.size?]

theorem not_releasesDead {entry : Entry} (asks : entry.call.size?.isSome) (past : List Entry)
    : ¬ entry.ReleasesDead past := by
  rcases entry with ⟨call, result⟩
  cases call with
  | allocate size | allocateZeroed size | reallocate block size => exact id
  | release block => cases asks

end Entry

section Balance

variable {S : Type} {heap : BudgetHeap S} {capacity : Nat} {past : List Entry}

/-- The books of a heap agree with the calls that were made. -/
structure Balanced (heap : BudgetHeap S) (capacity : Nat) (past : List Entry) : Prop where
  sameCapacity : heap.capacity = capacity
  /-- The heap records the blocks that are live, with the sizes that were asked for last. -/
  sizes : ∀ address, heap.sizeOf? address = sizeAfter past address
  /-- The used bytes are the sum of these sizes. -/
  summed : heap.Summed
  within : heap.used ≤ capacity
  calls : heap.calls = past.length
  refused : heap.refused = deadReleases [] past
  /-- A size that no block can have is one that the host has granted to a resize. -/
  layouts
    : ∀ address size,
        heap.sizeOf? address = some size →
        HasLayout size ∨ ResizedTo past address size

theorem Balanced.extend (balanced : heap.Balanced capacity past) {entry : Entry}
    {after : BudgetHeap S} (sameCapacity : after.capacity = heap.capacity)
    (sizes : ∀ address, after.sizeOf? address = entry.sizeAfter address (heap.sizeOf? address))
    (summed : after.Summed) (within : after.used ≤ heap.capacity)
    (calls : after.calls = heap.calls + 1)
    (refused : after.refused = heap.refused + if entry.ReleasesDead past then 1 else 0)
    (layouts
      : ∀ address size,
          after.sizeOf? address = some size →
          HasLayout size ∨ ResizedTo [entry] address size ∨ heap.sizeOf? address = some size)
    : after.Balanced capacity (past ++ [entry]) where
  sameCapacity := sameCapacity.trans balanced.sameCapacity
  sizes address := by
    rw [sizeAfter_append_singleton, ← balanced.sizes]
    exact sizes address
  summed := summed
  within := balanced.sameCapacity ▸ within
  calls := by rw [calls, balanced.calls, List.length_append, List.length_singleton]
  refused := by rw [refused, balanced.refused, deadReleases_append_singleton, List.nil_append]
  layouts address size recorded := by
    rcases layouts address size recorded with possible | ⟨block, now⟩ | old
    · exact Or.inl possible
    · exact Or.inr ⟨block, List.mem_append_right _ now⟩
    · refine (balanced.layouts address size old).imp_right ?_
      exact fun ⟨block, earlier⟩ => ⟨block, List.mem_append_left _ earlier⟩

/-- A call that changes nothing but the counters. -/
theorem Balanced.counted (balanced : heap.Balanced capacity past) {entry : Entry}
    {after : BudgetHeap S} (sameCapacity : after.capacity = heap.capacity)
    (sameLive : after.live = heap.live) (sameUsed : after.used = heap.used)
    (unchanged
      : ∀ address, entry.sizeAfter address (heap.sizeOf? address) = heap.sizeOf? address)
    (calls : after.calls = heap.calls + 1)
    (refused : after.refused = heap.refused + if entry.ReleasesDead past then 1 else 0)
    : after.Balanced capacity (past ++ [entry]) := by
  have sameSizes : ∀ address, after.sizeOf? address = heap.sizeOf? address := fun address =>
    congrArg (List.lookup address) sameLive
  apply balanced.extend sameCapacity
  · exact fun address => (sameSizes address).trans (unchanged address).symm
  · exact ⟨sameLive ▸ balanced.summed.distinct, by rw [sameUsed, sameLive, balanced.summed.used]⟩
  · rw [sameUsed, balanced.sameCapacity]
    exact balanced.within
  · exact calls
  · exact refused
  · exact fun address size recorded => Or.inr (Or.inr ((sameSizes address).symm.trans recorded))

/-- A call for a block that is refused, or that stops the program, changes the number of calls. -/
theorem Balanced.unanswered (balanced : heap.Balanced capacity past) {entry : Entry}
    {after : BudgetHeap S} (asks : entry.call.size?.isSome) (unanswered : entry.answer = none)
    (sameCapacity : after.capacity = heap.capacity) (sameLive : after.live = heap.live)
    (sameUsed : after.used = heap.used) (calls : after.calls = heap.calls + 1)
    (sameRefused : after.refused = heap.refused)
    : after.Balanced capacity (past ++ [entry]) := by
  apply balanced.counted sameCapacity sameLive sameUsed
  · exact fun address => Entry.sizeAfter_unanswered asks unanswered address _
  · exact calls
  · rw [sameRefused, if_neg (Entry.not_releasesDead asks past), Nat.add_zero]

/-- A block is drawn at an address at which nothing is live. -/
theorem Balanced.drawn (balanced : heap.Balanced capacity past) {call : Call} {zeroed : Bool}
    {size block : Nat} (draws : call.draws? = some (zeroed, size)) (fits : heap.Fits size)
    (possible : HasLayout size) (absent : heap.sizeOf? block = none) (host : S)
    : ({ heap.counted with host }.track block size).Balanced capacity
        (past ++ [Entry.mk call (.ok (some block))]) := by
  let fresh : BudgetHeap S := { heap.counted with host }
  have asks : call.size?.isSome := by
    rw [Call.size?_of_draws? draws]
    rfl
  have summed : fresh.Summed := ⟨balanced.summed.distinct, balanced.summed.used⟩
  have recorded : ∀ address, (fresh.track block size).sizeOf? address
      = if block = address then some size else heap.sizeOf? address :=
    fresh.sizeOf?_track_apply block size
  refine balanced.extend rfl ?sizes ?summed ?within rfl ?refused ?layouts
  case sizes =>
    intro address
    rw [Entry.sizeAfter_drawn draws rfl]
    exact recorded address
  case summed =>
    exact summed.track size absent
  case within =>
    exact fits.2
  case refused =>
    rw [if_neg (Entry.not_releasesDead asks past)]
    rfl
  case layouts =>
    intro address other found
    rw [recorded] at found
    split at found
    · cases found
      exact Or.inl possible
    · exact Or.inr (Or.inr found)

/-- A block is resized, and stays where it is or moves to where nothing is live. -/
theorem Balanced.resized (balanced : heap.Balanced capacity past) {block size old moved : Nat}
    (live : heap.sizeOf? block = some old) (fits : old < size → heap.Fits (size - old))
    (elsewhere : heap.sizeOf? moved = none ∨ block = moved) (host : S)
    : (({ heap.counted with host }.untrack block old).track moved size).Balanced capacity
        (past ++ [Entry.mk (.reallocate block size) (.ok (some moved))]) := by
  let fresh : BudgetHeap S := { heap.counted with host }
  have summed : fresh.Summed := ⟨balanced.summed.distinct, balanced.summed.used⟩
  have forgotten : ∀ address, (fresh.untrack block old).sizeOf? address
      = if block = address then none else heap.sizeOf? address :=
    fresh.sizeOf?_untrack_apply block old
  have recorded : ∀ address, ((fresh.untrack block old).track moved size).sizeOf? address
      = if moved = address then some size
        else if block = address then none
        else heap.sizeOf? address := by
    intro address
    rw [sizeOf?_track_apply, forgotten]
  have absent : (fresh.untrack block old).sizeOf? moved = none := by
    rw [forgotten]
    rcases elsewhere with absent | same
    · split
      · rfl
      · exact absent
    · exact if_pos same
  refine balanced.extend rfl ?sizes ?summed ?within rfl ?refused ?layouts
  case sizes =>
    intro address
    rw [Entry.sizeAfter_resized]
    exact recorded address
  case summed =>
    exact (summed.untrack live).track size absent
  case within =>
    have oldUsed := balanced.summed.le_used live
    have within := balanced.within
    have sameCapacity := balanced.sameCapacity
    change heap.used - old + size ≤ heap.capacity
    by_cases grows : old < size
    · have room := (fits grows).2
      omega
    · omega
  case refused =>
    rw [if_neg (Entry.not_releasesDead rfl past)]
    rfl
  case layouts =>
    intro address other found
    rw [recorded] at found
    split at found
    · rename_i here
      subst here
      cases found
      exact Or.inr (Or.inl ⟨block, List.mem_cons_self⟩)
    · split at found
      · cases found
      · exact Or.inr (Or.inr found)

/-- A release is refused and counted. -/
theorem Balanced.unknown (balanced : heap.Balanced capacity past) {block : Nat}
    (dead : heap.sizeOf? block = none)
    : { heap.counted with refused := heap.refused + 1 }.Balanced capacity
        (past ++ [Entry.mk (.release block) (.ok none)]) := by
  have releasesDead : (Entry.mk (.release block) (.ok none)).ReleasesDead past :=
    (balanced.sizes block).symm.trans dead
  refine balanced.counted rfl rfl rfl ?unchanged rfl ?refused
  case unchanged =>
    intro address
    rw [Entry.sizeAfter_released]
    split
    next same => rw [← same, dead]
    next => rfl
  case refused => rw [if_pos releasesDead]

/-- A live block is forgotten, whether or not it can be given back to the host. -/
theorem Balanced.forgotten (balanced : heap.Balanced capacity past) {block size : Nat}
    (live : heap.sizeOf? block = some size) {result : Except HeapFault (Option Nat)} (host : S)
    : { heap.counted.untrack block size with host }.Balanced capacity
        (past ++ [Entry.mk (.release block) result]) := by
  let fresh : BudgetHeap S := { heap.counted with host }
  have summed : fresh.Summed := ⟨balanced.summed.distinct, balanced.summed.used⟩
  have recorded : ∀ address, (fresh.untrack block size).sizeOf? address
      = if block = address then none else heap.sizeOf? address :=
    fresh.sizeOf?_untrack_apply block size
  have alive : ¬ (Entry.mk (.release block) result).ReleasesDead past := by
    intro dead
    have known : sizeAfter past block = some size := (balanced.sizes block).symm.trans live
    cases known.symm.trans dead
  refine balanced.extend rfl ?sizes ?summed ?within rfl ?refused ?layouts
  case sizes =>
    intro address
    rw [Entry.sizeAfter_released]
    exact recorded address
  case summed =>
    exact summed.untrack live
  case within =>
    have within := balanced.within
    have sameCapacity := balanced.sameCapacity
    change heap.used - size ≤ heap.capacity
    omega
  case refused =>
    rw [if_neg alive]
    rfl
  case layouts =>
    intro address other found
    have found := (recorded address).symm.trans found
    split at found
    · cases found
    · exact Or.inr (Or.inr found)

/-- Every call that the host answers fresh keeps the balance, by cases on its effect. -/
theorem Balanced.next [HostAllocator S] (balanced : heap.Balanced capacity past) {call : Call}
    (fresh : heap.AnsweredFresh call)
    : (call.perform heap).heap.Balanced capacity
        (past ++ [⟨call, (call.perform heap).result⟩]) := by
  have effect := heap.effect_perform call
  rw [AnsweredFresh] at fresh
  generalize call.perform heap = outcome at effect fresh
  cases effect with
  | refused asks => exact balanced.unanswered asks rfl rfl rfl rfl rfl rfl
  | drawStopped draws fits impossible =>
      have asks : call.size?.isSome := Option.isSome_of_eq_some (Call.size?_of_draws? draws)
      exact balanced.unanswered asks rfl rfl rfl rfl rfl rfl
  | drawRefused draws asked =>
      have asks : call.size?.isSome := Option.isSome_of_eq_some (Call.size?_of_draws? draws)
      exact balanced.unanswered asks rfl rfl rfl rfl rfl rfl
  | @drawn _ zeroed size block host draws fits possible asked =>
      have absent : heap.sizeOf? block = none := by
        rcases fresh block rfl with absent | same
        · exact absent
        · cases (Call.block?_of_draws? draws).symm.trans same
      exact balanced.drawn draws fits possible absent host
  | resizeStopped live impossible => exact balanced.unanswered rfl rfl rfl rfl rfl rfl rfl
  | resizeRefused live asked => exact balanced.unanswered rfl rfl rfl rfl rfl rfl rfl
  | @resized block size old moved host live fits possible asked =>
      have elsewhere := (fresh moved rfl).imp_right Option.some.inj
      exact balanced.resized live fits elsewhere host
  | unknown dead => exact balanced.unknown dead
  | releaseStopped live impossible => exact balanced.forgotten live heap.host
  | released live possible => exact balanced.forgotten live _

theorem Balanced.fresh (capacity : Nat) (host : S)
    : Balanced { capacity, host : BudgetHeap S } capacity [] where
  sameCapacity := rfl
  sizes _ := rfl
  summed := ⟨List.nodup_nil, rfl⟩
  within := Nat.zero_le _
  calls := rfl
  refused := rfl
  layouts _ _ impossible := by cases impossible

/-- Every run that the host answers fresh keeps the balance, by induction on the run. -/
theorem Balanced.after [HostAllocator S] (balanced : heap.Balanced capacity past)
    {calls : List Call} (admitted : heap.Admits calls)
    : (heap.afterCalls calls).Balanced capacity (past ++ heap.history calls) := by
  induction calls generalizing heap past with
  | nil => simpa [afterCalls, history] using balanced
  | cons call rest ih =>
      have rested := ih (balanced.next admitted.1) admitted.2
      rw [List.append_assoc, List.singleton_append] at rested
      exact rested

end Balance

--------------------------------------------------------------------------------
-- Single calls
--------------------------------------------------------------------------------

section Calls

variable {S : Type} [HostAllocator S] {heap : BudgetHeap S} {call : Call}

/-- The call asks for a block that fits the budget and is larger than any block can be. -/
def AsksTooMuch (heap : BudgetHeap S) (call : Call) : Prop :=
  ∃ zeroed size,
    call.draws? = some (zeroed, size) ∧ largestExtent - 8 < size ∧ heap.Fits size

/-- The call names a live block that the host has resized beyond what any block can be. -/
def NamesTooLarge (heap : BudgetHeap S) (past : List Entry) (call : Call) : Prop :=
  ∃ block ∈ call.block?, ∃ size,
    heap.sizeOf? block = some size ∧ largestExtent - 8 < size ∧ ResizedTo past block size

/-- What the call adds to the number of used bytes, update by update. -/
def updates (heap : BudgetHeap S) (call : Call) : List Int :=
  (Entry.mk call (call.perform heap).result).updates (call.block?.bind heap.sizeOf?)

/-- What a single call does to balanced books. -/
structure Exact (heap : BudgetHeap S) (past : List Entry) (call : Call) : Prop where
  /-- An address that is not live can be named without effect. -/
  dead
    : ∀ block ∈ call.block?,
        heap.sizeOf? block = none →
        (call.perform heap).heap.used = heap.used ∧ (call.perform heap).heap.live = heap.live
  /-- A resized block is recorded with exactly its new size, whether or not it moved. -/
  resized
    : ∀ block size moved,
        call = .reallocate block size →
        (call.perform heap).result = .ok (some moved) →
        (call.perform heap).heap.sizeOf? moved = some size
        ∧ (moved ≠ block → (call.perform heap).heap.sizeOf? block = none)
  used : ((call.perform heap).heap.used : Int) = heap.used + (heap.updates call).sum
  /-- No update takes the number of used bytes below zero or out of the address space. -/
  inRange : StaysInRange heap.used (heap.updates call)
  stops
    : ∀ fault,
        (call.perform heap).result = .error fault →
        heap.AsksTooMuch call ∨ heap.NamesTooLarge past call

theorem dead_perform {block : Nat} (about : call.block? = some block)
    (dead : heap.sizeOf? block = none)
    : (call.perform heap).heap.used = heap.used ∧ (call.perform heap).heap.live = heap.live := by
  have effect := heap.effect_perform call
  generalize call.perform heap = outcome at effect
  cases effect with
  | refused asks => exact ⟨rfl, rfl⟩
  | drawStopped draws fits impossible => exact ⟨rfl, rfl⟩
  | drawRefused draws asked => exact ⟨rfl, rfl⟩
  | drawn draws fits possible asked => cases (Call.block?_of_draws? draws).symm.trans about
  | resizeStopped live impossible => exact ⟨rfl, rfl⟩
  | resizeRefused live asked => exact ⟨rfl, rfl⟩
  | resized live fits possible asked =>
      cases about
      cases dead.symm.trans live
  | unknown gone => exact ⟨rfl, rfl⟩
  | releaseStopped live impossible =>
      cases about
      cases dead.symm.trans live
  | released live possible =>
      cases about
      cases dead.symm.trans live

theorem resized_perform {block size moved : Nat}
    (granted : ((Call.reallocate block size).perform heap).result = .ok (some moved))
    : ((Call.reallocate block size).perform heap).heap.sizeOf? moved = some size
      ∧ (moved ≠ block →
          ((Call.reallocate block size).perform heap).heap.sizeOf? block = none) := by
  have effect := heap.effect_perform (.reallocate block size)
  generalize (Call.reallocate block size).perform heap = outcome at effect granted
  cases effect with
  | refused _ | drawRefused _ _ | drawStopped _ _ _ | resizeStopped _ _ | resizeRefused _ _ =>
      cases granted
  | drawn draws _ _ _ => cases draws
  | @resized _ _ old _ host live fits possible asked =>
      cases granted
      constructor
      · change (BudgetHeap.track _ moved size).sizeOf? moved = some size
        rw [sizeOf?_track, Function.update_self]
      · intro different
        change (BudgetHeap.track _ moved size).sizeOf? block = none
        rw [sizeOf?_track, Function.update_of_ne different.symm, sizeOf?_untrack,
          Function.update_self]

theorem updates_unanswered {entry : Entry} {old : Option Nat} (asks : entry.call.size?.isSome)
    (unanswered : entry.answer = none)
    : entry.updates old = [] := by
  rcases entry with ⟨call, result⟩
  cases call with
  | allocate size | allocateZeroed size | reallocate block size => simp [Entry.updates, unanswered]
  | release block => cases asks

theorem updates_drawn {entry : Entry} {zeroed : Bool} {size block : Nat} {old : Option Nat}
    (draws : entry.call.draws? = some (zeroed, size)) (answered : entry.answer = some block)
    : entry.updates old = [(size : Int)] := by
  rcases entry with ⟨call, result⟩
  cases call with
  | allocate asked | allocateZeroed asked =>
      cases draws
      simp [Entry.updates, answered]
  | reallocate _ _ | release _ => cases draws

theorem updates_released {block : Nat} {result : Except HeapFault (Option Nat)}
    (old : Option Nat)
    : (Entry.mk (.release block) result).updates old
      = old.toList.map fun size : Nat => -(size : Int) := by
  cases old <;> rfl

/-- The updates of a call lead to the new number of used bytes and stay in the address space, by
cases on the effect of the call.
-/
theorem Summed.updates_perform (summed : heap.Summed) (call : Call)
    (inBudget : heap.used ≤ heap.capacity) (bounded : heap.capacity < addressSpace)
    : ((call.perform heap).heap.used : Int) = heap.used + (heap.updates call).sum
      ∧ StaysInRange heap.used (heap.updates call) := by
  have unanswered : ∀ updates : List Int, ∀ after : BudgetHeap S,
      updates = [] →
      after.used = heap.used →
      (after.used : Int) = heap.used + updates.sum ∧ StaysInRange heap.used updates := by
    rintro updates after rfl same
    rw [same]
    simp only [StaysInRange, List.sum_nil]
    omega
  have effect := heap.effect_perform call
  rw [BudgetHeap.updates]
  generalize call.perform heap = outcome at effect
  cases effect with
  | refused asks => exact unanswered _ _ (updates_unanswered asks rfl) rfl
  | drawStopped draws _ _ | drawRefused draws _ =>
      have asks : call.size?.isSome := Option.isSome_of_eq_some (Call.size?_of_draws? draws)
      exact unanswered _ _ (updates_unanswered asks rfl) rfl
  | resizeStopped live impossible => exact unanswered _ _ (updates_unanswered rfl rfl) rfl
  | resizeRefused live asked => exact unanswered _ _ (updates_unanswered rfl rfl) rfl
  | @drawn _ zeroed size block host draws fits possible asked =>
      have room := fits.1
      rw [updates_drawn draws rfl]
      change ((heap.used + size : Nat) : Int) = _ ∧ _
      simp only [StaysInRange, List.sum_cons, List.sum_nil]
      omega
  | @resized block size old moved host live fits possible asked =>
      have oldUsed := summed.le_used live
      have room : heap.used - old + size < addressSpace := by
        by_cases grows : old < size
        · have grown := (fits grows).1
          omega
        · omega
      have recorded : (Call.reallocate block size).block?.bind heap.sizeOf? = some old := live
      rw [recorded]
      change ((heap.used - old + size : Nat) : Int) = heap.used + [-(old : Int), (size : Int)].sum
        ∧ StaysInRange heap.used [-(old : Int), (size : Int)]
      simp only [StaysInRange, List.sum_cons, List.sum_nil]
      omega
  | @unknown block dead =>
      have recorded : (Call.release block).block?.bind heap.sizeOf? = none := dead
      refine unanswered _ _ ?_ rfl
      rw [updates_released, recorded]
      rfl
  | @releaseStopped block size live _ | @released block size live _ =>
      have oldUsed := summed.le_used live
      have recorded : (Call.release block).block?.bind heap.sizeOf? = some size := live
      rw [updates_released, recorded]
      change ((heap.used - size : Nat) : Int) = heap.used + [-(size : Int)].sum
        ∧ StaysInRange heap.used [-(size : Int)]
      simp only [StaysInRange, List.sum_cons, List.sum_nil]
      omega

/-- A call stops the program over a size that is too large for any block. -/
theorem Balanced.stops {capacity : Nat} {past : List Entry} (balanced : heap.Balanced capacity past)
    {fault : HeapFault} (stopped : (call.perform heap).result = .error fault)
    : heap.AsksTooMuch call ∨ heap.NamesTooLarge past call := by
  have named : ∀ {block size},
      call.block? = some block →
      heap.sizeOf? block = some size →
      ¬ HasLayout size →
      heap.NamesTooLarge past call := by
    intro block size about live impossible
    have resized := (balanced.layouts block size live).resolve_left impossible
    exact ⟨block, about, size, live, not_hasLayout_iff.mp impossible, resized⟩
  have effect := heap.effect_perform call
  generalize call.perform heap = outcome at effect stopped
  cases effect with
  | refused _ | drawRefused _ _ | drawn _ _ _ _ | resizeRefused _ _ | resized _ _ _ _ | unknown _
  | released _ _ => cases stopped
  | @drawStopped _ zeroed size draws fits impossible =>
      exact Or.inl ⟨zeroed, size, draws, not_hasLayout_iff.mp impossible, fits⟩
  | resizeStopped live impossible => exact Or.inr (named rfl live impossible)
  | releaseStopped live impossible => exact Or.inr (named rfl live impossible)

theorem Balanced.exact {capacity : Nat} {past : List Entry} (balanced : heap.Balanced capacity past)
    (bounded : capacity < addressSpace) (call : Call)
    : heap.Exact past call := by
  have inBudget : heap.used ≤ heap.capacity := balanced.sameCapacity ▸ balanced.within
  have inSpace : heap.capacity < addressSpace := balanced.sameCapacity ▸ bounded
  obtain ⟨used, inRange⟩ := balanced.summed.updates_perform call inBudget inSpace
  refine ⟨?dead, ?resized, used, inRange, ?stops⟩
  case dead => exact fun _ about dead => dead_perform about dead
  case resized =>
    rintro block size moved rfl granted
    exact resized_perform granted
  case stops => exact fun _ stopped => balanced.stops stopped

/-- A budget that fits into the largest block stops no program. -/
theorem Balanced.not_stopped {capacity : Nat} {past : List Entry}
    (balanced : heap.Balanced capacity past) (small : capacity ≤ largestExtent - 8)
    (fault : HeapFault)
    : (call.perform heap).result ≠ .error fault := by
  intro stopped
  have within := balanced.within
  have sameCapacity := balanced.sameCapacity
  rcases balanced.stops stopped with ⟨_, size, _, tooLarge, fits⟩ | ⟨_, _, size, live, tooLarge, _⟩
  · have room := fits.2
    omega
  · have oldUsed := balanced.summed.le_used live
    omega

end Calls

--------------------------------------------------------------------------------
-- Main statement
--------------------------------------------------------------------------------

/-- Over any host that hands out no live address, and after every call of every run, the heap
records exactly the blocks that are live, its counters count what they stand for, and the next call
changes the used bytes by exact updates. A call stops the program only over a size that no block can
have: one that it asks for within the budget, or one to which the host has resized the block that it
names. A budget that fits into the largest block leaves neither.
-/
theorem books_balance {S : Type} [HostAllocator S] {capacity : Nat}
    (bounded : capacity < addressSpace) (host : S) {calls : List Call}
    (admitted : Admits { capacity, host : BudgetHeap S } calls)
    : let start : BudgetHeap S := { capacity, host }
      ∀ earlier later,
        calls = earlier ++ later →
        let heap := start.afterCalls earlier
        let past := start.history earlier
        heap.Balanced capacity past
        ∧ (∀ address size, (address, size) ∈ heap.live ↔ sizeAfter past address = some size)
        ∧ ∀ call,
            heap.Exact past call
            ∧ (capacity ≤ largestExtent - 8 →
                ∀ fault, (call.perform heap).result ≠ .error fault) := by
  rintro start earlier later rfl heap past
  have balanced : heap.Balanced capacity past :=
    (Balanced.fresh capacity host).after (admits_append.mp admitted).1
  refine ⟨balanced, ?live, fun call => ⟨balanced.exact bounded call, ?small⟩⟩
  case live =>
    intro address size
    rw [← balanced.sizes]
    exact balanced.summed.mem_live_iff
  case small => exact fun small fault => balanced.not_stopped small fault

/-- A run with an empty block, a resize, a release of the address that was moved away and of one
that was never handed out, and two requests that are too large: one for any block, one for the host.
-/
theorem books_balance_of_misuse
    : let start : BudgetHeap FreshHost :=
        { capacity := addressSpace - 1, host := ⟨8, fun _ => 7⟩ }
      let calls := [
        .allocate 10, .allocateZeroed 0, .reallocate 8 20, .release 8, .release 999,
        .allocate largestExtent, .allocate 0x200000
      ]
      let heap := start.afterCalls calls
      let past := start.history calls
      start.Admits calls
      ∧ heap.live = [(32, 20), (24, 0)]
      ∧ (heap.used, heap.calls, heap.refused) = (20, 7, 2)
      ∧ heap.Balanced (addressSpace - 1) past
      ∧ heap.Exact past (.reallocate 32 0)
      ∧ ∀ fault, ((Call.release 32).perform heap).result ≠ .error fault := by
  intro start calls heap past
  have admitted : start.Admits calls := by decide
  obtain ⟨balanced, _, exact⟩ :=
    books_balance (by decide) (⟨8, fun _ => 7⟩ : FreshHost) admitted calls []
      (List.append_nil calls).symm
  refine ⟨admitted, by decide, by decide, balanced, (exact (.reallocate 32 0)).1, ?_⟩
  intro fault stopped
  have recorded : heap.sizeOf? 32 = some 20 := by decide
  rcases (exact (.release 32)).1.stops fault stopped with ⟨_, _, ⟨⟩, _⟩ | named
  obtain ⟨_, ⟨⟩, size, live, tooLarge, _⟩ := named
  cases recorded.symm.trans live
  exact absurd tooLarge (by decide)

/-- A host that hands out ever higher addresses, and resizes every block where it is. -/
structure InPlaceHost where
  next : Nat

instance : HostAllocator InPlaceHost where
  allocate size _ host := (some host.next, ⟨host.next + size⟩)
  resize block _ _ host := (some block, host)
  release _ _ host := host

/-- A block that the host has resized to half of the address space cannot be given back: the release
stops the program, though it asks for nothing. And a budget of just less than that much does not
keep a request from stopping it.
-/
theorem release_stops_after_resize
    : let start : BudgetHeap InPlaceHost := { capacity := addressSpace - 1, host := ⟨8⟩ }
      let calls := [.allocate 8, .reallocate 8 largestExtent]
      let heap := start.afterCalls calls
      let tight : BudgetHeap InPlaceHost := { capacity := largestExtent - 1, host := ⟨8⟩ }
      start.Admits (calls ++ [.release 8])
      ∧ heap.live = [(8, largestExtent)]
      ∧ ((Call.release 8).perform heap).result = .error .invalidLayout
      ∧ ¬ heap.AsksTooMuch (.release 8)
      ∧ ((Call.allocate tight.capacity).perform tight).result = .error .invalidLayout := by
  intro start calls heap tight
  refine ⟨by decide, by decide, by decide, ?_, by decide⟩
  rintro ⟨_, _, ⟨⟩, _⟩

end Firmware.BudgetHeap
