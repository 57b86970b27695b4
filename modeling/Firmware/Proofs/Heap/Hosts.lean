import Firmware.Heap.Budget
import Mathlib.Logic.Function.Basic

/-! What an allocator promises about the blocks it has lent.
The blocks that are lent lie apart. Whatever is asked for, the bytes of every other block stay,
zeros are zeros, and a block that is resized keeps the bytes that both sizes have room for; a
request that is refused changes nothing that is lent (`HostContract`). A host that never hands out
an address twice keeps these promises (`FreshHost.contract`).
-/

namespace Firmware

/-- The sizes of the blocks that are lent, by address. -/
abbrev Loans := Nat → Option Nat

namespace Loans

def none : Loans := fun _ => .none

def lend (lent : Loans) (block size : Nat) : Loans := Function.update lent block (some size)

def drop (lent : Loans) (block : Nat) : Loans := Function.update lent block .none

/-- No two blocks share a byte. -/
def Apart (lent : Loans) : Prop :=
  ∀ {block size other otherSize},
    lent block = some size →
    lent other = some otherSize →
    block ≠ other →
    block + size ≤ other ∨ other + otherSize ≤ block

/-- The bytes of every block are the same in both memories. -/
def Kept (lent : Loans) (before after : Memory) : Prop :=
  ∀ {block size i}, lent block = some size → i < size → after (block + i) = before (block + i)

/-- Everything that changes lies in one of the blocks. -/
def Confines (lent : Loans) (before after : Memory) : Prop :=
  ∀ address,
    after address ≠ before address →
    ∃ block size, lent block = some size ∧ block ≤ address ∧ address < block + size

end Loans

open InspectableHost in
/-- A host with the blocks that it may have lent, and its promises about them. -/
structure HostContract (S : Type) [InspectableHost S] where
  Lends : S → Loans → Prop
  apart : ∀ {host lent}, Lends host lent → lent.Apart
  refuses
    : ∀ {host later lent size zeroed},
        Lends host lent →
        HostAllocator.allocate size zeroed host = (none, later) →
        Lends later lent ∧ lent.Kept (memory host) (memory later)
  grants
    : ∀ {host later lent size zeroed block},
        Lends host lent →
        0 < size →
        HostAllocator.allocate size zeroed host = (some block, later) →
        lent block = none
        ∧ Lends later (lent.lend block size)
        ∧ lent.Kept (memory host) (memory later)
        ∧ (zeroed → ∀ i, i < size → memory later (block + i) = 0)
  refusesResize
    : ∀ {host later lent block old new},
        Lends host lent →
        lent block = some old →
        HostAllocator.resize block old new host = (none, later) →
        Lends later lent ∧ lent.Kept (memory host) (memory later)
  /-- A block that is resized stays where it is, or moves to where nothing is lent. -/
  resizes
    : ∀ {host later lent block old new moved},
        Lends host lent →
        lent block = some old →
        0 < new →
        HostAllocator.resize block old new host = (some moved, later) →
        let others := lent.drop block
        others moved = none
        ∧ Lends later (others.lend moved new)
        ∧ others.Kept (memory host) (memory later)
        ∧ ∀ i, i < min old new → memory later (moved + i) = memory host (block + i)
  releases
    : ∀ {host lent block size},
        Lends host lent →
        lent block = some size →
        let others := lent.drop block
        Lends (HostAllocator.release block size host) others
        ∧ others.Kept (memory host) (memory (HostAllocator.release block size host))
  /-- Whoever was lent a block may write into it. -/
  writes
    : ∀ {host lent after},
        Lends host lent →
        lent.Confines (memory host) after →
        Lends (withMemory host after) lent ∧ memory (withMemory host after) = after

namespace FreshHost

/-- Blocks below the next one are apart if they never were at one address. -/
def Lends (host : FreshHost) (lent : Loans) : Prop :=
  lent.Apart ∧ ∀ block size, lent block = some size → 0 < size ∧ block + size ≤ host.next

theorem Lends.untouched {host : FreshHost} {lent : Loans} (lends : host.Lends lent)
    {after : Memory} (above : ∀ address, address < host.next → after address = host.memory address)
    : lent.Kept host.memory after := by
  intro block size i live inside
  have below := (lends.2 block size live).2
  exact above _ (by omega)

theorem Lends.next_free {host : FreshHost} {lent : Loans} (lends : host.Lends lent)
    : lent host.next = none := by
  cases live : lent host.next with
  | none => rfl
  | some size =>
      obtain ⟨positive, below⟩ := lends.2 _ _ live
      omega

theorem Lends.without {host : FreshHost} {lent : Loans} (lends : host.Lends lent) (block : Nat)
    : host.Lends (lent.drop block) := by
  have live : ∀ {other size}, lent.drop block other = some size → lent other = some size := by
    intro other size found
    rw [Loans.drop] at found
    by_cases same : other = block
    · subst other
      rw [Function.update_self] at found
      cases found
    · rwa [Function.update_of_ne same] at found
  refine ⟨?_, fun other size found => lends.2 other size (live found)⟩
  intro left size right otherSize leftLive rightLive
  exact lends.1 (live leftLive) (live rightLive)

/-- The next block lies above all others. -/
theorem Lends.advance {host : FreshHost} {lent : Loans} (lends : host.Lends lent) {size : Nat}
    (positive : 0 < size) (memory : Memory)
    : Lends { host.advance size with memory } (lent.lend host.next size) := by
  have reach : host.next + size ≤ host.next + (size + 7) / 8 * 8 := by omega
  have placed : ∀ {block found},
      lent.lend host.next size block = some found →
      block = host.next ∧ found = size ∨ lent block = some found ∧ block + found ≤ host.next := by
    intro block found live
    rw [Loans.lend] at live
    by_cases same : block = host.next
    · subst block
      rw [Function.update_self] at live
      exact Or.inl ⟨rfl, (Option.some.inj live).symm⟩
    · rw [Function.update_of_ne same] at live
      exact Or.inr ⟨live, (lends.2 _ _ live).2⟩
  constructor
  · intro left leftSize right rightSize leftLive rightLive different
    rcases placed leftLive with ⟨rfl, rfl⟩ | ⟨leftOld, leftBelow⟩
    · rcases placed rightLive with ⟨rfl, _⟩ | ⟨_, rightBelow⟩
      · exact absurd rfl different
      · exact Or.inr rightBelow
    · rcases placed rightLive with ⟨rfl, rfl⟩ | ⟨rightOld, _⟩
      · exact Or.inl leftBelow
      · exact lends.1 leftOld rightOld different
  · intro block found live
    rcases placed live with ⟨rfl, rfl⟩ | ⟨old, below⟩
    · exact ⟨positive, reach⟩
    · exact ⟨(lends.2 _ _ old).1, Nat.le_trans below (Nat.le_trans (Nat.le_add_right ..) reach)⟩

/-- A host that never hands out an address twice keeps what an allocator promises. -/
def contract : HostContract FreshHost where
  Lends := Lends
  apart lends := lends.1
  refuses := by
    intro host later lent size zeroed lends refused
    simp only [HostAllocator.allocate, allocate] at refused
    split at refused <;> cases refused
    exact ⟨lends, fun _ _ => rfl⟩
  grants := by
    intro host later lent size zeroed block lends positive granted
    simp only [HostAllocator.allocate, allocate] at granted
    split at granted <;> cases granted
    refine ⟨lends.next_free, lends.advance positive _, lends.untouched ?_, ?_⟩
    · intro address below
      cases zeroed
      · rfl
      · change host.memory.fill host.next size 0 address = host.memory address
        exact Memory.overwrite_of_outside (Or.inl below)
    · rintro rfl i inside
      change host.memory.fill host.next size 0 (host.next + i) = 0
      exact Memory.overwrite_of_inside inside
  refusesResize := by
    intro host later lent block old new lends live refused
    simp only [HostAllocator.resize, resize] at refused
    split at refused <;> cases refused
    exact ⟨lends, fun _ _ => rfl⟩
  resizes := by
    intro host later lent block old new moved lends live positive granted others
    simp only [HostAllocator.resize, resize] at granted
    split at granted <;> cases granted
    have rest : host.Lends others := lends.without block
    refine ⟨rest.next_free, rest.advance positive _, rest.untouched ?_, ?_⟩
    · intro address below
      change host.memory.copy block host.next (min old new) address = host.memory address
      exact Memory.overwrite_of_outside (Or.inl below)
    · intro i inside
      change host.memory.copy block host.next (min old new) (host.next + i)
        = host.memory (block + i)
      exact Memory.overwrite_of_inside inside
  releases := by
    intro host lent block size lends live others
    exact ⟨lends.without block, fun _ _ => rfl⟩
  writes := by
    intro host lent after lends confined
    exact ⟨lends, rfl⟩

end FreshHost

end Firmware
