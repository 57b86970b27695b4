import Firmware.Proofs.Heap.HoleLists

/-! The holes of a pool are what the taken extents leave of its region.
Taking an extent and giving one back keep this (`Tiled.take`, `Tiled.giveBack`), so the holes are
determined by the addresses that are taken (`Tiled.eq_of_covers_iff`).
-/

namespace Firmware.Pool

/-- The address belongs to the usable region. -/
def InRegion (pool : Pool) (address : Nat) : Prop :=
  pool.bottom ≤ address ∧ address < pool.bottom + pool.size

/-- The taken extents lie in the region without overlap, and the holes are exactly the gaps that
they leave.
-/
structure Tiled (pool : Pool) (taken : List Extent) : Prop where
  takenRegular : ∀ extent ∈ taken, extent.Regular
  takenInside : ∀ extent ∈ taken, ∀ address, extent.Contains address → pool.InRegion address
  takenApart : taken.Pairwise Extent.Apart
  holesRegular : ∀ hole ∈ pool.holes, hole.Regular
  separated : Separated pool.holes
  gaps : ∀ address, Covers pool.holes address ↔ pool.InRegion address ∧ ¬ Covers taken address
  used : pool.used = (taken.map Extent.size).sum
  balance : pool.used + (pool.holes.map Extent.size).sum = pool.size

namespace Tiled

variable {pool : Pool} {taken : List Extent}

theorem perm {other : List Extent} (tiled : pool.Tiled taken) (same : taken.Perm other)
    : pool.Tiled other where
  takenRegular extent member := tiled.takenRegular extent (same.mem_iff.mpr member)
  takenInside extent member := tiled.takenInside extent (same.mem_iff.mpr member)
  takenApart := same.pairwise tiled.takenApart fun h => Or.symm h
  holesRegular := tiled.holesRegular
  separated := tiled.separated
  gaps address := by rw [tiled.gaps, covers_perm same]
  used := tiled.used.trans (same.map Extent.size).sum_nat
  balance := tiled.balance

/-- The holes are the maximal runs of addresses of the region that are not taken. -/
theorem mem_holes_iff (tiled : pool.Tiled taken) {hole : Extent}
    : hole ∈ pool.holes
      ↔ MaximalRun (fun address => pool.InRegion address ∧ ¬ Covers taken address) hole := by
  rw [tiled.separated.mem_iff_maximalRun fun other member => (tiled.holesRegular other member).pos]
  exact maximalRun_congr tiled.gaps

/-- No hole reaches into a taken extent. -/
theorem apart_of_hole (tiled : pool.Tiled taken) {extent hole : Extent}
    (takenMember : extent ∈ taken) (holeMember : hole ∈ pool.holes)
    : extent.Apart hole :=
  Extent.apart_of_no_common (tiled.takenRegular extent takenMember).pos
    (tiled.holesRegular hole holeMember).pos fun address inExtent inHole =>
      ((tiled.gaps address).mp ⟨hole, holeMember, inHole⟩).2 ⟨extent, takenMember, inExtent⟩

/-- Taken extents and holes together share no address. -/
theorem allApart (tiled : pool.Tiled taken) : (taken ++ pool.holes).Pairwise Extent.Apart :=
  List.pairwise_append.mpr
    ⟨tiled.takenApart, tiled.separated.imp fun before => Or.inl (Nat.le_of_lt before),
      fun _ takenMember _ holeMember => tiled.apart_of_hole takenMember holeMember⟩

/-- Taken extents and holes together are exactly the region. -/
theorem inRegion_iff (tiled : pool.Tiled taken) (address : Nat)
    : pool.InRegion address ↔ Covers (taken ++ pool.holes) address := by
  rw [covers_append, tiled.gaps]
  constructor
  · intro inside
    by_cases held : Covers taken address
    · exact Or.inl held
    · exact Or.inr ⟨inside, held⟩
  · rintro (⟨extent, member, held⟩ | ⟨inside, _⟩)
    · exact tiled.takenInside extent member address held
    · exact inside

/-- The free bytes are those of the holes. -/
theorem free_eq (tiled : pool.Tiled taken) : pool.free = (pool.holes.map Extent.size).sum := by
  have balance := tiled.balance
  simp only [free]
  omega

/-- The holes and the bytes in use depend only on the region and the addresses that are taken. -/
theorem eq_of_covers_iff {other : Pool} {otherTaken : List Extent} (tiled : pool.Tiled taken)
    (otherTiled : other.Tiled otherTaken) (sameBottom : pool.bottom = other.bottom)
    (sameSize : pool.size = other.size)
    (same : ∀ address, Covers taken address ↔ Covers otherTaken address)
    : pool = other := by
  have sameHoles : pool.holes = other.holes := by
    refine tiled.separated.eq_of_covers_iff otherTiled.separated
      (fun hole member => (tiled.holesRegular hole member).pos)
      (fun hole member => (otherTiled.holesRegular hole member).pos) ?_
    intro address
    rw [tiled.gaps, otherTiled.gaps, same, InRegion, InRegion, sameBottom, sameSize]
  have sameUsed : pool.used = other.used := by
    have balance := tiled.balance
    have otherBalance := otherTiled.balance
    rw [sameHoles] at balance
    omega
  cases pool
  cases other
  simp_all

/-- An extent that is taken leaves the rest of its hole. -/
theorem take {raw start : Nat} {rest : Pool} (tiled : pool.Tiled taken)
    (granted : pool.take? raw = some (start, rest))
    : rest.Tiled (⟨start, extentSize raw⟩ :: taken)
      ∧ rest.bottom = pool.bottom ∧ rest.size = pool.size := by
  obtain ⟨⟨place, holes⟩, found, same⟩ := Option.map_eq_some_iff.mp granted
  cases same
  have split := takeFirst?_split found (extentSize_mod raw) tiled.separated tiled.holesRegular
  refine ⟨?_, rfl, rfl⟩
  have regular : (Extent.mk start (extentSize raw)).Regular :=
    ⟨split.startAligned, extentSize_mod raw, leastHole_le_extentSize raw⟩
  exact {
    takenRegular := by simpa using ⟨regular, tiled.takenRegular⟩
    takenInside := by
      intro extent member address held
      rcases List.mem_cons.mp member with rfl | old
      · exact ((tiled.gaps address).mp (split.inside address held)).1
      · exact tiled.takenInside extent old address held
    takenApart := by
      refine List.pairwise_cons.mpr ⟨?_, tiled.takenApart⟩
      intro extent member
      refine Extent.apart_of_no_common regular.pos (tiled.takenRegular extent member).pos ?_
      intro address held inExtent
      exact ((tiled.gaps address).mp (split.inside address held)).2 ⟨extent, member, inExtent⟩
    holesRegular := split.regular
    separated := split.separated
    gaps := by
      intro address
      have old := tiled.gaps address
      simp only [split.covers, covers_cons, old, InRegion]
      tauto
    used := by
      simp only [List.map_cons, List.sum_cons, tiled.used]
      omega
    balance := by
      have balance := tiled.balance
      have sizes := split.sizes
      simp only at *
      omega
  }

/-- A taken extent can be given back, whatever order the extents were taken in. -/
theorem giveBack {freed : Extent} (tiled : pool.Tiled (freed :: taken))
    : ∃ holes,
        insert? freed pool.holes = some holes
        ∧ freed.size ≤ pool.used
        ∧ Merged freed pool.holes holes
        ∧ Tiled { pool with holes, used := pool.used - freed.size } taken := by
  obtain ⟨freedApart, takenApart⟩ := List.pairwise_cons.mp tiled.takenApart
  have freedRegular := tiled.takenRegular freed (by simp)
  obtain ⟨holes, done, merged⟩ := insert?_merged freedRegular tiled.holesRegular tiled.separated
    fun hole member => Or.symm (tiled.apart_of_hole (by simp) member)
  have used := tiled.used
  simp only [List.map_cons, List.sum_cons] at used
  refine ⟨holes, done, by omega, merged, ?_⟩
  exact {
    takenRegular := fun extent member => tiled.takenRegular extent (by simp [member])
    takenInside := fun extent member => tiled.takenInside extent (by simp [member])
    takenApart := takenApart
    holesRegular := merged.regular
    separated := merged.separated
    gaps := by
      intro address
      have old := tiled.gaps address
      have inside := tiled.takenInside freed (by simp) address
      have alone : freed.Contains address → ¬ Covers taken address := by
        rintro held ⟨extent, member, inExtent⟩
        exact (freedApart extent member).not_contains held inExtent
      simp only [covers_cons] at old
      simp only [merged.covers, old, InRegion] at *
      tauto
    used := by
      simp only
      omega
    balance := by
      have balance := tiled.balance
      have sizes := merged.sizes
      simp only at *
      omega
  }

/-- A region that can be set up is one hole. -/
theorem init {start size : Nat} (ready : init? start size = .ok pool) : pool.Tiled [] := by
  simp only [init?] at ready
  split at ready
  · cases ready
  · split at ready
    · cases ready
    · next enough =>
      cases ready
      have alignedStart := roundUp_mod start
      have alignedSize : roundDown (size - (roundUp start - start)) % 8 = 0 := Nat.mul_mod_left ..
      exact {
        takenRegular := by simp
        takenInside := by simp
        takenApart := .nil
        holesRegular := by simpa using ⟨alignedStart, alignedSize, Nat.le_of_not_lt enough⟩
        separated := List.pairwise_singleton ..
        gaps := by simp [InRegion, Extent.Contains, Extent.stop]
        used := rfl
        balance := by simp
      }

/-- A pool without a region has no holes and nothing taken. -/
theorem empty : Tiled {} [] where
  takenRegular := by simp
  takenInside := by simp
  takenApart := .nil
  holesRegular := by simp
  separated := .nil
  gaps address := by simp [InRegion]
  used := rfl
  balance := rfl

end Tiled

theorem holes_of_init? {pool : Pool} {start size : Nat} (ready : init? start size = .ok pool)
    : pool.holes = [⟨pool.bottom, pool.size⟩] := by
  simp only [init?] at ready
  split at ready
  · cases ready
  · split at ready <;> cases ready
    rfl

end Firmware.Pool
