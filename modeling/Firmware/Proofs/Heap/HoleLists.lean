import Firmware.Proofs.Heap.Extents

/-! The two ways in which holes change: an extent is taken from the first hole that fits, and an
extent is made a hole. Each is described by the addresses covered before and after
(`takeFirst?_split`, `insert?_merged`), and both keep the holes regular and separated.
-/

namespace Firmware.Pool

--------------------------------------------------------------------------------
-- Taking from the first hole that fits
--------------------------------------------------------------------------------

/-- What is granted is the start of the lowest hole that fits, and only that hole changes. -/
theorem takeFirst?_eq_some {size start : Nat} {holes rest : List Extent}
    (granted : takeFirst? size holes = some (start, rest))
    : ∃ before hole after,
        holes = before ++ hole :: after
        ∧ rest = before ++ remainder size hole ++ after
        ∧ start = hole.start
        ∧ Fits size hole
        ∧ ∀ earlier ∈ before, ¬ Fits size earlier := by
  induction holes generalizing rest with
  | nil => cases granted
  | cons hole after ih =>
      by_cases fits : Fits size hole
      · rw [takeFirst?, if_pos fits] at granted
        cases granted
        exact ⟨[], hole, after, rfl, rfl, rfl, fits, by simp⟩
      · rw [takeFirst?, if_neg fits] at granted
        obtain ⟨⟨found, others⟩, deeper, same⟩ := Option.map_eq_some_iff.mp granted
        cases same
        obtain ⟨before, chosen, later, rfl, rfl, rfl, chosenFits, skipped⟩ := ih deeper
        refine ⟨hole :: before, chosen, later, rfl, rfl, rfl, chosenFits, ?_⟩
        intro earlier member
        rcases List.mem_cons.mp member with rfl | inBefore
        · exact fits
        · exact skipped earlier inBefore

/-- A request is refused exactly when no hole fits. -/
theorem takeFirst?_eq_none_iff {size : Nat} {holes : List Extent}
    : takeFirst? size holes = none ↔ ∀ hole ∈ holes, ¬ Fits size hole := by
  induction holes with
  | nil => simp [takeFirst?]
  | cons hole rest ih => by_cases fits : Fits size hole <;> simp [takeFirst?, fits, ih]

/-- The remainder of a hole holds what is not taken from its start. -/
theorem covers_remainder (size : Nat) (hole : Extent) (address : Nat)
    : Covers (remainder size hole) address
      ↔ hole.Contains address ∧ ¬ (Extent.mk hole.start size).Contains address := by
  by_cases whole : hole.size = size
  · rw [remainder, if_pos whole]
    simp only [covers_nil, Extent.Contains, Extent.stop, false_iff]
    omega
  · rw [remainder, if_neg whole]
    simp only [covers_cons, covers_nil, or_false, Extent.Contains, Extent.stop]
    omega

/-- The remainder of a hole ends where the hole ends and is a hole itself. -/
theorem mem_remainder {size : Nat} {hole left : Extent} (member : left ∈ remainder size hole)
    (fits : Fits size hole)
    : hole.start ≤ left.start ∧ left.stop = hole.stop
      ∧ (hole.Regular → size % 8 = 0 → left.Regular) := by
  by_cases whole : hole.size = size
  · simp [remainder, whole] at member
  · simp only [remainder, if_neg whole, List.mem_singleton] at member
    subst left
    simp only [Fits, leastHole] at fits
    refine ⟨Nat.le_add_right .., ?_, ?_⟩
    · simp only [Extent.stop]
      omega
    · intro regular sizeAligned
      have startAligned := regular.startAligned
      have wholeAligned := regular.sizeAligned
      constructor <;> simp only [leastHole] <;> omega

theorem sum_remainder {size : Nat} {hole : Extent} (fits : Fits size hole)
    : size + ((remainder size hole).map Extent.size).sum = hole.size := by
  by_cases whole : hole.size = size
  · simp [remainder, whole]
  · simp only [Fits, leastHole] at fits
    simp only [remainder, if_neg whole, List.map_cons, List.map_nil, List.sum_cons, List.sum_nil]
    omega

/-- What a granted request does to the holes. -/
structure Split (size start : Nat) (holes rest : List Extent) : Prop where
  inside : ∀ address, (Extent.mk start size).Contains address → Covers holes address
  covers
    : ∀ address,
        Covers rest address
        ↔ Covers holes address ∧ ¬ (Extent.mk start size).Contains address
  separated : Separated rest
  regular : ∀ hole ∈ rest, hole.Regular
  startAligned : start % 8 = 0
  sizes : size + (rest.map Extent.size).sum = (holes.map Extent.size).sum

/-- Taking from the first hole that fits splits off the extent that is granted. -/
theorem takeFirst?_split {size start : Nat} {holes rest : List Extent}
    (granted : takeFirst? size holes = some (start, rest)) (sizeAligned : size % 8 = 0)
    (separated : Separated holes) (regular : ∀ hole ∈ holes, hole.Regular)
    : Split size start holes rest := by
  obtain ⟨before, hole, after, rfl, rfl, rfl, fits, _⟩ := takeFirst?_eq_some granted
  obtain ⟨beforeSeparated, restSeparated, beforeRest⟩ := List.pairwise_append.mp separated
  obtain ⟨holeAfter, afterSeparated⟩ := List.pairwise_cons.mp restSeparated
  have within : ∀ address,
      (Extent.mk hole.start size).Contains address → hole.Contains address := by
    intro address
    simp only [Fits, leastHole] at fits
    simp only [Extent.Contains, Extent.stop]
    omega
  have holeRegular := regular hole (by simp)
  refine {
    inside := fun address inside => ⟨hole, by simp, within address inside⟩
    covers := ?_
    separated := ?_
    regular := ?_
    startAligned := holeRegular.startAligned
    sizes := ?_
  }
  · intro address
    -- the neighbours of the hole do not reach into it
    have outsideBefore : Covers before address → ¬ hole.Contains address := by
      rintro ⟨extent, member, held⟩ inHole
      have order := beforeRest extent member hole (by simp)
      simp only [Extent.Before, Extent.Contains] at *
      omega
    have outsideAfter : Covers after address → ¬ hole.Contains address := by
      rintro ⟨extent, member, held⟩ inHole
      have order := holeAfter extent member
      simp only [Extent.Before, Extent.Contains] at *
      omega
    have inHole := within address
    simp only [covers_append, covers_cons, covers_remainder]
    tauto
  · have leftFacts := fun left (member : left ∈ remainder size hole) => mem_remainder member fits
    refine List.pairwise_append.mpr
      ⟨List.pairwise_append.mpr ⟨beforeSeparated, ?_, ?_⟩, afterSeparated, ?_⟩
    · by_cases whole : hole.size = size <;> simp [remainder, whole]
    · intro left leftMember right rightMember
      have order := beforeRest left leftMember hole (by simp)
      have bounds := leftFacts right rightMember
      exact Nat.lt_of_lt_of_le order bounds.1
    · intro left leftMember right rightMember
      rcases List.mem_append.mp leftMember with earlier | remaining
      · exact beforeRest left earlier right (by simp [rightMember])
      · have order := holeAfter right rightMember
        simp only [Extent.Before, (leftFacts left remaining).2.1] at *
        exact order
  · intro left member
    simp only [List.mem_append] at member
    rcases member with (earlier | remaining) | later
    · exact regular left (by simp [earlier])
    · exact (mem_remainder remaining fits).2.2 holeRegular sizeAligned
    · exact regular left (by simp [later])
  · have split := sum_remainder fits
    simp only [List.map_append, List.map_cons, List.sum_append, List.sum_cons]
    omega

--------------------------------------------------------------------------------
-- Making an extent a hole
--------------------------------------------------------------------------------

/-- What merging a freed extent into the holes leaves. -/
structure Merged (freed : Extent) (holes merged : List Extent) : Prop where
  covers : ∀ address, Covers merged address ↔ freed.Contains address ∨ Covers holes address
  separated : Separated merged
  regular : ∀ hole ∈ merged, hole.Regular
  sizes : (merged.map Extent.size).sum = freed.size + (holes.map Extent.size).sum

/-- Extents that touch join into one that holds the addresses of both. -/
theorem contains_join {left right : Extent} (touching : left.stop = right.start) (address : Nat)
    : (Extent.mk left.start (left.size + right.size)).Contains address
      ↔ left.Contains address ∨ right.Contains address := by
  simp only [Extent.Contains, Extent.stop] at *
  omega

theorem regular_join {left right : Extent} (leftRegular : left.Regular)
    (rightRegular : right.Regular)
    : (Extent.mk left.start (left.size + right.size)).Regular := by
  have leftAligned := leftRegular.sizeAligned
  have rightAligned := rightRegular.sizeAligned
  have least := leftRegular.least
  refine ⟨leftRegular.startAligned, ?_, ?_⟩ <;> simp only <;> omega

section Merged

variable {freed hole : Extent} {rest merged : List Extent}

/-- A freed extent with room after it becomes a hole of its own. -/
theorem Merged.alone (freedRegular : freed.Regular)
    (regular : ∀ other ∈ hole :: rest, other.Regular)
    (separated : Separated (hole :: rest)) (before : freed.Before hole)
    : Merged freed (hole :: rest) (freed :: hole :: rest) where
  covers _ := covers_cons ..
  separated := by
    refine List.pairwise_cons.mpr ⟨?_, separated⟩
    intro other member
    rcases List.mem_cons.mp member with rfl | later
    · exact before
    · have order := (List.pairwise_cons.mp separated).1 other later
      simp only [Extent.Before, Extent.stop] at *
      omega
  regular := by
    intro other member
    rcases List.mem_cons.mp member with rfl | old
    · exact freedRegular
    · exact regular other old
  sizes := by simp

/-- A freed extent that ends at a hole is joined with it. -/
theorem Merged.next (freedRegular : freed.Regular) (regular : ∀ other ∈ hole :: rest, other.Regular)
    (separated : Separated (hole :: rest)) (touching : freed.stop = hole.start)
    : Merged freed (hole :: rest) (⟨freed.start, freed.size + hole.size⟩ :: rest) where
  covers address := by rw [covers_cons, contains_join touching, covers_cons, or_assoc]
  separated := by
    obtain ⟨holeBefore, restSeparated⟩ := List.pairwise_cons.mp separated
    refine List.pairwise_cons.mpr ⟨?_, restSeparated⟩
    intro other member
    have order := holeBefore other member
    simp only [Extent.Before, Extent.stop] at *
    omega
  regular := by
    intro other member
    rcases List.mem_cons.mp member with rfl | later
    · exact regular_join freedRegular (regular hole (by simp))
    · exact regular other (List.mem_cons_of_mem hole later)
  sizes := by
    simp only [List.map_cons, List.sum_cons]
    omega

/-- A freed extent that starts where a hole ends is merged as the join of both. -/
theorem Merged.previous (touching : hole.stop = freed.start)
    (facts : Merged ⟨hole.start, hole.size + freed.size⟩ rest merged)
    : Merged freed (hole :: rest) merged where
  covers address := by
    rw [facts.covers, contains_join touching, covers_cons]
    tauto
  separated := facts.separated
  regular := facts.regular
  sizes := by
    have sizes := facts.sizes
    simp only [List.map_cons, List.sum_cons] at *
    omega

/-- A hole with room after it is left alone. -/
theorem Merged.skip (regular : ∀ other ∈ hole :: rest, other.Regular)
    (separated : Separated (hole :: rest)) (after : hole.Before freed)
    (facts : Merged freed rest merged)
    : Merged freed (hole :: rest) (hole :: merged) where
  covers address := by
    rw [covers_cons, facts.covers, covers_cons]
    tauto
  separated := by
    refine List.pairwise_cons.mpr ⟨?_, facts.separated⟩
    intro other member
    -- a merged hole starts where the freed extent or a later hole has an address
    have start := (facts.covers other.start).mp
      ⟨other, member, Extent.contains_start (facts.regular other member).pos⟩
    rcases start with inFreed | ⟨later, laterMember, inLater⟩
    · exact Nat.lt_of_lt_of_le after inFreed.1
    · have order := (List.pairwise_cons.mp separated).1 later laterMember
      exact Nat.lt_of_lt_of_le order inLater.1
  regular := by
    intro other member
    rcases List.mem_cons.mp member with rfl | inMerged
    · exact regular other (by simp)
    · exact facts.regular other inMerged
  sizes := by
    have sizes := facts.sizes
    simp only [List.map_cons, List.sum_cons] at *
    omega

end Merged

/-- An extent that shares no address with the holes can be made one, by induction on the holes:
where the freed extent is joined with a hole before it, the induction goes on with the join.
-/
theorem insert?_merged {freed : Extent} {holes : List Extent} (freedRegular : freed.Regular)
    (regular : ∀ hole ∈ holes, hole.Regular) (separated : Separated holes)
    (apart : ∀ hole ∈ holes, hole.Apart freed)
    : ∃ merged, insert? freed holes = some merged ∧ Merged freed holes merged := by
  induction holes generalizing freed with
  | nil =>
      refine ⟨[freed], rfl, ?_, List.pairwise_singleton .., ?_, by simp⟩
      · simp
      · simpa using freedRegular
  | cons hole rest ih =>
      obtain ⟨holeBefore, restSeparated⟩ := List.pairwise_cons.mp separated
      have holeRegular := regular hole (by simp)
      have restRegular := fun other member => regular other (List.mem_cons_of_mem hole member)
      have restApart := fun other member => apart other (List.mem_cons_of_mem hole member)
      have holeApart := apart hole (by simp)
      rw [insert?]
      by_cases before : freed.stop < hole.start
      · exact ⟨_, if_pos before, .alone freedRegular regular separated before⟩
      rw [if_neg before]
      by_cases joinsNext : freed.stop = hole.start
      · exact ⟨_, if_pos joinsNext, .next freedRegular regular separated joinsNext⟩
      rw [if_neg joinsNext]
      by_cases joinsPrevious : hole.stop = freed.start
      · have joinApart : ∀ other ∈ rest,
            other.Apart ⟨hole.start, hole.size + freed.size⟩ := by
          intro other member
          have order := holeBefore other member
          have otherApart := restApart other member
          have otherPositive := (restRegular other member).pos
          simp only [Extent.Before, Extent.Apart, Extent.stop] at *
          omega
        obtain ⟨merged, done, facts⟩ :=
          ih (regular_join holeRegular freedRegular) restRegular restSeparated joinApart
        exact ⟨merged, by rw [if_pos joinsPrevious, done], .previous joinsPrevious facts⟩
      rw [if_neg joinsPrevious]
      have after : hole.stop < freed.start := by
        have holePositive := holeRegular.pos
        have freedPositive := freedRegular.pos
        simp only [Extent.Apart, Extent.stop] at *
        omega
      obtain ⟨merged, done, facts⟩ := ih freedRegular restRegular restSeparated restApart
      exact ⟨hole :: merged, by rw [if_pos after, done]; rfl, .skip regular separated after facts⟩

end Firmware.Pool
