import Firmware.Proofs.Heap.HistoryIndependence

/-! Giving blocks back never makes a request fail.
Where fewer blocks are live every hole lies in a hole, and one that is longer is longer by at least
the extent of a block (`Pool.Tiled.wider`). So it has room for whatever the shorter one had room for,
although a hole that is only eight bytes too long would be passed over. What is granted with more
blocks live is granted with fewer (`Session.freeing_never_hurts`).
-/

namespace Firmware

--------------------------------------------------------------------------------
-- Holes
--------------------------------------------------------------------------------

/-- A run of held addresses that meets a maximal one lies inside it. -/
theorem MaximalRun.contains_run {held : Nat → Prop} {whole part : Extent}
    (maximal : MaximalRun held whole) (inside : ∀ address, part.Contains address → held address)
    {common : Nat} (inWhole : whole.Contains common) (inPart : part.Contains common)
    : whole.start ≤ part.start ∧ part.stop ≤ whole.stop := by
  constructor
  · by_contra earlier
    have reached : part.Contains (whole.start - 1) := by
      simp only [Extent.Contains] at *
      omega
    exact maximal.startsHere _ (by omega) (inside _ reached)
  · by_contra later
    have reached : part.Contains whole.stop := by
      simp only [Extent.Contains] at *
      omega
    exact maximal.stopsHere (inside _ reached)

namespace Pool.Tiled

section

variable {pool other : Pool} {taken fewer : List Extent} (tiled : pool.Tiled taken)
  (sameRegion : ∀ address, other.InRegion address ↔ pool.InRegion address)
  (subset : fewer ⊆ taken)

include tiled sameRegion subset

/-- What is free stays free when extents are given back. -/
theorem free_of_hole {hole : Extent} (member : hole ∈ pool.holes) {address : Nat}
    (inside : hole.Contains address)
    : other.InRegion address ∧ ¬ Covers fewer address := by
  obtain ⟨inRegion, uncovered⟩ := (tiled.gaps address).mp ⟨hole, member, inside⟩
  refine ⟨(sameRegion address).mpr inRegion, ?_⟩
  rintro ⟨extent, taken, held⟩
  exact uncovered ⟨extent, subset taken, held⟩

/-- An extent that was given back is free. -/
theorem free_of_released {extent : Extent} (wasTaken : extent ∈ taken) (released : extent ∉ fewer)
    {address : Nat} (inside : extent.Contains address)
    : other.InRegion address ∧ ¬ Covers fewer address := by
  refine ⟨(sameRegion address).mpr (tiled.takenInside extent wasTaken address inside), ?_⟩
  rintro ⟨remaining, stillTaken, held⟩
  have different : extent ≠ remaining := by
    rintro rfl
    exact released stillTaken
  have apart := tiled.takenApart.forall wasTaken (subset stillTaken) different
  exact apart.not_contains inside held

/-- With fewer extents taken, every hole lies in a hole. If that one is longer, an extent that was
given back lies in it beside the shorter one.
-/
theorem wider (otherTiled : other.Tiled fewer) {hole : Extent} (member : hole ∈ pool.holes)
    : ∃ whole ∈ other.holes,
        whole.start ≤ hole.start
        ∧ (whole.size = hole.size ∨ hole.size + leastHole ≤ whole.size) := by
  have startInside := Extent.contains_start (tiled.holesRegular hole member).pos
  have free (address : Nat) (inside : hole.Contains address)
      : other.InRegion address ∧ ¬ Covers fewer address :=
    tiled.free_of_hole sameRegion subset member inside
  obtain ⟨whole, wholeMember, wholeStart⟩ := (otherTiled.gaps hole.start).mpr (free _ startInside)
  have maximal := otherTiled.mem_holes_iff.mp wholeMember
  have enclosed := maximal.contains_run free wholeStart startInside
  refine ⟨whole, wholeMember, enclosed.1, ?_⟩
  -- an address that only the longer hole has belongs to an extent that was given back
  have longer {address : Nat} (inWhole : whole.Contains address)
      (notFree : ¬ (pool.InRegion address ∧ ¬ Covers taken address))
      : hole.size + leastHole ≤ whole.size := by
    have ⟨inOther, uncovered⟩ := (otherTiled.gaps address).mp ⟨whole, wholeMember, inWhole⟩
    obtain ⟨extent, wasTaken, held⟩ : Covers taken address :=
      not_not.mp fun apart => notFree ⟨(sameRegion address).mp inOther, apart⟩
    have released : extent ∉ fewer := fun stillTaken => uncovered ⟨extent, stillTaken, held⟩
    have within := maximal.contains_run
      (fun _ => tiled.free_of_released sameRegion subset wasTaken released) inWhole held
    have apart := tiled.apart_of_hole wasTaken member
    have least := (tiled.takenRegular extent wasTaken).least
    simp only [Extent.Apart, Extent.stop] at *
    omega
  have bounded := tiled.mem_holes_iff.mp member
  by_cases sameStart : whole.start = hole.start
  · by_cases sameStop : whole.stop = hole.stop
    · simp only [Extent.stop] at sameStop
      omega
    · have inWhole : whole.Contains hole.stop := by
        simp only [Extent.Contains, Extent.stop] at *
        omega
      exact Or.inr (longer inWhole bounded.stopsHere)
  · have inWhole : whole.Contains (hole.start - 1) := by
      simp only [Extent.Contains, Extent.stop] at *
      omega
    exact Or.inr (longer inWhole (bounded.startsHere _ (by omega)))

end

end Pool.Tiled

/-- What fits a hole fits every hole that is as long, or longer by a whole extent. -/
theorem Pool.Fits.wider {size : Nat} {hole whole : Extent} (fits : Fits size hole)
    (longer : whole.size = hole.size ∨ hole.size + leastHole ≤ whole.size)
    : Fits size whole := by
  simp only [Fits] at *
  omega

--------------------------------------------------------------------------------
-- Sessions
--------------------------------------------------------------------------------

/-- A release reaches the heap as the release of the same block. -/
theorem Surface.call?_release {surface : Surface} {handle : Nat} {call : Call}
    (reached : surface.call? Region (.release (some handle)) = some call)
    : call = .release handle := by
  cases surface with
  | typed | plain | linked | reentrant _ | primitive =>
      cases reached
      rfl
  | layout choice =>
      obtain ⟨made, layoutReached, bridgeReached⟩ := Option.bind_eq_some_iff.mp reached
      obtain ⟨_, _, rfl⟩ := Option.map_eq_some_iff.mp layoutReached
      cases bridgeReached
      rfl

namespace Session

/-- The blocks of one session are live in the other if their recorded sizes are recorded there. -/
theorem Sound.fewer_iff {left right : Session} (leftSound : left.Sound) (rightSound : right.Sound)
    : (∀ handle size, right.sizes handle = some size → left.sizes handle = some size)
      ↔ right.ledger.live ⊆ left.ledger.live := by
  constructor
  · intro fewer block member
    exact leftSound.mem_live_iff.mpr (fewer _ _ (rightSound.mem_live_iff.mp member))
  · intro subset handle size recorded
    have member : ⟨handle, size⟩ ∈ right.ledger.live := rightSound.mem_live_iff.mpr recorded
    exact leftSound.mem_live_iff.mp (subset member)

section

variable {left right : Session} (leftSound : left.Sound) (rightSound : right.Sound)
  (sameBottom : right.region.pool.bottom = left.region.pool.bottom)
  (sameSize : right.region.pool.size = left.region.pool.size)
  (fewer : right.ledger.live ⊆ left.ledger.live)

include leftSound rightSound sameBottom sameSize fewer

/-- Where fewer blocks are live there is room for as much, and no higher up. -/
theorem Sound.blockFor?_of_fewer {size address : Nat}
    (granted : left.region.pool.blockFor? size = some address)
    : ∃ lower ≤ address, right.region.pool.blockFor? size = some lower := by
  have limited : size < BlockHeader.sizeLimit := by
    obtain ⟨place, placed, _⟩ := Option.map_eq_some_iff.mp granted
    exact (Pool.place?_eq_some_iff.mp placed).1
  have sameRegion (place : Nat)
      : right.region.pool.InRegion place ↔ left.region.pool.InRegion place := by
    rw [Pool.InRegion, Pool.InRegion, sameBottom, sameSize]
  rcases Pool.blockFor?_spec leftSound.tiled.separated limited with
    ⟨hole, member, found, fits, _⟩ | ⟨refused, _⟩
  · obtain ⟨whole, wholeMember, notHigher, longer⟩ :=
      leftSound.tiled.wider sameRegion (List.map_subset Block.extent fewer) rightSound.tiled member
    have wholeFits := fits.wider longer
    rw [found] at granted
    cases granted
    rcases Pool.blockFor?_spec rightSound.tiled.separated limited with
      ⟨lowest, _, lowestFound, _, lower⟩ | ⟨_, noneFits⟩
    · refine ⟨_, ?_, lowestFound⟩
      exact Nat.add_le_add_right (Nat.le_trans (lower whole wholeMember wholeFits) notHigher) _
    · exact absurd wholeFits (noneFits whole wholeMember)
  · rw [refused] at granted
    cases granted

/-- A request is granted where fewer blocks are live, if it names none of the others. -/
theorem Sound.granted_of_fewer {surface : Surface} {request : Request} {reply : Reply}
    {address : Nat} (named : ∀ handle ∈ request.block?, right.ledger.Live handle)
    (answered : (left.perform (.ask surface request)).1 = .ok reply)
    (granted : reply.block? = some address)
    : ∃ answer, ∃ lower ≤ address,
        (right.perform (.ask surface request)).1 = .ok answer ∧ answer.block? = some lower := by
  have stillLive {handle : Nat} (live : right.ledger.Live handle) : left.ledger.Live handle := by
    obtain ⟨block, member, same⟩ := live
    exact ⟨block, fewer member, same⟩
  cases reached : surface.call? Region request with
  | none =>
      obtain ⟨refusal, noBlock, refused⟩ := perform_unreached reached
      rw [refused] at answered
      cases answered
      cases noBlock.symm.trans granted
  | some call =>
      obtain ⟨_, leftAnswered, _⟩ :=
        leftSound.perform_reached (fun handle about => Or.inl (stillLive (named handle about)))
          reached
      obtain ⟨_, rightAnswered, _⟩ :=
        rightSound.perform_reached (fun handle about => Or.inl (named handle about)) reached
      rw [leftAnswered] at answered
      cases answered
      rw [block?_reply] at granted
      suffices ∃ lower ≤ address, right.answer? call = some lower by
        obtain ⟨lower, notHigher, rightGranted⟩ := this
        refine ⟨_, lower, notHigher, congrArg Prod.fst rightAnswered, ?_⟩
        rw [block?_reply, rightGranted]
      have about := Surface.block?_call? reached
      cases call with
      | allocate size | allocateZeroed size =>
          exact blockFor?_of_fewer leftSound rightSound sameBottom sameSize fewer granted
      | reallocate handle size =>
          have live := named handle about.symm
          have place : left.region.pool.blockFor? size = some address :=
            (if_pos (stillLive live)).symm.trans granted
          obtain ⟨lower, notHigher, found⟩ :=
            blockFor?_of_fewer leftSound rightSound sameBottom sameSize fewer place
          exact ⟨lower, notHigher, (if_pos live).trans found⟩
      | release handle => cases granted

end

/-- Releasing a live block leaves all others live, and makes no other one live. -/
theorem Sound.live_of_release {session : Session} (sound : session.Sound) {handle : Nat}
    (live : session.ledger.Live handle) (surface : Surface)
    : let next := session.step (.ask surface (.release (some handle)))
      next.ledger.live ⊆ session.ledger.live
      ∧ ∀ block ∈ session.ledger.live, block.address ≠ handle → block ∈ next.ledger.live := by
  intro next
  cases reached : surface.call? Region (.release (some handle)) with
  | none =>
      obtain ⟨_, _, refused⟩ := perform_unreached reached
      have unchanged : next = session := congrArg Prod.snd (refused session)
      rw [unchanged]
      exact ⟨fun _ member => member, fun _ member _ => member⟩
  | some call =>
      obtain rfl := Surface.call?_release reached
      have left : next.ledger.live = Ledger.without session.ledger.live handle :=
        sound.live_step_release live reached
      rw [left]
      exact ⟨Ledger.without_subset _ _, fun _ member different =>
        Ledger.mem_without.mpr ⟨member, different⟩⟩

/-- Two runs over regions that were set up alike, whatever memory held, of which the second ends with
no block that is not live with the same size at the end of the first: every request that is granted
after the first is granted after the second, at the same place or below, if it names no block that is
only live after the first. So what is granted before a live block is released is granted afterwards,
too.
-/
theorem freeing_never_hurts {left right : Region} (leftOpened : left.Opened)
    (rightOpened : right.Opened) (samePool : left.pool = right.pool)
    {leftEvents rightEvents : List Event} (leftAdmitted : (fresh left).Admits leftEvents)
    (rightAdmitted : (fresh right).Admits rightEvents)
    (fewer
      : ∀ handle size,
          ((fresh right).after rightEvents).sizes handle = some size →
          ((fresh left).after leftEvents).sizes handle = some size)
    : let leftEnd := (fresh left).after leftEvents
      let rightEnd := (fresh right).after rightEvents
      (∀ surface request reply address,
        (∀ handle ∈ request.block?, rightEnd.ledger.Live handle) →
        (leftEnd.perform (.ask surface request)).1 = .ok reply →
        reply.block? = some address →
        ∃ answer, ∃ lower ≤ address,
          (rightEnd.perform (.ask surface request)).1 = .ok answer ∧ answer.block? = some lower)
      ∧ ∀ handle releasing surface request reply address,
          leftEnd.ledger.Live handle →
          (∀ other ∈ request.block?, leftEnd.ledger.Live other ∧ other ≠ handle) →
          (leftEnd.perform (.ask surface request)).1 = .ok reply →
          reply.block? = some address →
          ∃ answer, ∃ lower ≤ address,
            ((leftEnd.step (.ask releasing (.release (some handle)))).perform
              (.ask surface request)).1 = .ok answer
            ∧ answer.block? = some lower := by
  intro leftEnd rightEnd
  obtain ⟨leftSound, leftBottom, leftSize⟩ := leftOpened.sound.after leftAdmitted
  obtain ⟨rightSound, rightBottom, rightSize⟩ := rightOpened.sound.after rightAdmitted
  refine ⟨?fewer, ?released⟩
  case fewer =>
    intro surface request reply address named answered granted
    have sameBottom := rightBottom.trans ((congrArg Pool.bottom samePool.symm).trans leftBottom.symm)
    have sameSize := rightSize.trans ((congrArg Pool.size samePool.symm).trans leftSize.symm)
    exact leftSound.granted_of_fewer rightSound sameBottom sameSize
      ((leftSound.fewer_iff rightSound).mp fewer) named answered granted
  case released =>
    intro handle releasing surface request reply address live named answered granted
    have allowed : (Event.ask releasing (.release (some handle))).Allowed leftEnd.ledger := by
      rintro _ ⟨⟩
      exact Or.inl live
    obtain ⟨nextSound, nextBottom, nextSize, _⟩ := leftSound.step allowed
    obtain ⟨subset, kept⟩ := leftSound.live_of_release live releasing
    refine leftSound.granted_of_fewer nextSound nextBottom nextSize subset ?_ answered granted
    intro other about
    obtain ⟨⟨block, member, same⟩, different⟩ := named other about
    exact ⟨block, kept block member (same ▸ different), same⟩

/-- The block in the middle is released, and the gap in front of it grows from just enough bytes to
many more.
-/
theorem freeing_never_hurts_of_merge
    : let usable : Pool := { bottom := 4096, size := 128, holes := [⟨4096, 128⟩] }
      let left : Region := ⟨Pool.storeNodes (fun _ => 0) usable.holes, usable⟩
      let right : Region := ⟨Pool.storeNodes (fun _ => 7) usable.holes, usable⟩
      let shared := [
        .ask .plain (.allocate 10),
        .ask .plain (.allocate 20),
        .ask .plain (.allocate 10),
        .ask .plain (.release (some 4104))
      ]
      let more := shared ++ [.ask .linked (.release (some 4128))]
      let leftEnd := (fresh left).after shared
      let rightEnd := (fresh right).after more
      (fresh left).Admits shared
      ∧ (fresh right).Admits more
      ∧ leftEnd.region.pool.holes = [⟨4096, 24⟩, ⟨4176, 48⟩]
      ∧ rightEnd.region.pool.holes = [⟨4096, 56⟩, ⟨4176, 48⟩]
      ∧ (leftEnd.perform (.ask .typed (.allocate 16))).1 = .ok (.handle (some 4104))
      ∧ ∃ answer, ∃ lower ≤ 4104,
          (rightEnd.perform (.ask .typed (.allocate 16))).1 = .ok answer
          ∧ answer.block? = some lower := by
  intro usable left right shared more leftEnd rightEnd
  have leftReady : Region.init? (fun _ => 0) 4096 128 = .ok left := rfl
  have rightReady : Region.init? (fun _ => 7) 4096 128 = .ok right := rfl
  have leftAdmitted : (fresh left).Admits shared := by decide
  have rightAdmitted : (fresh right).Admits more := by decide
  have fewer : ∀ handle size,
      rightEnd.sizes handle = some size → leftEnd.sizes handle = some size := by
    have leftSound := ((Region.Opened.init leftReady).sound.after leftAdmitted).1
    have rightSound := ((Region.Opened.init rightReady).sound.after rightAdmitted).1
    refine (leftSound.fewer_iff rightSound).mpr ?_
    decide
  have granted : (leftEnd.perform (.ask .typed (.allocate 16))).1 = .ok (.handle (some 4104)) := by
    decide
  refine ⟨leftAdmitted, rightAdmitted, by decide, by decide, granted, ?_⟩
  exact (freeing_never_hurts (.init leftReady) (.init rightReady) rfl leftAdmitted rightAdmitted
    fewer).1 .typed (.allocate 16) _ 4104 (by rintro _ ⟨⟩) granted rfl

end Session
end Firmware
