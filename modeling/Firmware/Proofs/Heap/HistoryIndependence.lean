import Firmware.Proofs.Heap.SessionSteps

/-! The pool forgets how it came about.
Two sessions over the same region whose live blocks have the same handles and sizes have the same
holes, the maximal gaps between the live blocks, and answer every further request alike
(`Session.history_independent`). So a block that is handed out and given back leaves no trace, and
a heap that is given everything back is a fresh one.
-/

namespace Firmware

theorem Ledger.mem_live_record {ledger : Ledger} {call : Call} {answer : Option Nat} {block : Block}
    : block ∈ (ledger.record call answer).live
      ↔ (call.granted? answer = some block ∨ block ∈ ledger.live)
        ∧ ∀ handle ∈ call.returned? answer, block.address ≠ handle := by
  rw [record]
  cases call.granted? answer <;> cases call.returned? answer
  all_goals simp [live_giveBack, mem_without, grant, eq_comm]

theorem Ledger.live_record_fresh {call : Call} (fresh : call.block? = none) (ledger : Ledger)
    (address : Nat)
    : ∃ size, (ledger.record call (some address)).live = ⟨address, size⟩ :: ledger.live := by
  cases call with
  | allocate size | allocateZeroed size => exact ⟨size, rfl⟩
  | reallocate handle size | release handle => cases fresh

/-- A call is answered from the lowest hole that fits, or refused because none does. -/
theorem Pool.blockFor?_spec {pool : Pool} (separated : Separated pool.holes) {size : Nat}
    (limited : size < BlockHeader.sizeLimit)
    : (∃ hole ∈ pool.holes,
        pool.blockFor? size = some (BlockHeader.blockOf hole.start)
        ∧ Fits (extentSize (size + BlockHeader.size)) hole
        ∧ ∀ other ∈ pool.holes,
            Fits (extentSize (size + BlockHeader.size)) other → hole.start ≤ other.start)
      ∨ pool.blockFor? size = none
        ∧ ∀ hole ∈ pool.holes, ¬ Fits (extentSize (size + BlockHeader.size)) hole := by
  have unfolded : pool.blockFor? size
      = (takeFirst? (extentSize (size + BlockHeader.size)) pool.holes).map fun found =>
          BlockHeader.blockOf found.1 := by
    simp only [blockFor?, place?, BlockHeader.rawSize?, if_pos limited, Option.bind_some, take?,
      Option.map_map]
    rfl
  cases found : takeFirst? (extentSize (size + BlockHeader.size)) pool.holes with
  | none =>
      rw [found] at unfolded
      exact Or.inr ⟨unfolded, takeFirst?_eq_none_iff.mp found⟩
  | some place =>
      obtain ⟨start, rest⟩ := place
      rw [found] at unfolded
      obtain ⟨before, hole, after, split, _, rfl, fits, skipped⟩ := takeFirst?_eq_some found
      refine Or.inl ⟨hole, by simp [split], unfolded, fits, ?_⟩
      intro other member otherFits
      rw [split] at member separated
      rcases List.mem_append.mp member with earlier | rest
      · exact absurd otherFits (skipped other earlier)
      · rcases List.mem_cons.mp rest with rfl | later
        · exact Nat.le_refl _
        · have afterHole := (List.pairwise_append.mp separated).2.1
          have order := (List.pairwise_cons.mp afterHole).1 other later
          exact Nat.le_of_lt (Nat.lt_of_le_of_lt (Nat.le_add_right ..) order)

namespace Session

/-- The sizes that the headers of the live blocks record. -/
def sizes (session : Session) (handle : Nat) : Option Nat :=
  if session.ledger.Live handle then session.region.inspect handle else none

/-- A maximal run of bytes of the usable region that no live block takes. -/
def Gap (session : Session) (usable : Pool) : Extent → Prop :=
  MaximalRun fun address =>
    usable.InRegion address ∧ ¬ Covers (session.ledger.live.map Block.extent) address

theorem Sound.mem_live_iff {session : Session} (sound : session.Sound) {block : Block}
    : block ∈ session.ledger.live ↔ session.sizes block.address = some block.size := by
  constructor
  · intro member
    have live : session.ledger.Live block.address := ⟨block, member, rfl⟩
    rw [sizes, if_pos live]
    exact sound.headers block member
  · intro recorded
    obtain ⟨⟨other, member, same⟩, header⟩ := Option.ite_none_right_eq_some.mp recorded
    rw [← same, sound.headers other member] at header
    have equal : other = block := by
      cases other
      cases block
      simp_all
    exact equal ▸ member

/-- The live blocks are the same exactly if the recorded sizes are. -/
theorem Sound.sizes_eq_iff {left right : Session} (leftSound : left.Sound)
    (rightSound : right.Sound)
    : left.sizes = right.sizes
      ↔ ∀ block, block ∈ left.ledger.live ↔ block ∈ right.ledger.live := by
  constructor
  · intro same block
    rw [leftSound.mem_live_iff, rightSound.mem_live_iff, same]
  · intro sameLive
    funext handle
    refine Option.ext fun size => ?_
    have leftIff : ⟨handle, size⟩ ∈ left.ledger.live ↔ left.sizes handle = some size :=
      leftSound.mem_live_iff
    have rightIff : ⟨handle, size⟩ ∈ right.ledger.live ↔ right.sizes handle = some size :=
      rightSound.mem_live_iff
    exact leftIff.symm.trans ((sameLive _).trans rightIff)

/-- Over the same region, the live blocks determine the pool: they leave the same gaps. -/
theorem Sound.pool_eq {left right : Session} (leftSound : left.Sound) (rightSound : right.Sound)
    (sameBottom : left.region.pool.bottom = right.region.pool.bottom)
    (sameSize : left.region.pool.size = right.region.pool.size)
    (sameLive : ∀ block, block ∈ left.ledger.live ↔ block ∈ right.ledger.live)
    : left.region.pool = right.region.pool := by
  refine leftSound.tiled.eq_of_covers_iff rightSound.tiled sameBottom sameSize fun address => ?_
  simp only [Covers, List.nil_append, List.mem_map, sameLive]

/-- A request that names live blocks at most is answered alike, and leaves the same live blocks. -/
theorem Sound.ask_same {left right : Session} (leftSound : left.Sound) (rightSound : right.Sound)
    (samePool : left.region.pool = right.region.pool)
    (sameLive : ∀ block, block ∈ left.ledger.live ↔ block ∈ right.ledger.live)
    {surface : Surface} {request : Request}
    (named : ∀ handle ∈ request.block?, left.ledger.Live handle)
    : (left.perform (.ask surface request)).1 = (right.perform (.ask surface request)).1
      ∧ ∀ block, block ∈ (left.step (.ask surface request)).ledger.live
          ↔ block ∈ (right.step (.ask surface request)).ledger.live := by
  have liveIff : ∀ handle, left.ledger.Live handle ↔ right.ledger.Live handle := by
    simp only [Ledger.Live, sameLive, implies_true]
  cases reached : surface.call? Region request with
  | none =>
      obtain ⟨refusal, _, answered⟩ := perform_unreached reached
      rw [Session.step, Session.step, answered, answered]
      exact ⟨rfl, sameLive⟩
  | some call =>
      have sameAnswer : left.answer? call = right.answer? call := by
        cases call <;> simp only [answer?, Call.answer?, samePool, liveIff]
      obtain ⟨leftAfter, leftAnswered, _⟩ :=
        leftSound.perform_reached (fun handle about => Or.inl (named handle about)) reached
      obtain ⟨rightAfter, rightAnswered, _⟩ :=
        rightSound.perform_reached
          (fun handle about => Or.inl ((liveIff handle).mp (named handle about))) reached
      rw [Session.step, Session.step, leftAnswered, rightAnswered, sameAnswer]
      refine ⟨rfl, fun block => ?_⟩
      simp only [Ledger.mem_live_record, sameLive]

theorem Sound.live_step_release {session : Session} (sound : session.Sound) {surface : Surface}
    {handle : Nat} (live : session.ledger.Live handle)
    (reached : surface.call? Region (.release (some handle)) = some (.release handle))
    : (session.step (.ask surface (.release (some handle)))).ledger.live
      = Ledger.without session.ledger.live handle := by
  have allowed : (Event.ask surface (.release (some handle))).Allowed session.ledger := by
    rintro _ ⟨⟩
    exact Or.inl live
  obtain ⟨after, answered, _⟩ := sound.perform_reached allowed reached
  rw [Session.step, answered]
  exact Ledger.live_giveBack ..

/-- Releasing every live block, in any order and on any surfaces, is allowed and leaves none, by
induction on the order.
-/
theorem Sound.after_releases {session : Session} (sound : session.Sound)
    {releases : List (Surface × Nat)}
    (everyBlock : (releases.map Prod.snd).Perm (session.ledger.live.map Block.address))
    (reached
      : ∀ release ∈ releases,
          release.1.call? Region (.release (some release.2)) = some (.release release.2))
    : let events := releases.map fun release => Event.ask release.1 (.release (some release.2))
      session.Admits events ∧ (session.after events).ledger.live = [] := by
  induction releases generalizing session with
  | nil => exact ⟨trivial, List.map_eq_nil_iff.mp everyBlock.nil_eq.symm⟩
  | cons release rest ih =>
      obtain ⟨releaseReached, restReached⟩ := List.forall_mem_cons.mp reached
      obtain ⟨block, member, same⟩ : ∃ block ∈ session.ledger.live, block.address = release.2 :=
        List.mem_map.mp (everyBlock.mem_iff.mp List.mem_cons_self)
      have allowed : (Event.ask release.1 (.release (some release.2))).Allowed session.ledger := by
        rintro _ ⟨⟩
        exact Or.inl ⟨block, member, same⟩
      have left := sound.live_step_release ⟨block, member, same⟩ releaseReached
      have others : (rest.map Prod.snd).Perm
          ((Ledger.without session.ledger.live release.2).map Block.address) := by
        have perm := (Ledger.perm_without sound.handles_distinct member).map Block.address
        rw [List.map_cons, same] at perm
        exact (everyBlock.trans perm).cons_inv
      rw [← left] at others
      obtain ⟨restAdmitted, drained⟩ := ih (sound.step allowed).1 others restReached
      exact ⟨⟨allowed, restAdmitted⟩, drained⟩

/-- A block that is handed out and given back leaves the blocks that were live before. -/
theorem Sound.after_undone {session : Session} (sound : session.Sound) {surface other : Surface}
    {request : Request} {reply : Reply} {address : Nat} (fresh : request.block? = none)
    (answered : (session.perform (.ask surface request)).1 = .ok reply)
    (granted : reply.block? = some address)
    (reached : other.call? Region (.release (some address)) = some (.release address))
    : let events := [Event.ask surface request, .ask other (.release (some address))]
      session.Admits events ∧ (session.after events).ledger.live = session.ledger.live := by
  have allowed : (Event.ask surface request).Allowed session.ledger := by
    rw [Event.Allowed, fresh]
    rintro _ ⟨⟩
  cases requestReached : surface.call? Region request with
  | none =>
      obtain ⟨refusal, noBlock, refused⟩ := perform_unreached requestReached
      rw [refused] at answered
      cases answered
      cases noBlock.symm.trans granted
  | some call =>
      obtain ⟨after, performed, follows, _⟩ := sound.perform_reached allowed requestReached
      rw [performed] at answered
      cases answered
      rw [block?_reply] at granted
      rw [granted] at performed follows
      have callFresh : call.block? = none := (Surface.block?_call? requestReached).trans fresh
      obtain ⟨size, added⟩ := Ledger.live_record_fresh callFresh session.ledger address
      have next : session.step (.ask surface request)
          = ⟨after, session.ledger.record call (some address)⟩ := congrArg Prod.snd performed
      have nextSound : (session.step (.ask surface request)).Sound := next ▸ follows.sound
      have distinct := nextSound.handles_distinct
      rw [next, added] at distinct
      have live : (session.step (.ask surface request)).ledger.Live address :=
        ⟨⟨address, size⟩, by simp [next, added], rfl⟩
      have releaseAllowed : (Event.ask other (.release (some address))).Allowed
          (session.step (.ask surface request)).ledger := by
        rintro _ ⟨⟩
        exact Or.inl live
      refine ⟨⟨allowed, releaseAllowed, trivial⟩, ?_⟩
      refine (nextSound.live_step_release live reached).trans ?_
      rw [next, added]
      exact Ledger.without_cons_self (List.pairwise_cons.mp distinct).1

--------------------------------------------------------------------------------
-- Independence of the history
--------------------------------------------------------------------------------

/-- The gap at which a block of `size` bytes is placed: the lowest one that its extent fits. -/
structure LowestGap (session : Session) (usable : Pool) (size : Nat) (gap : Extent) : Prop where
  isGap : session.Gap usable gap
  fits : Pool.Fits (Pool.extentSize (size + BlockHeader.size)) gap
  lowest
    : ∀ other,
        session.Gap usable other →
        Pool.Fits (Pool.extentSize (size + BlockHeader.size)) other →
        gap.start ≤ other.start

/-- What the live blocks of a session settle, whatever came before. -/
structure Canonical (session : Session) (usable : Pool) : Prop where
  /-- The holes are the gaps between the live blocks, in address order. -/
  ordered : Separated session.region.pool.holes
  holes : ∀ hole, hole ∈ session.region.pool.holes ↔ session.Gap usable hole
  /-- A block is placed at the lowest gap that fits, and refused only if none does. -/
  placement
    : ∀ surface request call size,
        surface.call? Region request = some call →
        call.size? = some size →
        size < BlockHeader.sizeLimit →
        (∀ handle ∈ request.block?, session.ledger.Live handle) →
        (∃ gap,
          session.LowestGap usable size gap
          ∧ (session.perform (.ask surface request)).1
            = .ok (surface.reply call (some (BlockHeader.blockOf gap.start))))
        ∨ (∀ gap,
            session.Gap usable gap →
            ¬ Pool.Fits (Pool.extentSize (size + BlockHeader.size)) gap)
          ∧ (session.perform (.ask surface request)).1 = .ok (surface.reply call none)
  /-- Handing out a block and giving it back restores the pool. -/
  undone
    : ∀ surface request reply address other,
        request.block? = none →
        (session.perform (.ask surface request)).1 = .ok reply →
        reply.block? = some address →
        other.call? Region (.release (some address)) = some (.release address) →
        (session.after [.ask surface request, .ask other (.release (some address))]).region.pool
          = session.region.pool
  /-- Giving every block back, in any order and on any surfaces, restores the pool that the region
  was set up as. -/
  drained
    : ∀ releases : List (Surface × Nat),
        (releases.map Prod.snd).Perm (session.ledger.live.map Block.address) →
        (∀ release ∈ releases,
          release.1.call? Region (.release (some release.2)) = some (.release release.2)) →
        (session.after
          (releases.map fun release => .ask release.1 (.release (some release.2)))).region.pool
          = usable

theorem Sound.canonical {session : Session} (sound : session.Sound) {region : Region}
    (opened : region.Opened)
    (sameBottom : session.region.pool.bottom = region.pool.bottom)
    (sameSize : session.region.pool.size = region.pool.size)
    : session.Canonical region.pool := by
  have holes : ∀ hole, hole ∈ session.region.pool.holes ↔ session.Gap region.pool hole := by
    intro hole
    rw [sound.tiled.mem_holes_iff, Gap]
    refine maximalRun_congr fun address => ?_
    rw [Pool.InRegion, Pool.InRegion, sameBottom, sameSize, List.nil_append]
  refine {
    ordered := sound.tiled.separated
    holes := holes
    placement := ?placement
    undone := ?undone
    drained := ?drained
  }
  case placement =>
    intro surface request call size reached asks limited named
    have about := Surface.block?_call? reached
    have answer : session.answer? call = session.region.pool.blockFor? size := by
      cases call with
      | allocate _ | allocateZeroed _ =>
          cases asks
          rfl
      | reallocate handle _ =>
          cases asks
          exact if_pos (named handle about.symm)
      | release _ => cases asks
    obtain ⟨after, answered, _⟩ :=
      sound.perform_reached (fun handle known => Or.inl (named handle known)) reached
    rw [answered, answer]
    rcases Pool.blockFor?_spec sound.tiled.separated limited with
      ⟨hole, member, found, fits, lowest⟩ | ⟨refused, none⟩
    · refine Or.inl ⟨hole, ⟨(holes hole).mp member, fits, ?_⟩, by rw [found]⟩
      intro other gap
      exact lowest other ((holes other).mpr gap)
    · refine Or.inr ⟨?_, by rw [refused]⟩
      intro gap isGap
      exact none gap ((holes gap).mpr isGap)
  case undone =>
    intro surface request reply address other fresh answered granted reached
    obtain ⟨admitted, sameLive⟩ := sound.after_undone fresh answered granted reached
    obtain ⟨afterSound, afterBottom, afterSize⟩ := sound.after admitted
    exact afterSound.pool_eq sound afterBottom afterSize fun block => by rw [sameLive]
  case drained =>
    intro releases everyBlock reached
    obtain ⟨admitted, noneLeft⟩ := sound.after_releases everyBlock reached
    obtain ⟨afterSound, afterBottom, afterSize⟩ := sound.after admitted
    exact afterSound.pool_eq opened.sound (afterBottom.trans sameBottom)
      (afterSize.trans sameSize) fun block => by
        rw [noneLeft]
        rfl

/-- Two runs over regions of one start and size that end with the same recorded sizes, whatever
memory held at first and whatever was asked, end with the same holes and the same bytes used and
free. They answer each further request alike and then still record the same sizes. The pool is
canonical, and a fresh one is a single hole.
-/
theorem history_independent {leftMemory rightMemory : Memory} {start size : Nat}
    {left right : Region} (leftReady : Region.init? leftMemory start size = .ok left)
    (rightReady : Region.init? rightMemory start size = .ok right)
    {leftEvents rightEvents : List Event} (leftAdmitted : (fresh left).Admits leftEvents)
    (rightAdmitted : (fresh right).Admits rightEvents)
    (sameSizes : ((fresh left).after leftEvents).sizes = ((fresh right).after rightEvents).sizes)
    : let leftEnd := (fresh left).after leftEvents
      let rightEnd := (fresh right).after rightEvents
      leftEnd.region.pool.holes = rightEnd.region.pool.holes
      ∧ leftEnd.region.pool.used = rightEnd.region.pool.used
      ∧ leftEnd.region.pool.free = rightEnd.region.pool.free
      ∧ (∀ surface request,
          (∀ handle ∈ request.block?, leftEnd.ledger.Live handle) →
          (leftEnd.perform (.ask surface request)).1 = (rightEnd.perform (.ask surface request)).1
          ∧ (leftEnd.step (.ask surface request)).sizes
            = (rightEnd.step (.ask surface request)).sizes)
      ∧ leftEnd.Canonical left.pool
      ∧ left.pool.holes = [⟨left.pool.bottom, left.pool.size⟩] := by
  intro leftEnd rightEnd
  have samePool : left.pool = right.pool :=
    Except.ok.inj ((Region.init?_eq_ok leftReady).1.symm.trans (Region.init?_eq_ok rightReady).1)
  have leftOpened := Region.Opened.init leftReady
  obtain ⟨leftSound, leftBottom, leftSize⟩ := leftOpened.sound.after leftAdmitted
  obtain ⟨rightSound, rightBottom, rightSize⟩ :=
    (Region.Opened.init rightReady).sound.after rightAdmitted
  have sameLive := (leftSound.sizes_eq_iff rightSound).mp sameSizes
  have sameEnd : leftEnd.region.pool = rightEnd.region.pool := by
    refine leftSound.pool_eq rightSound ?_ ?_ sameLive
    · exact leftBottom.trans ((congrArg Pool.bottom samePool).trans rightBottom.symm)
    · exact leftSize.trans ((congrArg Pool.size samePool).trans rightSize.symm)
  refine ⟨congrArg Pool.holes sameEnd, congrArg Pool.used sameEnd, congrArg Pool.free sameEnd, ?_,
    leftSound.canonical leftOpened leftBottom leftSize,
    Pool.holes_of_init? (Region.init?_eq_ok leftReady).1⟩
  intro surface request named
  obtain ⟨sameResult, nextLive⟩ := leftSound.ask_same rightSound sameEnd sameLive named
  have leftAllowed : (Event.ask surface request).Allowed leftEnd.ledger :=
    fun handle about => Or.inl (named handle about)
  have rightAllowed : (Event.ask surface request).Allowed rightEnd.ledger := by
    intro handle about
    obtain ⟨block, member, same⟩ := named handle about
    exact Or.inl ⟨block, (sameLive block).mp member, same⟩
  have leftNext := (leftSound.step leftAllowed).1
  have rightNext := (rightSound.step rightAllowed).1
  exact ⟨sameResult, (leftNext.sizes_eq_iff rightNext).mpr nextLive⟩

/-- One block is live at the end, next to a block that was released before, or after others were
moved, written and released.
-/
theorem history_independent_of_detour
    : let usable : Pool := { bottom := 4096, size := 128, holes := [⟨4096, 128⟩] }
      let left : Region := ⟨Pool.storeNodes (fun _ => 0) usable.holes, usable⟩
      let right : Region := ⟨Pool.storeNodes (fun _ => 7) usable.holes, usable⟩
      let direct := [
        .ask .plain (.allocate 10),
        .ask .typed (.allocate 20),
        .ask .linked (.release (some 4104))
      ]
      let detour := [
        .ask .plain (.allocate 100),
        .ask .plain (.release (some 4104)),
        .ask .typed (.allocateZeroed 2 5),
        .ask .typed (.reallocate (some 4104) 20),
        .write 4128 3 [1],
        .ask .primitive (.allocate 1),
        .ask .primitive (.release (some 4160))
      ]
      Region.init? (fun _ => 0) 4096 128 = .ok left
      ∧ Region.init? (fun _ => 7) 4096 128 = .ok right
      ∧ (fresh left).Admits direct
      ∧ (fresh right).Admits detour
      ∧ ((fresh left).after direct).sizes = ((fresh right).after detour).sizes
      ∧ ((fresh left).after direct).region.pool.holes
        = ((fresh right).after detour).region.pool.holes
      ∧ ((fresh left).after direct).Canonical left.pool := by
  intro usable left right direct detour
  have leftReady : Region.init? (fun _ => 0) 4096 128 = .ok left := rfl
  have rightReady : Region.init? (fun _ => 7) 4096 128 = .ok right := rfl
  have leftAdmitted : (fresh left).Admits direct := by decide
  have rightAdmitted : (fresh right).Admits detour := by decide
  have sameLive : ((fresh left).after direct).ledger.live
      = ((fresh right).after detour).ledger.live := by decide
  have sameSizes : ((fresh left).after direct).sizes = ((fresh right).after detour).sizes := by
    have leftSound := ((Region.Opened.init leftReady).sound.after leftAdmitted).1
    have rightSound := ((Region.Opened.init rightReady).sound.after rightAdmitted).1
    exact (leftSound.sizes_eq_iff rightSound).mpr fun block => by rw [sameLive]
  obtain ⟨sameHoles, _, _, _, canonical, _⟩ :=
    history_independent leftReady rightReady leftAdmitted rightAdmitted sameSizes
  exact ⟨leftReady, rightReady, leftAdmitted, rightAdmitted, sameSizes, sameHoles, canonical⟩

end Session

end Firmware
