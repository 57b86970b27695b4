import Firmware.Proofs.Heap.SessionSteps
import Firmware.Proofs.Heap.Stages

/-! Calls under way: what they hold between two steps, and what each step does.
While a call is under way, the block that it was given and the one that it makes are its own. What
it relies on (`Task.Ready`) is in the bytes of these blocks, so other calls leave it alone
(`Task.Ready.kept`). Its next step succeeds, keeps the heap sound and rewrites no byte of a block
that is not its own (`Task.Ready.next`).
-/

namespace Firmware

/-- A call that was begun and has not returned yet. -/
structure Task where
  call : Call
  /-- The live block that the call was given. -/
  given : Option Block
  /-- Memory as it was when the call was begun. -/
  before : Memory
  stage : Stage

namespace Task

/-- The block that the call hands out with an answer: a new one, or the one that it was given if
that could not be resized.
-/
def handed (task : Task) (answer : Option Nat) : Option Block :=
  match task.call.granted? answer, task.call with
  | some block, _ => some block
  | none, .reallocate _ _ => task.given
  | none, _ => none

/-- The blocks whose extents are taken for the call alone. -/
def held (task : Task) : List Block :=
  match task.stage with
  | .entry _ | .retire _ _ _ | .free _ _ | .reserve _ _ _ | .restore _ _ => task.given.toList
  | .clear start size | .stamp start size => [⟨BlockHeader.blockOf start, size⟩]
  | .copy _ _ start size | .vacate _ _ start size =>
      ⟨BlockHeader.blockOf start, size⟩ :: task.given.toList
  | .done answer => (task.handed answer).toList

/-- The bytes are those that the block had when the call was begun. -/
def Intact (before memory : Memory) (block : Block) : Prop :=
  ∀ i, i < block.size → memory (block.address + i) = before (block.address + i)

/-- What a call that is answered has done. -/
structure Effect (task : Task) (memory : Memory) (answer : Option Nat) : Prop where
  /-- The block that is handed out is live, and its header records its size. -/
  headers
    : ∀ block ∈ task.handed answer, BlockHeader.inspect memory block.address = some block.size
  /-- A new block has the zeros, or the old bytes, that were asked for. -/
  filled : task.call.Filled { live := task.given.toList } task.before memory answer
  /-- A block that could not be resized has all its old bytes. -/
  intact : answer = none → ∀ block ∈ task.handed answer, Intact task.before memory block

/-- What a call relies on at each stage: the size of a block was recorded, a tag is wiped, or bytes
are still in place or already copied.
-/
inductive Ready (memory : Memory) : Task → Prop where
  | entry {call : Call} {given : Option Block} {before : Memory}
    (about : call.block? = given.map Block.address)
    (headers
      : ∀ block ∈ given, BlockHeader.inspect memory block.address = some block.size)
    (intact : ∀ block ∈ given, Intact before memory block)
    : Ready memory ⟨call, given, before, .entry call⟩
  | clear {size start : Nat} {before : Memory} (fits : size < BlockHeader.sizeLimit)
    : Ready memory ⟨.allocateZeroed size, none, before, .clear start size⟩
  | stamp {call : Call} {given : Option Block} {before : Memory} {start size : Nat}
    (asks : call.size? = some size) (fits : size < BlockHeader.sizeLimit)
    (filled
      : call.Filled { live := given.toList } before memory (some (BlockHeader.blockOf start)))
    : Ready memory ⟨call, given, before, .stamp start size⟩
  | retireToResize {old : Block} {size : Nat} {before : Memory}
    (header : BlockHeader.inspect memory old.address = some old.size)
    (intact : Intact before memory old)
    : Ready memory
        ⟨.reallocate old.address size, some old, before, .retire old.address old.size (some size)⟩
  | retireToRelease {old : Block} {before : Memory}
    : Ready memory ⟨.release old.address, some old, before, .retire old.address old.size none⟩
  | free {old : Block} {before : Memory}
    (wiped : memory.TagFree (BlockHeader.rawOf old.address))
    : Ready memory ⟨.release old.address, some old, before, .free old.address old.size⟩
  | reserve {old : Block} {size : Nat} {before : Memory}
    (oldFits : old.size < BlockHeader.sizeLimit)
    (wiped : memory.TagFree (BlockHeader.rawOf old.address))
    (intact : Intact before memory old)
    : Ready memory
        ⟨.reallocate old.address size, some old, before, .reserve old.address old.size size⟩
  | restore {old : Block} {size : Nat} {before : Memory}
    (oldFits : old.size < BlockHeader.sizeLimit) (intact : Intact before memory old)
    : Ready memory
        ⟨.reallocate old.address size, some old, before, .restore old.address old.size⟩
  | copy {old : Block} {start size : Nat} {before : Memory} (fits : size < BlockHeader.sizeLimit)
    (wiped : memory.TagFree (BlockHeader.rawOf old.address))
    (intact : Intact before memory old)
    : Ready memory
        ⟨.reallocate old.address size, some old, before, .copy old.address old.size start size⟩
  | vacate {old : Block} {start size : Nat} {before : Memory} (fits : size < BlockHeader.sizeLimit)
    (wiped : memory.TagFree (BlockHeader.rawOf old.address))
    (filled
      : (Call.reallocate old.address size).Filled { live := [old] } before memory
          (some (BlockHeader.blockOf start)))
    : Ready memory
        ⟨.reallocate old.address size, some old, before, .vacate old.address old.size start size⟩
  | done {task : Task} {answer : Option Nat} (finished : task.stage = .done answer)
    (effect : task.Effect memory answer)
    : Ready memory task

end Task

--------------------------------------------------------------------------------
-- What the bytes of a block determine
--------------------------------------------------------------------------------

theorem Task.Intact.congr {before memory after : Memory} {block : Block}
    (intact : Intact before memory block)
    (same : ∀ i, i < block.size → after (block.address + i) = memory (block.address + i))
    : Intact before after block :=
  fun i inside => (same i inside).trans (intact i inside)

theorem Call.Filled.congr {call : Call} {ledger : Ledger} {before memory after : Memory}
    {address size : Nat} (asks : call.size? = some size)
    (filled : call.Filled ledger before memory (some address))
    (same : ∀ i, i < size → after (address + i) = memory (address + i))
    : call.Filled ledger before after (some address) := by
  rintro _ ⟨⟩
  have old := filled address rfl
  cases call with
  | allocate _ | release _ => trivial
  | allocateZeroed _ =>
      cases asks
      exact fun i inside => (same i inside).trans (old i inside)
  | reallocate handle _ =>
      cases asks
      refine ⟨old.1, fun block member about i inside => ?_⟩
      exact (same i (by omega)).trans (old.2 block member about i inside)

namespace Kept

variable {blocks : List Block} {before after : Memory} {block : Block}

theorem usable (kept : Kept blocks before after) (member : block ∈ blocks)
    (placed : BlockHeader.size ≤ block.address)
    : ∀ i, i < block.size → after (block.address + i) = before (block.address + i) :=
  fun _ inside => kept block member _ (Block.contains_usable placed inside)

theorem tagFree (kept : Kept blocks before after) (member : block ∈ blocks)
    (wiped : before.TagFree (BlockHeader.rawOf block.address))
    : after.TagFree (BlockHeader.rawOf block.address) := by
  have inside : block.extent.Contains (BlockHeader.rawOf block.address) :=
    Extent.contains_start block.extent_pos
  rw [Memory.TagFree, kept block member _ inside]
  exact wiped

theorem inspect (kept : Kept blocks before after) (member : block ∈ blocks)
    (placed : BlockHeader.size ≤ block.address)
    : BlockHeader.inspect after block.address = BlockHeader.inspect before block.address :=
  Block.inspect_congr placed (kept block member)

end Kept

theorem Task.handed_of_granted {task : Task} {answer : Option Nat} {block : Block}
    (granted : task.call.granted? answer = some block)
    : task.handed answer = some block := by
  rw [handed, granted]

/-- The block that a call for a block is granted has the address of the answer. -/
theorem Call.granted?_some {call : Call} {size : Nat} (asks : call.size? = some size)
    (address : Nat)
    : call.granted? (some address) = some ⟨address, size⟩ := by
  simp only [Call.granted?, asks, Option.bind_eq_bind, Option.bind_some]

/-- Whatever others do, a call stays ready, since its own blocks are kept. -/
theorem Task.Ready.kept {memory after : Memory} {task : Task} (ready : Ready memory task)
    (placed : ∀ block ∈ task.held, BlockHeader.size ≤ block.address)
    (kept : Kept task.held memory after)
    : Ready after task := by
  have usable : ∀ block ∈ task.held,
      ∀ i, i < block.size → after (block.address + i) = memory (block.address + i) :=
    fun block member => kept.usable member (placed block member)
  have header : ∀ block ∈ task.held,
      BlockHeader.inspect after block.address = BlockHeader.inspect memory block.address :=
    fun block member => kept.inspect member (placed block member)
  cases ready with
  | entry about headers intact =>
      refine .entry about ?_ ?_
      · intro block member
        exact (header block (Option.mem_toList.mpr member)).trans (headers block member)
      · intro block member
        exact (intact block member).congr (usable block (Option.mem_toList.mpr member))
  | clear fits => exact .clear fits
  | stamp asks fits filled =>
      exact .stamp asks fits (filled.congr asks (usable _ (List.mem_singleton_self _)))
  | @retireToResize old _ _ oldHeader intact =>
      have own : old ∈ [old] := List.mem_singleton_self old
      exact .retireToResize ((header old own).trans oldHeader) (intact.congr (usable old own))
  | retireToRelease => exact .retireToRelease
  | @free old _ wiped => exact .free (kept.tagFree (List.mem_singleton_self old) wiped)
  | @reserve old _ _ oldFits wiped intact =>
      have own : old ∈ [old] := List.mem_singleton_self old
      exact .reserve oldFits (kept.tagFree own wiped) (intact.congr (usable old own))
  | @restore old _ _ oldFits intact =>
      exact .restore oldFits (intact.congr (usable old (List.mem_singleton_self old)))
  | @copy old start size _ fits wiped intact =>
      have own : old ∈ [⟨BlockHeader.blockOf start, size⟩, old] := by simp
      exact .copy fits (kept.tagFree own wiped) (intact.congr (usable old own))
  | @vacate old start size _ fits wiped filled =>
      have own : old ∈ [⟨BlockHeader.blockOf start, size⟩, old] := by simp
      have newBlock := usable ⟨BlockHeader.blockOf start, size⟩ List.mem_cons_self
      exact .vacate fits (kept.tagFree own wiped) (filled.congr rfl newBlock)
  | @done _ answer finished effect =>
      have own : task.held = (task.handed answer).toList := by
        simp only [held, finished]
      have member {block : Block} (handed : block ∈ task.handed answer) : block ∈ task.held :=
        own ▸ Option.mem_toList.mpr handed
      refine .done finished ⟨?_, ?_, ?_⟩
      · intro block handed
        exact (header block (member handed)).trans (effect.headers block handed)
      · cases answer with
        | none => exact Call.filled_none
        | some address =>
            cases asks : task.call.size? with
            | none =>
                rintro _ ⟨⟩
                generalize task.call = call at asks
                cases call with
                | release _ => trivial
                | allocate _ | allocateZeroed _ | reallocate _ _ => cases asks
            | some size =>
                have granted := handed_of_granted (Call.granted?_some asks address)
                exact effect.filled.congr asks (usable ⟨address, size⟩ (member granted))
      · intro refused block handed
        exact (effect.intact refused block handed).congr (usable block (member handed))

--------------------------------------------------------------------------------
-- Steps next to blocks of others
--------------------------------------------------------------------------------

theorem BlockHeader.inspect_lt {memory : Memory} {block usable : Nat}
    (live : inspect memory block = some usable)
    : usable < sizeLimit := by
  obtain ⟨_, rfl⟩ := load_of_inspect live
  have bytes (address : Nat) := UInt8.toNat_lt (memory address)
  have first := bytes (rawOf block + 4)
  have second := bytes (rawOf block + 4 + 1)
  have third := bytes (rawOf block + 4 + 1 + 1)
  have fourth := bytes (rawOf block + 4 + 1 + 1 + 1)
  simp only [Memory.load, sizeLimit]
  omega

namespace Region.Sound

variable {region : Region} {held : List Block}

/-- An extent is taken for a new block, and all other blocks are kept. -/
theorem takeOwn {live : List Block} {size start : Nat} {pool : Pool}
    (sound : region.Sound held { live })
    (placed : region.pool.place? size = some (start, pool))
    : let taken : Region := { memory := Pool.storeNodes region.memory pool.holes, pool }
      taken.Sound (⟨BlockHeader.blockOf start, size⟩ :: held) { live }
      ∧ Kept (held ++ live) region.memory taken.memory
      ∧ pool.bottom = region.pool.bottom
      ∧ pool.size = region.pool.size := by
  obtain ⟨_, granted⟩ := Pool.place?_eq_some_iff.mp placed
  obtain ⟨_, sameBottom, sameSize⟩ := sound.tiled.take granted
  obtain ⟨taken, writes⟩ := sound.reserve granted
  exact ⟨taken, writes.keeps.subset (List.subset_cons_self ..), sameBottom, sameSize⟩

end Region.Sound

namespace Stage

variable {region : Region} {size : Nat} {found : Nat → Stage} {otherwise : Stage}

theorem takeThen_of_no_place (noRoom : region.pool.place? size = none)
    : takeThen size found otherwise region = .answer otherwise region := by
  rw [takeThen]
  cases fits : BlockHeader.rawSize? size with
  | none => rfl
  | some raw => simp only [Region.reserve?_of_no_place fits noRoom]

theorem takeThen_of_place {start : Nat} {pool : Pool}
    (placed : region.pool.place? size = some (start, pool))
    : takeThen size found otherwise region
      = .answer (found start) { memory := Pool.storeNodes region.memory pool.holes, pool } := by
  have fits := (Pool.place?_eq_some_iff.mp placed).1
  simp only [takeThen, BlockHeader.rawSize?, if_pos fits, Region.reserve?_of_place placed]

end Stage

namespace Task

/-- A step of a call, next to the blocks of other calls and the live ones: it is not stopped, keeps
these blocks and brings the call nearer to its end.
-/
structure Steps (task : Task) (others live : List Block) (region : Region) (stage : Stage)
    (after : Region)
    : Prop where
  taken : task.stage.next region = .answer stage after
  sound : after.Sound ({ task with stage }.held ++ others) { live }
  ready : Ready after.memory { task with stage }
  kept : Kept (others ++ live) region.memory after.memory
  /-- The header of a block that is given back to the pool is not live. -/
  returned
    : ∀ block ∈ task.held, block ∉ { task with stage }.held → after.inspect block.address = none
  /-- An extent is taken where the pool has a place for it, and missed only if there is none. -/
  placement
    : ∀ size ∈ task.stage.seeks?,
        match region.pool.place? size with
        | none => stage = task.stage.refused ∧ after = region
        | some (start, _) =>
            { task with stage }.held = ⟨BlockHeader.blockOf start, size⟩ :: task.held
  sameBottom : after.pool.bottom = region.pool.bottom
  sameSize : after.pool.size = region.pool.size
  nearer : stage.remaining < task.stage.remaining

section Steps

variable {region : Region} {others live : List Block} {before : Memory}

theorem Steps.of_unchanged {task : Task} {stage : Stage}
    (taken : task.stage.next region = .answer stage region)
    (sameHeld : { task with stage }.held = task.held)
    (sound : region.Sound (task.held ++ others) { live })
    (ready : Ready region.memory { task with stage })
    (refused
      : ∀ size ∈ task.stage.seeks?, region.pool.place? size = none ∧ stage = task.stage.refused)
    (nearer : stage.remaining < task.stage.remaining)
    : task.Steps others live region stage region where
  taken := taken
  sound := by rwa [sameHeld]
  ready := ready
  kept _ _ _ _ := rfl
  returned _ member gone := absurd (sameHeld ▸ member) gone
  placement size seeks := by
    obtain ⟨noRoom, sameStage⟩ := refused size seeks
    rw [noRoom]
    exact ⟨sameStage, rfl⟩
  sameBottom := rfl
  sameSize := rfl
  nearer := nearer

/-- A step that writes into the first block of its call. -/
theorem Steps.of_rewrite {task : Task} {stage : Stage} {memory : Memory} {block : Block}
    {rest : List Block} (taken : task.stage.next region = .answer stage { region with memory })
    (holds : task.held = block :: rest) (sameHeld : { task with stage }.held = task.held)
    (sound : region.Sound (task.held ++ others) { live })
    (outside : ∀ address, ¬ block.Owns address → memory address = region.memory address)
    (ready : Kept rest region.memory memory → Ready memory { task with stage })
    (seeks : task.stage.seeks? = none) (nearer : stage.remaining < task.stage.remaining)
    : task.Steps others live region stage { region with memory } := by
  rw [holds] at sound
  obtain ⟨rewritten, kept⟩ := sound.rewriteOwn outside
  refine {
    taken := taken
    sound := ?sound
    ready := ready (kept.subset ?rest)
    kept := kept.subset ?others
    returned := fun _ member gone => absurd (sameHeld ▸ member) gone
    placement := ?placement
    sameBottom := rfl
    sameSize := rfl
    nearer := nearer
  }
  case sound =>
    rw [sameHeld, holds]
    exact rewritten
  case rest =>
    intro other member
    simp [member]
  case others =>
    intro other member
    rcases List.mem_append.mp member with inOthers | inLive <;> simp [*]
  case placement =>
    rw [seeks]
    exact nofun

/-- An extent is taken for a new block, next to the blocks that the call has already. -/
theorem Steps.of_take {task : Task} {stage : Stage} {size start : Nat} {pool : Pool}
    (placed : region.pool.place? size = some (start, pool))
    (taken
      : task.stage.next region
        = .answer stage { memory := Pool.storeNodes region.memory pool.holes, pool })
    (seeks : task.stage.seeks? = some size)
    (holds : { task with stage }.held = ⟨BlockHeader.blockOf start, size⟩ :: task.held)
    (sound : region.Sound (task.held ++ others) { live })
    (ready
      : ∀ memory, Kept task.held region.memory memory → Ready memory { task with stage })
    (nearer : stage.remaining < task.stage.remaining)
    : task.Steps others live region stage
        { memory := Pool.storeNodes region.memory pool.holes, pool } := by
  obtain ⟨takenSound, kept, sameBottom, sameSize⟩ := sound.takeOwn placed
  rw [List.append_assoc] at kept
  refine {
    taken := taken
    sound := ?sound
    ready := ready _ (kept.subset (List.subset_append_left ..))
    kept := kept.subset (List.subset_append_right ..)
    returned := ?returned
    placement := ?placement
    sameBottom := sameBottom
    sameSize := sameSize
    nearer := nearer
  }
  case sound =>
    rw [holds]
    exact takenSound
  case returned =>
    intro block member gone
    rw [holds] at gone
    exact absurd (List.mem_cons_of_mem _ member) gone
  case placement =>
    rw [seeks]
    rintro _ ⟨⟩
    rw [placed]
    exact holds

/-- The extent of the block that a call was given goes back to the pool. -/
theorem Steps.of_relinquish {task : Task} {stage : Stage} {old : Block}
    (wiped : region.memory.TagFree (BlockHeader.rawOf old.address))
    (holds : task.held.Perm (old :: { task with stage }.held))
    (sound : region.Sound (task.held ++ others) { live })
    (taken
      : ∀ after,
          region.relinquish (BlockHeader.rawOf old.address) (old.size + BlockHeader.size)
            = .answer () after →
          task.stage.next region = .answer stage after)
    (ready
      : ∀ memory,
          Kept { task with stage }.held region.memory memory → Ready memory { task with stage })
    (seeks : task.stage.seeks? = none) (nearer : stage.remaining < task.stage.remaining)
    : ∃ after, task.Steps others live region stage after := by
  have ordered : region.Sound (old :: ({ task with stage }.held ++ others)) { live } :=
    sound.regroup ((holds.append_right others).append_right live) sound.headers
  obtain ⟨after, released, freed, sameBottom, sameSize, writes⟩ := ordered.relinquish
  have kept := writes.keeps
  rw [List.append_assoc] at kept
  refine ⟨after, {
    taken := taken after released
    sound := freed
    ready := ready _ (kept.subset (List.subset_append_left ..))
    kept := kept.subset (List.subset_append_right ..)
    returned := ?returned
    placement := ?placement
    sameBottom := sameBottom
    sameSize := sameSize
    nearer := nearer
  }⟩
  case returned =>
    intro block member gone
    obtain rfl := (List.mem_cons.mp (holds.mem_iff.mp member)).resolve_right gone
    have aligned := (ordered.tiled.takenRegular block.extent (by simp)).startAligned
    exact BlockHeader.inspect_of_tagFree (writes.tagFree _ aligned wiped)
  case placement =>
    rw [seeks]
    exact nofun

--------------------------------------------------------------------------------
-- The step at each stage
--------------------------------------------------------------------------------

/-- A call for a fresh block takes its extent, or is refused. -/
theorem steps_of_fresh {call : Call} {size : Nat} {found : Nat → Stage}
    (sound : region.Sound others { live }) (fresh : call.block? = none)
    (seeks : (Stage.entry call).seeks? = some size)
    (takes : (Stage.entry call).next region = Stage.takeThen size found (.done none) region)
    (holds
      : ∀ start, Task.held ⟨call, none, before, found start⟩ = [⟨BlockHeader.blockOf start, size⟩])
    (ready
      : ∀ start memory,
          size < BlockHeader.sizeLimit → Ready memory ⟨call, none, before, found start⟩)
    (nearer : ∀ start, (found start).remaining < 6)
    : ∃ stage after,
        Steps ⟨call, none, before, .entry call⟩ others live region stage after := by
  cases placed : region.pool.place? size with
  | none =>
      have nothing : Task.handed ⟨call, none, before, .done none⟩ none = none := by
        cases call with
        | allocate _ | allocateZeroed _ => rfl
        | reallocate _ _ | release _ => cases fresh
      have nothingHeld : Task.held ⟨call, none, before, .done none⟩ = [] := by
        simp only [held, nothing, Option.toList_none]
      have effect : Effect ⟨call, none, before, .done none⟩ region.memory none := by
        refine ⟨?_, Call.filled_none, ?_⟩
        · rw [nothing]
          exact nofun
        · rw [nothing]
          exact nofun
      refine ⟨.done none, region,
        .of_unchanged (takes.trans (Stage.takeThen_of_no_place placed)) nothingHeld sound
          (.done rfl effect) ?_ (Nat.succ_pos 5)⟩
      rw [seeks]
      rintro _ ⟨⟩
      exact ⟨placed, rfl⟩
  | some place =>
      obtain ⟨start, pool⟩ := place
      have fits := (Pool.place?_eq_some_iff.mp placed).1
      exact ⟨found start, _,
        .of_take placed (takes.trans (Stage.takeThen_of_place placed)) seeks (holds start) sound
          (fun memory _ => ready start memory fits) (nearer start)⟩

/-- A resize that is refused hands back the block that it was given. -/
theorem ready_refused {old : Block} {size : Nat} {memory : Memory}
    (header : BlockHeader.inspect memory old.address = some old.size)
    (intact : Intact before memory old)
    : Ready memory ⟨.reallocate old.address size, some old, before, .done none⟩ := by
  refine .done rfl ⟨?_, Call.filled_none, ?_⟩
  · rintro _ ⟨⟩
    exact header
  · rintro _ _ ⟨⟩
    exact intact

/-- A call about a block finds its header; only a size that no header can record is refused. -/
theorem steps_of_given {call : Call} {old : Block} (sound : region.Sound (old :: others) { live })
    (about : call.block? = some old.address)
    (header : region.inspect old.address = some old.size)
    (intact : Intact before region.memory old)
    : ∃ stage after,
        Steps ⟨call, some old, before, .entry call⟩ others live region stage after := by
  have seeksNothing {seeks : Option Nat} {P : Nat → Prop} (nothing : seeks = none)
      : ∀ size ∈ seeks, P size := by
    rw [nothing]
    exact fun size sought => absurd sought (Option.not_mem_none size)
  cases call with
  | allocate _ | allocateZeroed _ => cases about
  | reallocate handle size =>
      obtain rfl : handle = old.address := Option.some.inj about
      cases fits : BlockHeader.rawSize? size with
      | none =>
          have refuses : (Stage.entry (.reallocate old.address size)).next region
              = .answer (.done none) region := by
            simp only [Stage.next, fits]
          exact ⟨.done none, region,
            .of_unchanged refuses rfl sound (ready_refused header intact) (seeksNothing rfl)
              (Nat.succ_pos 5)⟩
      | some raw =>
          have inspects : (Stage.entry (.reallocate old.address size)).next region
              = .answer (.retire old.address old.size (some size)) region := by
            simp only [Stage.next, fits, header]
          exact ⟨.retire old.address old.size (some size), region,
            .of_unchanged inspects rfl sound (.retireToResize header intact) (seeksNothing rfl)
              (Nat.lt_succ_self 5)⟩
  | release handle =>
      obtain rfl : handle = old.address := Option.some.inj about
      have inspects : (Stage.entry (.release old.address)).next region
          = .answer (.retire old.address old.size none) region := by
        simp only [Stage.next, header]
      exact ⟨.retire old.address old.size none, region,
        .of_unchanged inspects rfl sound .retireToRelease (seeksNothing rfl)
          (Nat.lt_succ_self 5)⟩

theorem steps_of_clear {size start : Nat} (fits : size < BlockHeader.sizeLimit)
    (sound : region.Sound (⟨BlockHeader.blockOf start, size⟩ :: others) { live })
    : ∃ stage after,
        Steps ⟨.allocateZeroed size, none, before, .clear start size⟩ others live region stage
          after := by
  have outside : ∀ address, ¬ Block.Owns ⟨BlockHeader.blockOf start, size⟩ address →
      (region.clear start (size + BlockHeader.size)).memory address = region.memory address := by
    intro address notOwned
    refine if_neg fun inside => notOwned ?_
    simp only [Block.Owns, BlockHeader.rawOf_blockOf]
    omega
  refine ⟨.stamp start size, _,
    .of_rewrite rfl rfl rfl sound outside (fun _ => .stamp rfl fits ?_) rfl (Nat.lt_succ_self 1)⟩
  rintro _ ⟨⟩ i inside
  refine if_pos ?_
  simp only [BlockHeader.blockOf]
  omega

theorem steps_of_stamp {call : Call} {given : Option Block} {size start : Nat}
    (asks : call.size? = some size) (fits : size < BlockHeader.sizeLimit)
    (filled
      : call.Filled { live := given.toList } before region.memory
          (some (BlockHeader.blockOf start)))
    (sound : region.Sound (⟨BlockHeader.blockOf start, size⟩ :: others) { live })
    : ∃ stage after,
        Steps ⟨call, given, before, .stamp start size⟩ others live region stage after := by
  have outside : ∀ address, ¬ Block.Owns ⟨BlockHeader.blockOf start, size⟩ address →
      (region.stamp start size).memory address = region.memory address := by
    intro address notOwned
    have same : BlockHeader.stamp region.memory _ size address = region.memory address :=
      Block.stamp_of_not_owned notOwned
    rwa [BlockHeader.rawOf_blockOf] at same
  let answer := some (BlockHeader.blockOf start)
  have handed : Task.handed ⟨call, given, before, .done answer⟩ answer = some ⟨_, size⟩ :=
    handed_of_granted (Call.granted?_some asks (BlockHeader.blockOf start))
  have sameHeld : Task.held ⟨call, given, before, .done answer⟩
      = [⟨BlockHeader.blockOf start, size⟩] := by
    simp only [held, handed, Option.toList_some]
  refine ⟨.done answer, _,
    .of_rewrite rfl rfl sameHeld sound outside (fun _ => .done rfl ⟨?_, ?_, ?_⟩) rfl
      (Nat.lt_succ_self 0)⟩
  · rw [handed]
    rintro _ ⟨⟩
    have header := BlockHeader.inspect_stamp region.memory start size
    rwa [Nat.mod_eq_of_lt fits] at header
  · exact filled.congr asks fun i _ => BlockHeader.stamp_usable ..
  · exact fun refused => absurd refused (Option.some_ne_none _)

theorem steps_of_retireToResize {old : Block} {size : Nat}
    (header : BlockHeader.inspect region.memory old.address = some old.size)
    (intact : Intact before region.memory old) (sound : region.Sound (old :: others) { live })
    : ∃ stage after,
        Steps
          ⟨.reallocate old.address size, some old, before,
            .retire old.address old.size (some size)⟩
          others live region stage after := by
  have placed := sound.placed old List.mem_cons_self
  have usable : ∀ i, i < old.size →
      BlockHeader.retire region.memory (BlockHeader.rawOf old.address) (old.address + i)
        = region.memory (old.address + i) :=
    fun i _ => BlockHeader.retire_usable _ placed i
  exact ⟨.reserve old.address old.size size, _,
    .of_rewrite rfl rfl rfl sound (fun _ => Block.retire_of_not_owned)
      (fun _ => .reserve (BlockHeader.inspect_lt header) (BlockHeader.retire_tagFree ..)
        (intact.congr usable))
      rfl (Nat.lt_succ_self 4)⟩

theorem steps_of_reserve {old : Block} {size : Nat} (oldFits : old.size < BlockHeader.sizeLimit)
    (wiped : region.memory.TagFree (BlockHeader.rawOf old.address))
    (intact : Intact before region.memory old) (sound : region.Sound (old :: others) { live })
    : ∃ stage after,
        Steps ⟨.reallocate old.address size, some old, before, .reserve old.address old.size size⟩
          others live region stage after := by
  cases placed : region.pool.place? size with
  | none =>
      refine ⟨.restore old.address old.size, region,
        .of_unchanged (Stage.takeThen_of_no_place placed) rfl sound (.restore oldFits intact) ?_
          (by decide : 1 < 4)⟩
      rintro _ ⟨⟩
      exact ⟨placed, rfl⟩
  | some place =>
      obtain ⟨start, pool⟩ := place
      have fits := (Pool.place?_eq_some_iff.mp placed).1
      have oldPlaced := sound.placed old List.mem_cons_self
      have own : old ∈ [old] := List.mem_singleton_self old
      exact ⟨.copy old.address old.size start size, _,
        .of_take placed (Stage.takeThen_of_place placed) rfl rfl sound
          (fun _ kept =>
            .copy fits (kept.tagFree own wiped) (intact.congr (kept.usable own oldPlaced)))
          (Nat.lt_succ_self 3)⟩

theorem steps_of_restore {old : Block} {size : Nat} (oldFits : old.size < BlockHeader.sizeLimit)
    (intact : Intact before region.memory old) (sound : region.Sound (old :: others) { live })
    : ∃ stage after,
        Steps ⟨.reallocate old.address size, some old, before, .restore old.address old.size⟩ others
          live region stage after := by
  have placed := sound.placed old List.mem_cons_self
  refine ⟨.done none, _,
    .of_rewrite rfl rfl rfl sound (fun _ => Block.stamp_of_not_owned)
      (fun _ => ready_refused ?_ (intact.congr ?_)) rfl (Nat.lt_succ_self 0)⟩
  · have header :=
      BlockHeader.inspect_stamp region.memory (BlockHeader.rawOf old.address) old.size
    rwa [BlockHeader.blockOf_rawOf placed, Nat.mod_eq_of_lt oldFits] at header
  · intro i _
    have usable := BlockHeader.stamp_usable region.memory (BlockHeader.rawOf old.address) old.size i
    rwa [BlockHeader.blockOf_rawOf placed] at usable

theorem steps_of_copy {old : Block} {start size : Nat} (fits : size < BlockHeader.sizeLimit)
    (wiped : region.memory.TagFree (BlockHeader.rawOf old.address))
    (intact : Intact before region.memory old)
    (sound : region.Sound (⟨BlockHeader.blockOf start, size⟩ :: old :: others) { live })
    : ∃ stage after,
        Steps
          ⟨.reallocate old.address size, some old, before, .copy old.address old.size start size⟩
          others live region stage after := by
  let new : Block := ⟨BlockHeader.blockOf start, size⟩
  let copied := region.copy (BlockHeader.rawOf old.address) start
    (min (old.size + BlockHeader.size) (size + BlockHeader.size))
  have outside : ∀ address, ¬ new.Owns address →
      copied.memory address = region.memory address := by
    intro address notOwned
    refine if_neg fun inside => notOwned ?_
    simp only [new, Block.Owns, BlockHeader.rawOf_blockOf]
    omega
  have blocksApart := List.pairwise_cons.mp (List.pairwise_map.mp sound.tiled.takenApart)
  have elsewhere : new.address ≠ old.address :=
    Block.address_ne_of_apart (blocksApart.1 old List.mem_cons_self)
  have oldPlaced := sound.placed old (by simp)
  have filled : (Call.reallocate old.address size).Filled { live := [old] } before copied.memory
      (some new.address) := by
    rintro _ ⟨⟩
    refine ⟨elsewhere, ?_⟩
    rintro block member - i inside
    obtain rfl : block = old := List.mem_singleton.mp member
    have source : BlockHeader.rawOf block.address + (new.address + i - start)
        = block.address + i := by
      simp only [new, BlockHeader.rawOf, BlockHeader.blockOf] at *
      omega
    have byte : copied.memory (new.address + i) = region.memory (block.address + i) := by
      rw [← source]
      refine if_pos ?_
      simp only [new, BlockHeader.blockOf]
      omega
    exact byte.trans (intact i (by omega))
  have own : old ∈ [old] := List.mem_singleton_self old
  exact ⟨.vacate old.address old.size start size, copied,
    .of_rewrite rfl rfl rfl sound outside
      (fun kept => .vacate fits (kept.tagFree own wiped) filled) rfl (Nat.lt_succ_self 2)⟩

/-- The next step of a call that is ready, by cases on what it is ready for. -/
theorem Ready.next {task : Task} (ready : Ready region.memory task)
    (sound : region.Sound (task.held ++ others) { live }) (unfinished : 0 < task.stage.remaining)
    : ∃ stage after, task.Steps others live region stage after := by
  cases ready with
  | @entry call given before about headers intact =>
      cases given with
      | none =>
          cases call with
          | allocate size =>
              exact steps_of_fresh sound rfl rfl rfl (fun _ => rfl)
                (fun _ _ fits => .stamp rfl fits fun _ _ => trivial) fun _ => (by decide : 1 < 6)
          | allocateZeroed size =>
              exact steps_of_fresh sound rfl rfl rfl (fun _ => rfl) (fun _ _ fits => .clear fits)
                fun _ => (by decide : 2 < 6)
          | reallocate _ _ | release _ => cases about
      | some old => exact steps_of_given sound about (headers old rfl) (intact old rfl)
  | clear fits => exact steps_of_clear fits sound
  | stamp asks fits filled => exact steps_of_stamp asks fits filled sound
  | retireToResize header intact => exact steps_of_retireToResize header intact sound
  | @retireToRelease old before =>
      exact ⟨.free old.address old.size, _,
        .of_rewrite rfl rfl rfl sound (fun _ => Block.retire_of_not_owned)
          (fun _ => .free (BlockHeader.retire_tagFree ..)) rfl (by decide : 1 < 5)⟩
  | @free old before wiped =>
      exact ⟨.done none,
        Steps.of_relinquish wiped (.refl _) sound (fun _ => congrArg (Outcome.map _))
          (fun _ _ => .done rfl ⟨nofun, Call.filled_none, nofun⟩) rfl (Nat.lt_succ_self 0)⟩
  | reserve oldFits wiped intact => exact steps_of_reserve oldFits wiped intact sound
  | restore oldFits intact => exact steps_of_restore oldFits intact sound
  | copy fits wiped intact => exact steps_of_copy fits wiped intact sound
  | @vacate old start size before fits wiped filled =>
      have newPlaced : BlockHeader.size ≤ BlockHeader.blockOf start := Nat.le_add_left ..
      exact ⟨.stamp start size,
        Steps.of_relinquish wiped (.swap ..) sound (fun _ => congrArg (Outcome.map _))
          (fun _ kept =>
            .stamp rfl fits (filled.congr rfl (kept.usable (List.mem_singleton_self _) newPlaced)))
          rfl (Nat.lt_succ_self 1)⟩
  | done finished _ =>
      rw [finished] at unfinished
      cases unfinished

end Steps

end Task

end Firmware
