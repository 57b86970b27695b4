import Firmware.Proofs.Heap.SlotClients

/-! The budget heap is a faithful double of the region heap.
A program that names blocks by slots, and uses no slot after giving its block back, cannot tell the
two apart, as long as they grant the same requests (`Client.faithful_double`): over any heap that
keeps byte strings, what it learns follows from its commands and from what was granted
(`Client.Shows.run`). What it gave back is dead on both heaps, until something is handed out there.
-/

namespace Firmware

--------------------------------------------------------------------------------
-- Programs
--------------------------------------------------------------------------------

namespace Slots

/-- What the slots hold after a program, as far as it is known what was granted. -/
def after (slots : Slots) : List Command → List Bool → Slots
  | command :: rest, granted :: later => after (slots.perform command granted).2 rest later
  | _, _ => slots

/-- What is learnt from a program. -/
def responses (slots : Slots) : List Command → List Bool → List Response
  | command :: rest, granted :: later =>
      let (response, slots) := slots.perform command granted
      response :: responses slots rest later
  | _, _ => []

/-- A program that uses a slot only while it is null or holds the handle of a live block. A handle
that was given back is not live, whatever was handed out at its address since.
-/
def Disciplined (slots : Slots) : List Command → List Bool → Prop
  | command :: rest, granted :: later =>
      slots.Allows command ∧ Disciplined (slots.perform command granted).2 rest later
  | _, _ => True

instance decidableDisciplined (slots : Slots)
    : (commands : List Command) → (grants : List Bool) →
        Decidable (slots.Disciplined commands grants)
  | command :: rest, granted :: later =>
      have := decidableDisciplined (slots.perform command granted).2 rest later
      inferInstanceAs (Decidable (_ ∧ _))
  | [], _ | _ :: _, [] => inferInstanceAs (Decidable True)

end Slots

namespace Client

variable {H : Type} [InspectableHeap H]

/-- What the client learns from a program. -/
def responses (client : Client H) (commands : List Command) : List Response :=
  (client.run commands).map Prod.fst

/-- Which commands of a program were answered with a block. -/
def grants (client : Client H) (commands : List Command) : List Bool :=
  (client.responses commands).map Response.grants

/-- The client after a program. -/
def after (client : Client H) (commands : List Command) : Client H :=
  commands.foldl (fun client command => (client.perform command).2) client

/-- The blocks that a program hands out from the step on that spends each of the spent slots. -/
def handedOut (client : Client H) (slots : Slots) (since : Nat → List Block)
    : List Command → Nat → List Block
  | [] => since
  | command :: rest =>
      let (response, client) := client.perform command
      let (_, slots) := slots.perform command response.grants
      handedOut client slots (slots.since since response) rest

/-- The slots that are not null hold handles of live blocks, with the sizes and the bytes that are
told, or handles that were given back. Those are not live, unless one of the blocks that were handed
out since reaches them.
-/
def Exhibits (client : Client H) (reaches : Block → Nat → Prop) (slots : Slots)
    (since : Nat → List Block)
    : Prop :=
  ∀ index,
    match slots index with
    | .null => client.resolve (.slot index) = none
    | .block bytes =>
        ∃ handle,
          client.resolve (.slot index) = some handle
          ∧ InspectableHeap.sizeOf? client.heap handle = some bytes.length
          ∧ (InspectableHeap.memory client.heap).read handle bytes.length = bytes
    | .spent =>
        ∃ handle,
          client.resolve (.slot index) = some handle
          ∧ ((∀ block ∈ since index, ¬ reaches block handle) →
              InspectableHeap.sizeOf? client.heap handle = none)

variable {model : StoreHeap H} {client : Client H} {slots : Slots} {since : Nat → List Block}

theorem Shows.exhibits (shows : client.Shows model slots since)
    : client.Exhibits model.Reaches slots since := by
  obtain ⟨store, dead, holds, naming, retired⟩ := shows
  intro index
  cases content : slots index with
  | null => exact naming.null content
  | block bytes =>
      obtain ⟨handle, named, present⟩ := naming.block content
      exact ⟨handle, named, model.measures holds present, model.reads holds present⟩
  | spent =>
      obtain ⟨handle, named, gone⟩ := retired content
      exact ⟨handle, named, fun unreached => model.forgets holds (gone unreached)⟩

/-- Over a heap that keeps byte strings, a program learns what follows from its commands and from
what was granted, and so do its slots at each step.
-/
theorem Shows.run (shows : client.Shows model slots since) {commands : List Command}
    (disciplined : slots.Disciplined commands (client.grants commands))
    (goesOn : ∀ response ∈ client.responses commands, response.stops = false)
    : (client.responses commands).map Response.outline
        = slots.responses commands (client.grants commands)
      ∧ ∀ earlier,
          earlier <+: commands →
          (client.after earlier).Shows model (slots.after earlier (client.grants commands))
            (client.handedOut slots since earlier) := by
  induction commands generalizing client slots since with
  | nil =>
      refine ⟨rfl, ?_⟩
      intro earlier begins
      obtain rfl := List.prefix_nil.mp begins
      exact shows
  | cons command rest ih =>
      obtain ⟨allowed, restDisciplined⟩ := disciplined
      obtain ⟨answered, restShows⟩ := shows.perform allowed (goesOn _ List.mem_cons_self)
      obtain ⟨restAnswered, restAfter⟩ := ih restShows restDisciplined
        fun response later => goesOn response (List.mem_cons_of_mem _ later)
      refine ⟨congrArg₂ List.cons answered restAnswered, ?_⟩
      intro earlier begins
      cases earlier with
      | nil => exact shows
      | cons first earlier =>
          obtain ⟨rfl, restBegins⟩ := List.cons_prefix_cons.mp begins
          exact restAfter earlier restBegins

theorem shows_empty {heap : H} (holds : model.Holds heap .empty ∅)
    : Shows model { heap } Slots.empty fun _ => [] := by
  refine ⟨.empty, ∅, holds, ⟨?null, ?block, ?distinct⟩, ?spent⟩
  case null =>
    intro index _
    rfl
  case block =>
    intro index bytes found
    cases found
  case distinct =>
    intro index other bytes otherBytes handle found
    cases found
  case spent =>
    intro index found
    cases found

--------------------------------------------------------------------------------
-- The double
--------------------------------------------------------------------------------

/-- A program with slots is run over the budget heap, drawing on any host that keeps its promises,
and over the region heap. If the same requests are granted and nothing stops the program, then what
it learns is the same but for addresses, and at each step the same slots hold live blocks, of the
same sizes and with the same bytes. The handle of a slot whose block was given back is live on
neither heap, unless a block that was handed out since stands at its address, or in the region heap
covers its tag, where what a client writes may look like a header.
-/
theorem faithful_double {S : Type} [InspectableHost S] (contract : HostContract S) {host : S}
    (unlent : contract.Lends host Loans.none) (capacity : Nat) {region : Region}
    (opened : region.Opened) {commands : List Command}
    : let double : Client (BudgetHeap S) := { heap := { capacity, host } }
      let device : Client Region := { heap := region }
      Slots.empty.Disciplined commands (double.grants commands) →
      double.grants commands = device.grants commands →
      (∀ response ∈ double.responses commands ++ device.responses commands,
        response.stops = false) →
      (double.responses commands).map Response.outline
          = (device.responses commands).map Response.outline
      ∧ ∀ earlier,
          earlier <+: commands →
          let slots := Slots.empty.after earlier (double.grants commands)
          (double.after earlier).Exhibits (fun block handle => block.address = handle) slots
            (double.handedOut Slots.empty (fun _ => []) earlier)
          ∧ (device.after earlier).Exhibits Block.ReachesTag slots
            (device.handedOut Slots.empty (fun _ => []) earlier) := by
  intro double device disciplined same goesOn
  have doubleShows : double.Shows (BudgetHeap.storeHeap contract) Slots.empty fun _ => [] :=
    shows_empty ⟨⟨unlent, rfl⟩, fun _ => False.elim⟩
  have deviceShows : device.Shows Region.storeHeap Slots.empty fun _ => [] :=
    shows_empty opened.holds
  obtain ⟨doubleAnswered, doubleAfter⟩ := doubleShows.run disciplined
    fun response learnt => goesOn response (List.mem_append_left _ learnt)
  obtain ⟨deviceAnswered, deviceAfter⟩ := deviceShows.run (same ▸ disciplined)
    fun response learnt => goesOn response (List.mem_append_right _ learnt)
  rw [← same] at deviceAnswered deviceAfter
  refine ⟨doubleAnswered.trans deviceAnswered.symm, ?_⟩
  intro earlier begins slots
  exact ⟨(doubleAfter earlier begins).exhibits, (deviceAfter earlier begins).exhibits⟩

/-- A block that is filled and moved, a zeroed one that is given back, and a refused request. -/
theorem faithful_double_of_move
    : ∃ region,
        Region.init? (fun _ => 7) 4096 128 = .ok region
        ∧ let double : Client (BudgetHeap FreshHost) :=
            { heap := { capacity := 100, host := { next := 8, memory := fun _ => 3 } } }
          let device : Client Region := { heap := region }
          let commands := [
            .allocate 0 5 .plain,
            .fill (.slot 0) 1,
            .allocateZeroed 1 2 3 .typed,
            .reallocate (.slot 0) 7 0 .linked,
            .read (.slot 0) 9,
            .allocate 2 1000 .typed,
            .release (.slot 1) (.layout {}),
            .look (.slot 0)
          ]
          let slots := Slots.empty.after commands (double.grants commands)
          Slots.empty.Disciplined commands (double.grants commands)
          ∧ double.grants commands = device.grants commands
          ∧ (slots 0, slots 1, slots 2) = (.block [1, 2, 3, 4, 5, 0xAA, 0xAA], .spent, .null)
          ∧ (double.responses commands).map Response.outline
              = (device.responses commands).map Response.outline
          ∧ (double.handedOut Slots.empty (fun _ => []) commands 1,
              device.handedOut Slots.empty (fun _ => []) commands 1) = ([], [])
          ∧ (double.after commands).Exhibits (fun block handle => block.address = handle) slots
              (double.handedOut Slots.empty (fun _ => []) commands)
          ∧ (device.after commands).Exhibits Block.ReachesTag slots
              (device.handedOut Slots.empty (fun _ => []) commands) := by
  refine ⟨_, rfl, ?_⟩
  intro double device commands slots
  have disciplined : Slots.empty.Disciplined commands (double.grants commands) := by decide
  have same : double.grants commands = device.grants commands := by decide
  have unlent : FreshHost.contract.Lends { next := 8, memory := fun _ => 3 } Loans.none :=
    ⟨by rintro _ _ _ _ ⟨⟩, by rintro _ _ ⟨⟩⟩
  have opened := @Region.Opened.init (fun _ => 7) 4096 128 _ rfl
  obtain ⟨answered, exhibited⟩ :=
    faithful_double FreshHost.contract unlent 100 opened disciplined same (by decide)
  exact ⟨disciplined, same, by decide, answered, by decide, exhibited commands List.prefix_rfl⟩

end Client

end Firmware
