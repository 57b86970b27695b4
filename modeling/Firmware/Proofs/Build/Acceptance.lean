import Firmware.Build.Validation

/-! What validation accepts.
The checks together ask for what `Configuration.Admitted` lists, in whatever order they are made
(`Configuration.validate_eq_ok_iff`). Of the boards that an environment enables, validation sees the
first only. The configured board is that one, and others go unnoticed, so a single enabled board is
the configured one, but of several only the first is (`Configuration.enabled_boards_of_accepted`).
-/

namespace Firmware

--------------------------------------------------------------------------------
-- Checks
--------------------------------------------------------------------------------

section

variable {ε δ α β : Type}

theorem bind_eq_ok_iff {check : Except ε α} {next : α → Except ε β} {result : β}
    : check >>= next = .ok result ↔ ∃ value, check = .ok value ∧ next value = .ok result := by
  cases check <;> simp [bind, Except.bind]

theorem check_eq_ok_iff {check : Except ε Unit} {next : Unit → Except ε β} {result : β}
    : check >>= next = .ok result ↔ check = .ok () ∧ next () = .ok result := by
  cases check <;> simp [bind, Except.bind]

theorem guard_eq_ok_iff {refused : Prop} [Decidable refused] {error : ε} {next : Except ε α}
    {result : α}
    : (if refused then .error error else next) = .ok result ↔ ¬ refused ∧ next = .ok result := by
  by_cases refused <;> simp [*]

end

--------------------------------------------------------------------------------
-- Validation
--------------------------------------------------------------------------------

namespace Configuration

/-- What validation asks of a configuration and the enabled features. -/
structure Admitted (configuration : Configuration) (features : FeatureSet) : Prop where
  heapNonempty : 0 < configuration.heapSize
  heapFits : ∀ map ∈ configuration.target.memoryMap, configuration.heapSize < map.ram.size
  /-- The enabled board is the configured one; only the host is built without a board. -/
  board
    : features.board = some configuration.target
      ∨ features.board = none ∧ configuration.target = .host
  color : features.logColor = true → configuration.logging.color = true
  errno : features.errno = configuration.errno
  table : features.staticTable = decide (configuration.table = .static)

variable {configuration : Configuration} {features : FeatureSet}

theorem requiredSteps_eq_nil_iff
    : configuration.requiredSteps = []
      ↔ 0 < configuration.heapSize
        ∧ ∀ map ∈ configuration.target.memoryMap, configuration.heapSize < map.ram.size := by
  have steps
      : configuration.requiredSteps = []
        ↔ ¬ configuration.heapSize = 0 ∧ ¬ configuration.HeapFillsRam := by
    simp [requiredSteps]
  simp only [steps, Nat.pos_iff_ne_zero, ne_eq, HeapFillsRam, not_exists, not_and, Nat.not_le]

theorem checkBoard_eq_ok_iff
    : configuration.checkBoard features = .ok ()
      ↔ features.board = some configuration.target
        ∨ features.board = none ∧ configuration.target = .host := by
  unfold checkBoard
  cases features.board with
  | none => by_cases host : configuration.target = .host <;> simp [host]
  | some board => by_cases same : board = configuration.target <;> simp [same]

/-- Validation accepts exactly what is admitted. -/
theorem validate_eq_ok_iff
    : configuration.validate features = .ok () ↔ configuration.Admitted features := by
  have steps := @requiredSteps_eq_nil_iff configuration
  unfold validate
  cases required : configuration.requiredSteps with
  | cons step rest =>
      have incomplete : ¬ configuration.Admitted features := by
        intro admitted
        have none := steps.mpr ⟨admitted.heapNonempty, admitted.heapFits⟩
        rw [required] at none
        cases none
      simp [check_eq_ok_iff, incomplete]
  | nil =>
      obtain ⟨heapNonempty, heapFits⟩ := steps.mp required
      simp only [check_eq_ok_iff, guard_eq_ok_iff, checkBoard_eq_ok_iff, and_true, true_and, not_and,
        Decidable.not_not, ne_eq]
      constructor
      · intro ⟨board, color, errno, table⟩
        exact { heapNonempty, heapFits, board, color, errno, table }
      · intro admitted
        exact ⟨admitted.board, admitted.color, admitted.errno, admitted.table⟩

end Configuration

--------------------------------------------------------------------------------
-- Enabled boards
--------------------------------------------------------------------------------

namespace FeatureSet

/-- The boards that an environment enables, in the order of all targets. -/
def enabledBoards (environment : Environment) : List Target :=
  boards.filter fun board => Enabled environment board.featureName

theorem mem_boards_iff {board : Target} : board ∈ boards ↔ board ≠ .host := by
  cases board <;> decide

theorem boards_nodup : boards.Nodup := by decide

theorem mem_enabledBoards_iff {environment : Environment} {board : Target}
    : board ∈ enabledBoards environment
      ↔ board ≠ .host ∧ Enabled environment board.featureName := by
  rw [enabledBoards, List.mem_filter, mem_boards_iff, decide_eq_true_iff]

/-- Of the enabled boards the first is seen. -/
theorem board_ofEnvironment (environment : Environment)
    : (ofEnvironment environment).board = (enabledBoards environment).head? :=
  List.head?_filter.symm

end FeatureSet

namespace Configuration

open FeatureSet

variable {configuration : Configuration} {environment : Environment}

namespace Admitted

/-- For the host no board is enabled, and otherwise the configured one is the first. -/
theorem enabledBoards_cases (admitted : configuration.Admitted (.ofEnvironment environment))
    : enabledBoards environment = [] ∧ configuration.target = .host
      ∨ ∃ others, enabledBoards environment = configuration.target :: others := by
  have board := admitted.board
  rw [board_ofEnvironment, List.head?_eq_none_iff, List.head?_eq_some_iff] at board
  exact board.symm

/-- The configured board is enabled. -/
theorem enabled (admitted : configuration.Admitted (.ofEnvironment environment))
    (board : configuration.target ≠ .host)
    : Enabled environment configuration.target.featureName := by
  rcases admitted.enabledBoards_cases with ⟨_, host⟩ | ⟨others, boards⟩
  · exact absurd host board
  · have first : configuration.target ∈ enabledBoards environment := by
      rw [boards]
      exact List.mem_cons_self
    exact (mem_enabledBoards_iff.mp first).2

/-- Any other enabled board comes after the configured one. -/
theorem eq_or_later (admitted : configuration.Admitted (.ofEnvironment environment))
    {board : Target} (member : board ∈ enabledBoards environment)
    : board = configuration.target ∨ [configuration.target, board].Sublist boards := by
  rcases admitted.enabledBoards_cases with ⟨none, _⟩ | ⟨others, boards⟩
  · rw [none] at member
    cases member
  · have kept : (enabledBoards environment).Sublist FeatureSet.boards := List.filter_sublist
    rw [boards] at member kept
    rcases List.mem_cons.mp member with same | later
    · exact Or.inl same
    · exact Or.inr (((List.singleton_sublist.mpr later).cons_cons _).trans kept)

end Admitted

/-- An enabled board is the configured one, or comes after it. So the configured board is the only
one that is enabled if and only if no two boards are.
-/
theorem enabled_boards_of_accepted
    (accepted : configuration.validate (.ofEnvironment environment) = .ok ())
    : (∀ board, board ≠ .host → Enabled environment board.featureName →
        board = configuration.target ∨ [configuration.target, board].Sublist boards)
      ∧ ((∀ board, board ≠ .host → Enabled environment board.featureName →
            board = configuration.target)
        ↔ (enabledBoards environment).length ≤ 1) := by
  have admitted := validate_eq_ok_iff.mp accepted
  refine ⟨?_, ?_⟩
  · intro board isBoard enabled
    exact admitted.eq_or_later (mem_enabledBoards_iff.mpr ⟨isBoard, enabled⟩)
  · constructor
    · intro only
      have same : ∀ board ∈ enabledBoards environment, board = configuration.target := by
        intro board member
        obtain ⟨isBoard, enabled⟩ := mem_enabledBoards_iff.mp member
        exact only board isBoard enabled
      have distinct : (enabledBoards environment).Nodup := boards_nodup.filter _
      rw [List.eq_replicate_of_mem same] at distinct
      exact List.nodup_replicate.mp distinct
    · intro single board isBoard enabled
      have member := mem_enabledBoards_iff.mpr ⟨isBoard, enabled⟩
      rcases admitted.enabledBoards_cases with ⟨none, _⟩ | ⟨others, boards⟩
      · rw [none] at member
        cases member
      · rw [boards] at member single
        obtain rfl : others = [] := List.eq_nil_of_length_eq_zero (by simpa using single)
        exact List.mem_singleton.mp member

/-- Two boards are enabled, and the first of them is configured. -/
theorem enabled_boards_of_two
    : let environment : Environment :=
        [("CARGO_FEATURE_WGM160P", ""), ("CARGO_FEATURE_STM32F446", "1"),
          ("CARGO_FEATURE_ERRNO", "")]
      let configuration : Configuration := { target := .stm32f446, errno := true }
      configuration.validate (.ofEnvironment environment) = .ok ()
      ∧ enabledBoards environment = [.stm32f446, .wgm160p]
      ∧ (Target.wgm160p = configuration.target
        ∨ [configuration.target, .wgm160p].Sublist boards) := by
  intro environment configuration
  have features
      : FeatureSet.ofEnvironment environment = { board := some .stm32f446, errno := true } := by
    decide +kernel
  have accepted : configuration.validate (.ofEnvironment environment) = .ok () := by
    rw [features]
    rfl
  refine ⟨accepted, by decide +kernel, ?_⟩
  exact (enabled_boards_of_accepted accepted).1 .wgm160p (by decide) (by decide +kernel)

/-- With the features of two boards, a configuration for the first of them is accepted. The other
board is enabled and is not the configured one.
-/
theorem accepted_with_two_boards
    : let environment : Environment :=
        [("CARGO_FEATURE_STM32F412", "1"), ("CARGO_FEATURE_STM32F446", "1")]
      let configuration : Configuration := { target := .stm32f412 }
      configuration.validate (.ofEnvironment environment) = .ok ()
      ∧ Enabled environment Target.stm32f446.featureName
      ∧ Target.stm32f446 ≠ configuration.target := by
  intro environment configuration
  have features : FeatureSet.ofEnvironment environment = { board := some .stm32f412 } := by
    decide +kernel
  refine ⟨?_, by decide +kernel, by decide⟩
  rw [features]
  rfl

end Configuration

end Firmware
