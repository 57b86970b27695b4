import Firmware.Notation.Lexical

/-! Blanks and comments: what may stand between two parts of a text without being one.
Main statements: blanks in front of a text do not change what is left once blanks are skipped
(`skipBlanks_append`), and nothing is left of a text that ends in blanks (`EndBlanks.skipBlanks`).
-/

namespace Firmware.Notation

--------------------------------------------------------------------------------
-- Comments
--------------------------------------------------------------------------------

/-- The rest of a comment that is open, up to the mark that closes it. Comments nest. -/
inductive CommentRest : List Char → Prop where
  | close : CommentRest ['*', '/']
  | nested {inner rest : List Char} (opened : CommentRest inner) (more : CommentRest rest)
      : CommentRest ('/' :: '*' :: (inner ++ rest))
  | char {c d : Char} {rest : List Char} (notOpening : ¬ (c = '/' ∧ d = '*'))
      (notClosing : ¬ (c = '*' ∧ d = '/')) (more : CommentRest (d :: rest))
      : CommentRest (c :: d :: rest)

/-- Skipping a comment stops where the comment does, at any depth. -/
theorem skipComment_append {comment : List Char} (closed : CommentRest comment) (depth : Nat)
    (text : List Char)
    : skipComment (depth + 1) (comment ++ text) = skipComment depth text := by
  induction closed generalizing depth text with
  | close => rfl
  | nested opened more ihOpened ihMore =>
      rw [List.cons_append, List.cons_append, List.append_assoc, skipComment, ihOpened, ihMore]
  | char notOpening notClosing more ih =>
      rw [List.cons_append, List.cons_append, skipComment, ← List.cons_append, ih]
      · rintro rest rfl opened
        exact notOpening ⟨rfl, (List.cons.inj opened).1⟩
      · rintro rest rfl closed
        exact notClosing ⟨rfl, (List.cons.inj closed).1⟩

--------------------------------------------------------------------------------
-- Blanks
--------------------------------------------------------------------------------

/-- Any number of blanks and comments, all of them closed. -/
inductive Blanks : List Char → Prop where
  | nil : Blanks []
  | blank {c : Char} {rest : List Char} (blank : isBlank c = true) (more : Blanks rest)
      : Blanks (c :: rest)
  | line {comment rest : List Char} (oneLine : '\n' ∉ comment) (more : Blanks rest)
      : Blanks ('/' :: '/' :: (comment ++ '\n' :: rest))
  | block {comment rest : List Char} (closed : CommentRest comment) (more : Blanks rest)
      : Blanks ('/' :: '*' :: (comment ++ rest))

/-- Blanks start with a blank character or a slash. -/
theorem Blanks.head {c : Char} {rest : List Char} (blanks : Blanks (c :: rest))
    : isBlank c = true ∨ c = '/' := by
  cases blanks with
  | blank blank more => exact .inl blank
  | line | block => exact .inr rfl

theorem Blanks.append {first second : List Char} (blanks : Blanks first) (more : Blanks second)
    : Blanks (first ++ second) := by
  induction blanks with
  | nil => exact more
  | blank blank _ ih => exact .blank blank ih
  | line oneLine _ ih =>
      rw [List.cons_append, List.cons_append, List.append_assoc]
      exact .line oneLine ih
  | block closed _ ih =>
      rw [List.cons_append, List.cons_append, List.append_assoc]
      exact .block closed ih

theorem skipLine_append {comment : List Char} (oneLine : '\n' ∉ comment) (text : List Char)
    : skipLine (comment ++ text) = skipLine text := by
  refine List.dropWhile_append_of_pos fun c member => ?_
  simpa using ne_of_mem_of_not_mem member oneLine

/-- Blanks in front of a text are skipped with those that it starts with. -/
theorem skipBlanks_append {gap : List Char} (blanks : Blanks gap) (text : List Char)
    : skipBlanks (gap ++ text) = skipBlanks text := by
  induction blanks with
  | nil => rfl
  | @blank c rest blank more ih =>
      have notSlash : c ≠ '/' := by
        rintro rfl
        cases blank
      rw [List.cons_append, skipBlanks, if_pos blank, ih]
      · rintro _ rfl
        exact absurd rfl notSlash
      · rintro _ rfl
        exact absurd rfl notSlash
  | line oneLine more ih =>
      rw [List.cons_append, List.cons_append, List.append_assoc, skipBlanks,
        skipLine_append oneLine]
      change skipBlanks ('\n' :: (_ ++ text)) = _
      rw [skipBlanks, if_pos (by decide), ih] <;> rintro _ ⟨⟩
  | @block comment rest closed more ih =>
      have skipped : skipComment 1 (comment ++ (rest ++ text)) = some (rest ++ text) := by
        rw [skipComment_append closed, skipComment]
      rw [List.cons_append, List.cons_append, List.append_assoc, skipBlanks]
      split
      next found => rw [← Option.some.inj (skipped.symm.trans found), ih]
      next unclosed => cases skipped.symm.trans unclosed

/-- A text that starts with neither a blank nor a slash is left as it is. -/
theorem skipBlanks_of_solid {c : Char} (solid : isBlank c = false ∧ c ≠ '/') (text : List Char)
    : skipBlanks (c :: text) = some (c :: text) := by
  rw [skipBlanks, solid.1, if_neg Bool.false_ne_true, if_neg solid.2]
  · rintro _ rfl
    exact absurd rfl solid.2
  · rintro _ rfl
    exact absurd rfl solid.2

/-- What may stand at the end of a text: blanks, and a comment that runs to the end. -/
inductive EndBlanks : List Char → Prop where
  | blanks {gap : List Char} (blanks : Blanks gap) : EndBlanks gap
  | line {gap comment : List Char} (blanks : Blanks gap) (oneLine : '\n' ∉ comment)
      : EndBlanks (gap ++ '/' :: '/' :: comment)

theorem EndBlanks.append_left {first second : List Char} (blanks : Blanks first)
    (atEnd : EndBlanks second)
    : EndBlanks (first ++ second) := by
  cases atEnd with
  | blanks more => exact .blanks (blanks.append more)
  | line more oneLine =>
      rw [← List.append_assoc]
      exact .line (blanks.append more) oneLine

theorem EndBlanks.skipBlanks {gap : List Char} (atEnd : EndBlanks gap)
    : skipBlanks gap = some [] := by
  cases atEnd with
  | blanks blanks =>
      have skipped := skipBlanks_append blanks []
      rwa [List.append_nil, Notation.skipBlanks] at skipped
  | @line _ comment blanks oneLine =>
      have toEnd : skipLine comment = [] := by
        rw [← List.append_nil comment, skipLine_append oneLine]
        rfl
      rw [skipBlanks_append blanks, Notation.skipBlanks, toEnd, Notation.skipBlanks]

end Firmware.Notation
