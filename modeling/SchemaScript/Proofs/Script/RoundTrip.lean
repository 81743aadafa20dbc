import SchemaScript.Proofs.Script.Line
import SchemaScript.Proofs.Script.Trace

/-!
# Writing and reading again

A script that is written in proper lines is read as the statements that the lines stand for, one
after the other, and nothing is skipped (`Script.run_write`).

A line is read on its own first, with the rest of the script behind it (`Line.reads`). What is left
is that rest, but for blanks: the semicolon behind an added foreign key is already passed when one
more is looked for, and then the blanks before the next line are passed too.
-/

namespace SchemaScript

open Text Grammar Reader

/-! ## Reading a line -/

section

variable {left : Text}

theorem Addition.reads {kind : Addition} {target name : QualifiedName} (hTarget : target.Proper)
    (hName : name.Proper) (hKind : kind.Proper)
    (hMore : (left.dropWhile isBlank).head? ≠ some ';') :
    ∃ left', Reads (alteration Rulebook.standard)
      ("TABLE " ++ (target.render ++ (" ADD CONSTRAINT " ++ (name.render ++
        (" " ++ (kind.write ++ left))))))
      (.addConstraint target (kind.constraint name)) left' ∧
      left'.dropWhile isBlank = left.dropWhile isBlank := by
  -- the semicolon behind a parenthesis is the optional one
  have hSemicolon : Reads (accept ";") (';' :: left) true left := reads_accept rfl
  cases kind with
  | primaryKey fields =>
    have hRead : Reads (constraintKind Rulebook.standard name)
        (" PRIMARY KEY (" ++ (fields ++ ')' :: ';' :: left))
        (.plain name (Parameters.empty.insert "PRIMARY_KEY" fields)) (';' :: left) :=
      reads_primaryKey hKind.1 hKind.2
    refine ⟨left, ?_, rfl⟩
    unfold Addition.write
    simp only [List.append_assoc]
    exact reads_alteration hTarget hName (by decide) (by decide) hRead hSemicolon
  | check rule =>
    have hRead : Reads (constraintKind Rulebook.standard name)
        (" CHECK (" ++ (rule ++ ')' :: ';' :: left)) (.check name rule) (';' :: left) :=
      reads_check hKind.1 hKind.2
    refine ⟨left, ?_, rfl⟩
    unfold Addition.write
    simp only [List.append_assoc]
    exact reads_alteration hTarget hName (by decide) (by decide) hRead hSemicolon
  | foreignKey keys table references parameters =>
    obtain ⟨⟨⟨hKeys, hKeys'⟩, hSpace⟩, hTable, ⟨⟨hReferences, hReferences'⟩, hSpace'⟩, hTail⟩ :=
      hKind
    have hRead : Reads (constraintKind Rulebook.standard name) _ _ left :=
      reads_foreignKey hKeys hKeys' hSpace hTable hReferences hReferences' hSpace' hTail
    -- the parameters took their semicolon, and no other one stands next
    have hNone : (";" : Text).isPrefixOf (left.dropWhile isBlank) = false :=
      isPrefixOf_singleton_eq_false hMore
    refine ⟨left.dropWhile isBlank, ?_, List.dropWhile_idempotent _ _⟩
    unfold Addition.write
    simp only [List.append_assoc]
    exact reads_alteration hTarget hName (by decide) (by decide) hRead (reads_accept_false hNone)

/-- What is read of a line as it is written. -/
theorem Line.reads_write {l : Line} (hProper : l.Proper)
    (hEnd : left = [] ∨ left.head? = some '\n')
    (hMore : (left.dropWhile isBlank).head? ≠ some ';') :
    ∃ left', Reads (statement? Rulebook.standard) (l.write ++ left) (some l.statement) left' ∧
      left'.dropWhile isBlank = left.dropWhile isBlank := by
  cases l with
  | comment body =>
    refine ⟨left, ?_, rfl⟩
    unfold Line.write
    rw [List.append_assoc]
    exact reads_comment hProper hEnd
  | database name parameters =>
    obtain ⟨hName, hTail⟩ := hProper
    refine ⟨left, ?_, rfl⟩
    unfold Line.write
    simp only [List.append_assoc]
    exact reads_created (reads_creation_database (reads_database hName hTail))
  | tablespace name home parameters =>
    obtain ⟨hName, hHome, hTail⟩ := hProper
    refine ⟨left, ?_, rfl⟩
    unfold Line.write
    simp only [List.append_assoc]
    exact reads_created (reads_creation_tablespace (reads_tablespace hName hHome hTail))
  | index unique name target fields parameters =>
    obtain ⟨hName, hTarget, ⟨hFields, hFields'⟩, hTail⟩ := hProper
    have hIndex : Reads (Grammar.index Rulebook.standard unique) _ _ left :=
      reads_index unique hName hTarget hFields hFields' hTail
    have hCreation := reads_created (reads_creation_index unique hIndex)
    refine ⟨left, ?_, rfl⟩
    unfold Line.write
    simp only [List.append_assoc]
    cases unique <;> exact hCreation
  | view name query =>
    obtain ⟨hName, hQuery, hQuery'⟩ := hProper
    refine ⟨left, ?_, rfl⟩
    unfold Line.write
    simp only [List.append_assoc]
    exact reads_created (reads_creation_view (reads_view hName hQuery hQuery'))
  | setting parameter value =>
    obtain ⟨⟨hParameter, hParameter'⟩, hValue, hValue'⟩ := hProper
    -- the search takes the space before the sign along
    have hBefore : '=' ∉ parameter ++ " " := by simpa using hParameter'
    have hSetting : Reads Grammar.setting _ _ left := reads_setting hBefore hValue hValue'
    rw [trim_before_space, trim_of_clean hParameter, List.append_assoc] at hSetting
    refine ⟨left, ?_, rfl⟩
    unfold Line.write
    simp only [List.append_assoc]
    exact reads_set hSetting
  | addition target name kind =>
    obtain ⟨hTarget, hName, hKind⟩ := hProper
    obtain ⟨left', hRead, hLeft⟩ := Addition.reads hTarget hName hKind hMore
    refine ⟨left', ?_, hLeft⟩
    unfold Line.write
    simp only [List.append_assoc]
    exact reads_altered hRead

/-- What is read of a line once it is normalized. -/
theorem Line.reads {l : Line} (hProper : l.Proper) (hEnd : left = [] ∨ left.head? = some '\n')
    (hMore : (left.dropWhile isBlank).head? ≠ some ';') :
    ∃ left', Reads (statement? Rulebook.standard) (Text.normalize l.write ++ left)
      (some l.statement) left' ∧ left'.dropWhile isBlank = left.dropWhile isBlank := by
  by_cases hNamed : ∀ value, l ≠ .setting [] value
  · rw [normalize_of_spaced (Line.spaced_write hProper hNamed)]
    exact Line.reads_write hProper hEnd hMore
  · -- of the two spaces around the missing name, one is left
    push Not at hNamed
    obtain ⟨value, rfl⟩ := hNamed
    obtain ⟨-, hValue, hValue'⟩ := hProper
    have hBehind : Text.normalize (" " ++ (value ++ ";")) = " " ++ (value ++ ";") :=
      normalize_of_spaced (hValue.spaced_cons_append spaced_semicolon)
    have hText : Text.normalize (Line.setting [] value).write =
        "SET " ++ ("= " ++ (value ++ ";")) := by
      have hSplit := normalize_append_cons (by decide) (by decide) "SET  "
        (" " ++ (value ++ ";")) (x := '=')
      rw [hBehind] at hSplit
      exact hSplit
    have hNone : '=' ∉ ([] : Text) := List.not_mem_nil
    have hSetting : Reads Grammar.setting _ _ left := reads_setting hNone hValue hValue'
    rw [List.nil_append] at hSetting
    refine ⟨left, ?_, rfl⟩
    rw [hText]
    simp only [List.append_assoc]
    exact reads_set hSetting

/-! ## What stands behind a line -/

/-- Every line starts with one of four characters. -/
theorem Line.write_starts (l : Line) :
    ∃ x t, l.write = x :: t ∧ isBlank x = false ∧ isGap x = false ∧ x ≠ '\r' ∧ x ≠ ';' := by
  -- with a hyphen, or with the first letter of `CREATE`, `SET` or `ALTER`
  have hHyphen : isBlank '-' = false ∧ isGap '-' = false ∧ '-' ≠ '\r' ∧ '-' ≠ ';' := by decide
  have hC : isBlank 'C' = false ∧ isGap 'C' = false ∧ 'C' ≠ '\r' ∧ 'C' ≠ ';' := by decide
  have hS : isBlank 'S' = false ∧ isGap 'S' = false ∧ 'S' ≠ '\r' ∧ 'S' ≠ ';' := by decide
  have hA : isBlank 'A' = false ∧ isGap 'A' = false ∧ 'A' ≠ '\r' ∧ 'A' ≠ ';' := by decide
  cases l with
  | comment body => exact ⟨'-', _, rfl, hHyphen⟩
  | database name parameters => exact ⟨'C', _, rfl, hC⟩
  | tablespace name home parameters => exact ⟨'C', _, rfl, hC⟩
  | index unique name target fields parameters => cases unique <;> exact ⟨'C', _, rfl, hC⟩
  | view name query => exact ⟨'C', _, rfl, hC⟩
  | setting parameter value => exact ⟨'S', _, rfl, hS⟩
  | addition target name kind => exact ⟨'A', _, rfl, hA⟩

theorem Line.normalize_write_starts (l : Line) :
    ∃ x t, Text.normalize l.write = x :: t ∧ isBlank x = false ∧ x ≠ ';' := by
  obtain ⟨x, t, hWrite, hBlank, hGap, hReturn, hSemicolon⟩ := l.write_starts
  refine ⟨x, Text.normalize t, ?_, hBlank, hSemicolon⟩
  have hFirst := normalize_append_cons hReturn hGap [] t
  rwa [List.nil_append, normalize_nil, List.nil_append, ← hWrite] at hFirst

end

/-! ## Scripts -/

/-- What a script ends with, if its last line is closed. -/
def Line.lineEnd (closed : Bool) : Text := if closed then "\n" else ""

/-- The script of some lines, each on a line of its own. The last one may be closed. -/
def Line.script (lines : List Line) (closed : Bool) : Text :=
  Text.join "\n" (lines.map Line.write) ++ lineEnd closed

/-- What stands behind a line of a normalized script, if some lines follow. -/
def Line.following (closed : Bool) : List Line → Text
  | [] => lineEnd closed
  | l :: lines => '\n' :: (Text.normalize l.write ++ following closed lines)

section

variable {lines : List Line} {closed : Bool}

theorem Line.following_starts (closed : Bool) (lines : List Line) :
    following closed lines = [] ∨ (following closed lines).head? = some '\n' := by
  cases lines with
  | nil =>
    cases closed with
    | false => exact Or.inl rfl
    | true => exact Or.inr rfl
  | cons l lines => exact Or.inr rfl

theorem Line.dropWhile_lineEnd (closed : Bool) : (lineEnd closed).dropWhile isBlank = [] := by
  cases closed <;> rfl

/-- Behind the blanks stands the next line. -/
theorem Line.dropWhile_following (l : Line) (lines : List Line) :
    (following closed (l :: lines)).dropWhile isBlank =
      Text.normalize l.write ++ following closed lines := by
  obtain ⟨x, t, hStart, hBlank, -⟩ := l.normalize_write_starts
  rw [following, List.dropWhile_cons_of_pos (by decide), hStart, List.cons_append,
    List.dropWhile_cons_of_neg (by simp [hBlank])]

/-- A line does not start with a semicolon. -/
theorem Line.head?_following (closed : Bool) (lines : List Line) :
    ((following closed lines).dropWhile isBlank).head? ≠ some ';' := by
  cases lines with
  | nil =>
    rw [following, dropWhile_lineEnd]
    simp
  | cons l lines =>
    obtain ⟨x, t, hStart, -, hSemicolon⟩ := l.normalize_write_starts
    rw [dropWhile_following, hStart]
    simpa using hSemicolon

/-- A script is normalized line by line. -/
theorem Line.normalize_script (l : Line) (lines : List Line) (closed : Bool) :
    Text.normalize (script (l :: lines) closed) =
      Text.normalize l.write ++ following closed lines := by
  induction lines generalizing l with
  | nil =>
    cases closed with
    | false =>
      show Text.normalize (l.write ++ []) = Text.normalize l.write ++ []
      rw [List.append_nil, List.append_nil]
    | true => exact normalize_append_cons (by decide) (by decide) l.write []
  | cons m lines ih =>
    -- normalizing starts afresh behind the line feed
    have hScript : script (l :: m :: lines) closed =
        l.write ++ '\n' :: script (m :: lines) closed := by
      show (l.write ++ "\n" ++ _) ++ lineEnd closed = _
      rw [List.append_assoc, List.append_assoc]
      rfl
    rw [hScript, normalize_append_cons (by decide) (by decide), ih m, following]

/-- What is ahead at the start of a script, blanks apart. -/
theorem Line.dropWhile_normalize_script (lines : List Line) (closed : Bool) :
    (Text.normalize (script lines closed)).dropWhile isBlank =
      (following closed lines).dropWhile isBlank := by
  cases lines with
  | nil => cases closed <;> rfl
  | cons l lines =>
    obtain ⟨x, t, hStart, hBlank, -⟩ := l.normalize_write_starts
    rw [normalize_script, dropWhile_following, hStart, List.cons_append,
      List.dropWhile_cons_of_neg (by simp [hBlank])]

end

namespace Script

variable {l : Line} {lines : List Line} {closed : Bool} {c : Cursor}

/-! ## Reading a script -/

/-- A step takes the statement of the line ahead and stops before the next line, blanks apart. -/
theorem step_line (hProper : l.Proper)
    (hRest : c.rest = Text.normalize l.write ++ Line.following closed lines) :
    ∃ stop, step Rulebook.standard c = .ok (.statement l.statement, stop) ∧
      stop.rest.dropWhile isBlank = (Line.following closed lines).dropWhile isBlank := by
  obtain ⟨left, hReads, hLeft⟩ := Line.reads hProper (Line.following_starts closed lines)
    (Line.head?_following closed lines)
  obtain ⟨seen, hRead⟩ := hReads c.seen
  rw [← hRest] at hRead
  exact ⟨⟨seen, left⟩, step_of_some hRead, hLeft⟩

/-- The steps through a script take the statements of its lines. -/
theorem exists_trace_of_lines (hProper : ∀ l ∈ lines, l.Proper)
    (hRest : c.rest.dropWhile isBlank = (Line.following closed lines).dropWhile isBlank) :
    ∃ steps final, Trace Rulebook.standard c steps final ∧
      steps.map Step.outcome = lines.map fun l => .statement l.statement := by
  -- the cursor stands before the lines that are left, blanks apart
  induction lines generalizing c with
  | nil =>
    rw [Line.following, Line.dropWhile_lineEnd, ← Cursor.rest_skipBlanks] at hRest
    exact ⟨[], _, .done hRest, rfl⟩
  | cons l lines ih =>
    rw [Line.dropWhile_following, ← Cursor.rest_skipBlanks] at hRest
    have hMore : c.skipBlanks.rest ≠ [] := by
      obtain ⟨x, t, hStart, -⟩ := l.normalize_write_starts
      rw [hRest, hStart]
      simp
    -- the step stops where the next line is ahead, so the other lines are read from there
    obtain ⟨stop, hStep, hLeft⟩ := step_line (hProper l (List.mem_cons_self ..)) hRest
    obtain ⟨steps, final, hLater, hOutcomes⟩ :=
      ih (fun m hMem => hProper m (List.mem_cons_of_mem l hMem)) hLeft
    refine ⟨_, final, .next hMore hStep (step_moves hMore hStep) hLater, ?_⟩
    rw [List.map_cons, List.map_cons, hOutcomes]

/-- **What is written is read again.** A script of proper lines, with or without a line feed at its
end, is read as the statements of its lines in their order, and nothing is skipped. -/
theorem run_write (hProper : ∀ l ∈ lines, l.Proper) (closed : Bool) :
    ∃ r, run Rulebook.standard (Line.script lines closed) = .ok r ∧ r.diagnostics = [] ∧
      r.statements = lines.map Line.statement := by
  have hRest : (Cursor.ofText (Line.script lines closed)).rest.dropWhile isBlank =
      (Line.following closed lines).dropWhile isBlank :=
    Line.dropWhile_normalize_script lines closed
  obtain ⟨steps, final, hTrace, hOutcomes⟩ := exists_trace_of_lines hProper hRest
  -- both records of the run are made of its outcomes
  refine ⟨_, hTrace.runFrom_eq, ?_, ?_⟩
  · -- each outcome is a statement
    have hMap : (steps.map Step.outcome).filterMap Outcome.diagnostic? = [] := by
      rw [hOutcomes, List.filterMap_map]
      exact List.filterMap_eq_nil_iff.mpr fun _ _ => rfl
    rw [List.filterMap_map] at hMap
    exact Run.diagnostics_ofSteps.trans hMap
  · have hMap : (steps.map Step.outcome).filterMap Outcome.statement? =
        lines.map Line.statement := by
      rw [hOutcomes, List.filterMap_map]
      exact congrFun List.filterMap_eq_map lines
    rw [List.filterMap_map] at hMap
    exact Run.statements_ofSteps.trans hMap

/-- Lines of every kind, with and without parameters. -/
def mixedLines : List Line :=
  [.comment "names; of all kinds",
    .database ⟨"D1", none⟩ (some "CCSID ASCII"),
    .tablespace ⟨"S1", some "O"⟩ ⟨"D1", none⟩ none,
    .index true ⟨"I1", some "O"⟩ ⟨"T1", none⟩ "A ASC, B" (some ""),
    .view ⟨"V1", none⟩ "SELECT A FROM T1",
    .setting "" "1",
    .addition ⟨"T1", none⟩ ⟨"C1", none⟩ (.foreignKey "A,B" ⟨"T2", some "O"⟩ "" none),
    .addition ⟨"T1", none⟩ ⟨"C2", none⟩ (.primaryKey "A, B"),
    .addition ⟨"T1", none⟩ ⟨"C3", none⟩ (.check "A > 0;")]

/-- Lines of every kind are read again. -/
theorem run_write_mixed :
    (∀ l ∈ mixedLines, l.Proper) ∧
      ∃ r, run Rulebook.standard (Line.script mixedLines true) = .ok r ∧ r.diagnostics = [] ∧
        r.statements = mixedLines.map Line.statement := by
  have hProper : ∀ l ∈ mixedLines, l.Proper := by decide +kernel
  exact ⟨hProper, run_write hProper true⟩

end Script

end SchemaScript
