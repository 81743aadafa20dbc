import SchemaScript.Parameters.Rules

/-!
# Rulebooks whose separators separate

The one thing that can stop a run is an empty separator. The standard rules have none, and rules
given for constructs that exist make a rulebook without one if they have none (`exists_ofList`).
-/

namespace SchemaScript

namespace Rulebook

/-- The standard rules separate keys from values by a space, for each construct. -/
theorem standard_separator (construct : Construct) : (standard construct).separator = " " := by
  cases construct <;> rfl

/-- The standard rules separate. -/
theorem standard_separator_ne_nil (construct : Construct) :
    (standard construct).separator ≠ [] := by
  rw [standard_separator]
  decide

theorem standard_terminator (construct : Construct) : (standard construct).terminator = ";" := by
  cases construct <;> rfl

/-! ## Rulebooks from a list of rules -/

/-- The rulebook with the rules of one more entry. -/
def add (book : Rulebook) (entry : Text × Parameters.Rules) : Except RulesError Rulebook :=
  match Construct.ofName? entry.1 with
  | some construct => .ok (book.set construct entry.2)
  | none => .error (.unknownConstruct entry.1)

/-- Rules for one more construct can be added if the construct exists, and if they separate, all
rules still do. -/
theorem exists_add {book : Rulebook} (hBook : ∀ construct, (book construct).separator ≠ [])
    {entry : Text × Parameters.Rules} (hKnown : ∃ construct : Construct, entry.1 = construct.name)
    (hSeparator : entry.2.separator ≠ []) :
    ∃ book', add book entry = .ok book' ∧ ∀ construct, (book' construct).separator ≠ [] := by
  obtain ⟨construct, hName⟩ := hKnown
  refine ⟨book.set construct entry.2, ?_, ?_⟩
  · rw [add, hName, Construct.ofName?_name]
  · -- the other constructs keep their rules
    intro other
    unfold set
    split
    · exact hSeparator
    · exact hBook other

/-- Rules can be added one after the other, the later ones in the place of the earlier ones. -/
theorem exists_foldlM_add {named : List (Text × Parameters.Rules)} {book : Rulebook}
    (hBook : ∀ construct, (book construct).separator ≠ [])
    (hKnown : ∀ entry ∈ named, ∃ construct : Construct, entry.1 = construct.name)
    (hSeparators : ∀ entry ∈ named, entry.2.separator ≠ []) :
    ∃ book', named.foldlM add book = .ok book' ∧ ∀ construct, (book' construct).separator ≠ [] := by
  -- on the rules that are left, with the book that the earlier ones have made
  induction named generalizing book with
  | nil => exact ⟨book, rfl, hBook⟩
  | cons entry named ih =>
    obtain ⟨next, hAdd, hNext⟩ := exists_add hBook (hKnown entry (List.mem_cons_self ..))
      (hSeparators entry (List.mem_cons_self ..))
    obtain ⟨book', hFold, hBook'⟩ := ih hNext
      (fun other hMem => hKnown other (List.mem_cons_of_mem _ hMem))
      (fun other hMem => hSeparators other (List.mem_cons_of_mem _ hMem))
    refine ⟨book', ?_, hBook'⟩
    rw [List.foldlM_cons, hAdd]
    exact hFold

/-- Rules for constructs that exist make a rulebook, and its separators are not empty if theirs are
not. -/
theorem exists_ofList {named : List (Text × Parameters.Rules)}
    (hKnown : ∀ entry ∈ named, ∃ construct : Construct, entry.1 = construct.name)
    (hSeparators : ∀ entry ∈ named, entry.2.separator ≠ []) :
    ∃ book, ofList named = .ok book ∧ ∀ construct, (book construct).separator ≠ [] :=
  exists_foldlM_add standard_separator_ne_nil hKnown hSeparators

end Rulebook

end SchemaScript
