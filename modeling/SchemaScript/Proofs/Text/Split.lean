import SchemaScript.Text.Search

/-!
# Splits

A text is split at a separator from left to right: each part ends where the first separator behind
its start stands. `IsSplit` says this of the parts, whatever found them. The parts are joined to the
text again, and no separator starts inside of a part, neither in the part alone nor across its end.

A text has one split, and `splitOn` finds it (`splitOn_eq_iff`). Texts that share no character with
a separator are the split of what they are joined to with it (`isSplit_join`).
-/

namespace SchemaScript.Text

variable {separator t part : Text} {parts : List Text}

theorem join_cons_of_ne_nil (hLater : parts ≠ []) :
    join separator (part :: parts) = part ++ separator ++ join separator parts := by
  obtain ⟨next, more, rfl⟩ := List.exists_cons_of_ne_nil hLater
  rfl

/-! ## The split of a text -/

/-- Whether a text is split into parts at a separator: nowhere in a part does a separator start,
whether it ends in the part or behind it. -/
structure IsSplit (separator t : Text) (parts : List Text) : Prop where
  some : parts ≠ []
  joined : join separator parts = t
  unbroken : ∀ before part after, parts = before ++ part :: after →
    ∀ n < part.length, ¬ separator <+: (join separator (part :: after)).drop n

namespace IsSplit

/-- A text without a separator is its only part. -/
theorem of_before?_eq_none (hNone : before? separator t = none) : IsSplit separator t [t] where
  some := List.cons_ne_nil t []
  joined := rfl
  unbroken := by
    intro before part after hParts n _ hHere
    obtain ⟨rfl, rfl, rfl⟩ : before = [] ∧ part = t ∧ after = [] := by
      cases before with
      | nil => simpa using hParts.symm
      | cons first before => simp at hParts
    refine before?_eq_none_iff.mp hNone ?_
    exact hHere.isInfix.trans (List.drop_suffix n part).isInfix

/-- The first part goes up to the first separator, and the others are what the text behind it is
split into. -/
theorem cons_of_before?_eq_some (hSome : before? separator t = .some part)
    (hLater : IsSplit separator (t.drop (part.length + separator.length)) parts) :
    IsSplit separator t (part :: parts) := by
  obtain ⟨⟨rest, rfl⟩, hFirst⟩ := before?_eq_some_iff.mp hSome
  rw [← List.length_append, List.drop_left] at hLater
  have hJoined : join separator (part :: parts) = part ++ separator ++ rest := by
    rw [join_cons_of_ne_nil hLater.some, hLater.joined]
  refine ⟨List.cons_ne_nil part parts, hJoined, fun before other after hParts => ?_⟩
  cases before with
  | nil =>
    obtain ⟨rfl, rfl⟩ := List.cons.inj hParts
    rwa [hJoined]
  | cons first before => exact hLater.unbroken before other after (List.cons.inj hParts).2

/-- Behind its first part a text is split into the others. -/
theorem tail (hSplit : IsSplit separator t (part :: parts)) (hLater : parts ≠ []) :
    IsSplit separator (join separator parts) parts where
  some := hLater
  joined := rfl
  unbroken before other after hParts :=
    hSplit.unbroken (part :: before) other after (by rw [hParts]; rfl)

/-- The first of several parts is what stands before the first separator. -/
theorem before?_eq_some (hSplit : IsSplit separator t (part :: parts)) (hLater : parts ≠ []) :
    before? separator t = .some part := by
  have hJoined := hSplit.joined
  rw [join_cons_of_ne_nil hLater] at hJoined
  have hFirst := hSplit.unbroken [] part parts rfl
  rw [hSplit.joined] at hFirst
  exact before?_eq_some_iff.mpr ⟨⟨_, hJoined.symm⟩, hFirst⟩

/-- A text that is its only part has no separator. -/
theorem before?_eq_none (hSeparator : separator ≠ []) (hSplit : IsSplit separator t [part]) :
    before? separator t = none := by
  obtain rfl : part = t := hSplit.joined
  refine before?_eq_none_iff.mpr fun ⟨found, rest, hText⟩ => ?_
  have hSome := List.length_pos_iff.mpr hSeparator
  have hWithin : found.length < part.length := by
    rw [← hText]
    simp only [List.length_append]
    omega
  refine hSplit.unbroken [] part [] rfl found.length hWithin ⟨rest, ?_⟩
  show separator ++ rest = part.drop found.length
  rw [← hText, List.append_assoc, List.drop_left]

/-- A text has one split only. -/
theorem splitOn_eq (hSeparator : separator ≠ []) (hSplit : IsSplit separator t parts) :
    splitOn separator hSeparator t = parts := by
  induction parts generalizing t with
  | nil => exact absurd rfl hSplit.some
  | cons part later ih =>
    by_cases hLater : later = []
    · subst hLater
      rw [splitOn_of_before?_eq_none (hSplit.before?_eq_none hSeparator)]
      exact congrArg (· :: []) hSplit.joined.symm
    · have hRest : t.drop (part.length + separator.length) = join separator later := by
        rw [← hSplit.joined, join_cons_of_ne_nil hLater, ← List.length_append, List.drop_left]
      rw [splitOn_of_before?_eq_some (hSplit.before?_eq_some hLater), hRest,
        ih (hSplit.tail hLater)]

end IsSplit

theorem isSplit_splitOn (hSeparator : separator ≠ []) (t : Text) :
    IsSplit separator t (splitOn separator hSeparator t) := by
  fun_induction splitOn separator hSeparator t with
  | case1 t hNone => exact .of_before?_eq_none hNone
  | case2 t part hSome _ _ ih => exact .cons_of_before?_eq_some hSome ih

/-- A text has one split, the one that is found from left to right. -/
theorem splitOn_eq_iff {hSeparator : separator ≠ []} :
    splitOn separator hSeparator t = parts ↔ IsSplit separator t parts := by
  constructor
  · rintro rfl
    exact isSplit_splitOn hSeparator t
  · exact fun hSplit => hSplit.splitOn_eq hSeparator

/-! ## Joined texts -/

/-- Texts are the split of what they are joined to, if they have no character of the separator. -/
theorem isSplit_join (hSeparator : separator ≠ []) (hSome : parts ≠ [])
    (hApart : ∀ part ∈ parts, ∀ c ∈ separator, c ∉ part) :
    IsSplit separator (join separator parts) parts where
  some := hSome
  joined := rfl
  unbroken := by
    rintro before part after rfl n hWithin ⟨rest, hHere⟩
    obtain ⟨x, more, rfl⟩ := List.exists_cons_of_ne_nil hSeparator
    -- the separator would start with a character of the part
    have hChar : part[n]? = .some x := by
      have hText : ∃ behind, join (x :: more) (part :: after) = part ++ behind := by
        by_cases hAfter : after = []
        · exact ⟨[], by rw [hAfter, join, List.append_nil]⟩
        · exact ⟨_, (join_cons_of_ne_nil hAfter).trans (List.append_assoc ..)⟩
      obtain ⟨behind, hText⟩ := hText
      have hFirst := congrArg (fun t : Text => t[0]?) hHere
      rw [hText] at hFirst
      simpa [List.getElem?_append_left hWithin] using hFirst.symm
    exact hApart part (by simp) x (List.mem_cons_self ..) (List.mem_of_getElem? hChar)

end SchemaScript.Text
