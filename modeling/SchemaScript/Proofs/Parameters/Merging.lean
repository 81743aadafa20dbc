import Mathlib.Data.List.Forall2
import SchemaScript.Proofs.Parameters.Entry
import SchemaScript.Proofs.Text.Replacement

/-!
# Keys of several words

Keys of several words are looked for anywhere in a text, one key after the other. If each of them
stands only where it is a piece, merging it changes that piece and no other (`replaceAll_piece`). It
brings in underscores alone, and since the keys have none, no other key comes about
(`OnlyWritten.map`).
-/

namespace SchemaScript.Parameters

open Text Pattern

variable {key other : Text} {pieces later : List Text}

/-! ## Where a key is written -/

/-- The pieces behind the first one hold the key only where it is a piece, too. -/
theorem OnlyWritten.tail {t : Text} (hOnly : OnlyWritten key (t :: later)) :
    OnlyWritten key later := by
  intro i hWithin hHere
  have hSome : later ≠ [] := by
    rintro rfl
    simp [join] at hWithin
  obtain ⟨u, more, rfl⟩ := List.exists_cons_of_ne_nil hSome
  have hText : join " " (t :: u :: more) = (t ++ [' ']) ++ join " " (u :: more) := rfl
  -- what stands among the later pieces stands in the whole text, behind the first piece
  have hThere : (t ++ [' ']).length + i < (join " " (t :: u :: more)).length := by
    rw [hText]
    simp only [List.length_append]
    omega
  obtain ⟨n, hNumber, hPiece, hStart⟩ :=
    hOnly _ hThere (by rwa [hText, List.drop_length_add_append])
  -- the occurrence is a piece, and it is not the first one, which ends before
  cases n with
  | zero =>
    simp [startOf] at hStart
    omega
  | succ n =>
    refine ⟨n, by simpa using hNumber, by simpa using hPiece, ?_⟩
    simp [startOf] at hStart ⊢
    omega

/-- That stays true of every suffix of the pieces. -/
theorem OnlyWritten.of_suffix (hOnly : OnlyWritten key pieces) (hSuffix : later <:+ pieces) :
    OnlyWritten key later := by
  obtain ⟨before, rfl⟩ := hSuffix
  induction before with
  | nil => exact hOnly
  | cons t before ih => exact ih hOnly.tail

/-- A key does not start inside of a piece, unless it is the piece. -/
theorem OnlyWritten.not_prefix {t s s' : Text} (hOnly : OnlyWritten key (t :: later))
    (hOther : t ≠ key) (hSplit : t = s ++ s') (hMore : s' ≠ []) :
    ¬ key <+: s' ++ following later := by
  intro hHere
  have hText : join " " (t :: later) = s ++ (s' ++ following later) := by
    rw [join_cons, hSplit, List.append_assoc]
  have hLength := List.length_pos_iff.mpr hMore
  obtain ⟨n, -, hPiece, hStart⟩ := hOnly s.length (by rw [hText]; simp; omega)
    (by rwa [hText, List.drop_left])
  cases n with
  | zero => exact hOther (by simpa using hPiece)
  | succ n =>
    -- a later piece starts behind this one
    simp [startOf, hSplit] at hStart

/-! ## Underscores in the place of spaces -/

/-- To replace one character by one character is to map the text. -/
theorem replaceAll_singleton (x y : Char) (t : Text) :
    replaceAll [x] [y] t = t.map fun c => if c = x then y else c := by
  -- the search looks at the word before each place, which a literal does not ask for
  have hFrom : ∀ afterWord, (literally [x] [y]).replaceFrom afterWord 0 t =
      t.map fun c => if c = x then y else c := by
    induction t with
    | nil => intro afterWord; rfl
    | cons c t ih =>
      intro afterWord
      rw [replaceFrom, literally]
      by_cases hHere : c = x
      · simp [hHere, ih]
      · simp [hHere, Ne.symm hHere, ih]
  exact hFrom false

theorem replaceAll_space (t : Text) : replaceAll " " "_" t = underscored t :=
  replaceAll_singleton ' ' '_' t

/-- A text without spaces is merged already. -/
theorem underscored_of_not_mem {t : Text} (hSpace : ' ' ∉ t) : underscored t = t := by
  unfold underscored
  have hSame : ∀ c ∈ t, (if c = ' ' then '_' else c) = id c := by
    intro c hMem
    exact if_neg (ne_of_mem_of_not_mem hMem hSpace)
  rw [List.map_congr_left hSame, List.map_id]

/-- A merged key can be told by its underscore. -/
theorem mem_underscored {t : Text} (hSpace : ' ' ∈ t) : '_' ∈ underscored t :=
  List.mem_map.mpr ⟨' ', hSpace, rfl⟩

/-- Whether a text is another one with some characters replaced by underscores. -/
def Underscores (s t : Text) : Prop := List.Forall₂ (fun x y => y = x ∨ y = '_') s t

theorem underscores_refl (t : Text) : Underscores t t :=
  List.forall₂_same.mpr fun _ _ => Or.inl rfl

theorem underscores_underscored (t : Text) : Underscores t (underscored t) := by
  refine List.forall₂_map_right_iff.mpr (List.forall₂_same.mpr fun c _ => ?_)
  by_cases hSpace : c = ' '
  · exact Or.inr (if_pos hSpace)
  · exact Or.inl (if_neg hSpace)

/-- Nothing without an underscore comes about by underscores. -/
theorem Underscores.isPrefix_of {s t : Text} (hUnder : Underscores s t) (hKey : '_' ∉ key)
    (hHere : key <+: t) : key <+: s := by
  induction key generalizing s t with
  | nil => exact List.nil_prefix
  | cons c key ih =>
    cases hUnder with
    | nil => exact absurd hHere (by simp)
    | @cons x y s t hFirst hRest =>
      obtain ⟨rfl, hLater⟩ := List.cons_prefix_cons.mp hHere
      rw [List.mem_cons, not_or] at hKey
      -- either the character was there already, or it is an underscore, which the key has not
      rcases hFirst with rfl | hUnderscore
      · exact List.cons_prefix_cons.mpr ⟨rfl, ih hRest hKey.2 hLater⟩
      · exact absurd hUnderscore.symm hKey.1

/-! ## Merging -/

/-- A piece with a key merged in it. -/
def mergeOne (key t : Text) : Text := if t = key then underscored key else t

/-- A merged piece differs from the piece by underscores only. -/
theorem underscores_mergeOne (key t : Text) : Underscores t (mergeOne key t) := by
  unfold mergeOne
  split
  · next hKey => exact hKey ▸ underscores_underscored t
  · exact underscores_refl t

/-- Merging a key in all pieces changes their text by underscores only; the spaces between them
stay. -/
theorem underscores_join (key : Text) (pieces : List Text) :
    Underscores (join " " pieces) (join " " (pieces.map (mergeOne key))) := by
  induction pieces with
  | nil => exact .nil
  | cons t later ih =>
    rw [List.map_cons, join_cons, join_cons]
    refine List.rel_append (underscores_mergeOne key t) ?_
    cases later with
    | nil => exact .nil
    | cons u more => exact .cons (Or.inl rfl) ih

/-- Merging keeps the lengths, so that every piece starts where it did. -/
theorem startOf_map_mergeOne (key : Text) (pieces : List Text) (n : Nat) :
    startOf (pieces.map (mergeOne key)) n = startOf pieces n := by
  have hLength : ∀ t, (mergeOne key t).length = t.length := fun t =>
    (List.Forall₂.length_eq (underscores_mergeOne key t)).symm
  simp [startOf, ← List.map_take, Function.comp_def, hLength]

/-- Merging one key does not write another one. -/
theorem OnlyWritten.map (hOnly : OnlyWritten other pieces) (hOther : other ≠ key)
    (hPlain : '_' ∉ other) : OnlyWritten other (pieces.map (mergeOne key)) := by
  intro i hWithin hHere
  have hUnder := underscores_join key pieces
  rw [← List.Forall₂.length_eq hUnder] at hWithin
  -- where the other key stands now, it stood before, at the same place
  have hDrop : Underscores ((join " " pieces).drop i)
      ((join " " (pieces.map (mergeOne key))).drop i) := List.forall₂_drop i hUnder
  obtain ⟨n, hNumber, hPiece, hStart⟩ := hOnly i hWithin (hDrop.isPrefix_of hPlain hHere)
  refine ⟨n, by simpa using hNumber, ?_, by rwa [startOf_map_mergeOne]⟩
  rw [List.getElem?_map, hPiece, Option.map_some, mergeOne, if_neg hOther]

/-- A literal that starts with a word character is found in words only. -/
theorem inWords_literally (hStarts : startsWord key = true) (out : Text) :
    (literally key out).InWords := by
  intro afterWord t hStart
  unfold literally
  rw [if_neg]
  intro hPrefix
  obtain ⟨rest, rfl⟩ := List.isPrefixOf_iff_prefix.mp hPrefix
  cases key with
  | nil => cases hStarts
  | cons x key => exact absurd (hStart.symm.trans hStarts) (by simp)

/-- A key that stands only where it is a piece is merged there and nowhere else. -/
theorem replaceAll_piece (hStarts : startsWord key = true) (hOnly : OnlyWritten key pieces) :
    replaceAll key (underscored key) (join " " pieces) =
      join " " (pieces.map (mergeOne key)) := by
  have hIn := inWords_literally hStarts (underscored key)
  suffices hPieces : ∀ t later, t :: later <:+ pieces →
      Turns _ false (id t) (mergeOne key t) (following (later.map id)) by
    have hJoin := hIn.replace_join hPieces
    rwa [List.map_id] at hJoin
  intro t later hSuffix
  rw [List.map_id]
  have hHere := hOnly.of_suffix hSuffix
  -- the key itself is taken as a whole, and in any other piece none starts
  by_cases hKey : t = key
  · subst hKey
    have hSome : t ≠ [] := by
      rintro rfl
      cases hStarts
    refine .of_hit hSome ?_
    have hPrefix : t.isPrefixOf (t ++ following later) = true :=
      List.isPrefixOf_iff_prefix.mpr (List.prefix_append _ _)
    simp [literally, hPrefix, mergeOne]
  · simp only [mergeOne, if_neg hKey, id]
    refine .self fun s s' hSplit hMore => ?_
    have hNone := hHere.not_prefix hKey hSplit hMore
    rw [← List.isPrefixOf_iff_prefix] at hNone
    simp [literally, hNone]

/-- Whether keys can be merged: they are of several words and have no underscore, and each of them
is given once. -/
structure Mergeable (keys : List Text) : Prop where
  starts : ∀ key ∈ keys, startsWord key = true
  space : ∀ key ∈ keys, ' ' ∈ key
  plain : ∀ key ∈ keys, '_' ∉ key
  nodup : keys.Nodup

theorem Mergeable.tail {keys : List Text} (hKeys : Mergeable (key :: keys)) : Mergeable keys where
  starts t hMem := hKeys.starts t (List.mem_cons_of_mem key hMem)
  space t hMem := hKeys.space t (List.mem_cons_of_mem key hMem)
  plain t hMem := hKeys.plain t (List.mem_cons_of_mem key hMem)
  nodup := (List.nodup_cons.mp hKeys.nodup).2

/-- A piece with all keys merged. -/
def mergeAll (keys : List Text) (t : Text) : Text :=
  if keys.contains t then underscored t else t

theorem mergeAll_of_mem {keys : List Text} {t : Text} (hMem : t ∈ keys) :
    mergeAll keys t = underscored t :=
  if_pos (List.contains_iff_mem.mpr hMem)

theorem mergeAll_of_not_mem {keys : List Text} {t : Text} (hOther : t ∉ keys) :
    mergeAll keys t = t :=
  if_neg fun hContains => hOther (List.contains_iff_mem.mp hContains)

/-- Merging the first key, and then all the others, merges all of them. -/
theorem mergeAll_mergeOne {keys : List Text} (hKeys : Mergeable (key :: keys)) (t : Text) :
    mergeAll keys (mergeOne key t) = mergeAll (key :: keys) t := by
  by_cases hKey : t = key
  · -- a merged key has an underscore, so it is none of the later keys
    subst hKey
    have hDone : underscored t ∉ keys := fun hMem =>
      hKeys.tail.plain _ hMem (mem_underscored (hKeys.space t (List.mem_cons_self ..)))
    rw [mergeOne, if_pos rfl, mergeAll_of_not_mem hDone, mergeAll_of_mem (List.mem_cons_self ..)]
  · rw [mergeOne, if_neg hKey]
    by_cases hMem : t ∈ keys
    · rw [mergeAll_of_mem hMem, mergeAll_of_mem (List.mem_cons_of_mem key hMem)]
    · rw [mergeAll_of_not_mem hMem, mergeAll_of_not_mem (by simp [hKey, hMem])]

/-- **Keys of several words are merged where they are written**, and nothing else changes. -/
theorem resolve_mergedKeys {keys : List Text} (hKeys : Mergeable keys)
    (hOnly : ∀ key ∈ keys, OnlyWritten key pieces) :
    (Shorthand.mergedKeys keys " " "_").resolve (join " " pieces) =
      join " " (pieces.map (mergeAll keys)) := by
  unfold Shorthand.resolve
  simp only [replaceAll_space]
  induction keys generalizing pieces with
  | nil =>
    have hNone : mergeAll [] = id := funext fun t => mergeAll_of_not_mem List.not_mem_nil
    rw [List.foldl_nil, hNone, List.map_id]
  | cons key keys ih =>
    have hHere := hOnly key (List.mem_cons_self ..)
    -- the keys that are still to come are not written by this one
    have hLater : ∀ other ∈ keys, OnlyWritten other (pieces.map (mergeOne key)) := by
      intro other hMem
      refine (hOnly other (List.mem_cons_of_mem key hMem)).map ?_ (hKeys.tail.plain other hMem)
      exact ne_of_mem_of_not_mem hMem (List.nodup_cons.mp hKeys.nodup).1
    rw [List.foldl_cons, replaceAll_piece (hKeys.starts key (List.mem_cons_self ..)) hHere,
      ih hKeys.tail hLater, List.map_map]
    congr 2
    funext t
    exact mergeAll_mergeOne hKeys t

end SchemaScript.Parameters
