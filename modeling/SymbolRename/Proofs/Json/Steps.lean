import SymbolRename.Json.Reader
import SymbolRename.Proofs.Task
import SymbolRename.Proofs.Text.Taking

/-!
# Steps of reading JSON

Reading goes by steps, and their number is given to it beforehand. It is never used up: an array or
an object takes two steps for its one bracket, everything else at most one for a character, so with
twice as many steps as the text has characters the reading comes to the same as with any more.
-/

set_option autoImplicit false

namespace SymbolRename.Json
open Text

/-- What is read leaves an end of the text, if it can be read. -/
abbrev Rests {α : Type} (s : List Char) (r : Except Fault (α × List Char)) : Prop :=
  Yields (fun _ => True) (Leaves s) r

/-! ## What is left -/

theorem takeCodes_leaves (s : List Char) : Offers (Leaves s) (takeCodes s) := by
  fun_induction takeCodes s
  case case2 => exact offers_some (List.suffix_cons _ _)
  case case3 ih => exact ih.map fun _ h => h.trans (List.suffix_append [_, _, _, _, _, _] _)
  case case5 ih => exact ih.map fun _ h => h.trans (List.suffix_append [_, _] _)
  case case9 ih => exact ih.map fun _ h => h.trans (List.suffix_cons _ _)
  all_goals exact offers_none

theorem takeText_leaves (s : List Char) : Offers (Leaves s) (takeText? s) :=
  (takeCodes_leaves s).map fun _ h => h

theorem takeWhole_leaves (s : List Char) : Leaves s (takeWhole s) := by
  rw [takeWhole.eq_def]
  split
  · exact List.suffix_cons _ _
  · exact List.dropWhile_suffix _

theorem takeFraction_leaves (s : List Char) : Leaves s (takeFraction s) := by
  rw [takeFraction.eq_def]
  split
  · dsimp only
    split
    · exact List.suffix_refl _
    · exact (List.dropWhile_suffix _).trans (List.suffix_cons _ _)
  · exact List.suffix_refl _

theorem takeExponent_leaves (s : List Char) : Leaves s (takeExponent s) := by
  rw [takeExponent.eq_def]
  split
  · next c r =>
    split
    · dsimp only
      split
      · exact List.suffix_refl _
      · exact (List.dropWhile_suffix _).trans
          ((takeSign_suffix r).trans (List.suffix_cons c r))
    · exact List.suffix_refl _
  · exact List.suffix_refl _

theorem takeNumber_leaves (s : List Char) : Offers (Leaves s) (takeNumber? s) := by
  rw [takeNumber?.eq_def]
  split
  next negative body hs =>
  have hb : body <:+ s := by
    split at hs <;> cases hs
    · exact List.suffix_cons _ _
    · exact List.suffix_refl _
  have hw := (takeWhole_leaves body).trans hb
  have hf := (takeFraction_leaves (takeWhole body).2).trans hw
  have he := (takeExponent_leaves (takeFraction (takeWhole body).2).2).trans hf
  dsimp only
  split
  · exact offers_none
  · split
    · split
      · exact offers_none
      · exact offers_some he
    · exact offers_some he

theorem takeWord_leaves (s : List Char) : Offers (Leaves s) (takeWord? s) := by
  intro taken h
  obtain ⟨⟨word, v⟩, -, hw⟩ := List.exists_of_findSome?_eq_some h
  obtain ⟨rest, hr, rfl⟩ := Option.map_eq_some_iff.mp hw
  exact isPrefixOf?_suffix hr

theorem skipSpace_suffix (s : List Char) : skipSpace s <:+ s := List.dropWhile_suffix _

/-- What stands behind a sign that comes after blanks. -/
theorem behind_suffix {c : Char} {s t rest : List Char} (he : skipSpace t = c :: rest)
    (h : t <:+ s) : rest <:+ s :=
  (List.suffix_cons c rest).trans (he ▸ (skipSpace_suffix t).trans h)

theorem orMalformed_rests {α : Type} {s : List Char} {r : Option (α × List Char)}
    (h : Offers (Leaves s) r) : Rests s (orMalformed r) := by
  cases r with
  | none => trivial
  | some taken => exact h taken rfl

mutual

theorem takeValue_rests : ∀ (fuel depth : ℕ) (s : List Char), Rests s (takeValue fuel depth s)
  | 0, _, _ => trivial
  | fuel + 1, depth, s => by
    rw [takeValue.eq_def]
    dsimp only
    split
    · next s =>
      refine (orMalformed_rests (takeText_leaves s)).map fun _ h => ?_
      exact h.trans (List.suffix_cons _ s)
    · trivial
    · trivial
    · next s depth =>
      have hs := List.suffix_cons '[' s
      split
      · next he => exact behind_suffix he hs
      · refine (takeItems_rests fuel depth _).map fun _ h => ?_
        exact h.trans ((skipSpace_suffix s).trans hs)
    · next s depth =>
      have hs := List.suffix_cons '\x7b' s
      split
      · next he => exact behind_suffix he hs
      · refine (takeMembers_rests fuel depth _).map fun _ h => ?_
        exact h.trans ((skipSpace_suffix s).trans hs)
    · refine orMalformed_rests fun taken h => ?_
      rcases Option.or_eq_some_iff.mp h with h | ⟨-, h⟩
      · exact takeWord_leaves _ _ h
      · exact takeNumber_leaves _ _ h

theorem takeItems_rests : ∀ (fuel depth : ℕ) (s : List Char), Rests s (takeItems fuel depth s)
  | 0, _, _ => trivial
  | fuel + 1, depth, s => by
    rw [takeItems]
    refine (takeValue_rests fuel depth s).bind fun taken hr => ?_
    obtain ⟨v, rest⟩ := taken
    dsimp only
    split
    · next he => exact behind_suffix he hr
    · next left he =>
      refine (takeItems_rests fuel depth _).bind fun _ h => ?_
      exact h.trans ((skipSpace_suffix left).trans (behind_suffix he hr))
    · trivial

theorem takeMembers_rests : ∀ (fuel depth : ℕ) (s : List Char), Rests s (takeMembers fuel depth s)
  | 0, _, _ => trivial
  | fuel + 1, depth, s => by
    rw [takeMembers.eq_def]
    dsimp only
    split
    · next s =>
      refine (orMalformed_rests (takeText_leaves s)).bind fun taken hk => ?_
      obtain ⟨k, rest⟩ := taken
      have hk := hk.trans (List.suffix_cons '"' s)
      dsimp only
      split
      · next left he =>
        refine (takeValue_rests fuel depth _).bind fun taken hv => ?_
        obtain ⟨v, rest⟩ := taken
        have hv := hv.trans ((skipSpace_suffix left).trans (behind_suffix he hk))
        dsimp only
        split
        · next he => exact behind_suffix he hv
        · next left he =>
          refine (takeMembers_rests fuel depth _).bind fun _ h => ?_
          exact h.trans ((skipSpace_suffix left).trans (behind_suffix he hv))
        · trivial
      · trivial
    · trivial

end

/-! ## Enough steps -/

mutual

theorem takeValue_enough : ∀ {fuel fuel' : ℕ} (depth : ℕ) {s : List Char},
    2 * s.length < fuel → 2 * s.length < fuel' → takeValue fuel depth s = takeValue fuel' depth s
  | fuel + 1, fuel' + 1, depth, s, h, h' => by
    rw [takeValue.eq_def, takeValue.eq_def (fuel' + 1)]
    dsimp only
    split
    · rfl
    · rfl
    · rfl
    · next s depth =>
      rw [List.length_cons] at h h'
      have hs := (skipSpace_suffix s).length_le
      split
      · rfl
      · rw [takeItems_enough depth (by omega) (by omega : _ < fuel')]
    · next s depth =>
      rw [List.length_cons] at h h'
      have hs := (skipSpace_suffix s).length_le
      split
      · rfl
      · rw [takeMembers_enough depth (by omega) (by omega : _ < fuel')]
    · rfl

theorem takeItems_enough : ∀ {fuel fuel' : ℕ} (depth : ℕ) {s : List Char},
    2 * s.length + 1 < fuel → 2 * s.length + 1 < fuel' →
      takeItems fuel depth s = takeItems fuel' depth s
  | fuel + 1, fuel' + 1, depth, s, h, h' => by
    rw [takeItems, takeItems]
    rw [takeValue_enough depth (by omega) (by omega : _ < fuel')]
    refine (takeValue_rests fuel' depth s).bind_congr fun taken hr => ?_
    obtain ⟨v, rest⟩ := taken
    have hs := ((skipSpace_suffix rest).trans hr).length_le
    dsimp only
    split
    · rfl
    · next behind he =>
      rw [he, List.length_cons] at hs
      have hb := (skipSpace_suffix behind).length_le
      rw [takeItems_enough depth (by omega) (by omega : _ < fuel')]
    · rfl

theorem takeMembers_enough : ∀ {fuel fuel' : ℕ} (depth : ℕ) {s : List Char},
    2 * s.length + 1 < fuel → 2 * s.length + 1 < fuel' →
      takeMembers fuel depth s = takeMembers fuel' depth s
  | fuel + 1, fuel' + 1, depth, s, h, h' => by
    rw [takeMembers.eq_def, takeMembers.eq_def (fuel' + 1)]
    dsimp only
    split
    · next s =>
      rw [List.length_cons] at h h'
      refine (orMalformed_rests (takeText_leaves s)).bind_congr fun taken hr => ?_
      obtain ⟨k, rest⟩ := taken
      have hr := ((skipSpace_suffix rest).trans hr).length_le
      dsimp only
      split
      · next behind he =>
        rw [he, List.length_cons] at hr
        have hb := (skipSpace_suffix behind).length_le
        rw [takeValue_enough depth (by omega) (by omega : _ < fuel')]
        refine (takeValue_rests fuel' depth _).bind_congr fun taken hv => ?_
        obtain ⟨v, left⟩ := taken
        have hl := ((skipSpace_suffix left).trans hv).length_le
        dsimp only
        split
        · rfl
        · next rest he =>
          rw [he, List.length_cons] at hl
          have hr := (skipSpace_suffix rest).length_le
          rw [takeMembers_enough depth (by omega) (by omega : _ < fuel')]
        · rfl
      · rfl
    · rfl

end

/-- A text is read the same with any number of steps that is beyond twice its length. -/
theorem read_enough {fuel : ℕ} {s : List Char} (h : 2 * s.length < fuel) :
    read s = (do
      let (v, rest) ← takeValue fuel depthLimit (skipSpace s)
      if (skipSpace rest).isEmpty then return v else throw .malformed) := by
  have hs := (skipSpace_suffix s).length_le
  rw [read]
  dsimp only
  rw [takeValue_enough depthLimit (by omega) (by omega : _ < fuel)]

end SymbolRename.Json
