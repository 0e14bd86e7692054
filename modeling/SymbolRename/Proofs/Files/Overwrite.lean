import SymbolRename.Proofs.Files.Tree
import Mathlib.Order.Lattice

/-!
# Writing over a file

A path that leads to a file names its place, and its directories are all there. So writing to the
path changes what stands at this place and nothing else.
-/

set_option autoImplicit false

namespace SymbolRename.Files

namespace Path

theorem byteCount_append (s t : Text) : byteCount (s ++ t) = byteCount s + byteCount t := by
  induction s with
  | nil => simp [byteCount]
  | cons c s ih =>
    simp only [byteCount, List.cons_append, List.map_cons, List.foldr_cons] at ih ⊢
    omega

theorem byteCount_slashed_append (parts more : List Text) :
    byteCount (slashed parts) ≤ byteCount (slashed (parts ++ more)) := by
  induction parts with
  | nil => exact Nat.zero_le _
  | cons p ps ih =>
    cases ps with
    | nil =>
      cases more with
      | nil => exact le_rfl
      | cons q qs =>
        simp only [slashed, Text.joined, List.singleton_append, List.intercalate_cons_cons,
          List.intercalate_singleton, byteCount_append, List.append_assoc]
        omega
    | cons q qs =>
      simp only [slashed, Text.joined, List.cons_append, List.intercalate_cons_cons,
        byteCount_append] at ih ⊢
      omega

theorem byteCount_parent (p : Path) : byteCount p.parent.text ≤ max 1 (byteCount p.text) := by
  rcases List.eq_nil_or_concat p.parts with hp | ⟨parts, last, hp⟩
  · have he : p.parent = p := by
      cases p
      rw [parent]
      simp only at hp ⊢
      rw [hp, List.dropLast_nil]
    rw [he]
    exact le_max_right _ _
  · have hs := byteCount_slashed_append parts [last]
    rw [text, text, parent, hp, List.concat_eq_append, List.dropLast_concat]
    dsimp only
    split
    · simp only [byteCount_append]
      omega
    · split
      · exact le_max_left _ _
      · rw [if_neg (by simp)]
        omega

theorem isImpossible_parent {p : Path} (h : p.isImpossible = false) :
    p.parent.isImpossible = false := by
  rw [isImpossible, Bool.or_eq_false_iff, isUnencodable, List.any_eq_false,
    List.any_eq_false] at h ⊢
  have hs : ∀ q ∈ p.parent.parts, q ∈ p.parts := fun q hq => List.dropLast_subset p.parts hq
  exact ⟨fun q hq => h.1 q (hs q hq), fun q hq => h.2 q (hs q hq)⟩

end Path

namespace Tree

/-- A file stands in the directory that the names before the last one lead to. -/
theorem walk_file {t : Tree} {p : Path} {here place : Place} {ns : List Text} {bytes : List UInt8}
    (h : t.walk p here ns = .ok (.file place bytes)) :
    ∃ (above : Place) (names : List Text) (last : Text), ns = names ++ [last] ∧
      t.walk p here names = .ok (.directory above) ∧ last ≠ ".." ∧
      Path.byteCount last ≤ Path.nameLimit ∧ place = above ++ [last] ∧
      t.node? place = some (.file bytes) := by
  induction ns generalizing here with
  | nil => cases h
  | cons n ns ih =>
    rw [walk] at h
    split at h
    · next hn =>
      obtain ⟨above, names, last, rfl, hw, hrest⟩ := ih h
      exact ⟨above, n :: names, last, rfl, by rw [walk, if_pos hn, hw], hrest⟩
    · next hn =>
      split at h
      · cases h
      · next hb =>
        split at h
        · cases h
        · next hd =>
          obtain ⟨above, names, last, rfl, hw, hrest⟩ := ih h
          exact ⟨above, n :: names, last, rfl, by rw [walk, if_neg hn, if_neg hb, hd]; exact hw,
            hrest⟩
        · next other hf =>
          split at h
          · next he =>
            cases h
            rw [List.isEmpty_iff.mp he]
            exact ⟨here, [], n, rfl, rfl, hn, by omega, rfl, hf⟩
          · cases h

theorem walk_dropLast {t : Tree} {p : Path} {here d : Place} {ns : List Text}
    (h : t.walk p here ns = .ok (.directory d)) :
    ∃ above, t.walk p here ns.dropLast = .ok (.directory above) := by
  induction ns generalizing here with
  | nil => exact ⟨here, rfl⟩
  | cons n ns ih =>
    cases ns with
    | nil => exact ⟨here, rfl⟩
    | cons m ms =>
      rw [List.dropLast_cons_cons, walk]
      rcases walk_cons h with ⟨hn, hr⟩ | ⟨hn, hl, hd, hr⟩
      · rw [if_pos hn]
        exact ih hr
      · rw [if_neg hn, if_neg (by omega), hd]
        exact ih hr

theorem find_of_walk {t : Tree} {here : Place} {p : Path} {f : Found}
    (hi : p.isImpossible = false) (hl : Path.byteCount p.text ≤ Path.lengthLimit)
    (hw : t.walk p (origin here p) p.parts = .ok f) : t.find here p = .ok f := by
  rw [find, if_neg (by simp [hi]), if_neg (by omega)]
  exact hw

theorem find_takes {t : Tree} {here : Place} {p : Path} {f : Found} (h : t.find here p = .ok f) :
    p.isImpossible = false ∧ Path.byteCount p.text ≤ Path.lengthLimit := by
  rw [find] at h
  split at h
  · cases h
  · next hi =>
    split at h
    · cases h
    · next hl => exact ⟨by simpa using hi, by omega⟩

theorem directoriesStay_refl (t : Tree) : DirectoriesStay t t := fun _ h => h

/-- The parent of a path leads to a directory if the names before the last one do. -/
theorem find_parent {t : Tree} {here d : Place} {p : Path} (hi : p.isImpossible = false)
    (hl : Path.byteCount p.text ≤ Path.lengthLimit)
    (hw : t.walk p (origin here p) p.parts.dropLast = .ok (.directory d)) :
    t.find here p.parent = .ok (.directory d) := by
  have hlimit : 1 ≤ Path.lengthLimit := by decide
  have hb := Path.byteCount_parent p
  exact find_of_walk (Path.isImpossible_parent hi) (by omega)
    (walk_stay (directoriesStay_refl t) p.parent hw)

theorem place_of_file {t : Tree} {here place : Place} {p : Path} {bytes : List UInt8}
    (h : t.find here p = .ok (.file place bytes)) :
    t.place here p = .ok place ∧ t.node? place = some (.file bytes) ∧
      ∃ above, t.find here p.parent = .ok (.directory above) := by
  obtain ⟨hi, hl⟩ := find_takes h
  obtain ⟨above, names, last, hparts, hw, hn, hb, hp, hf⟩ := walk_file (find_ok h)
  have hdrop : p.parts.dropLast = names := by rw [hparts, List.dropLast_concat]
  have hparent := find_parent hi hl (hdrop ▸ hw)
  have hlast : p.parts.getLast? = some last := by rw [hparts, List.getLast?_concat]
  refine ⟨?_, hf, above, hparent⟩
  rw [Tree.place, hlast]
  dsimp only
  rw [if_neg (by simp [hi]), hparent]
  dsimp only
  rw [if_neg hn, if_neg (by omega), hp]

/-- A directory that a path leads to cannot be made once more. -/
theorem makeDirectory_present {t : Tree} {here d : Place} {p : Path} (hs : t.Standing here)
    (h : t.find here p = .ok (.directory d)) : t.makeDirectory here p = .error .exists := by
  obtain ⟨hi, hl⟩ := find_takes h
  have hw := find_ok h
  have hd : t.node? d = some .directory :=
    walk_standing (origin_standing hs p) hw d List.prefix_rfl
  have hp : t.place here p = .ok d := by
    rw [Tree.place]
    rcases List.eq_nil_or_concat' p.parts with hn | ⟨names, last, hn⟩
    · rw [hn] at hw ⊢
      cases hw
      rfl
    · obtain ⟨above, ha⟩ := walk_dropLast hw
      have hparent := find_parent hi hl ha
      rw [hn, List.dropLast_concat] at ha
      rw [hn, walk_append ha] at hw
      rw [hn, List.getLast?_concat]
      dsimp only
      rw [if_neg (by simp [hi]), hparent]
      dsimp only
      rcases walk_cons hw with ⟨hl, hr⟩ | ⟨hl, hb, -, hr⟩
      · cases hr
        rw [if_pos hl]
      · cases hr
        rw [if_neg hl, if_neg (by omega)]
  simp only [makeDirectory, hp, bind, Except.bind, hd]

theorem makeDirectories_present {t : Tree} {here d : Place} {p : Path} (hs : t.Standing here)
    (h : t.find here p = .ok (.directory d)) (n : ℕ) : t.makeDirectories here n p = .ok t := by
  cases n with
  | zero => rfl
  | succ n =>
    rw [makeDirectories, makeDirectory_present hs h]
    change t.orPresent here p (.error .exists) = _
    rw [orPresent.eq_def]
    dsimp only
    rw [isDirectory, probe, h]
    rfl

theorem writeDeep_over {t : Tree} {here place : Place} {p : Path} {bytes : List UInt8}
    (hs : t.Standing here) (h : t.find here p = .ok (.file place bytes)) (new : List UInt8) :
    t.writeDeep here p new = .ok (t.put place (.file new)) := by
  obtain ⟨hp, hf, above, hparent⟩ := place_of_file h
  rw [writeDeep, makeDirectories_present hs hparent]
  change t.write here p new = _
  simp only [write, hp, bind, Except.bind, hf]
  rfl

end Tree
end SymbolRename.Files
