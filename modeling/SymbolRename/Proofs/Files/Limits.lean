import SymbolRename.Proofs.Files.Overwrite

/-!
# Paths that are too long

A path cannot be looked up if it has too many bytes, or if a name in it has that the walk gets to.
Both go over to longer paths, and no name of usual length brings them about. Every other path can be
asked whether a file or a directory is there.
-/

set_option autoImplicit false

namespace SymbolRename.Files

namespace Path

/-- The text of a rooted path has a slash before each name. -/
theorem text_rooted {parts : List Text} (h : parts ≠ []) :
    text ⟨true, parts⟩ = parts.flatMap fun p => ("/" : Text) ++ p := by
  rw [text, if_pos rfl]
  induction parts with
  | nil => exact absurd rfl h
  | cons p ps ih =>
    cases ps with
    | nil => simp [slashed, Text.joined]
    | cons q qs =>
      have hs : slashed (p :: q :: qs) = p ++ ("/" ++ slashed (q :: qs)) := by
        simp [slashed, Text.joined, List.intercalate_cons_cons]
      rw [hs, ih (List.cons_ne_nil q qs), List.flatMap_cons (x := p), List.append_assoc]

end Path

namespace Tree
variable {t : Tree} {p q : Path} {here : Place} {ns : List Text}

/-- A name that is too long for a walk is so for every longer one. -/
theorem walk_tooLong_append (h : t.walk p here ns = .error (.tooLong q)) (r : Path)
    (more : List Text) : t.walk r here (ns ++ more) = .error (.tooLong r) := by
  induction ns generalizing here with
  | nil => cases h
  | cons n ns ih =>
    rw [List.cons_append, walk]
    rw [walk] at h
    split at h
    · next hn =>
      rw [if_pos hn]
      exact ih h
    · next hn =>
      rw [if_neg hn]
      split at h
      · next hl => rw [if_pos hl]
      · next hl =>
        rw [if_neg hl]
        split at h
        · cases h
        · exact ih h
        · split at h <;> cases h

/-- The last name of a path makes it too long for a walk only if it is too long itself. -/
theorem walk_tooLong_dropLast {n : Text} (hn : Path.byteCount n ≤ Path.nameLimit)
    (h : t.walk p here (ns ++ [n]) = .error (.tooLong q)) :
    t.walk p here ns = .error (.tooLong q) := by
  induction ns generalizing here with
  | nil =>
    rw [List.nil_append, walk] at h
    split at h
    · cases h
    · rw [if_neg (by omega)] at h
      split at h <;> cases h
  | cons m ms ih =>
    rw [List.cons_append, walk] at h
    rw [walk]
    split at h
    · next hm =>
      rw [if_pos hm]
      exact ih h
    · next hm =>
      rw [if_neg hm]
      split at h
      · next hl => rw [if_pos hl, h]
      · next hl =>
        rw [if_neg hl]
        split at h
        · cases h
        · exact ih h
        · simp at h

theorem probe_eq (h : ∀ q, t.find here p ≠ .error (.tooLong q)) :
    t.probe here p = .ok (t.find here p).toOption := by
  rw [probe]
  cases hf : t.find here p with
  | ok found => rfl
  | error f =>
    cases f with
    | tooLong q => exact absurd hf (h q)
    | _ => rfl

open Classical in
theorem isFile_eq (h : ∀ q, t.find here p ≠ .error (.tooLong q)) :
    t.isFile here p = .ok (decide (∃ place bytes, t.find here p = .ok (.file place bytes))) := by
  rw [isFile, probe_eq h]
  rcases t.find here p with f | ⟨place, bytes⟩ | place <;>
    simp [Except.toOption, bind, Except.bind, pure, Except.pure]

open Classical in
theorem isDirectory_eq (h : ∀ q, t.find here p ≠ .error (.tooLong q)) :
    t.isDirectory here p = .ok (decide (∃ place, t.find here p = .ok (.directory place))) := by
  rw [isDirectory, probe_eq h]
  rcases t.find here p with f | ⟨place, bytes⟩ | place <;>
    simp [Except.toOption, bind, Except.bind, pure, Except.pure]

theorem isFile_tooLong (h : t.find here p = .error (.tooLong q)) :
    t.isFile here p = .error (.tooLong q) := by
  rw [isFile, probe, h]
  rfl

end Tree
end SymbolRename.Files
