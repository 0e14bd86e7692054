import SymbolRename.Proofs.Text.Lines
import Mathlib.Data.List.Basic

/-!
# Texts that can be encoded

A text can be encoded if it is made of characters only. So can its lines, and whatever such texts
are put together to.
-/

set_option autoImplicit false

namespace SymbolRename.Text

def IsEncodable (s : Text) : Prop := s.chars?.isSome = true

instance (s : Text) : Decidable (IsEncodable s) :=
  inferInstanceAs (Decidable (s.chars?.isSome = true))

theorem encodable_iff {s : Text} : IsEncodable s ↔ ∀ c ∈ s, ∃ d, c = .char d := by
  rw [IsEncodable]
  induction s with
  | nil => simp [chars?]
  | cons c s ih =>
    cases c with
    | char d => simp [chars?, ih]
    | half n => simp [chars?]

theorem encodable_ofString (s : String) : IsEncodable (ofString s) := by
  rw [IsEncodable, ofString, chars?_ofChars, Option.isSome_some]

theorem encodable_ofChars (cs : List Char) : IsEncodable (ofChars cs) := by
  rw [IsEncodable, chars?_ofChars, Option.isSome_some]

theorem encodable_subset {s t : Text} (h : IsEncodable s) (ht : t ⊆ s) : IsEncodable t :=
  encodable_iff.mpr fun c hc => encodable_iff.mp h c (ht hc)

theorem encodable_append {s t : Text} : IsEncodable (s ++ t) ↔ IsEncodable s ∧ IsEncodable t := by
  simp only [encodable_iff, List.mem_append, or_imp, forall_and]

theorem encodable_flatMap {α : Type} {f : α → Text} {as : List α}
    (h : ∀ a ∈ as, IsEncodable (f a)) : IsEncodable (as.flatMap f) := by
  refine encodable_iff.mpr fun c hc => ?_
  obtain ⟨a, ha, hc⟩ := List.mem_flatMap.mp hc
  exact encodable_iff.mp (h a ha) c hc

theorem line_subset {s line : Text} {ls : List Text} (h : IsLines s ls) (hl : line ∈ ls) :
    line ⊆ s := by
  induction h with
  | nil => cases hl
  | last _ _ =>
    rw [List.mem_singleton.mp hl]
    exact List.Subset.refl _
  | @cons first boundary rest _ _ _ _ _ ih =>
    rcases List.mem_cons.mp hl with rfl | hl
    · exact List.Subset.trans (List.subset_append_left line boundary)
        (List.subset_append_left _ rest)
    · exact List.Subset.trans (ih hl) (List.subset_append_right _ rest)

end SymbolRename.Text
