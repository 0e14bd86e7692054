import SymbolRename.Text.Lines
import Mathlib.Data.List.Basic

/-!
# Line breaks as line feeds

A text can be cut before its line breaks are unified, unless the cut goes through a carriage return
with its line feed. A text without carriage returns stays as it is.
-/

set_option autoImplicit false

namespace SymbolRename.Text

theorem unifyBreaks_cons {c : Char} {s : List Char} (h : c ≠ '\r' ∨ s.head? ≠ some '\n') :
    unifyBreaks (c :: s) = (if c = '\r' then '\n' else c) :: unifyBreaks s := by
  rw [unifyBreaks]
  rintro t rfl rfl
  rcases h with h | h <;> exact h rfl

theorem unifyBreaks_ne_nil {s : List Char} (h : s ≠ []) : unifyBreaks s ≠ [] := by
  rw [unifyBreaks.eq_def]
  split
  · exact absurd rfl h
  · exact List.cons_ne_nil _ _
  · exact List.cons_ne_nil _ _

theorem getLast?_of_tail {c d : Char} {s : List Char} (h : s.getLast? = some d) :
    (c :: s).getLast? = some d := by
  rw [List.getLast?_cons, h]
  rfl

theorem unifyBreaks_append {x y : List Char}
    (h : x.getLast? ≠ some '\r' ∨ y.head? ≠ some '\n') :
    unifyBreaks (x ++ y) = unifyBreaks x ++ unifyBreaks y := by
  induction x using unifyBreaks.induct with
  | case1 => rfl
  | case2 s ih =>
    have hs : s.getLast? ≠ some '\r' ∨ y.head? ≠ some '\n' :=
      h.imp_left fun hl hr => hl (getLast?_of_tail (getLast?_of_tail hr))
    exact congrArg ('\n' :: ·) (ih hs)
  | case3 c s hn ih =>
    have hc : c ≠ '\r' ∨ s.head? ≠ some '\n' := by
      by_cases hr : c = '\r'
      · right
        intro hs
        obtain ⟨t, rfl⟩ := List.head?_eq_some_iff.mp hs
        exact hn t hr rfl
      · exact .inl hr
    have hcy : c ≠ '\r' ∨ (s ++ y).head? ≠ some '\n' := by
      cases s with
      | nil => exact h.imp_left fun hl hr => hl (by rw [hr]; rfl)
      | cons d s => exact hc
    have hs : s.getLast? ≠ some '\r' ∨ y.head? ≠ some '\n' :=
      h.imp_left fun hl hr => hl (getLast?_of_tail hr)
    rw [List.cons_append, unifyBreaks_cons hcy, unifyBreaks_cons hc, ih hs, List.cons_append]

theorem unifyBreaks_self {s : List Char} (h : '\r' ∉ s) : unifyBreaks s = s := by
  induction s with
  | nil => rfl
  | cons c s ih =>
    rw [List.mem_cons, not_or] at h
    rw [unifyBreaks_cons (.inl (Ne.symm h.1)), if_neg (Ne.symm h.1), ih h.2]

end SymbolRename.Text
