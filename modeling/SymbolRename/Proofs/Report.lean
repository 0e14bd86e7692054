import SymbolRename.Proofs.Task
import SymbolRename.Proofs.Text.Numeral
import SymbolRename.Report

/-!
# What a report shows

A report can be made whenever its rule can be drawn, and it gives two numbers: how many directives
there were, and how many of them were carried out.
-/

set_option autoImplicit false

namespace SymbolRename.Report

/-- The report has the two numbers in base ten, each in its line. -/
def Shows (report functionName : Text) (width : ℤ) (total applied : ℕ) : Prop :=
  ∃ (t a : List Char) (rest : Text),
    Text.natIn? 10 t = some total ∧ Text.natIn? 10 a = some applied ∧
    report = "Suggestion Report for " ++ functionName ++ "\n" ++
      Text.ofChars (List.replicate width.toNat '=') ++ "\n" ++
      "Total suggestions: " ++ Text.ofChars t ++ "\n" ++
      "Successfully applied: " ++ Text.ofChars a ++ "\n" ++ "\n" ++ rest

theorem rule_drawable {width : ℤ} (hl : -0x8000000000000000 ≤ width) (hw : width ≤ 0x100000000) :
    rule width = .ok (Text.ofChars (List.replicate width.toNat '=')) := by
  have hword : (width < -0x8000000000000000 || 0x8000000000000000 ≤ width) = false := by
    simp
    omega
  have hwide : ¬ widest < width := by
    rw [widest]
    omega
  rw [rule, hword, if_neg Bool.false_ne_true, if_neg hwide, Text.ofChars, List.map_replicate]

theorem rule_ok {width : ℤ} {s : Text} (h : rule width = .ok s) :
    s = Text.ofChars (List.replicate width.toNat '=') := by
  rw [rule] at h
  split_ifs at h
  cases h
  rw [Text.ofChars, List.map_replicate]

theorem number_natCast (n : ℕ) : number n = Text.ofChars (Text.decimal n) := rfl

theorem render_drawable {width : ℤ} (hl : -0x8000000000000000 ≤ width) (hw : width ≤ 0x100000000)
    (functionName : Text) (ds : List Directive) (applied : ℤ) :
    ∃ report, render functionName ds applied width = .ok report := by
  rw [render, rule_drawable hl hw]
  exact ⟨_, rfl⟩

theorem render_shows {functionName report : Text} {ds : List Directive} {applied : ℕ} {width : ℤ}
    (h : render functionName ds applied width = .ok report) :
    Shows report functionName width ds.length applied := by
  rw [render] at h
  obtain ⟨s, hr, h⟩ := bind_eq_ok h
  cases h
  refine ⟨Text.decimal ds.length, Text.decimal applied,
    (ds.map line).flatMap (· ++ "\n"), Text.natIn?_decimal _, Text.natIn?_decimal _, ?_⟩
  rw [rule_ok hr, List.flatMap_append]
  simp [header, number_natCast]

end SymbolRename.Report
