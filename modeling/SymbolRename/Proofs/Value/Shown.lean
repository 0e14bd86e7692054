import SymbolRename.Proofs.Text.Numeral
import SymbolRename.Value.Shown

/-!
# What counts as something has a text

Literals are never empty: they have quotes, brackets, digits or a word. So the text of a value is
empty only if the value is the empty text, which counts as nothing.
-/

set_option autoImplicit false

namespace SymbolRename

namespace Text

theorem ofChars_ne_nil {cs : List Char} (h : cs ≠ []) : ofChars cs ≠ [] :=
  mt List.map_eq_nil_iff.mp h

theorem signedDecimal_ne_nil (i : ℤ) : signedDecimal i ≠ [] := by
  rw [signedDecimal]
  split
  · exact List.cons_ne_nil _ _
  · exact inBase_ne_nil 10 _

theorem bytesLiteral_ne_nil (b : List UInt8) : bytesLiteral b ≠ [] := List.cons_ne_nil _ _

theorem literal_ne_nil (s : Text) : literal s ≠ [] := by simp [literal, literalWith]

end Text

namespace Decimal

theorem positional_ne_nil (d : Digits) : d.positional ≠ [] := by
  rw [Digits.positional]
  split
  · next h =>
    have hp : (-d.exponent).toNat ≠ 0 := by omega
    rw [pointed, if_neg hp]
    exact List.append_ne_nil_of_right_ne_nil _ (List.cons_ne_nil _ _)
  · exact List.append_ne_nil_of_left_ne_nil (Text.inBase_ne_nil 10 _) _

theorem plain_ne_nil (d : Digits) : d.plain ≠ [] := by
  rw [Digits.plain]
  split
  · split
    · exact positional_ne_nil d
    · exact List.append_ne_nil_of_left_ne_nil (positional_ne_nil d) _
  · exact List.append_ne_nil_of_right_ne_nil _ (List.cons_ne_nil _ _)

theorem plainText_ne_nil (x : Float) : plainText x ≠ [] := by
  rw [plainText]
  split
  · exact List.cons_ne_nil _ _
  · split
    · split <;> exact List.cons_ne_nil _ _
    · exact List.append_ne_nil_of_right_ne_nil _ (plain_ne_nil _)

end Decimal

theorem constructorText_ne_nil {name : Text} (h : name ≠ []) (fields : List Text) :
    constructorText name fields ≠ [] := by
  change (name ++ Text.ofString "(") ++ Text.joined ", " fields ++ Text.ofString ")" ≠ []
  simp [h]

theorem Date.text_ne_nil (d : Date) : d.text ≠ [] := by simp [Date.text]

namespace Value

theorem enclosed_ne_nil {opening : Text} (h : opening ≠ []) (items : List Text) (closing : Text) :
    enclosed opening items closing ≠ [] := by
  simp [enclosed, h]

theorem literal_ne_nil (v : Value) : v.literal ≠ [] := by
  cases v with
  | null => decide
  | bool b => cases b <;> decide
  | int i => exact Text.ofChars_ne_nil (Text.signedDecimal_ne_nil i)
  | float x => exact Text.ofChars_ne_nil (Decimal.plainText_ne_nil x)
  | text s => exact Text.ofChars_ne_nil (Text.literal_ne_nil s)
  | bytes b => exact Text.ofChars_ne_nil (Text.bytesLiteral_ne_nil b)
  | list items => exact enclosed_ne_nil (by decide) _ _
  | tuple items =>
    rw [literal]
    split <;> exact enclosed_ne_nil (by decide) _ _
  | set items =>
    rw [literal]
    split
    · decide
    · exact enclosed_ne_nil (by decide) _ _
  | dict es => exact enclosed_ne_nil (by decide) _ _
  | date d => exact constructorText_ne_nil (by decide) _
  | time t => exact constructorText_ne_nil (by decide) _
  | dateTime t => exact constructorText_ne_nil (by decide) _

theorem shown_ne_nil {v : Value} (h : v.isTruthy = true) : v.shown ≠ [] := by
  cases v with
  | text s =>
    rintro rfl
    cases h
  | date d => exact Text.ofChars_ne_nil d.text_ne_nil
  | time t => exact Text.ofChars_ne_nil (by simp [TimeOfDay.text])
  | dateTime t => exact Text.ofChars_ne_nil (by simp [DateTime.text])
  | _ => exact literal_ne_nil _

theorem literal?_ne_nil {v : Value} {s : Text} (h : v.literal? = some s) : s ≠ [] := by
  rw [literal?.eq_def] at h
  split at h
  · split at h
    · cases h
    · cases h
      exact literal_ne_nil _
  · cases h
    exact literal_ne_nil _

theorem shown?_ne_nil {v : Value} {s : Text} (h : v.shown? = some s) (hv : v.isTruthy = true) :
    s ≠ [] := by
  rw [shown?.eq_def] at h
  split at h
  · split at h
    · cases h
    · cases h
      exact shown_ne_nil hv
  · cases h
    exact shown_ne_nil hv

end Value
end SymbolRename
