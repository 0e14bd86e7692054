import SymbolRename.Text.Numeral
import Mathlib.Data.List.Induction
import Mathlib.Tactic.Ring

/-!
# Numerals are read back

A number that is written in a base reads as itself, so numbers that are written the same are the
same.
-/

set_option autoImplicit false

namespace SymbolRename.Text

theorem digitValue_hexDigit : ∀ d < 16, digitValue (hexDigit d) = d := by
  decide

theorem isDigitIn_hexDigit {base d : ℕ} (hb : base ≤ 16) (hd : d < base) :
    isDigitIn base (hexDigit d) = true := by
  rw [isDigitIn, digitValue_hexDigit d (by omega)]
  exact decide_eq_true hd

theorem digitsValue_append (base : ℕ) (s : List Char) (c : Char) :
    digitsValue base (s ++ [c]) = digitsValue base s * base + digitValue c := by
  rw [digitsValue, List.foldl_append]
  rfl

theorem digitsValue_lt {base : ℕ} {s : List Char} (h : ∀ c ∈ s, isDigitIn base c = true) :
    digitsValue base s < base ^ s.length := by
  induction s using List.reverseRecOn with
  | nil => exact Nat.one_pos
  | append_singleton s c ih =>
    have hc : digitValue c < base := of_decide_eq_true (h c (by simp))
    have hs := ih fun d hd => h d (by simp [hd])
    rw [digitsValue_append, List.length_append, List.length_singleton, Nat.pow_succ]
    calc digitsValue base s * base + digitValue c
        < digitsValue base s * base + base := Nat.add_lt_add_left hc _
      _ = (digitsValue base s + 1) * base := (Nat.succ_mul _ _).symm
      _ ≤ base ^ s.length * base := Nat.mul_le_mul_right base hs

theorem digitsFrom_ne_nil (base fuel n : ℕ) : digitsFrom base (fuel + 1) n ≠ [] := by
  simp [digitsFrom]

theorem inBase_ne_nil (base n : ℕ) : inBase base n ≠ [] :=
  mt List.reverse_eq_nil_iff.mp (digitsFrom_ne_nil base n.log2 n)

theorem digitsValue_digitsFrom {base : ℕ} (hl : 2 ≤ base) (hb : base ≤ 16) (fuel n : ℕ)
    (hn : n < 2 ^ fuel) : digitsValue base (digitsFrom base fuel n).reverse = n := by
  induction fuel generalizing n with
  | zero =>
    have h0 : n = 0 := by simpa using hn
    rw [h0]
    rfl
  | succ fuel ih =>
    have hd : digitValue (hexDigit (n % base)) = n % base := by
      apply digitValue_hexDigit
      have hm : n % base < base := Nat.mod_lt n (by omega)
      omega
    rw [digitsFrom, List.reverse_cons, digitsValue_append, hd]
    split
    · next hs => simp [digitsValue, Nat.mod_eq_of_lt hs]
    · have hq : n / base < 2 ^ fuel := by
        apply Nat.div_lt_of_lt_mul
        calc n < 2 * 2 ^ fuel := by rw [← pow_succ']; exact hn
          _ ≤ base * 2 ^ fuel := Nat.mul_le_mul_right _ hl
      rw [ih _ hq, mul_comm]
      exact Nat.div_add_mod n base

theorem all_digitsFrom {base : ℕ} (hl : 2 ≤ base) (hb : base ≤ 16) (fuel n : ℕ) :
    (digitsFrom base fuel n).all (isDigitIn base) = true := by
  induction fuel generalizing n with
  | zero => rfl
  | succ fuel ih =>
    rw [digitsFrom, List.all_cons, isDigitIn_hexDigit hb (Nat.mod_lt n (by omega))]
    split
    · rfl
    · exact ih _

theorem all_inBase {base : ℕ} (hl : 2 ≤ base) (hb : base ≤ 16) (n : ℕ) :
    (inBase base n).all (isDigitIn base) = true := by
  rw [inBase, List.all_reverse]
  exact all_digitsFrom hl hb _ n

theorem natIn?_inBase {base : ℕ} (hl : 2 ≤ base) (hb : base ≤ 16) (n : ℕ) :
    natIn? base (inBase base n) = some n := by
  have hv : digitsValue base (inBase base n) = n :=
    digitsValue_digitsFrom hl hb _ n Nat.lt_log2_self
  rw [natIn?, all_inBase hl hb n, hv]
  simp [inBase_ne_nil]

theorem natIn?_decimal (n : ℕ) : natIn? 10 (decimal n) = some n :=
  natIn?_inBase (by decide) (by decide) n

theorem decimal_injective {m n : ℕ} (h : decimal m = decimal n) : m = n := by
  have hm := natIn?_decimal m
  rw [h, natIn?_decimal n] at hm
  exact (Option.some.inj hm).symm

theorem isDigitIn_of_mem_decimal {c : Char} {n : ℕ} (h : c ∈ decimal n) :
    isDigitIn 10 c = true :=
  List.all_eq_true.mp (all_inBase (by decide) (by decide) n) c h

theorem mem_signedDecimal {c : Char} {i : ℤ} (h : c ∈ signedDecimal i) :
    c = '-' ∨ isDigitIn 10 c = true := by
  rw [signedDecimal] at h
  split at h
  · exact (List.mem_cons.mp h).imp_right isDigitIn_of_mem_decimal
  · exact .inr (isDigitIn_of_mem_decimal h)

/-- The sign of a number is not one of its digits. -/
theorem signed_ne_decimal (m n : ℕ) : '-' :: decimal m ≠ decimal n := by
  intro h
  have hd : isDigitIn 10 '-' = true := isDigitIn_of_mem_decimal (h ▸ List.mem_cons_self)
  exact absurd hd (by decide)

theorem signedDecimal_injective {i j : ℤ} (h : signedDecimal i = signedDecimal j) : i = j := by
  rw [signedDecimal, signedDecimal] at h
  split at h <;> split at h
  · have ha := decimal_injective (List.cons_inj_right _ |>.mp h)
    omega
  · exact absurd h (signed_ne_decimal _ _)
  · exact absurd h.symm (signed_ne_decimal _ _)
  · have ha := decimal_injective h
    omega

end SymbolRename.Text
