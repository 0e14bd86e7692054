import SymbolRename.Proofs.Text.Breaks
import SymbolRename.Proofs.Text.Utf8
import SymbolRename.Yaml.Supply

/-!
# Reading a file in parts

However a file is cut into parts, a file that can be decoded supplies the characters of its text with
the line breaks unified, up to what no document may hold. A character whose bytes lie in two parts is
held back for the second one, and so is a carriage return at the end of a part.
-/

set_option autoImplicit false

namespace SymbolRename.Yaml.Supply
open SymbolRename.Text (unifyBreaks unifyBreaks_append unifyBreaks_ne_nil)
open SymbolRename.Text.Utf8

namespace Decoding

def pending (d : Decoding) : List Char := if d.returned then ['\r'] else []

theorem nextSize_pos (d : Decoding) : 1 ≤ d.nextSize :=
  le_trans (by decide) (Nat.le_max_left partSize _)

/-- The last part has no bytes of its own. -/
theorem take_last {d : Decoding} {s : List Char} (h : Decodes d.held s) :
    ∃ d', d.take [] true = .ok (unifyBreaks (d.pending ++ s), d') := by
  rw [take]
  dsimp only
  rw [if_pos rfl, List.append_nil, decodes_decode h]
  cases hr : d.returned <;> exact ⟨_, by simp [pending, hr, bind, Except.bind]; rfl⟩

/-- The characters that a part brings, behind a carriage return that waited for them. -/
def arrived (d : Decoding) (s : List Char) : List Char :=
  if d.returned && !s.isEmpty then '\r' :: s else s

/-- What is given out of them while others follow. -/
def given (s : List Char) : List Char :=
  unifyBreaks (if s.getLast? = some '\r' then s.dropLast else s)

theorem take_eq {d : Decoding} {part : List UInt8} {s : List Char}
    (h : decode (holdBack (d.held ++ part)).1 = .ok s) :
    ∃ d', d.take part false = .ok (given (d.arrived s), d') ∧
      d'.held = (holdBack (d.held ++ part)).2 ∧
      d'.returned = (decide ((d.arrived s).getLast? = some '\r') ||
        (d.returned && (given (d.arrived s)).isEmpty)) := by
  rw [take, if_neg Bool.false_ne_true]
  dsimp only
  rw [h]
  simp only [bind, Except.bind, pure, Except.pure, Bool.false_or, Bool.not_false, Bool.true_and,
    Bool.and_true, decide_eq_true_eq]
  exact ⟨_, rfl, rfl, rfl⟩

theorem arrived_eq {d : Decoding} {s : List Char} (h : d.returned = false ∨ s ≠ []) :
    d.arrived s = d.pending ++ s := by
  rw [arrived, pending]
  cases hr : d.returned with
  | false => rfl
  | true =>
    have hs : s ≠ [] := h.resolve_left (by simp [hr])
    rw [Bool.true_and, if_pos (by simpa using hs), if_pos rfl]
    rfl

/-- A carriage return at the end is not given out, and comes first in what follows. -/
theorem unifyBreaks_given (t s : List Char) :
    unifyBreaks (t ++ s) =
      given t ++ unifyBreaks ((if t.getLast? = some '\r' then ['\r'] else []) ++ s) := by
  rw [given]
  by_cases ht : t.getLast? = some '\r'
  · obtain ⟨x, rfl⟩ := List.getLast?_eq_some_iff.mp ht
    rw [if_pos ht, if_pos ht, List.dropLast_concat, List.append_assoc]
    exact unifyBreaks_append (.inr (by simp))
  · rw [if_neg ht, if_neg ht]
    exact unifyBreaks_append (.inl ht)

/-- The characters of a part are given out or are still to come. -/
theorem take_part {d : Decoding} {part bytes : List UInt8} {s : List Char}
    (h : Decodes (d.held ++ part ++ bytes) s) :
    ∃ out d' s', d.take part false = .ok (out, d') ∧ Decodes (d'.held ++ bytes) s' ∧
      unifyBreaks (d.pending ++ s) = out ++ unifyBreaks (d'.pending ++ s') := by
  obtain ⟨s₁, s₂, rfl, h₁, h₂⟩ := holdBack_cut h
  obtain ⟨d', ht, hheld, hr⟩ := take_eq (decodes_decode h₁)
  refine ⟨_, d', s₂, ht, by rw [hheld]; exact h₂, ?_⟩
  by_cases hs : d.returned = false ∨ s₁ ≠ []
  · have ha : d.arrived s₁ = d.pending ++ s₁ := arrived_eq hs
    have hw : d'.pending = if (d.pending ++ s₁).getLast? = some '\r' then ['\r'] else [] := by
      rw [pending, hr, ha]
      by_cases hl : (d.pending ++ s₁).getLast? = some '\r'
      · rw [if_pos hl, decide_eq_true hl, Bool.true_or, if_pos rfl]
      · have hn : (d.returned && (given (d.pending ++ s₁)).isEmpty) = false := by
          rw [given, if_neg hl, Bool.and_eq_false_iff]
          refine hs.imp_right fun hs => ?_
          simpa using unifyBreaks_ne_nil (List.append_ne_nil_of_right_ne_nil _ hs)
        rw [if_neg hl, decide_eq_false hl, hn, Bool.false_or, if_neg Bool.false_ne_true]
    rw [ha, hw, ← List.append_assoc]
    exact unifyBreaks_given _ _
  · obtain ⟨hd, rfl⟩ : d.returned = true ∧ s₁ = [] := by
      simpa [not_or] using hs
    have hw : d'.returned = true := by
      rw [hr, arrived, hd]
      rfl
    have ha : d.arrived [] = [] := by
      rw [arrived, hd]
      rfl
    rw [ha, pending, pending, hd, hw]
    rfl

end Decoding

theorem decodeParts_decodes {fuel : ℕ} {d : Decoding} {bytes : List UInt8} {s : List Char}
    (hf : bytes.length < fuel) (h : Decodes (d.held ++ bytes) s) :
    ∃ parts, decodeParts fuel d bytes = (parts, none) ∧
      parts.flatten = unifyBreaks (d.pending ++ s) := by
  induction fuel generalizing d bytes s with
  | zero => cases hf
  | succ fuel ih =>
    unfold decodeParts
    dsimp only
    cases hp : (bytes.take d.nextSize).isEmpty with
    | true =>
      have hb : bytes = [] := by
        rcases List.take_eq_nil_iff.mp (List.isEmpty_iff.mp hp) with hn | hb
        · have hpos := d.nextSize_pos
          omega
        · exact hb
      subst hb
      rw [List.append_nil] at h
      obtain ⟨d', ht⟩ := Decoding.take_last h
      rw [List.take_nil, ht]
      exact ⟨_, rfl, by simp⟩
    | false =>
      have hl : (bytes.take d.nextSize).length ≠ 0 := by
        simpa using hp
      have hcut : bytes.take d.nextSize ++ bytes.drop (bytes.take d.nextSize).length = bytes :=
        List.prefix_iff_eq_append.mp (List.take_prefix _ bytes)
      rw [← hcut, ← List.append_assoc] at h
      obtain ⟨out, d', s', ht, h', ho⟩ := Decoding.take_part h
      have hlen : (bytes.drop (bytes.take d.nextSize).length).length < fuel := by
        have hle : (bytes.take d.nextSize).length ≤ bytes.length := List.length_take_le' _ _
        rw [List.length_drop]
        omega
      obtain ⟨parts, hr, hj⟩ := ih hlen h'
      rw [ht]
      dsimp only
      rw [hr]
      exact ⟨_, rfl, by rw [List.flatten_cons, hj, ho]⟩

/-- The supply of a file that can be decoded. -/
theorem ofBytes_decodes {bytes : List UInt8} {s : List Char} (h : Decodes bytes s) :
    ofBytes bytes = upToForbidden (unifyBreaks s) := by
  obtain ⟨parts, hp, hj⟩ := decodeParts_decodes (d := .start) (Nat.lt_succ_self bytes.length) h
  rw [ofBytes, hp]
  dsimp only
  rw [hj]
  rfl

theorem upToForbidden_allowed {s : List Char} (h : ∀ c ∈ s, isAllowed c = true) :
    upToForbidden s = ⟨s, none⟩ := by
  have hn : s.findIdx? (!isAllowed ·) = none := by
    rw [List.findIdx?_eq_none_iff]
    intro c hc
    rw [h c hc]
    rfl
  rw [upToForbidden, hn]

end SymbolRename.Yaml.Supply
