import SymbolRename.Function
import SymbolRename.Identifier
import Mathlib.Data.List.TakeWhile
import Mathlib.Tactic.Tauto

/-!
# How identifiers are spelled

A name is a letter or underscore and then letters, underscores and digits, all of them ASCII. The
longest name at the start of a text is the only one that is not followed by another character of a
name, so a text that has something else behind a name can be read in one way only.
-/

set_option autoImplicit false

namespace SymbolRename.Identifier

def NameHead (c : Char) : Prop := ('a' ≤ c ∧ c ≤ 'z') ∨ ('A' ≤ c ∧ c ≤ 'Z') ∨ c = '_'

def NameTail (c : Char) : Prop := NameHead c ∨ ('0' ≤ c ∧ c ≤ '9')

def Spelled (s : Text) : Prop :=
  ∃ c cs, s = Text.ofChars (c :: cs) ∧ NameHead c ∧ ∀ x ∈ cs, NameTail x

theorem isHead_char (c : Char) : isHead (.char c) = true ↔ NameHead c := by
  have ha : c.isAlpha = (decide ('A'.val ≤ c.val ∧ c.val ≤ 'Z'.val) ||
    decide ('a'.val ≤ c.val) && decide (c.val ≤ 'z'.val)) := rfl
  simp only [isHead, Code.passes, ha, NameHead, Char.le_def, Bool.or_eq_true, Bool.and_eq_true,
    decide_eq_true_eq, Code.char.injEq]
  tauto

theorem isTail_char (c : Char) : isTail (.char c) = true ↔ NameTail c := by
  simp only [isTail, Code.passes, Char.isDigit, NameTail, Char.le_def, ← isHead_char,
    Bool.or_eq_true, Bool.and_eq_true, decide_eq_true_eq]

theorem all_isTail_iff (s : Text) :
    s.all isTail = true ↔ ∃ cs, s = Text.ofChars cs ∧ ∀ x ∈ cs, NameTail x := by
  induction s with
  | nil => simp [Text.ofChars]
  | cons c s ih =>
    rw [List.all_cons, Bool.and_eq_true, ih]
    constructor
    · rintro ⟨hc, cs, rfl, hs⟩
      cases c with
      | char c => exact ⟨c :: cs, rfl, List.forall_mem_cons.mpr ⟨(isTail_char c).mp hc, hs⟩⟩
      | half n => cases hc
    · rintro ⟨_ | ⟨x, cs⟩, he, hs⟩
      · cases he
      · cases he
        obtain ⟨hx, hs⟩ := List.forall_mem_cons.mp hs
        exact ⟨(isTail_char x).mpr hx, cs, rfl, hs⟩

theorem isName_iff (s : Text) : isName s = true ↔ Spelled s := by
  cases s with
  | nil => simp [isName, Spelled, Text.ofChars]
  | cons c s =>
    rw [isName, Bool.and_eq_true, all_isTail_iff]
    constructor
    · rintro ⟨hc, cs, rfl, hs⟩
      cases c with
      | char c => exact ⟨c, cs, rfl, (isHead_char c).mp hc, hs⟩
      | half n => cases hc
    · rintro ⟨x, cs, he, hx, hs⟩
      cases he
      exact ⟨(isHead_char x).mpr hx, cs, rfl, hs⟩

theorem lead?_append {name rest : Text} (hn : isName name = true)
    (hr : ∀ c ∈ rest.head?, isTail c = false) : lead? (name ++ rest) = some (name, rest) := by
  cases name with
  | nil => cases hn
  | cons c name =>
    obtain ⟨hc, hs⟩ := Bool.and_eq_true_iff.mp hn
    have hs : ∀ x ∈ name, isTail x = true := List.all_eq_true.mp hs
    rw [List.cons_append, lead?, if_pos hc, List.takeWhile_append_of_pos hs,
      List.dropWhile_append_of_pos hs]
    cases rest with
    | nil => simp
    | cons d rest =>
      have hd : isTail d = false := hr d rfl
      simp [hd]

theorem lead?_some {s name rest : Text} (h : lead? s = some (name, rest)) :
    isName name = true ∧ s = name ++ rest := by
  cases s with
  | nil => cases h
  | cons c s =>
    rw [lead?] at h
    split_ifs at h with hc
    cases h
    constructor
    · rw [isName, hc, Bool.true_and, List.all_takeWhile]
    · rw [List.cons_append, List.takeWhile_append_dropWhile]

theorem isBlank_nameTail {c : Char} (h : NameTail c) : Text.isBlank (.char c) = false := by
  have hr : 0x30 ≤ c.toNat ∧ c.toNat ≤ 0x7A := by
    simp only [NameTail, NameHead, Char.le_def, UInt32.le_iff_toNat_le] at h
    rcases h with (h | h | rfl) | h
    · exact ⟨Nat.le_trans (by decide) h.1, h.2⟩
    · exact ⟨Nat.le_trans (by decide) h.1, Nat.le_trans h.2 (by decide)⟩
    · decide
    · exact ⟨h.1, Nat.le_trans h.2 (by decide)⟩
  rw [Bool.eq_false_iff, ne_eq, Text.isBlank, Text.inRanges, List.any_eq_true]
  rintro ⟨r, hm, hb⟩
  have hc : (Code.char c).toNat = c.toNat := rfl
  obtain ⟨hl, hu⟩ : r.1 ≤ (Code.char c).toNat ∧ (Code.char c).toNat ≤ r.2 := by simpa using hb
  have hout : ∀ r ∈ Text.blankRanges, r.2 < 0x30 ∨ 0x7A < r.1 := by decide
  have ho := hout r hm
  omega

theorem spelled_inked {name : Text} (h : Spelled name) : ∀ c ∈ name, Text.isBlank c = false := by
  obtain ⟨c, cs, rfl, hc, hs⟩ := h
  intro x hx
  obtain ⟨y, hy, rfl⟩ := List.mem_map.mp hx
  rcases List.mem_cons.mp hy with rfl | hy
  · exact isBlank_nameTail (.inl hc)
  · exact isBlank_nameTail (hs y hy)

theorem spelled_nonempty {name : Text} (h : Spelled name) : name ≠ [] := by
  obtain ⟨c, cs, rfl, -, -⟩ := h
  exact List.cons_ne_nil _ _

theorem isGivable_spelled {name : Text} (h : Spelled name) : isGivable name = true := by
  rw [isGivable, Bool.and_eq_true]
  exact ⟨by simpa using spelled_nonempty h, by simpa using spelled_inked h⟩

end SymbolRename.Identifier
