import SymbolRename.Text.Blank
import Mathlib.Data.List.TakeWhile

/-!
# What trimming leaves

A text is blanks, then something that neither starts nor ends with a blank, then blanks. That
something is the same however the text is divided, and trimming leaves it.
-/

set_option autoImplicit false

namespace SymbolRename.Text

def Blank (s : Text) : Prop := ∀ c ∈ s, isBlank c = true

def Trimmed (s : Text) : Prop :=
  (∀ c ∈ s.head?, isBlank c = false) ∧ ∀ c ∈ s.getLast?, isBlank c = false

def Trims (s inner : Text) : Prop :=
  Trimmed inner ∧ ∃ before behind, Blank before ∧ Blank behind ∧ s = before ++ inner ++ behind

theorem trimStart_blank {before rest : Text} (hb : Blank before)
    (hr : ∀ c ∈ rest.head?, isBlank c = false) : trimStart (before ++ rest) = rest := by
  rw [trimStart, List.dropWhile_append_of_pos hb]
  cases rest with
  | nil => rfl
  | cons c rest => exact List.dropWhile_cons_of_neg (by simp [hr c rfl])

theorem trimEnd_blank {rest behind : Text} (hb : Blank behind)
    (hr : ∀ c ∈ rest.getLast?, isBlank c = false) : trimEnd (rest ++ behind) = rest := by
  rw [trimEnd, List.reverse_append, trimStart_blank, List.reverse_reverse]
  · exact fun c hc => hb c (List.mem_reverse.mp hc)
  · rwa [List.head?_reverse]

theorem trim_eq {s inner : Text} (h : Trims s inner) : trim s = inner := by
  obtain ⟨⟨hh, hl⟩, before, behind, hb, he, rfl⟩ := h
  rw [trim, List.append_assoc]
  cases inner with
  | nil =>
    have hn : trimStart (before ++ behind ++ []) = [] :=
      trimStart_blank (List.forall_mem_append.mpr ⟨hb, he⟩) (by simp)
    rw [List.append_nil] at hn
    rw [List.nil_append, hn]
    rfl
  | cons c inner =>
    have hs : trimStart (before ++ (c :: inner ++ behind)) = c :: inner ++ behind :=
      trimStart_blank hb hh
    rw [hs, trimEnd_blank he hl]

theorem trimStart_head (s : Text) : ∀ c ∈ (trimStart s).head?, isBlank c = false := by
  intro c hc
  have hn := List.head?_dropWhile_not isBlank s
  rw [show (s.dropWhile isBlank).head? = some c from hc] at hn
  exact hn

theorem trimStart_split (s : Text) : s = s.takeWhile isBlank ++ trimStart s :=
  List.takeWhile_append_dropWhile.symm

theorem trimEnd_split (s : Text) : s = trimEnd s ++ (s.reverse.takeWhile isBlank).reverse :=
  calc s = (s.reverse.takeWhile isBlank ++ s.reverse.dropWhile isBlank).reverse := by
        rw [List.takeWhile_append_dropWhile, List.reverse_reverse]
    _ = trimEnd s ++ (s.reverse.takeWhile isBlank).reverse := List.reverse_append

theorem trims_trim (s : Text) : Trims s (trim s) := by
  have hb (s : Text) : Blank (s.takeWhile isBlank) := fun c hc => List.mem_takeWhile_imp hc
  have he : trimStart s = trim s ++ _ := trimEnd_split (trimStart s)
  have hfirst : ∀ c ∈ (trim s).head?, isBlank c = false := by
    intro c hc
    apply trimStart_head s c
    rw [he, List.head?_append, show (trim s).head? = some c from hc]
    rfl
  have hlast : ∀ c ∈ (trim s).getLast?, isBlank c = false := by
    rw [trim, trimEnd, List.getLast?_reverse]
    exact trimStart_head _
  have hbehind : Blank ((trimStart s).reverse.takeWhile isBlank).reverse :=
    fun c hc => hb _ c (List.mem_reverse.mp hc)
  have hs : s = s.takeWhile isBlank ++ trim s ++
      ((trimStart s).reverse.takeWhile isBlank).reverse := by
    rw [List.append_assoc, ← he]
    exact trimStart_split s
  exact ⟨⟨hfirst, hlast⟩, _, _, hb s, hbehind, hs⟩

theorem trims_iff (s inner : Text) : Trims s inner ↔ inner = trim s := by
  constructor
  · exact fun h => (trim_eq h).symm
  · rintro rfl
    exact trims_trim s

end SymbolRename.Text
