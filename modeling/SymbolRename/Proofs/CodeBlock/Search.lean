import SymbolRename.CodeBlock
import SymbolRename.Proofs.Text.Trim
import Mathlib.Data.List.Infix

/-!
# Searching for a block

The two searches for a block go through the positions of a text: one for the first place where a
block can be read, the other, behind an opening fence, for the first fence at the start of a line.
Both give what stands at the least position that will do. Between them are the blanks behind the
opening fence, which may be cut behind each of their line feeds, the last one first.
-/

set_option autoImplicit false

namespace SymbolRename.CodeBlock
open Text

def Stands (t s : Text) (i : ℕ) : Prop := t <+: s.drop i

/-- A fence at the start of a line, with the line feed in front of it. -/
def closing : Text := .char '\n' :: fence

theorem stands_cons_succ (t : Text) (c : Code) (s : Text) (i : ℕ) :
    Stands t (c :: s) (i + 1) ↔ Stands t s i := by
  rw [Stands, List.drop_succ_cons]
  rfl

theorem stands_drop (t s : Text) (m i : ℕ) : Stands t (s.drop m) i ↔ Stands t s (m + i) := by
  rw [Stands, List.drop_drop]
  rfl

theorem fence_iff (s : Text) (i : ℕ) : fence.isPrefixOf (s.drop i) = true ↔ Stands fence s i :=
  List.isPrefixOf_iff_prefix

theorem closing_iff (c : Code) (s : Text) :
    (c = .char '\n' && fence.isPrefixOf s) = true ↔ Stands closing (c :: s) 0 := by
  rw [Stands, List.drop_zero, closing, List.cons_prefix_cons, Bool.and_eq_true,
    List.isPrefixOf_iff_prefix, decide_eq_true_iff, eq_comm]

theorem not_stands_nil (i : ℕ) : ¬ Stands closing [] i := by
  simp [Stands, closing]

theorem bodyAt?_nil : bodyAt? [] = none := rfl

theorem exists_first_zero {P Q : ℕ → Prop} (h : ¬ Q 0) : (∃ i, P i ∧ ∀ j < i, Q j) ↔ P 0 := by
  constructor
  · rintro ⟨_ | i, hi, hfirst⟩
    · exact hi
    · exact absurd (hfirst 0 i.succ_pos) h
  · exact fun hp => ⟨0, hp, nofun⟩

theorem exists_first_succ {P Q : ℕ → Prop} (hq : Q 0) (hp : ¬ P 0) :
    (∃ i, P i ∧ ∀ j < i, Q j) ↔ ∃ i, P (i + 1) ∧ ∀ j < i, Q (j + 1) := by
  constructor
  · rintro ⟨_ | i, hi, hfirst⟩
    · exact absurd hi hp
    · exact ⟨i, hi, fun j hj => hfirst (j + 1) (by omega)⟩
  · rintro ⟨i, hi, hfirst⟩
    refine ⟨i + 1, hi, fun j hj => ?_⟩
    cases j with
    | zero => exact hq
    | succ j => exact hfirst j (by omega)

/-- The text before the first fence at the start of a line. -/
theorem bodyBefore?_eq_some_iff {s body : Text} :
    bodyBefore? s = some body ↔
      ∃ p, (Stands closing s p ∧ body = s.take p) ∧ ∀ q < p, ¬ Stands closing s q := by
  induction s generalizing body with
  | nil => simp [bodyBefore?, not_stands_nil]
  | cons c s ih =>
    rw [bodyBefore?]
    by_cases hc : Stands closing (c :: s) 0
    · rw [if_pos ((closing_iff c s).mpr hc), exists_first_zero (not_not_intro hc)]
      simp [hc, eq_comm]
    · rw [if_neg ((closing_iff c s).not.mpr hc), exists_first_succ hc fun h => hc h.1,
        Option.map_eq_some_iff]
      simp only [stands_cons_succ, ih, List.take_succ_cons]
      constructor
      · rintro ⟨_, ⟨p, ⟨hp, rfl⟩, hfirst⟩, rfl⟩
        exact ⟨p, ⟨hp, rfl⟩, hfirst⟩
      · rintro ⟨p, ⟨hp, rfl⟩, hfirst⟩
        exact ⟨s.take p, ⟨p, ⟨hp, rfl⟩, hfirst⟩, rfl⟩

theorem bodyBefore?_eq_none_iff {s : Text} :
    bodyBefore? s = none ↔ ∀ p, ¬ Stands closing s p := by
  induction s with
  | nil => simp [bodyBefore?, not_stands_nil]
  | cons c s ih =>
    rw [bodyBefore?]
    by_cases hc : Stands closing (c :: s) 0
    · rw [if_pos ((closing_iff c s).mpr hc)]
      exact ⟨nofun, fun h => absurd hc (h 0)⟩
    · rw [if_neg ((closing_iff c s).not.mpr hc), Option.map_eq_none_iff, ih]
      constructor
      · rintro h (_ | p)
        · exact hc
        · exact (stands_cons_succ _ c s p).not.mpr (h p)
      · exact fun h p => (stands_cons_succ _ c s p).not.mp (h (p + 1))

theorem fenced?_eq_some_iff {s body : Text} :
    fenced? s = some body ↔
      ∃ i, bodyAt? (s.drop i) = some body ∧ ∀ j < i, bodyAt? (s.drop j) = none := by
  induction s with
  | nil => simp [fenced?, bodyAt?_nil]
  | cons c s ih =>
    rw [fenced?]
    cases hc : bodyAt? (c :: s) with
    | some other => rw [Option.some_or, exists_first_zero (by simp [hc]), List.drop_zero, hc]
    | none =>
      rw [Option.none_or, exists_first_succ hc (by simp [hc])]
      exact ih

theorem fenced?_eq_none_iff {s : Text} :
    fenced? s = none ↔ ∀ i, bodyAt? (s.drop i) = none := by
  induction s with
  | nil => simp [fenced?, bodyAt?_nil]
  | cons c s ih =>
    rw [fenced?, Option.or_eq_none_iff, ih]
    constructor
    · rintro ⟨hc, hs⟩ (_ | i)
      · exact hc
      · exact hs i
    · exact fun h => ⟨h 0, fun i => h (i + 1)⟩

theorem dropLanguage_eq (s : Text) :
    dropLanguage s = if s.head? = some (.char 'c') then s.tail else s := by
  cases s with
  | nil => rfl
  | cons c s =>
    by_cases hc : c = .char 'c'
    · subst hc
      rfl
    · rw [if_neg (by simpa using hc), dropLanguage]
      rintro _ ⟨⟩
      exact hc rfl

theorem mem_afterFeeds {s rest : Text} :
    rest ∈ afterFeeds s ↔ ∃ blanks, Blank blanks ∧ s = blanks ++ .char '\n' :: rest := by
  induction s with
  | nil => simp [afterFeeds]
  | cons c s ih =>
    rw [afterFeeds]
    constructor
    · intro h
      split_ifs at h with hc hn
      · rcases List.mem_append.mp h with h | h
        · obtain ⟨blanks, hb, rfl⟩ := ih.mp h
          exact ⟨c :: blanks, List.forall_mem_cons.mpr ⟨hc, hb⟩, rfl⟩
        · rw [List.mem_singleton.mp h, hn]
          exact ⟨[], by simp [Blank], rfl⟩
      · rw [List.append_nil] at h
        obtain ⟨blanks, hb, rfl⟩ := ih.mp h
        exact ⟨c :: blanks, List.forall_mem_cons.mpr ⟨hc, hb⟩, rfl⟩
      · cases h
    · rintro ⟨_ | ⟨d, blanks⟩, hb, he⟩
      · cases he
        have hc : isBlank (.char '\n') = true := by decide
        simp [hc]
      · cases he
        obtain ⟨hc, hb⟩ := List.forall_mem_cons.mp hb
        rw [if_pos hc]
        exact List.mem_append_left _ (ih.mpr ⟨blanks, hb, rfl⟩)

/-- The blanks in front of a text are cut by themselves. -/
theorem afterFeeds_append {blanks : Text} (hb : Blank blanks) (s : Text) :
    afterFeeds (blanks ++ s) = afterFeeds s ++ (afterFeeds blanks).map (· ++ s) := by
  induction blanks with
  | nil => simp [afterFeeds]
  | cons c blanks ih =>
    obtain ⟨hc, hb⟩ := List.forall_mem_cons.mp hb
    rw [List.cons_append, afterFeeds, if_pos hc, ih hb, afterFeeds, if_pos hc, List.map_append,
      List.append_assoc]
    split <;> rfl

theorem afterFeeds_of_inked {s : Text} (h : ∀ c ∈ s.head?, isBlank c = false) :
    afterFeeds s = [] := by
  cases s with
  | nil => rfl
  | cons c s =>
    have hc : isBlank c = false := h c rfl
    rw [afterFeeds, if_neg (by simp [hc])]

theorem afterFeeds_unfed {blanks s : Text} (hf : Code.char '\n' ∉ blanks)
    (hs : afterFeeds s = []) : afterFeeds (blanks ++ s) = [] := by
  induction blanks with
  | nil => exact hs
  | cons c blanks ih =>
    rw [List.mem_cons, not_or] at hf
    rw [List.cons_append, afterFeeds, ih hf.2, if_neg (Ne.symm hf.1)]
    simp

/-- The first cut is behind the last line feed. -/
theorem afterFeeds_feed {blanks s : Text} (hb : Blank blanks) (hs : afterFeeds s = []) :
    afterFeeds (blanks ++ .char '\n' :: s) =
      s :: (afterFeeds blanks).map (· ++ .char '\n' :: s) := by
  have hfeed : afterFeeds (.char '\n' :: s) = afterFeeds s ++ [s] := rfl
  rw [afterFeeds_append hb, hfeed, hs]
  rfl

/-- Among blanks there is no fence, so a body that starts in them ends with them or behind. -/
theorem bodyBefore?_blank {blanks : Text} (hb : Blank blanks) (s : Text) :
    bodyBefore? (blanks ++ .char '\n' :: s) =
      if fence.isPrefixOf s then some blanks
      else (bodyBefore? s).map (blanks ++ .char '\n' :: ·) := by
  induction blanks with
  | nil => simp [bodyBefore?]
  | cons c blanks ih =>
    obtain ⟨-, hb⟩ := List.forall_mem_cons.mp hb
    have hblank : ∀ d ∈ (blanks ++ .char '\n' :: s).head?, isBlank d = true := by
      cases blanks with
      | nil => rintro d ⟨⟩; decide
      | cons e blanks => rintro d ⟨⟩; exact hb _ List.mem_cons_self
    have hopen : fence.isPrefixOf (blanks ++ .char '\n' :: s) = false := by
      rw [Bool.eq_false_iff, ne_eq, List.isPrefixOf_iff_prefix]
      rintro ⟨rest, hr⟩
      have hh := hblank (.char '\x60') (by rw [← hr]; rfl)
      exact absurd hh (by decide)
    rw [List.cons_append, bodyBefore?, if_neg (by simp [hopen]), ih hb]
    split
    · rfl
    · rw [Option.map_map]
      rfl

/-- If no body ends further on, only a fence right there can end one that starts in the blanks. -/
theorem findSome?_blank {s : Text} (hs : bodyBefore? s = none) {starts : List Text}
    (hb : ∀ blanks ∈ starts, Blank blanks) :
    starts.findSome? (fun blanks => bodyBefore? (blanks ++ .char '\n' :: s)) =
      if fence.isPrefixOf s then starts.head? else none := by
  induction starts with
  | nil => simp
  | cons blanks starts ih =>
    obtain ⟨hb, hrest⟩ := List.forall_mem_cons.mp hb
    rw [List.findSome?_cons, bodyBefore?_blank hb, hs, ih hrest]
    by_cases hf : fence.isPrefixOf s = true <;> simp [hf]

end SymbolRename.CodeBlock
