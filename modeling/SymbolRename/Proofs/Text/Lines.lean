import SymbolRename.Text.Lines

/-!
# How a text is cut into lines

A text is its lines with boundaries between them, and perhaps one behind the last line. Carriage
return with line feed is one boundary, so a carriage return alone is one only if no line feed
follows. Every text has exactly one cut of this kind, and it is the one that `lines` makes.

Cut at one code point, a text is its pieces with this code point between them.
-/

set_option autoImplicit false

namespace SymbolRename.Text

def lineBreaks : List Char :=
  ['\n', '\x0b', '\x0c', '\r', '\x1c', '\x1d', '\x1e', '\u0085', '\u2028', '\u2029']

def Unbroken (s : Text) : Prop := ∀ c ∈ lineBreaks, Code.char c ∉ s

inductive IsBreak : Text → Prop
  | single {c : Char} : c ∈ lineBreaks → IsBreak [.char c]
  | pair : IsBreak [.char '\r', .char '\n']

inductive IsLines : Text → List Text → Prop
  | nil : IsLines [] []
  | last {line : Text} : line ≠ [] → Unbroken line → IsLines line [line]
  | cons {line boundary rest : Text} {ls : List Text} : Unbroken line → IsBreak boundary →
      (boundary = [.char '\r'] → rest.head? ≠ some (.char '\n')) → IsLines rest ls →
      IsLines (line ++ boundary ++ rest) (line :: ls)

theorem isLineBreak_iff (c : Code) : isLineBreak c = true ↔ ∃ b ∈ lineBreaks, c = .char b := by
  constructor
  · intro h
    have hn : c.toNat ∈ lineBreaks.map Char.toNat := by
      simp [isLineBreak] at h
      simp [lineBreaks]
      omega
    obtain ⟨b, hb, he⟩ := List.mem_map.mp hn
    cases c with
    | char c => exact ⟨b, hb, congrArg Code.char (Char.toNat_inj.mp he.symm)⟩
    | half n =>
      have hh : (Code.half n).toNat = 0xD800 + n := rfl
      simp [isLineBreak] at h
      omega
  · rintro ⟨b, hb, rfl⟩
    have ha : lineBreaks.all (fun b => isLineBreak (.char b)) = true := rfl
    exact List.all_eq_true.mp ha b hb

theorem unbroken_iff (s : Text) : Unbroken s ↔ ∀ c ∈ s, isLineBreak c = false := by
  constructor
  · intro h c hc
    rw [Bool.eq_false_iff, ne_eq, isLineBreak_iff]
    rintro ⟨b, hb, rfl⟩
    exact h b hb hc
  · intro h b hb hc
    have hf := h _ hc
    rw [(isLineBreak_iff _).mpr ⟨b, hb, rfl⟩] at hf
    cases hf

theorem unbroken_cons (c : Code) (s : Text) :
    Unbroken (c :: s) ↔ isLineBreak c = false ∧ Unbroken s := by
  simp [unbroken_iff]

theorem lines_pair (rest : Text) :
    lines (.char '\r' :: .char '\n' :: rest) = [] :: lines rest := by
  rw [lines]

theorem lines_single {c : Code} {rest : Text} (hc : isLineBreak c = true)
    (hr : c = .char '\r' → rest.head? ≠ some (.char '\n')) :
    lines (c :: rest) = [] :: lines rest := by
  rw [lines, if_pos hc]
  rintro s rfl rfl
  exact hr rfl rfl

theorem lines_extend {c : Code} (hc : isLineBreak c = false) (rest : Text) :
    lines (c :: rest) = extendFirst c (lines rest) := by
  rw [lines, if_neg (by simp [hc])]
  rintro s rfl -
  exact absurd hc (by decide)

/-- The cut that a line without boundary makes in front of a text that starts with one. -/
theorem lines_line {line rest : Text} {ls : List Text} (hl : Unbroken line)
    (hr : lines rest = [] :: ls) : lines (line ++ rest) = line :: ls := by
  induction line with
  | nil => exact hr
  | cons c line ih =>
    obtain ⟨hc, hu⟩ := (unbroken_cons c line).mp hl
    rw [List.cons_append, lines_extend hc, ih hu]
    rfl

theorem lines_last {line : Text} (hn : line ≠ []) (hl : Unbroken line) : lines line = [line] := by
  induction line with
  | nil => exact absurd rfl hn
  | cons c line ih =>
    obtain ⟨hc, hu⟩ := (unbroken_cons c line).mp hl
    rw [lines_extend hc]
    cases line with
    | nil => rfl
    | cons d line =>
      rw [ih (by simp) hu]
      rfl

theorem lines_eq {s : Text} {ls : List Text} (h : IsLines s ls) : lines s = ls := by
  induction h with
  | nil => rfl
  | last hn hl => exact lines_last hn hl
  | @cons line boundary rest ls hl hb hr _ ih =>
    rw [List.append_assoc]
    apply lines_line hl
    rw [← ih]
    cases hb with
    | single hc =>
      have hb := (isLineBreak_iff _).mpr ⟨_, hc, rfl⟩
      exact lines_single hb fun he => hr (congrArg (fun c => [c]) he)
    | pair => exact lines_pair rest

theorem isLines_extend {c : Code} {rest : Text} {ls : List Text} (hc : isLineBreak c = false)
    (h : IsLines rest ls) : IsLines (c :: rest) (extendFirst c ls) := by
  cases h with
  | nil => exact .last (by simp) ((unbroken_cons c []).mpr ⟨hc, by simp [Unbroken]⟩)
  | last hn hl => exact .last (by simp) ((unbroken_cons c _).mpr ⟨hc, hl⟩)
  | cons hl hb hr hs => exact .cons ((unbroken_cons c _).mpr ⟨hc, hl⟩) hb hr hs

theorem isLines_lines (s : Text) : IsLines s (lines s) := by
  have hu : Unbroken [] := by simp [Unbroken]
  fun_induction lines s with
  | case1 => exact .nil
  | case2 rest ih => exact .cons hu .pair (by simp) ih
  | case3 c rest hn hc ih =>
    obtain ⟨b, hb, rfl⟩ := (isLineBreak_iff c).mp hc
    have hr : [Code.char b] = [.char '\r'] → rest.head? ≠ some (.char '\n') := by
      intro he hh
      obtain ⟨s, hs⟩ := List.head?_eq_some_iff.mp hh
      exact hn s (by simpa using he) hs
    exact .cons hu (.single hb) hr ih
  | case4 c rest hn hc ih => exact isLines_extend (by simpa using hc) ih

theorem isLines_iff (s : Text) (ls : List Text) : IsLines s ls ↔ ls = lines s := by
  constructor
  · exact fun h => (lines_eq h).symm
  · rintro rfl
    exact isLines_lines s

theorem unbroken_of_lines {s : Text} {ls : List Text} (h : IsLines s ls) :
    ∀ line ∈ ls, Unbroken line := by
  induction h with
  | nil => simp
  | last _ hl => simpa using hl
  | cons hl _ _ _ ih => simpa using ⟨hl, ih⟩

/-! ## Pieces -/

section Pieces
variable (separator : Code)

theorem splitAt_eq (s : Text) : splitAt separator s = s.splitOn separator := by
  induction s with
  | nil => rfl
  | cons c s ih =>
    rw [splitAt, List.splitOn_cons_eq_if_modifyHead, ih]
    obtain ⟨p, ps, hp⟩ := List.exists_cons_of_ne_nil (List.splitOn_ne_nil separator s)
    simp [hp, extendFirst]

theorem splitAt_single {s : Text} (h : separator ∉ s) : splitAt separator s = [s] := by
  rw [splitAt_eq, List.splitOn_eq_singleton h]

theorem joined_splitAt (s : Text) : joined [separator] (splitAt separator s) = s := by
  rw [joined, splitAt_eq, List.intercalate_splitOn]

theorem splitAt_injective {s t : Text} (h : splitAt separator s = splitAt separator t) : s = t := by
  rw [← joined_splitAt separator s, h, joined_splitAt]

/-- A text that is put together from parts has the pieces of the parts. -/
theorem splitAt_joined {parts : List Text} (h : parts ≠ []) :
    splitAt separator (joined [separator] parts) = parts.flatMap (splitAt separator) := by
  induction parts with
  | nil => exact absurd rfl h
  | cons p ps ih =>
    by_cases hp : ps = []
    · simp [hp, joined]
    · obtain ⟨q, qs, rfl⟩ := List.exists_cons_of_ne_nil hp
      have hj : joined [separator] (p :: q :: qs) =
          p ++ separator :: joined [separator] (q :: qs) := by
        simp [joined, List.intercalate_cons_cons]
      rw [hj, splitAt_eq, List.splitOn_append_cons_self, ← splitAt_eq, ← splitAt_eq, ih hp]
      exact List.flatMap_cons.symm

end Pieces

end SymbolRename.Text
