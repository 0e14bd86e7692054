import SymbolRename.Proofs.Command.Loading
import SymbolRename.Proofs.Directive.Grammar
import SymbolRename.Proofs.Text.Breaks

/-!
# Responses in parts

A response that is put together from two parts with a line break between them asks for what the two
parts ask for. The break may run together with a carriage return before it or a line feed behind it,
and it may leave empty lines, but no empty line asks for anything. Nor does it matter whether the
line breaks of a response are written as line feeds before it is read.
-/

set_option autoImplicit false

namespace SymbolRename

namespace Text

/-! ## The lines of two texts -/

def filled (ls : List Text) : List Text := ls.filter (· ≠ [])

theorem filled_empty (ls : List Text) : filled ([] :: ls) = filled ls := rfl

theorem filled_cons (line : Text) (ls : List Text) :
    filled (line :: ls) = filled [line] ++ filled ls :=
  List.filter_append [line] ls

/-- Behind a boundary come the lines of the rest, but for a line feed that belongs to it. -/
theorem lines_break {boundary : Text} (hb : IsBreak boundary) (rest : Text) :
    ∃ ls, lines (boundary ++ rest) = [] :: ls ∧ filled ls = filled (lines rest) := by
  cases hb with
  | pair => exact ⟨_, lines_pair rest, rfl⟩
  | @single c hc =>
    have hbreak : isLineBreak (.char c) = true := (isLineBreak_iff _).mpr ⟨c, hc, rfl⟩
    by_cases hj : c = '\r' ∧ rest.head? = some (.char '\n')
    · obtain ⟨rfl, hr⟩ := hj
      obtain ⟨rest, rfl⟩ := List.head?_eq_some_iff.mp hr
      have hf : lines (.char '\n' :: rest) = [] :: lines rest := lines_single rfl (by simp)
      exact ⟨_, lines_pair rest, by rw [hf, filled_empty]⟩
    · exact ⟨_, lines_single hbreak fun he hr => hj ⟨Code.char.inj he, hr⟩, rfl⟩

theorem filled_lines_line {line boundary rest : Text} (hl : Unbroken line)
    (hb : IsBreak boundary) :
    filled (lines (line ++ (boundary ++ rest))) = filled [line] ++ filled (lines rest) := by
  obtain ⟨ls, hls, hf⟩ := lines_break hb rest
  rw [lines_line hl hls, filled_cons, hf]

/-- Apart from empty lines, a line break between two texts leaves the lines of both. -/
theorem filled_lines_append {a boundary : Text} {ls : List Text} (ha : IsLines a ls)
    (hb : IsBreak boundary) (b : Text) :
    filled (lines (a ++ (boundary ++ b))) = filled ls ++ filled (lines b) := by
  induction ha with
  | nil =>
    have empty : Unbroken [] := by simp [Unbroken]
    exact filled_lines_line empty hb
  | last _ hl => exact filled_lines_line hl hb
  | @cons line inner rest ls hl hi _ _ ih =>
    rw [List.append_assoc, List.append_assoc, filled_lines_line hl hi, ih, filled_cons line ls,
      List.append_assoc]

/-! ## Line breaks as line feeds -/

/-- A text with every carriage return, alone or before a line feed, as a line feed. -/
def unified : Text → Text
  | [] => []
  | .char '\r' :: .char '\n' :: s => .char '\n' :: unified s
  | c :: s => (if c = .char '\r' then .char '\n' else c) :: unified s

theorem unified_cons {c : Code} {s : Text} (h : c = .char '\r' → s.head? ≠ some (.char '\n')) :
    unified (c :: s) = (if c = .char '\r' then .char '\n' else c) :: unified s := by
  rw [unified]
  rintro t rfl rfl
  exact h rfl rfl

theorem unified_ofChars (s : List Char) : unified (ofChars s) = ofChars (unifyBreaks s) := by
  induction s using unifyBreaks.induct with
  | case1 => rfl
  | case2 s ih => exact congrArg (Code.char '\n' :: ·) ih
  | case3 c s hn ih =>
    have hs : c = '\r' → s.head? ≠ some '\n' := by
      intro hc hf
      obtain ⟨t, rfl⟩ := List.head?_eq_some_iff.mp hf
      exact hn t hc rfl
    have ht : Code.char c = .char '\r' → (ofChars s).head? ≠ some (.char '\n') := by
      simpa [ofChars] using hs
    change unified (.char c :: ofChars s) = ofChars (unifyBreaks (c :: s))
    rw [unified_cons ht, unifyBreaks_cons (Decidable.not_or_of_imp hs), ih]
    simp only [ofChars, List.map_cons, apply_ite Code.char, Code.char.injEq]

theorem lines_feed (s : Text) : lines (.char '\n' :: s) = [] :: lines s :=
  lines_single rfl (by simp)

theorem lines_unified (s : Text) : lines (unified s) = lines s := by
  induction s using unified.induct with
  | case1 => rfl
  | case2 s ih =>
    rw [unified, lines_feed, lines_pair, ih]
  | case3 c s hn ih =>
    have hs : c = .char '\r' → s.head? ≠ some (.char '\n') := by
      intro hc hf
      obtain ⟨t, rfl⟩ := List.head?_eq_some_iff.mp hf
      exact hn t hc rfl
    rw [unified_cons hs]
    by_cases hc : c = .char '\r'
    · rw [if_pos hc, lines_feed, ih, lines_single (by rw [hc]; rfl) hs]
    · rw [if_neg hc]
      cases hb : isLineBreak c with
      | true => rw [lines_single hb fun he => absurd he hc, lines_single hb hs, ih]
      | false => rw [lines_extend hb, lines_extend hb, ih]

end Text

namespace Directive
open Text

theorem parse_filled (response : Text) :
    parse response = (filled (lines response)).filterMap ofLine? := by
  have hn : ofLine? [] = none := by decide
  rw [parse, filled, List.filterMap_filter]
  refine List.filterMap_congr fun line _ => ?_
  cases line with
  | nil => exact hn
  | cons c line => rfl

theorem parse_append {boundary : Text} (hb : IsBreak boundary) (a b : Text) :
    parse (a ++ boundary ++ b) = parse a ++ parse b := by
  rw [parse_filled, parse_filled a, parse_filled b, ← List.filterMap_append, List.append_assoc,
    filled_lines_append (isLines_lines a) hb]

theorem parse_unified (response : Text) : parse (unified response) = parse response := by
  rw [parse, parse, lines_unified]

end Directive

namespace Command
open Text

/-- What a response asks for is what its parts ask for, and it is the same for a response at hand
and for one that is read from bytes. -/
theorem parse_parts :
    (∀ a boundary b : Text, IsBreak boundary →
      Directive.parse (a ++ boundary ++ b) = Directive.parse a ++ Directive.parse b) ∧
    (∀ response : Text, Directive.parse (unified response) = Directive.parse response) ∧
    ∀ (input : List UInt8) (source text : Text) (w v : World),
      (readResponse input source).run w = (.ok text, v) →
        ∃ bytes s, ((responseBytes input source).run w).1 = .ok bytes ∧ Utf8.Decodes bytes s ∧
          text = unified (ofChars s) ∧ Directive.parse text = Directive.parse (ofChars s) := by
  refine ⟨fun a boundary b hb => Directive.parse_append hb a b, Directive.parse_unified, ?_⟩
  intro input source text w v h
  obtain ⟨bytes, s, hb, hd, rfl⟩ := readResponse_decoded h
  rw [← unified_ofChars]
  exact ⟨bytes, s, hb, hd, rfl, Directive.parse_unified _⟩

/-- The break runs together with the carriage return before it, and two more breaks follow. -/
theorem parse_parts_joined :
    IsBreak "\n" ∧
    Directive.parse (("a -> b: x\r" : Text) ++ ("\n" : Text) ++ ("\n\u2028c -> d" : Text)) =
      Directive.parse "a -> b: x\r" ++ Directive.parse "\n\u2028c -> d" ∧
    Directive.parse "a -> b: x\r" ++ Directive.parse "\n\u2028c -> d" =
      [⟨"a", "b", "x"⟩, ⟨"c", "d", ""⟩] := by
  have hb : IsBreak "\n" := .single (by decide)
  exact ⟨hb, parse_parts.1 _ _ _ hb, by decide⟩

end Command
end SymbolRename
