import SymbolRename.CodeBlock
import Mathlib.Data.List.Basic
import Mathlib.Data.List.Infix
import Mathlib.Data.List.Sublists
import Mathlib.Data.List.TakeWhile

/-!
# Fenced blocks of a response

A response may be prose with fenced blocks in it, each from an opening fence with a label to a
closing one. Extraction does not pair the fences. It takes the first fence that could open a block,
with no label or the letter c, and the text from there to the next fence at the start of a line that
does not follow the opening one at once. So it gives the body of the first block if that block has
such a label and anything in it; behind a block with another label, or an empty one, it gives prose.
-/

set_option autoImplicit false

namespace SymbolRename.CodeBlock
open Text

structure Block where
  label : Text
  body : List Text

inductive Part where
  | prose (line : Text)
  | block (b : Block)

def Part.lines : Part → List Text
  | .prose line => [line]
  | .block b => (fence ++ b.label) :: (b.body ++ [fence])

def Part.block? : Part → Option Block
  | .prose _ => none
  | .block b => some b

def blocks (parts : List Part) : List Block := parts.filterMap Part.block?

def written (parts : List Part) : Text := joined "\n" (parts.flatMap Part.lines)

/-- A line without a fence in it. -/
structure Plain (line : Text) : Prop where
  single : Code.char '\n' ∉ line
  unfenced : ¬ fence <:+: line

structure Block.Fits (b : Block) : Prop where
  label : ∀ c ∈ b.label, isBlank c = false ∧ c ≠ .char '\x60'
  body : ∀ line ∈ b.body, Plain line

def Part.Fits : Part → Prop
  | .prose line => Plain line
  | .block b => b.Fits

/-- The fences come in pairs, the last of which ends the response. -/
structure Paired (parts : List Part) : Prop where
  fits : ∀ p ∈ parts, p.Fits
  closed : (parts.getLast?.bind Part.block?).isSome

/-- The text is made of lines of the body of one block. -/
def Within (parts : List Part) (s : Text) : Prop :=
  ∃ b ∈ blocks parts, ∃ ls, ls.Sublist b.body ∧ s = joined "\n" ls

def isBlankLine (line : Text) : Bool := line.all isBlank

section Decidable
variable (line s : Text) (b : Block) (p : Part) (parts : List Part)

instance : Decidable (Plain line) :=
  decidable_of_iff (Code.char '\n' ∉ line ∧ ¬ fence <:+: line)
    ⟨fun h => ⟨h.1, h.2⟩, fun h => ⟨h.single, h.unfenced⟩⟩

instance : Decidable b.Fits :=
  decidable_of_iff
    ((∀ c ∈ b.label, isBlank c = false ∧ c ≠ .char '\x60') ∧ ∀ line ∈ b.body, Plain line)
    ⟨fun h => ⟨h.1, h.2⟩, fun h => ⟨h.label, h.body⟩⟩

instance : Decidable p.Fits :=
  match p with
  | .prose line => inferInstanceAs (Decidable (Plain line))
  | .block b => inferInstanceAs (Decidable b.Fits)

instance : Decidable (Paired parts) :=
  decidable_of_iff ((∀ p ∈ parts, p.Fits) ∧ (parts.getLast?.bind Part.block?).isSome)
    ⟨fun h => ⟨h.1, h.2⟩, fun h => ⟨h.fits, h.closed⟩⟩

instance : Decidable (Within parts s) :=
  decidable_of_iff (∃ b ∈ blocks parts, ∃ ls ∈ b.body.sublists', s = joined "\n" ls)
    (by simp only [Within, List.mem_sublists'])

end Decidable

theorem joined_single (separator line : Text) : joined separator [line] = line :=
  List.intercalate_singleton

theorem joined_cons {lines : List Text} (h : lines ≠ []) (line : Text) :
    joined "\n" (line :: lines) = line ++ .char '\n' :: joined "\n" lines := by
  obtain ⟨next, rest, rfl⟩ := List.exists_cons_of_ne_nil h
  rw [joined, joined, List.intercalate_cons_cons, List.append_assoc]
  rfl

theorem joined_append {lines more : List Text} (hl : lines ≠ []) (hm : more ≠ []) :
    joined "\n" (lines ++ more) = joined "\n" lines ++ .char '\n' :: joined "\n" more := by
  induction lines with
  | nil => exact absurd rfl hl
  | cons line lines ih =>
    rw [List.cons_append, joined_cons (List.append_ne_nil_of_right_ne_nil lines hm)]
    by_cases hn : lines = []
    · rw [hn, List.nil_append, joined_single]
    · rw [ih hn, joined_cons hn, List.append_assoc, List.cons_append]

/-- No fence starts in a plain line, however the text goes on behind it. -/
theorem unfenced_from {line s : Text} (h : Plain line) (hs : s <:+ line) (rest : Text) :
    fence.isPrefixOf (s ++ .char '\n' :: rest) = false := by
  rw [Bool.eq_false_iff, ne_eq, List.isPrefixOf_iff_prefix]
  intro hp
  by_cases hl : fence.length ≤ s.length
  · have hw := List.prefix_of_prefix_length_le hp (List.prefix_append s _) hl
    exact h.unfenced (hw.isInfix.trans hs.isInfix)
  · have hl : s.length < 3 := Nat.lt_of_not_le hl
    match s, hl with
    | [], _ => simp [fence, ofString, ofChars] at hp
    | [a], _ => simp [fence, ofString, ofChars] at hp
    | [a, b], _ => simp [fence, ofString, ofChars] at hp

theorem bodyBefore?_close {line : Text} (h : Code.char '\n' ∉ line) (rest : Text) :
    bodyBefore? (line ++ .char '\n' :: (fence ++ rest)) = some line := by
  induction line with
  | nil =>
    have hp : fence.isPrefixOf (fence ++ rest) = true :=
      List.isPrefixOf_iff_prefix.mpr (List.prefix_append fence rest)
    rw [List.nil_append, bodyBefore?, hp]
    rfl
  | cons c line ih =>
    rw [List.mem_cons, not_or] at h
    rw [List.cons_append, bodyBefore?, if_neg (by simp [Ne.symm h.1]), ih h.2]
    rfl

theorem bodyBefore?_line {line rest : Text} (h : Code.char '\n' ∉ line)
    (hr : fence.isPrefixOf rest = false) :
    bodyBefore? (line ++ .char '\n' :: rest) =
      (bodyBefore? rest).map (line ++ .char '\n' :: ·) := by
  induction line with
  | nil => rw [List.nil_append, bodyBefore?, if_neg (by simp [hr])]; rfl
  | cons c line ih =>
    rw [List.mem_cons, not_or] at h
    rw [List.cons_append, bodyBefore?, if_neg (by simp [Ne.symm h.1]), ih h.2, Option.map_map]
    rfl

/-- A body ends at the first fence behind it. -/
theorem bodyBefore?_body {body : List Text} (hn : body ≠ []) (hb : ∀ line ∈ body, Plain line)
    (rest : Text) :
    bodyBefore? (joined "\n" body ++ .char '\n' :: (fence ++ rest)) = some (joined "\n" body) := by
  induction body with
  | nil => exact absurd rfl hn
  | cons line body ih =>
    have hl := hb line List.mem_cons_self
    have hb := fun l h => hb l (List.mem_cons_of_mem line h)
    by_cases he : body = []
    · rw [he, joined_single]
      exact bodyBefore?_close hl.single rest
    · obtain ⟨next, more, rfl⟩ := List.exists_cons_of_ne_nil he
      have hu : fence.isPrefixOf
          (joined "\n" (next :: more) ++ .char '\n' :: (fence ++ rest)) = false := by
        by_cases hm : more = []
        · rw [hm, joined_single]
          exact unfenced_from (hb next List.mem_cons_self) List.suffix_rfl _
        · rw [joined_cons hm, List.append_assoc, List.cons_append]
          exact unfenced_from (hb next List.mem_cons_self) List.suffix_rfl _
      rw [joined_cons he, List.append_assoc, List.cons_append, bodyBefore?_line hl.single hu,
        ih he hb]
      rfl

theorem afterFeeds_blank {line : Text} (hl : Code.char '\n' ∉ line)
    (hb : isBlankLine line = true) (rest : Text) :
    afterFeeds (line ++ .char '\n' :: rest) = afterFeeds rest ++ [rest] := by
  induction line with
  | nil => rfl
  | cons c line ih =>
    rw [List.mem_cons, not_or] at hl
    rw [isBlankLine, List.all_cons, Bool.and_eq_true] at hb
    rw [List.cons_append, afterFeeds, if_pos hb.1, if_neg (Ne.symm hl.1), List.append_nil]
    exact ih hl.2 hb.2

theorem afterFeeds_inked {line : Text} (hl : Code.char '\n' ∉ line)
    (hb : isBlankLine line = false) (rest : Text) : afterFeeds (line ++ rest) = [] := by
  induction line with
  | nil => cases hb
  | cons c line ih =>
    rw [List.mem_cons, not_or] at hl
    rw [List.cons_append, afterFeeds]
    by_cases hc : isBlank c = true
    · rw [if_pos hc, if_neg (Ne.symm hl.1), List.append_nil]
      rw [isBlankLine, List.all_cons, hc, Bool.true_and] at hb
      exact ih hl.2 hb
    · rw [if_neg hc]

/-- The first place that a body is looked for is behind its leading blank lines. -/
theorem afterFeeds_body {body : List Text} (hb : ∀ line ∈ body, Plain line)
    (hi : ∃ line ∈ body, isBlankLine line = false) (rest : Text) :
    ∃ places, afterFeeds (.char '\n' :: (joined "\n" body ++ .char '\n' :: rest)) =
      (joined "\n" (body.dropWhile isBlankLine) ++ .char '\n' :: rest) :: places := by
  have hfeed (s : Text) : afterFeeds (.char '\n' :: s) = afterFeeds s ++ [s] := rfl
  rw [hfeed]
  induction body with
  | nil =>
    obtain ⟨line, hm, -⟩ := hi
    cases hm
  | cons line body ih =>
    have hl := (hb line List.mem_cons_self).single
    have hb := fun l h => hb l (List.mem_cons_of_mem line h)
    cases hk : isBlankLine line with
    | false =>
      rw [List.dropWhile_cons_of_neg (by simp [hk])]
      refine ⟨[], ?_⟩
      by_cases he : body = []
      · rw [he, joined_single, afterFeeds_inked hl hk, List.nil_append]
      · rw [joined_cons he, List.append_assoc, afterFeeds_inked hl hk, List.nil_append]
    | true =>
      have hi : ∃ l ∈ body, isBlankLine l = false := by
        obtain ⟨l, hm, hf⟩ := hi
        rcases List.mem_cons.mp hm with rfl | hm
        · rw [hk] at hf
          cases hf
        · exact ⟨l, hm, hf⟩
      have he : body ≠ [] := by
        rintro rfl
        obtain ⟨l, hm, -⟩ := hi
        cases hm
      obtain ⟨places, hp⟩ := ih hb hi
      rw [List.dropWhile_cons_of_pos hk, joined_cons he, List.append_assoc, List.cons_append,
        afterFeeds_blank hl hk, hp, List.cons_append]
      exact ⟨_, rfl⟩

theorem dropLanguage_label {label : Text} (h : label = [] ∨ label = "c") (rest : Text) :
    dropLanguage (label ++ .char '\n' :: rest) = .char '\n' :: rest := by
  rcases h with rfl | rfl <;> rfl

theorem bodyAt?_fence {s : Text} (h : fence.isPrefixOf s = false) : bodyAt? s = none := by
  rw [← List.isSome_isPrefixOf?_eq_isPrefixOf, Option.isSome_eq_false_iff,
    Option.isNone_iff_eq_none] at h
  rw [bodyAt?, h]
  rfl

theorem bodyAt?_block {b : Block} (hb : ∀ line ∈ b.body, Plain line)
    (hl : b.label = [] ∨ b.label = "c") (hi : ∃ line ∈ b.body, isBlankLine line = false)
    (rest : Text) :
    bodyAt? (fence ++ (b.label ++ .char '\n' :: (joined "\n" b.body ++ .char '\n' ::
      (fence ++ rest)))) = some (joined "\n" (b.body.dropWhile isBlankLine)) := by
  have hp (s : Text) : fence.isPrefixOf? (fence ++ s) = some s :=
    List.isPrefixOf?_eq_some_iff_append_eq.mpr rfl
  have hn : b.body.dropWhile isBlankLine ≠ [] := by
    obtain ⟨line, hm, hf⟩ := hi
    intro he
    have ht := List.dropWhile_eq_nil_iff.mp he line hm
    rw [hf] at ht
    cases ht
  obtain ⟨places, ha⟩ := afterFeeds_body hb hi (fence ++ rest)
  have hbody := bodyBefore?_body hn
    (fun line hm => hb line ((List.dropWhile_sublist isBlankLine).subset hm)) rest
  rw [bodyAt?, hp]
  change (afterFeeds (dropLanguage _)).findSome? bodyBefore? = _
  rw [dropLanguage_label hl, ha, List.findSome?_cons, hbody]

/-- A plain line in front does not matter. -/
theorem fenced?_line {line : Text} (h : Plain line) (rest : Text) :
    fenced? (line ++ .char '\n' :: rest) = fenced? rest := by
  suffices hs : ∀ s, s <:+ line → fenced? (s ++ .char '\n' :: rest) = fenced? rest from
    hs line List.suffix_rfl
  intro s hs
  induction s with
  | nil =>
    have hu := unfenced_from h hs rest
    rw [List.nil_append] at hu ⊢
    rw [fenced?, bodyAt?_fence hu, Option.none_or]
  | cons c s ih =>
    have hu := unfenced_from h hs rest
    rw [List.cons_append] at hu ⊢
    rw [fenced?, bodyAt?_fence hu, Option.none_or]
    exact ih ((List.suffix_cons c s).trans hs)

theorem written_cons {parts : List Part} (hn : parts ≠ []) (p : Part) :
    written (p :: parts) = joined "\n" p.lines ++ .char '\n' :: written parts := by
  have hp (q : Part) : q.lines ≠ [] := by cases q <;> exact List.cons_ne_nil _ _
  obtain ⟨q, rest, rfl⟩ := List.exists_cons_of_ne_nil hn
  rw [written, List.flatMap_cons, joined_append (hp p)]
  · rfl
  · rw [List.flatMap_cons]
    exact List.append_ne_nil_of_left_ne_nil (hp q) _

/-- The lines of a block that has a body, and what follows them. -/
theorem written_block {b : Block} (hn : b.body ≠ []) (parts : List Part) :
    ∃ rest, written (.block b :: parts) =
      fence ++ (b.label ++ .char '\n' ::
        (joined "\n" b.body ++ .char '\n' :: (fence ++ rest))) := by
  have hl : joined "\n" (Part.block b).lines =
      fence ++ (b.label ++ .char '\n' :: (joined "\n" b.body ++ .char '\n' :: fence)) := by
    rw [Part.lines, joined_cons (List.append_ne_nil_of_left_ne_nil hn _),
      joined_append hn (List.cons_ne_nil _ _), joined_single, List.append_assoc]
  by_cases hp : parts = []
  · refine ⟨[], ?_⟩
    rw [hp, written, List.flatMap_singleton, hl, List.append_nil]
  · refine ⟨.char '\n' :: written parts, ?_⟩
    rw [written_cons hp, hl]
    simp only [List.append_assoc, List.cons_append]

/-- If the first block has no label or the letter c, and a line that is not blank, extraction gives
its body from the first such line on, whatever stands before and behind the block. -/
theorem fenced_first_block {parts : List Part} {b : Block} (paired : Paired parts)
    (first : (blocks parts).head? = some b) (label : b.label = [] ∨ b.label = "c")
    (inked : ∃ line ∈ b.body, isBlankLine line = false) :
    fenced? (written parts) = some (joined "\n" (b.body.dropWhile isBlankLine)) ∧
    Within parts (joined "\n" (b.body.dropWhile isBlankLine)) := by
  have hmem : b ∈ blocks parts := List.mem_of_mem_head? first
  refine ⟨?_, b, hmem, _, List.dropWhile_sublist isBlankLine, rfl⟩
  have hfits := paired.fits
  clear paired hmem
  induction parts with
  | nil => cases first
  | cons p parts ih =>
    have hp := hfits p List.mem_cons_self
    cases p with
    | prose line =>
      have hn : parts ≠ [] := by
        rintro rfl
        cases first
      rw [written_cons hn, Part.lines, joined_single, fenced?_line hp]
      exact ih first fun q hq => hfits q (List.mem_cons_of_mem _ hq)
    | block c =>
      cases first
      have hn : b.body ≠ [] := by
        rintro he
        obtain ⟨line, hm, -⟩ := inked
        rw [he] at hm
        cases hm
      obtain ⟨rest, hw⟩ := written_block hn parts
      have hb := bodyAt?_block hp.body label inked rest
      rw [← hw] at hb
      cases hs : written (.block b :: parts) with
      | nil =>
        rw [hs] at hw
        cases hw
      | cons c s =>
        rw [hs] at hb
        rw [fenced?, hb, Option.some_or]

def usual : List Part :=
  [.prose "Code:", .block ⟨"c", [" ", "int x;", ""]⟩, .prose "", .block ⟨"cpp", ["int y;"]⟩]

theorem fenced_first_block_usual :
    Paired usual ∧ (∃ line ∈ [Text.ofString " ", "int x;", ""], isBlankLine line = false) ∧
    fenced? (written usual) = some "int x;\n" := by
  have paired : Paired usual := by decide
  have inked : ∃ line ∈ [Text.ofString " ", "int x;", ""], isBlankLine line = false := by decide
  exact ⟨paired, inked,
    (fenced_first_block (b := ⟨"c", [" ", "int x;", ""]⟩) paired rfl (.inr rfl) inked).1⟩

def tagged : List Part :=
  [.block ⟨"cpp", ["int x;"]⟩, .prose "prose", .block ⟨"", ["int y;"]⟩]

def hollow : List Part :=
  [.block ⟨"c", []⟩, .prose "prose", .block ⟨"c", ["int y;"]⟩]

/-- Prose between two blocks comes out, and a closing fence. -/
theorem fenced_outside_blocks :
    (Paired tagged ∧ fenced? (written tagged) = some "prose" ∧ ¬ Within tagged "prose") ∧
    Paired hollow ∧ fenced? (written hollow) = some "\x60\x60\x60\nprose" ∧
      ¬ Within hollow "\x60\x60\x60\nprose" := by
  decide

end SymbolRename.CodeBlock
