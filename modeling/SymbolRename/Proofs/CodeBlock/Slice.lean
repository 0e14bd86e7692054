import SymbolRename.Proofs.CodeBlock.Search
import SymbolRename.Proofs.Identifier
import SymbolRename.Proofs.Text.Lines

/-!
# Code in a response without a fenced block

A response in which no block stands is cut into lines, and the code is some of these, one after
another: from the first line that opens code up to the first one behind it that closes it. What was
taken out in this way comes out again if it is read as a response. That needs some care: a block
might stand in it that did not stand in the response. While line feeds are the only line boundaries,
though, the code is a part of the response, but for a line feed at its very end, and no block ends
with one.
-/

set_option autoImplicit false

namespace SymbolRename.CodeBlock
open Text

def IsBlock (s : Text) : Prop :=
  ∃ label blanks body, (label = [] ∨ label = "c") ∧ Blank blanks ∧
    s = fence ++ (label ++ (blanks ++ .char '\n' :: (body ++ closing)))

def Fenced (s : Text) : Prop := ∃ block, IsBlock block ∧ block <:+: s

theorem Fenced.mono {s t : Text} (h : s <:+: t) : Fenced s → Fenced t :=
  fun ⟨block, hb, hs⟩ => ⟨block, hb, hs.trans h⟩

theorem dropLanguage_blanks {label blanks : Text} (hl : label = [] ∨ label = "c")
    (hb : Blank blanks) (rest : Text) :
    dropLanguage (label ++ (blanks ++ .char '\n' :: rest)) = blanks ++ .char '\n' :: rest := by
  rcases hl with rfl | rfl
  · cases blanks with
    | nil => rfl
    | cons c blanks =>
      rw [List.nil_append, dropLanguage_eq, if_neg]
      rintro ⟨⟩
      exact absurd (hb _ List.mem_cons_self) (by decide)
  · rfl

theorem exists_label (s : Text) :
    ∃ label : Text, (label = [] ∨ label = "c") ∧ s = label ++ dropLanguage s := by
  rw [dropLanguage_eq]
  split
  · next h =>
    obtain ⟨rest, rfl⟩ := List.head?_eq_some_iff.mp h
    exact ⟨"c", .inr rfl, rfl⟩
  · exact ⟨[], .inl rfl, rfl⟩

/-- A body can be read at the start of a text just if a block stands there. -/
theorem bodyAt?_eq_none_iff (s : Text) :
    bodyAt? s = none ↔ ∀ block, IsBlock block → ¬ block <+: s := by
  rw [bodyAt?]
  constructor
  · rintro h _ ⟨label, blanks, body, hl, hb, rfl⟩ ⟨behind, rfl⟩
    simp only [List.append_assoc, List.cons_append] at h
    have hp : fence.isPrefixOf? (fence ++ (label ++ (blanks ++ .char '\n' ::
        (body ++ (closing ++ behind))))) =
        some (label ++ (blanks ++ .char '\n' :: (body ++ (closing ++ behind)))) :=
      List.isPrefixOf?_eq_some_iff_append_eq.mpr rfl
    rw [hp] at h
    change (afterFeeds (dropLanguage _)).findSome? bodyBefore? = none at h
    rw [dropLanguage_blanks hl hb, List.findSome?_eq_none_iff] at h
    have hnone := h _ (mem_afterFeeds.mpr ⟨blanks, hb, rfl⟩)
    apply bodyBefore?_eq_none_iff.mp hnone body.length
    rw [Stands, List.drop_left]
    exact List.prefix_append closing behind
  · intro h
    cases hp : fence.isPrefixOf? s with
    | none => rfl
    | some rest =>
      obtain rfl := List.isPrefixOf?_eq_some_iff_append_eq.mp hp
      change (afterFeeds (dropLanguage rest)).findSome? bodyBefore? = none
      rw [List.findSome?_eq_none_iff]
      intro start hm
      obtain ⟨blanks, hb, hd⟩ := mem_afterFeeds.mp hm
      obtain ⟨label, hl, hr⟩ := exists_label rest
      rw [bodyBefore?_eq_none_iff]
      rintro p ⟨behind, hs⟩
      refine h _ ⟨label, blanks, start.take p, hl, hb, rfl⟩ ⟨behind, ?_⟩
      have he : start.take p ++ (closing ++ behind) = start := by
        rw [hs, List.take_append_drop]
      simp only [List.append_assoc, List.cons_append]
      rw [he, ← hd, ← hr]

theorem fenced?_eq_none_iff_unfenced (s : Text) : fenced? s = none ↔ ¬ Fenced s := by
  rw [fenced?_eq_none_iff]
  simp only [bodyAt?_eq_none_iff]
  constructor
  · rintro h ⟨block, hb, before, behind, rfl⟩
    apply h before.length block hb
    rw [List.append_assoc, List.drop_left]
    exact List.prefix_append block behind
  · intro h i block hb hp
    exact h ⟨block, hb, hp.isInfix.trans (List.drop_suffix i s).isInfix⟩

instance (s : Text) : Decidable (Fenced s) :=
  decidable_of_iff (¬ fenced? s = none) (by rw [fenced?_eq_none_iff_unfenced, not_not])

/-- No block ends with a line feed. -/
theorem fenced_of_concat {s : Text} (h : Fenced (s ++ [.char '\n'])) : Fenced s := by
  obtain ⟨block, hb, hs⟩ := h
  have hlast : block.getLast? = some (.char '\x60') := by
    obtain ⟨label, blanks, body, -, -, rfl⟩ := hb
    have hend : fence ++ (label ++ (blanks ++ .char '\n' :: (body ++ closing))) =
        (fence ++ (label ++ (blanks ++ .char '\n' :: body))) ++ closing := by simp
    rw [hend, List.getLast?_append]
    rfl
  refine ⟨block, hb, ?_⟩
  rcases List.infix_concat_iff.mp hs with hs | hs
  · rcases List.suffix_concat_iff.mp hs with rfl | ⟨t, rfl, -⟩
    · cases hlast
    · rw [List.getLast?_concat] at hlast
      exact absurd hlast (by decide)
  · exact hs

def CallHead (s : Text) : Prop :=
  ∃ name blanks rest, Identifier.Spelled name ∧ Blank blanks ∧
    s = name ++ (blanks ++ .char '(' :: rest)

/-- The line has a brace, or it starts with a call. -/
def OpensCode (line : Text) : Prop := Code.char '\x7b' ∈ trim line ∨ CallHead (trim line)

def ClosesCode (line : Text) : Prop := trim line = "\x7d"

theorem isTail_of_isBlank {c : Code} (h : isBlank c = true) : Identifier.isTail c = false := by
  rw [Bool.eq_false_iff]
  intro ht
  cases c with
  | half n => cases ht
  | char c =>
    rw [Identifier.isBlank_nameTail ((Identifier.isTail_char c).mp ht)] at h
    cases h

theorem isCallHead_iff (s : Text) : isCallHead s = true ↔ CallHead s := by
  rw [isCallHead]
  constructor
  · intro h
    cases hlead : Identifier.lead? s with
    | none =>
      rw [hlead] at h
      cases h
    | some e =>
      obtain ⟨name, rest⟩ := e
      rw [hlead] at h
      obtain ⟨hn, rfl⟩ := Identifier.lead?_some hlead
      obtain ⟨t, ht⟩ := List.head?_eq_some_iff.mp (of_decide_eq_true h)
      refine ⟨name, rest.takeWhile isBlank, t, (Identifier.isName_iff name).mp hn,
        fun c hc => List.mem_takeWhile_imp hc, ?_⟩
      rw [← ht, ← trimStart_split]
  · rintro ⟨name, blanks, rest, hn, hb, rfl⟩
    have hhead : ∀ c ∈ (blanks ++ Code.char '(' :: rest).head?, Identifier.isTail c = false := by
      cases blanks with
      | nil => rintro c ⟨⟩; decide
      | cons d blanks => rintro c ⟨⟩; exact isTail_of_isBlank (hb _ List.mem_cons_self)
    have htrim : trimStart (blanks ++ Code.char '(' :: rest) = .char '(' :: rest :=
      trimStart_blank hb (by rintro c ⟨⟩; decide)
    rw [Identifier.lead?_append ((Identifier.isName_iff name).mpr hn) hhead]
    simp [htrim]

theorem opens_iff (line : Text) : opens line = true ↔ OpensCode line := by
  rw [opens, Bool.or_eq_true, isCallHead_iff, List.contains_iff_mem, OpensCode]

theorem closes_iff (line : Text) : closes line = true ↔ ClosesCode line :=
  decide_eq_true_iff

instance (line : Text) : Decidable (OpensCode line) := decidable_of_iff _ (opens_iff line)

instance (line : Text) : Decidable (ClosesCode line) :=
  inferInstanceAs (Decidable (trim line = "\x7d"))

/-- No line does both. -/
theorem not_closes_of_opens {line : Text} (h : OpensCode line) : ¬ ClosesCode line := by
  intro hc
  rw [ClosesCode] at hc
  rw [OpensCode, ← isCallHead_iff, hc] at h
  revert h
  decide

/-- The lines from the first one that opens code to the first one behind it that closes it, or to
the end. -/
inductive Slice : List Text → List Text → Prop
  | closed {before inside behind : List Text} {first last : Text}
      (skipped : ∀ line ∈ before, ¬ OpensCode line) (opening : OpensCode first)
      (going : ∀ line ∈ inside, ¬ ClosesCode line) (closing : ClosesCode last) :
      Slice (before ++ first :: (inside ++ last :: behind)) (first :: (inside ++ [last]))
  | unclosed {before inside : List Text} {first : Text}
      (skipped : ∀ line ∈ before, ¬ OpensCode line) (opening : OpensCode first)
      (going : ∀ line ∈ inside, ¬ ClosesCode line) :
      Slice (before ++ first :: inside) (first :: inside)

theorem throughClose_open {ls : List Text} (h : ∀ line ∈ ls, ¬ ClosesCode line) :
    throughClose ls = ls := by
  induction ls with
  | nil => rfl
  | cons line ls ih =>
    obtain ⟨hl, hls⟩ := List.forall_mem_cons.mp h
    rw [throughClose, if_neg ((closes_iff line).not.mpr hl), ih hls]

theorem throughClose_closed {inside : List Text} {last : Text}
    (h : ∀ line ∈ inside, ¬ ClosesCode line) (hc : ClosesCode last) (behind : List Text) :
    throughClose (inside ++ last :: behind) = inside ++ [last] := by
  induction inside with
  | nil => rw [List.nil_append, throughClose, if_pos ((closes_iff last).mpr hc)]; rfl
  | cons line inside ih =>
    obtain ⟨hl, hls⟩ := List.forall_mem_cons.mp h
    rw [List.cons_append, throughClose, if_neg ((closes_iff line).not.mpr hl), ih hls]
    rfl

theorem bare_eq {before : List Text} {first : Text} (hb : ∀ line ∈ before, ¬ OpensCode line)
    (hf : OpensCode first) (behind : List Text) :
    bare (before ++ first :: behind) = first :: throughClose behind := by
  have hskip : ∀ line ∈ before, (!opens line) = true := by
    intro line hm
    rw [Bool.not_eq_true', ← Bool.not_eq_true, opens_iff]
    exact hb line hm
  have hopen : ¬ (!opens first) = true := by simp [(opens_iff first).mpr hf]
  rw [bare, List.dropWhile_append_of_pos hskip, List.dropWhile_cons, if_neg hopen, throughClose,
    if_neg ((closes_iff first).not.mpr (not_closes_of_opens hf))]

theorem bare_slice {ls code : List Text} (h : Slice ls code) : bare ls = code := by
  cases h with
  | closed skipped opening going closing =>
    rw [bare_eq skipped opening, throughClose_closed going closing]
  | unclosed skipped opening going => rw [bare_eq skipped opening, throughClose_open going]

theorem exists_first {test : Text → Bool} {ls : List Text} (h : ∃ line ∈ ls, test line = true) :
    ∃ before first behind, ls = before ++ first :: behind ∧
      (∀ line ∈ before, ¬ test line = true) ∧ test first = true := by
  obtain ⟨first, hf⟩ := Option.isSome_iff_exists.mp (List.find?_isSome.mpr h)
  obtain ⟨hfirst, before, behind, rfl, hb⟩ := List.find?_eq_some_iff_append.mp hf
  exact ⟨before, first, behind, rfl, fun line hm => by simpa using hb line hm, hfirst⟩

theorem slice_of_opens {ls : List Text} (h : ∃ line ∈ ls, OpensCode line) : Slice ls (bare ls) := by
  simp only [← opens_iff] at h
  obtain ⟨before, first, behind, rfl, hb, hf⟩ := exists_first h
  simp only [opens_iff] at hb hf
  by_cases hc : ∃ line ∈ behind, ClosesCode line
  · simp only [← closes_iff] at hc
    obtain ⟨inside, last, rest, rfl, hi, hlast⟩ := exists_first hc
    simp only [closes_iff] at hi hlast
    have hs : Slice (before ++ first :: (inside ++ last :: rest)) _ := .closed hb hf hi hlast
    rwa [bare_slice hs]
  · have hs := Slice.unclosed hb hf fun line hm hcl => hc ⟨line, hm, hcl⟩
    rwa [bare_slice hs]

theorem bare_of_unopened {ls : List Text} (h : ∀ line ∈ ls, ¬ OpensCode line) : bare ls = [] := by
  have hskip : ls.dropWhile (!opens ·) = [] := by
    rw [List.dropWhile_eq_nil_iff]
    intro line hm
    rw [Bool.not_eq_true', ← Bool.not_eq_true, opens_iff]
    exact h line hm
  rw [bare, hskip]
  rfl

theorem slice_ne_nil {ls code : List Text} (h : Slice ls code) : code ≠ [] := by
  cases h <;> exact List.cons_ne_nil _ _

theorem bare_within (ls : List Text) : bare ls <:+: ls := by
  by_cases h : ∃ line ∈ ls, OpensCode line
  · have hs := slice_of_opens h
    generalize bare ls = code at hs
    cases hs with
    | @closed before inside behind first last =>
      exact ⟨before, behind, by simp⟩
    | @unclosed before inside first => exact (List.suffix_append before _).isInfix
  · rw [bare_of_unopened fun line hm ho => h ⟨line, hm, ho⟩]
    exact List.nil_infix

/-- The lines that were taken are taken again. -/
theorem bare_bare (ls : List Text) : bare (bare ls) = bare ls := by
  by_cases h : ∃ line ∈ ls, OpensCode line
  · have hs := slice_of_opens h
    generalize bare ls = code at hs
    cases hs with
    | @closed _ inside _ first last _ opening going closing =>
      have hagain : Slice ([] ++ first :: (inside ++ last :: [])) _ :=
        .closed (by simp) opening going closing
      exact bare_slice hagain
    | @unclosed _ inside first _ opening going =>
      have hagain : Slice ([] ++ first :: inside) _ := .unclosed (by simp) opening going
      exact bare_slice hagain
  · rw [bare_of_unopened fun line hm ho => h ⟨line, hm, ho⟩]
    rfl

theorem terminated_cons (line : Text) (ls : List Text) :
    terminated (line :: ls) = line ++ .char '\n' :: terminated ls := by
  simp [terminated, ofString, ofChars]

theorem terminated_append (ls more : List Text) :
    terminated (ls ++ more) = terminated ls ++ terminated more :=
  List.flatMap_append

theorem terminated_ne_nil {ls : List Text} (h : ls ≠ []) : terminated ls ≠ [] := by
  obtain ⟨line, rest, rfl⟩ := List.exists_cons_of_ne_nil h
  simp [terminated_cons]

theorem isLines_terminated {ls : List Text} (h : ∀ line ∈ ls, Unbroken line) :
    IsLines (terminated ls) ls := by
  induction ls with
  | nil => exact .nil
  | cons line ls ih =>
    obtain ⟨hl, hls⟩ := List.forall_mem_cons.mp h
    have hfeed : IsBreak [.char '\n'] := .single (by decide)
    have hs := IsLines.cons hl hfeed (by simp) (ih hls)
    rw [List.append_assoc] at hs
    rwa [terminated_cons]

/-- Line feeds are the only line boundaries in the text. -/
def OnlyFeeds (s : Text) : Prop := ∀ c ∈ lineBreaks, c ≠ '\n' → Code.char c ∉ s

-- By the list, as there are too many characters to try them all.
instance (s : Text) : Decidable (OnlyFeeds s) := List.decidableBAll _ lineBreaks

/-- The lines with their line feeds are the text, where the last line gets one if it has none. -/
theorem terminated_lines {s : Text} (h : OnlyFeeds s) :
    terminated (lines s) = s ∨ terminated (lines s) = s ++ [.char '\n'] := by
  have hl := isLines_lines s
  generalize lines s = ls at hl
  induction hl with
  | nil => exact .inl rfl
  | last _ _ => exact .inr (by rw [terminated_cons]; rfl)
  | @cons line boundary rest ls _ hb _ _ ih =>
    have hrest : OnlyFeeds rest := fun c hc hn hm => h c hc hn (List.mem_append_right _ hm)
    have hfeed : boundary = [.char '\n'] := by
      cases hb with
      | @single c hc =>
        by_cases hn : c = '\n'
        · rw [hn]
        · exact absurd (by simp) (h c hc hn)
      | pair => exact absurd (by simp) (h '\r' (by decide) (by decide))
    rw [terminated_cons, hfeed, List.append_assoc]
    exact (ih hrest).imp (fun he => by rw [he]; rfl) (fun he => by rw [he]; simp)

theorem extract_eq {s : Text} (h : ¬ Fenced s) : extract s = terminated (bare (lines s)) := by
  rw [extract, (fenced?_eq_none_iff_unfenced s).mpr h]

/-- In the code that was taken out there stands no block either. -/
theorem unfenced_code {s : Text} (h : ¬ Fenced s) (hf : OnlyFeeds s) :
    ¬ Fenced (terminated (bare (lines s))) := by
  intro hc
  obtain ⟨before, behind, hl⟩ := bare_within (lines s)
  have hwhole : terminated (bare (lines s)) <:+: terminated (lines s) := by
    conv_rhs => rw [← hl, terminated_append, terminated_append]
    exact List.infix_append _ _ _
  rcases terminated_lines hf with hs | hs
  · rw [hs] at hwhole
    exact h (hc.mono hwhole)
  · rw [hs] at hwhole
    exact h (fenced_of_concat (hc.mono hwhole))

/-- Without a block, the code is empty if no line opens code, and otherwise the lines from the first
one that does to the first one that closes it, each with a line feed behind it. If line feeds are
the only line boundaries of the response, the code that was taken out is its own code. -/
theorem extract_unfenced {s : Text} (unfenced : ¬ Fenced s) :
    (extract s = [] ↔ ∀ line ∈ lines s, ¬ OpensCode line) ∧
    ((∃ line ∈ lines s, OpensCode line) →
      ∃ code, Slice (lines s) code ∧ extract s = terminated code) ∧
    (OnlyFeeds s → extract (extract s) = extract s) := by
  rw [extract_eq unfenced]
  refine ⟨⟨fun h line hm ho => ?_, fun h => ?_⟩, fun h => ?_, fun hf => ?_⟩
  · exact terminated_ne_nil (slice_ne_nil (slice_of_opens ⟨line, hm, ho⟩)) h
  · rw [bare_of_unopened h]
    rfl
  · exact ⟨bare (lines s), slice_of_opens h, rfl⟩
  · have hlines : ∀ line ∈ bare (lines s), Unbroken line := fun line hm =>
      unbroken_of_lines (isLines_lines s) line ((bare_within (lines s)).subset hm)
    rw [extract_eq (unfenced_code unfenced hf), lines_eq (isLines_terminated hlines), bare_bare]

def stray : Text := "See \x60\x60\x60c\nrun (x);\n  \x7d\nmore"

theorem extract_unfenced_stray :
    ¬ Fenced stray ∧ (∃ line ∈ lines stray, OpensCode line) ∧ OnlyFeeds stray ∧
    extract stray = "run (x);\n  \x7d\n" ∧
    (∃ code, Slice (lines stray) code ∧ extract stray = terminated code) ∧
    extract (extract stray) = extract stray := by
  have unfenced : ¬ Fenced stray := by decide
  have opened : ∃ line ∈ lines stray, OpensCode line := by decide
  have feeds : OnlyFeeds stray := by decide
  obtain ⟨-, hslice, hagain⟩ := extract_unfenced unfenced
  exact ⟨unfenced, opened, feeds, by decide, hslice opened, hagain feeds⟩

/-- Other line boundaries become line feeds, and then a block may stand in the code. -/
example : ¬ Fenced "f(\r\x60\x60\x60\rx\r\x60\x60\x60" ∧
    extract (extract "f(\r\x60\x60\x60\rx\r\x60\x60\x60") = "x" := by decide

end SymbolRename.CodeBlock
