import SymbolRename.Proofs.Task
import SymbolRename.Proofs.Text.Numeral
import SymbolRename.Proofs.Yaml.Safe
import SymbolRename.Yaml.Lexer
import Mathlib.Data.List.Infix
import Mathlib.Data.List.TakeWhile

/-!
# Which faults cutting a text runs into

A cursor moves on in a text, and what is read at it stands in the text. Besides what breaks the
rules of the language only two things stop it: a code in double quotes that is too large, behind a
backslash and a `U`, and a version number that is too long.
-/

set_option autoImplicit false

namespace SymbolRename.Yaml
open Text Scan

inductive CutFault (text : List Char) : Fault → Prop
  | unreadable : CutFault text .unreadable
  | beyondCharacters : '\\' ∈ text → 'U' ∈ text → CutFault text .beyondCharacters
  | beyondWord : '\\' ∈ text → 'U' ∈ text → CutFault text .beyondWord
  | noNumber : Lexer.digitLimit < text.countP Char.isDigit → CutFault text .noNumber

/-- A cursor in a text that is supplied to its end, or up to what no document may hold. -/
structure Cursor.Within (text : List Char) (c : Cursor) : Prop where
  rest : c.rest <:+ text
  ending : ∀ f ∈ c.ending, f = .unreadable

/-- Work at a cursor in a text, which gives what has a property. -/
abbrev CutsFor {α : Type} (text : List Char) (Q : α → Prop) (work : Scan α) : Prop :=
  SafeFor (CutFault text) (Cursor.Within text) Q work

abbrev Cuts {α : Type} (text : List Char) (work : Scan α) : Prop :=
  Safe (CutFault text) (Cursor.Within text) work

section Cursor
variable {text : List Char} {c : Cursor}

theorem Cursor.Within.next (h : c.Within text) : c.next.Within text := by
  rw [Cursor.next]
  split
  · exact h
  · next x rest hr =>
    have hs : rest <:+ text := (List.suffix_cons x rest).trans (hr ▸ h.rest)
    split
    · exact ⟨hs, h.ending⟩
    · exact ⟨hs, h.ending⟩

theorem Cursor.Within.skip (h : c.Within text) (n : ℕ) : (c.skip n).Within text := by
  induction n generalizing c with
  | zero => exact h
  | succ n ih => exact ih h.next

theorem Cursor.Within.check (h : c.Within text) (rest : List Char) :
    Yields (CutFault text) (fun _ => True) (c.check rest) := by
  rw [Cursor.check.eq_def]
  split
  · next he =>
    rw [h.ending _ he]
    exact .unreadable
  · trivial

end Cursor

section Scan
variable {text : List Char}

def From (text : List Char) (x : Option Char) : Prop := ∀ a ∈ x, a ∈ text

theorem peekAt_from (n : ℕ) : CutsFor text (From text) (peekAt n) := by
  rw [peekAt]
  refine safe_get.bind fun c hc => ?_
  refine (safe_lift (hc.check _)).bind fun _ _ => safe_pure ?_
  intro a ha
  exact hc.rest.subset (List.drop_subset _ _ (List.mem_of_mem_head? ha))

theorem peek_from : CutsFor text (From text) peek := peekAt_from 0

theorem peekAt_cuts (n : ℕ) : Cuts text (peekAt n) := (peekAt_from n).safe

theorem peek_cuts : Cuts text peek := peekAt_cuts 0

theorem lookahead_cuts (n : ℕ) : Cuts text (lookahead n) := by
  rw [lookahead]
  refine safe_get.bind fun c hc => ?_
  exact (safe_lift (hc.check _)).bind fun _ _ => safe_pure trivial

theorem skip_cuts (n : ℕ) : Cuts text (Scan.skip n) := by
  rw [Scan.skip]
  refine (safe_modify fun c hc => hc.skip n).bind fun _ => ?_
  exact safe_get.bind fun c hc => safe_lift (hc.check _)

theorem next_cuts : Cuts text Scan.next := skip_cuts 1

/-- A run of characters is taken off the text. -/
theorem run_taken (p : Char → Bool) :
    CutsFor text (fun taken => taken.Sublist text ∧ ∀ c ∈ taken, p c = true) (run p) := by
  rw [Scan.run]
  refine safe_get.bind fun c hc => (skip_cuts _).bind fun _ => safe_pure ⟨?_, ?_⟩
  · exact (List.takeWhile_sublist p).trans hc.rest.sublist
  · exact fun x hx => List.mem_takeWhile_imp hx

theorem run_cuts (p : Char → Bool) : Cuts text (run p) := (run_taken p).safe

theorem pass_cuts (p : Char → Bool) : Cuts text (pass p) :=
  (run_cuts p).bind fun _ => safe_pure trivial

theorem fail_cuts {α : Type} {Q : α → Prop} : CutsFor text Q (fail : Scan α) :=
  safe_throw .unreadable

theorem fail_first {α β : Type} {Q : β → Prop} {next : α → Scan β} :
    CutsFor text Q ((fail : Scan α) >>= next) := safe_throw_first .unreadable

theorem bound_cuts : Cuts text bound := safe_get.bind fun _ _ => safe_pure trivial

theorem takeBreak_cuts : Cuts text takeBreak := by
  rw [takeBreak]
  refine peek_cuts.bind fun x => ?_
  split
  · split
    · exact next_cuts.bind fun _ => safe_pure trivial
    · exact safe_pure trivial
  · exact safe_pure trivial

theorem atMarker_cuts (x : Char) : Cuts text (atMarker x) := by
  rw [atMarker]
  refine (lookahead_cuts 3).bind fun s => ?_
  split
  · exact (peekAt_cuts 3).bind fun _ => safe_pure trivial
  · exact safe_pure trivial

theorem atDocumentMark_cuts : Cuts text atDocumentMark := by
  rw [atDocumentMark]
  refine (atMarker_cuts '-').bind fun b => ?_
  split
  · exact safe_pure trivial
  · exact atMarker_cuts '.'

/-! ## Scalars in quotes -/

theorem quotedBreaks_cuts (n : ℕ) : Cuts text (quotedBreaks n) := by
  induction n with
  | zero => exact safe_pure trivial
  | succ n ih =>
    rw [quotedBreaks]
    refine atDocumentMark_cuts.bind fun b => ?_
    split
    · exact fail_first
    · refine (pass_cuts isBlank).bind fun _ => takeBreak_cuts.bind fun b => ?_
      split
      · exact safe_pure trivial
      · exact ih.bind fun _ => safe_pure trivial

theorem quotedSpace_cuts : Cuts text quotedSpace := by
  rw [quotedSpace]
  refine (run_cuts isBlank).bind fun blanks => peek_cuts.bind fun x => ?_
  split
  · exact fail_first
  · refine takeBreak_cuts.bind fun b => ?_
    split
    · exact safe_pure trivial
    · exact bound_cuts.bind fun n => (quotedBreaks_cuts n).bind fun _ => safe_pure trivial

/-- So many digits, each of them hexadecimal. -/
theorem digitsAt_digits (place count : ℕ) :
    CutsFor text (fun s => s.length = count ∧ ∀ c ∈ s, isHexDigit c = true)
      (digitsAt place count) := by
  induction count generalizing place with
  | zero => exact safe_pure ⟨rfl, nofun⟩
  | succ count ih =>
    rw [digitsAt]
    refine (peekAt_cuts place).bind fun x => ?_
    split
    · split
      · next hc =>
        refine (ih (place + 1)).bind fun s hs => safe_pure ⟨congrArg (· + 1) hs.1, ?_⟩
        exact List.forall_mem_cons.mpr ⟨hc, hs.2⟩
      · exact fail_cuts
    · exact fail_cuts

theorem digitsAt_cuts (place count : ℕ) : Cuts text (digitsAt place count) :=
  (digitsAt_digits place count).safe

/-- Only eight digits give a code that may be too large. -/
theorem codePoint_yields (hb : '\\' ∈ text) {x : Char} (hx : x ∈ text) {width : ℕ}
    (hw : codeWidth? x = some width) {s : List Char} (hl : s.length = width)
    (hs : ∀ c ∈ s, isHexDigit c = true) :
    Yields (CutFault text) (fun _ => True) (codePoint (digitsValue 16 s)) := by
  have hv : digitsValue 16 s < 16 ^ width := hl ▸ digitsValue_lt hs
  rw [codePoint]
  by_cases small : width ≤ 4
  · have hp : 16 ^ width ≤ 16 ^ 4 := Nat.pow_le_pow_right (by decide) small
    -- four digits stay below the last character
    rw [if_pos (by omega)]
    trivial
  · have hu : x = 'U' := by
      rw [codeWidth?.eq_def] at hw
      split at hw <;> cases hw
      · exact absurd (by decide) small
      · exact absurd (by decide) small
      · rfl
    split
    · trivial
    · split
      · exact .beyondCharacters hb (hu ▸ hx)
      · exact .beyondWord hb (hu ▸ hx)

theorem quotedEscape_cuts (hb : '\\' ∈ text) : Cuts text quotedEscape := by
  rw [quotedEscape]
  refine peek_from.bind fun x hx => ?_
  split
  · split
    · exact next_cuts.bind fun _ => safe_pure trivial
    · next width _ hw =>
      refine next_cuts.bind fun _ => (digitsAt_digits 0 width).bind fun s hs => ?_
      refine (safe_lift (codePoint_yields hb (hx _ rfl) hw hs.1 hs.2)).bind fun c _ => ?_
      exact (skip_cuts width).bind fun _ => safe_pure trivial
    · refine takeBreak_cuts.bind fun b => ?_
      split
      · exact fail_cuts
      · exact bound_cuts.bind fun n => (quotedBreaks_cuts n).bind fun _ => safe_pure trivial
  · exact fail_cuts

theorem quotedScalar_cuts (double : Bool) (n : ℕ) : Cuts text (quotedScalar double n) := by
  induction n with
  | zero => exact fail_cuts
  | succ n ih =>
    have more (s : Text) : Cuts text (do return s ++ (← quotedScalar double n)) :=
      ih.bind fun _ => safe_pure trivial
    rw [quotedScalar]
    refine peek_from.bind fun x hx => ?_
    split
    · next x =>
      split
      · exact quotedSpace_cuts.bind fun s => more _
      · split
        · exact next_cuts.bind fun _ => safe_pure trivial
        · split
          · next hd =>
            have hb : '\\' ∈ text := by
              rw [Bool.and_eq_true, decide_eq_true_eq] at hd
              exact hd.2 ▸ hx x rfl
            exact next_cuts.bind fun _ => (quotedEscape_cuts hb).bind fun s => more s
          · split
            · refine (peekAt_cuts 1).bind fun y => ?_
              split
              · exact (skip_cuts 2).bind fun _ => more ['\x27']
              · exact next_cuts.bind fun _ => safe_pure trivial
            · split
              · exact (run_cuts isQuotedPlain).bind fun s => more _
              · exact next_cuts.bind fun _ => more [x]
    · exact fail_cuts

/-! ## Plain scalars -/

theorem plainLength_yields (inFlow : Bool) {c : Cursor} (hc : c.Within text) (n : ℕ)
    (s : List Char) : Yields (CutFault text) (fun _ => True) (plainLength inFlow c n s) := by
  induction s generalizing n with
  | nil => exact (hc.check []).bind fun _ _ => trivial
  | cons x s ih =>
    rw [plainLength]
    dsimp only
    split
    · trivial
    · split
      · refine (hc.check s).bind fun _ _ => ?_
        split
        · trivial
        · exact ih (n + 1)
      · exact ih (n + 1)

theorem plainWord_cuts (inFlow : Bool) : Cuts text (plainWord inFlow) := by
  rw [plainWord]
  refine safe_get.bind fun c hc => ?_
  refine (safe_lift (plainLength_yields inFlow hc 0 c.rest)).bind fun n _ => ?_
  exact (skip_cuts n).bind fun _ => safe_pure trivial

theorem plainBreaks_cuts (n : ℕ) : Cuts text (plainBreaks n) := by
  induction n with
  | zero => exact safe_pure trivial
  | succ n ih =>
    rw [plainBreaks]
    refine (pass_cuts _).bind fun _ => takeBreak_cuts.bind fun b => ?_
    split
    · exact safe_pure trivial
    · refine atDocumentMark_cuts.bind fun b => ?_
      split
      · exact safe_pure trivial
      · exact ih.bind fun _ => safe_pure trivial

theorem plainSpace_cuts : Cuts text plainSpace := by
  rw [plainSpace]
  refine (run_cuts _).bind fun blanks => takeBreak_cuts.bind fun b => ?_
  split
  · exact safe_pure trivial
  · refine atDocumentMark_cuts.bind fun b => ?_
    split
    · exact safe_pure trivial
    · refine bound_cuts.bind fun n => (plainBreaks_cuts n).bind fun bs => ?_
      split
      · exact safe_pure trivial
      · exact safe_pure trivial

theorem plainScalar_cuts (inFlow : Bool) (indent n : ℕ) (before : List Char) (broken : Bool) :
    Cuts text (plainScalar inFlow indent n before broken) := by
  induction n generalizing before broken with
  | zero => exact safe_pure trivial
  | succ n ih =>
    rw [plainScalar]
    refine peek_cuts.bind fun x => ?_
    split
    · exact safe_pure trivial
    · refine (plainWord_cuts inFlow).bind fun word => ?_
      split
      · exact safe_pure trivial
      · refine plainSpace_cuts.bind fun ⟨space, ended⟩ => peek_cuts.bind fun y => ?_
        refine safe_get.bind fun c _ => ?_
        split
        · exact safe_pure trivial
        · exact (ih space ended).bind fun _ => safe_pure trivial

/-! ## Blocks -/

theorem passIndent_cuts (indent n : ℕ) : Cuts text (passIndent indent n) := by
  induction n with
  | zero => exact safe_pure trivial
  | succ n ih =>
    rw [passIndent]
    refine safe_get.bind fun c _ => peek_cuts.bind fun x => ?_
    split
    · exact next_cuts.bind fun _ => ih
    · exact safe_pure trivial

theorem blockBreaks_cuts (indent n : ℕ) : Cuts text (blockBreaks indent n) := by
  induction n with
  | zero => exact safe_pure trivial
  | succ n ih =>
    rw [blockBreaks]
    refine (passIndent_cuts indent indent).bind fun _ => takeBreak_cuts.bind fun b => ?_
    split
    · exact safe_pure trivial
    · exact ih.bind fun _ => safe_pure trivial

theorem blockIndent_cuts (n widest : ℕ) : Cuts text (blockIndent n widest) := by
  induction n generalizing widest with
  | zero => exact safe_pure trivial
  | succ n ih =>
    rw [blockIndent]
    refine peek_cuts.bind fun x => ?_
    split
    · exact next_cuts.bind fun _ => safe_get.bind fun c _ => ih _
    · refine takeBreak_cuts.bind fun b => ?_
      split
      · exact safe_pure trivial
      · exact (ih widest).bind fun _ => safe_pure trivial

theorem insideBlock_cuts (indent : ℕ) : Cuts text (insideBlock indent) := by
  rw [insideBlock]
  refine safe_get.bind fun c _ => ?_
  split
  · exact peek_cuts.bind fun _ => safe_pure trivial
  · exact safe_pure trivial

theorem blockLines_cuts (folded : Bool) (indent n : ℕ) (breaks : List Char) :
    Cuts text (blockLines folded indent n breaks) := by
  induction n generalizing breaks with
  | zero => exact safe_pure trivial
  | succ n ih =>
    rw [blockLines]
    refine (insideBlock_cuts indent).bind fun inside => ?_
    split
    · exact safe_pure trivial
    · refine peek_cuts.bind fun x => (run_cuts _).bind fun line => takeBreak_cuts.bind fun b => ?_
      refine bound_cuts.bind fun m => (blockBreaks_cuts indent m).bind fun bs => ?_
      refine (insideBlock_cuts indent).bind fun inside => ?_
      split
      · exact peek_cuts.bind fun _ => (ih bs).bind fun _ => safe_pure trivial
      · exact safe_pure trivial

theorem chomping_cuts : Cuts text chomping? := by
  rw [chomping?]
  refine peek_cuts.bind fun x => ?_
  split
  · exact next_cuts.bind fun _ => safe_pure trivial
  · exact next_cuts.bind fun _ => safe_pure trivial
  · exact safe_pure trivial

theorem givenIndent_cuts : Cuts text givenIndent := by
  rw [givenIndent]
  refine peek_cuts.bind fun x => ?_
  split
  · split
    · split
      · exact fail_first
      · exact next_cuts.bind fun _ => safe_pure trivial
    · exact safe_pure trivial
  · exact safe_pure trivial

theorem blockHeader_cuts : Cuts text blockHeader := by
  rw [blockHeader]
  refine chomping_cuts.bind fun chomping => ?_
  split
  · exact givenIndent_cuts.bind fun _ => safe_pure trivial
  · refine givenIndent_cuts.bind fun indent => ?_
    split
    · exact chomping_cuts.bind fun _ => safe_pure trivial
    · exact safe_pure trivial

theorem endOfLine_cuts : Cuts text endOfLine := by
  have onward : Cuts text (do
      if !endsLine (← peek) then fail
      let _ ← takeBreak) := by
    refine peek_cuts.bind fun x => ?_
    split
    · exact fail_first
    · exact takeBreak_cuts.bind fun _ => safe_pure trivial
  rw [endOfLine]
  refine (pass_cuts _).bind fun _ => peek_cuts.bind fun x => ?_
  split
  · exact (pass_cuts _).bind fun _ => onward
  · exact onward

theorem blockScalar_cuts (folded : Bool) (outer : ℤ) : Cuts text (blockScalar folded outer) := by
  rw [blockScalar]
  refine next_cuts.bind fun _ => blockHeader_cuts.bind fun ⟨chomping, indent⟩ => ?_
  refine peek_cuts.bind fun x => ?_
  dsimp only
  split
  · exact fail_first
  · refine endOfLine_cuts.bind fun _ => ?_
    split
    · refine bound_cuts.bind fun n => (blockBreaks_cuts _ n).bind fun breaks => ?_
      refine Safe.bind (safe_pure trivial) fun _ => bound_cuts.bind fun n => ?_
      exact (blockLines_cuts folded _ n _).bind fun _ => safe_pure trivial
    · refine bound_cuts.bind fun n => (blockIndent_cuts n 0).bind fun found => ?_
      refine Safe.bind (safe_pure trivial) fun _ => bound_cuts.bind fun n => ?_
      exact (blockLines_cuts folded _ n _).bind fun _ => safe_pure trivial

/-! ## Between tokens -/

theorem fillerLine_cuts : Cuts text Lexer.fillerLine := by
  have onward : Cuts text (do return !(← takeBreak).isEmpty) :=
    takeBreak_cuts.bind fun _ => safe_pure trivial
  rw [Lexer.fillerLine]
  refine (pass_cuts _).bind fun _ => peek_cuts.bind fun x => ?_
  split
  · exact (pass_cuts _).bind fun _ => onward
  · exact onward

theorem filler_cuts (n : ℕ) : Cuts text (Lexer.filler n) := by
  induction n with
  | zero => exact safe_pure trivial
  | succ n ih =>
    rw [Lexer.filler]
    refine fillerLine_cuts.bind fun ended => ?_
    split
    · exact ih.bind fun _ => safe_pure trivial
    · exact safe_pure trivial

theorem passMark_cuts : Cuts text Lexer.passMark := by
  rw [Lexer.passMark]
  refine safe_get.bind fun c _ => peek_cuts.bind fun x => ?_
  split
  · exact next_cuts
  · exact safe_pure trivial

/-! ## Names and tags -/

theorem nameOf_cuts : Cuts text Lexer.nameOf := by
  rw [Lexer.nameOf]
  refine next_cuts.bind fun _ => (run_cuts _).bind fun name => peek_cuts.bind fun x => ?_
  dsimp only
  split
  · exact fail_first
  · exact safe_pure trivial

theorem percentBytes_cuts (n : ℕ) : Cuts text (Lexer.percentBytes n) := by
  induction n with
  | zero => exact safe_pure trivial
  | succ n ih =>
    rw [Lexer.percentBytes]
    refine peek_cuts.bind fun x => ?_
    split
    · exact safe_pure trivial
    · refine next_cuts.bind fun _ => (digitsAt_cuts 0 2).bind fun digits => ?_
      exact (skip_cuts 2).bind fun _ => ih.bind fun _ => safe_pure trivial

theorem uriText_cuts (n : ℕ) : Cuts text (Lexer.uriText n) := by
  induction n with
  | zero => exact safe_pure trivial
  | succ n ih =>
    rw [Lexer.uriText]
    refine (run_cuts _).bind fun plain => peek_cuts.bind fun x => ?_
    split
    · refine bound_cuts.bind fun m => (percentBytes_cuts m).bind fun bytes => ?_
      split
      · exact ih.bind fun _ => safe_pure trivial
      · exact fail_cuts
    · exact safe_pure trivial

theorem uri_cuts : Cuts text Lexer.uri := by
  rw [Lexer.uri]
  refine bound_cuts.bind fun n => (uriText_cuts n).bind fun s => ?_
  split
  · exact fail_first
  · exact safe_pure trivial

theorem handle_cuts : Cuts text Lexer.handle := by
  rw [Lexer.handle]
  refine peek_cuts.bind fun x => ?_
  split
  · exact fail_first
  · refine (peekAt_cuts 1).bind fun y => ?_
    split
    · exact next_cuts.bind fun _ => safe_pure trivial
    · refine next_cuts.bind fun _ => (run_cuts _).bind fun word => peek_cuts.bind fun z => ?_
      split
      · exact fail_first
      · exact next_cuts.bind fun _ => safe_pure trivial

theorem hasHandle_cuts (place n : ℕ) : Cuts text (Lexer.hasHandle place n) := by
  induction n generalizing place with
  | zero => exact safe_pure trivial
  | succ n ih =>
    rw [Lexer.hasHandle]
    refine (peekAt_cuts place).bind fun x => ?_
    split
    · exact safe_pure trivial
    · split
      · exact safe_pure trivial
      · split
        · exact safe_pure trivial
        · exact ih (place + 1)

theorem tagHandle_cuts : Cuts text Lexer.tagHandle := by
  rw [Lexer.tagHandle]
  refine bound_cuts.bind fun n => (hasHandle_cuts 1 n).bind fun has => ?_
  split
  · exact handle_cuts
  · exact next_cuts.bind fun _ => safe_pure trivial

/-- What is read as a tag is no token for a fault. -/
theorem tag_cuts : CutsFor text (fun t => ∀ f, t ≠ Token.broken f) Lexer.tag := by
  have onward (h : Option String) (suffix : String) :
      CutsFor text (fun t => ∀ f, t ≠ Token.broken f) (do
        if !endsField (← peek) then fail
        return .tag h suffix) := by
    refine peek_cuts.bind fun x => ?_
    split
    · exact fail_first
    · exact safe_pure nofun
  rw [Lexer.tag]
  refine (peekAt_cuts 1).bind fun after => ?_
  dsimp only
  split
  · refine (skip_cuts 2).bind fun _ => uri_cuts.bind fun suffix => peek_cuts.bind fun x => ?_
    split
    · exact fail_first
    · exact next_cuts.bind fun _ => onward _ _
  · split
    · exact next_cuts.bind fun _ => onward _ _
    · exact tagHandle_cuts.bind fun h => uri_cuts.bind fun suffix => onward _ _

/-! ## Directives -/

theorem versionPart_cuts : Cuts text Lexer.versionPart := by
  rw [Lexer.versionPart]
  refine (run_taken Char.isDigit).bind fun digits hd => ?_
  dsimp only
  split
  · exact fail_first
  · split
    · next hl =>
      refine safe_throw_first (.noNumber ?_)
      calc Lexer.digitLimit < digits.length := hl
        _ = digits.countP Char.isDigit := (List.countP_eq_length.mpr hd.2).symm
        _ ≤ text.countP Char.isDigit := hd.1.countP_le
    · exact safe_pure trivial

theorem directiveBody_cuts (name : List Char) : Cuts text (Lexer.directiveBody name) := by
  rw [Lexer.directiveBody]
  split
  · refine (pass_cuts _).bind fun _ => versionPart_cuts.bind fun major => ?_
    refine peek_cuts.bind fun x => ?_
    split
    · exact fail_first
    · refine next_cuts.bind fun _ => versionPart_cuts.bind fun minor => ?_
      refine peek_cuts.bind fun y => ?_
      split
      · exact fail_first
      · exact safe_pure trivial
  · split
    · refine (pass_cuts _).bind fun _ => handle_cuts.bind fun h => peek_cuts.bind fun x => ?_
      split
      · exact fail_first
      · refine (pass_cuts _).bind fun _ => uri_cuts.bind fun lead => peek_cuts.bind fun y => ?_
        split
        · exact fail_first
        · exact safe_pure trivial
    · exact (pass_cuts _).bind fun _ => safe_pure trivial

theorem directiveLine_cuts : Cuts text Lexer.directiveLine := by
  rw [Lexer.directiveLine]
  refine next_cuts.bind fun _ => (run_cuts _).bind fun name => peek_cuts.bind fun x => ?_
  split
  · exact fail_first
  · refine (directiveBody_cuts name).bind fun d => endOfLine_cuts.bind fun _ => safe_pure trivial

end Scan
end SymbolRename.Yaml
