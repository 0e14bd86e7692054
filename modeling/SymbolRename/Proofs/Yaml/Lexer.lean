import SymbolRename.Proofs.Yaml.Scan

/-!
# Which faults stand among the tokens

Cutting tokens moves the cursor on in the text, and a fault becomes a token only where the cutting
runs into it. So every fault among the tokens of a text is one of cutting it.
-/

set_option autoImplicit false

namespace SymbolRename.Yaml
open Scan

namespace Lexer
variable {text : List Char} {l : Lexer}

/-- The cursor is in the text, and every fault among the tokens is one of cutting it. -/
structure Sound (text : List Char) (l : Lexer) : Prop where
  cursor : l.cursor.Within text
  tokens : ∀ f, Token.broken f ∈ l.tokens → CutFault text f

abbrev Advances (text : List Char) (r : Except Fault Lexer) : Prop :=
  Yields (CutFault text) (Sound text) r

theorem Sound.push (h : l.Sound text) {t : Token} (ht : ∀ f, t = .broken f → CutFault text f) :
    (l.push t).Sound text := by
  refine ⟨h.cursor, fun f hf => ?_⟩
  rcases List.mem_cons.mp hf with hf | hf
  · exact ht f hf.symm
  · exact h.tokens f hf

theorem Sound.scan (h : l.Sound text) {α : Type} {Q : α → Prop} {work : Scan α}
    (hw : CutsFor text Q work) :
    Yields (CutFault text) (fun p => Q p.1 ∧ p.2.Sound text) (l.scan work) :=
  (hw l.cursor h.cursor).bind fun _ hp => ⟨hp.1, hp.2, h.tokens⟩

theorem Sound.skip (h : l.Sound text) (n : ℕ) : Advances text (l.skip n) :=
  (h.scan (skip_cuts n)).bind fun _ hp => hp.2

theorem Sound.toToken (h : l.Sound text) : Advances text l.toToken := by
  have work : Cuts text (do
      passMark
      filler (← bound)) :=
    passMark_cuts.bind fun _ => bound_cuts.bind fun n => filler_cuts n
  exact (h.scan work).bind fun p hp => ⟨hp.2.cursor, hp.2.tokens⟩

theorem Sound.dropStale (h : l.Sound text) : Advances text l.dropStale := by
  rw [Lexer.dropStale]
  split
  · exact .unreadable
  · exact ⟨h.cursor, h.tokens⟩

theorem Sound.closeTo (h : l.Sound text) (column : ℤ) (n : ℕ) :
    (closeTo column n l).Sound text := by
  induction n generalizing l with
  | zero => exact h
  | succ n ih =>
    rw [Lexer.closeTo]
    split
    · have hp := h.push (t := .blockEnd) nofun
      exact ih ⟨hp.cursor, hp.tokens⟩
    · exact h

theorem Sound.unwind (h : l.Sound text) (column : ℤ) : (l.unwind column).Sound text :=
  h.closeTo column _

theorem Sound.addIndent (h : l.Sound text) (column : ℤ) : (l.addIndent column).2.Sound text := by
  rw [Lexer.addIndent]
  split
  · exact ⟨h.cursor, h.tokens⟩
  · exact h

theorem Sound.removeKey (h : l.Sound text) : Advances text l.removeKey := by
  rw [Lexer.removeKey]
  split
  · exact .unreadable
  · exact ⟨h.cursor, h.tokens⟩

theorem Sound.saveKey (h : l.Sound text) : Advances text l.saveKey := by
  rw [Lexer.saveKey]
  split
  · exact h
  · exact h.removeKey.bind fun l hl => ⟨hl.cursor, hl.tokens⟩

/-! ## Tokens -/

theorem Sound.edge (h : l.Sound text) : Advances text l.edge :=
  (h.unwind (-1)).removeKey.bind fun _ hl => ⟨hl.cursor, hl.tokens⟩

/-- Only a token for a fault is to be watched. -/
theorem Sound.pushed (h : l.Sound text) {t : Token} (ht : ∀ f, t ≠ .broken f) :
    (l.push t).Sound text := h.push fun f hf => absurd hf (ht f)

theorem Sound.documentMark (h : l.Sound text) {t : Token} (ht : ∀ f, t ≠ .broken f) :
    Advances text (l.documentMark t) :=
  h.edge.bind fun _ hl => (hl.skip 3).bind fun _ hl => hl.pushed ht

theorem Sound.openFlow (h : l.Sound text) {t : Token} (ht : ∀ f, t ≠ .broken f) :
    Advances text (l.openFlow t) := by
  refine h.saveKey.bind fun l hl => (hl.skip 1).bind fun l hl => ?_
  exact ⟨(hl.pushed ht).cursor, (hl.pushed ht).tokens⟩

theorem Sound.closeFlow (h : l.Sound text) {t : Token} (ht : ∀ f, t ≠ .broken f) :
    Advances text (l.closeFlow t) := by
  refine h.removeKey.bind fun l hl => ?_
  dsimp only
  split
  · exact .unreadable
  · refine (hl.skip 1).bind fun l hl => ?_
    exact ⟨(hl.pushed ht).cursor, (hl.pushed ht).tokens⟩

theorem Sound.flowEntry (h : l.Sound text) : Advances text l.flowEntry := by
  refine h.removeKey.bind fun l hl => (hl.skip 1).bind fun l hl => ?_
  have hp := hl.pushed (t := .flowEntry) nofun
  exact ⟨hp.cursor, hp.tokens⟩

theorem Sound.openBlock (h : l.Sound text) {t : Token} (ht : ∀ f, t ≠ .broken f) :
    Advances text (l.openBlock t) := by
  rw [Lexer.openBlock]
  split
  · exact h
  · split
    · exact .unreadable
    · have hi := h.addIndent l.cursor.column
      split
      · next he =>
        rw [he] at hi
        exact hi.pushed ht
      · next he =>
        rw [he] at hi
        exact hi

theorem Sound.blockEntry (h : l.Sound text) : Advances text l.blockEntry := by
  refine (h.openBlock (t := .sequenceStart) nofun).bind fun l hl => hl.removeKey.bind fun l hl => ?_
  refine (hl.skip 1).bind fun l hl => ?_
  have hp := hl.pushed (t := .blockEntry) nofun
  exact ⟨hp.cursor, hp.tokens⟩

theorem Sound.announcedKey (h : l.Sound text) : Advances text l.announcedKey := by
  refine (h.openBlock (t := .mappingStart) nofun).bind fun l hl => hl.removeKey.bind fun l hl => ?_
  refine (hl.skip 1).bind fun l hl => ?_
  have hp := hl.pushed (t := .key) nofun
  exact ⟨hp.cursor, hp.tokens⟩

theorem Sound.value (h : l.Sound text) : Advances text l.value := by
  have indented (k : PossibleKey) (l : Lexer) (hl : l.Sound text) :
      (if l.inFlow then (false, l) else l.addIndent k.column).2.Sound text := by
    split
    · exact hl
    · exact hl.addIndent k.column
  rw [Lexer.value]
  split
  · next k _ =>
    have hi := indented k { l with keys := l.keys.filter (·.1 ≠ l.flow) } ⟨h.cursor, h.tokens⟩
    dsimp only
    refine Yields.bind (P := Sound text) (Sound.skip ?_ 1) fun l hl => hl.pushed nofun
    exact ⟨hi.cursor, hi.tokens⟩
  · refine (h.openBlock (t := .mappingStart) nofun).bind fun l hl => ?_
    refine hl.removeKey.bind fun l hl => (hl.skip 1).bind fun l hl => ?_
    have hp := hl.pushed (t := .value) nofun
    exact ⟨hp.cursor, hp.tokens⟩

theorem Sound.nodeToken (h : l.Sound text) {read : Scan Token}
    (hr : CutsFor text (fun t => ∀ f, t ≠ .broken f) read) : Advances text (l.nodeToken read) := by
  refine h.saveKey.bind fun l hl => (hl.scan hr).bind fun p hp => ?_
  exact ⟨(hp.2.pushed hp.1).cursor, (hp.2.pushed hp.1).tokens⟩

theorem Sound.directive (h : l.Sound text) : Advances text l.directive :=
  h.edge.bind fun _ hl => (hl.scan directiveLine_cuts).bind fun _ hp => hp.2.pushed nofun

theorem Sound.block (h : l.Sound text) (folded : Bool) : Advances text (l.block folded) := by
  have ha : Sound text { l with allowKey := true } := ⟨h.cursor, h.tokens⟩
  refine ha.removeKey.bind fun l hl => ?_
  exact (hl.scan (blockScalar_cuts folded l.indent)).bind fun _ hp => hp.2.pushed nofun

theorem Sound.quoted (h : l.Sound text) (double : Bool) : Advances text (l.quoted double) := by
  refine h.nodeToken ?_
  refine next_cuts.bind fun _ => bound_cuts.bind fun n => ?_
  exact (quotedScalar_cuts double n).bind fun _ => safe_pure nofun

theorem Sound.plain (h : l.Sound text) : Advances text l.plain := by
  refine h.saveKey.bind fun l hl => ?_
  have work : Cuts text (do
      plainScalar l.inFlow (l.indent + 1).toNat (← bound) [] false) :=
    bound_cuts.bind fun n => plainScalar_cuts _ _ n _ _
  refine (hl.scan work).bind fun p hp => ?_
  have hs := hp.2.pushed (t := .scalar (Text.ofChars p.1.1) true) nofun
  exact ⟨hs.cursor, hs.tokens⟩

theorem Sound.signToken (h : l.Sound text) (x : Char) : Advances text (l.signToken x) := by
  rw [Lexer.signToken]
  split
  · split
    · exact h.announcedKey
    · exact h.value
  · refine (h.scan (peekAt_cuts 1)).bind fun p hp => ?_
    dsimp only
    split
    · split
      · exact hp.2.blockEntry
      · split
        · exact hp.2.announcedKey
        · exact hp.2.value
    · split
      · exact hp.2.plain
      · exact .unreadable

theorem Sound.marginToken (h : l.Sound text) (x : Char) :
    Yields (CutFault text) (fun r => ∀ l ∈ r, Sound text l) (l.marginToken? x) := by
  rw [marginToken?]
  split
  · exact nofun
  · split
    · refine h.directive.bind fun l hl => ?_
      rintro _ ⟨⟩
      exact hl
    · have marked : Cuts text (if x = '-' || x = '.' then atMarker x else return false) := by
        split
        · exact atMarker_cuts x
        · exact safe_pure trivial
      refine (h.scan marked).bind fun p hp => ?_
      dsimp only
      split
      · refine (hp.2.documentMark ?_).bind fun l hl => ?_
        · split <;> nofun
        · rintro _ ⟨⟩
          exact hl
      · exact nofun

theorem advances_ite {p : Prop} [Decidable p] {r r' : Except Fault Lexer} (h : Advances text r)
    (h' : Advances text r') : Advances text (if p then r else r') := by
  split
  · exact h
  · exact h'

theorem Sound.token (h : l.Sound text) (x : Char) : Advances text (l.token x) := by
  have named (make : String → Token) (hm : ∀ s f, make s ≠ .broken f) :
      Advances text (l.nodeToken do return make (← nameOf)) :=
    h.nodeToken (nameOf_cuts.bind fun s => safe_pure (hm s))
  rw [Lexer.token]
  refine (h.marginToken x).bind fun r hr => ?_
  split
  · exact hr _ rfl
  · exact advances_ite (h.openFlow nofun) <| advances_ite (h.openFlow nofun) <|
      advances_ite (h.closeFlow nofun) <| advances_ite (h.closeFlow nofun) <|
      advances_ite h.flowEntry <| advances_ite (h.signToken x) <|
      advances_ite (named .alias nofun) <| advances_ite (named .anchor nofun) <|
      advances_ite (h.nodeToken tag_cuts) <| advances_ite (h.block false) <|
      advances_ite (h.block true) <| advances_ite (h.quoted false) <|
      advances_ite (h.quoted true) <| advances_ite h.plain .unreadable

theorem Sound.step (h : l.Sound text) :
    Yields (CutFault text) (fun p => p.2.Sound text) l.step := by
  rw [Lexer.step]
  refine h.dropStale.bind fun l hl => hl.toToken.bind fun l hl => hl.dropStale.bind fun l hl => ?_
  refine ((hl.unwind l.cursor.column).scan peek_cuts).bind fun ⟨x, l⟩ hp => ?_
  dsimp only
  split
  · exact (hp.2.unwind (-1)).removeKey.bind fun l hl => hl
  · exact (hp.2.token _).bind fun l hl => hl

theorem Sound.breakOff (h : l.Sound text) {f : Fault} (hf : CutFault text f) :
    (l.breakOff f).Sound text := by
  -- tokens are given up here, and none is added but the fault
  have usable : Sound text { l with tokens := l.tokens.drop (l.count - l.firstPending),
                                    count := l.firstPending } :=
    ⟨h.cursor, fun f hm => h.tokens f (List.mem_of_mem_drop hm)⟩
  refine usable.push ?_
  rintro _ ⟨⟩
  exact hf

theorem Sound.run (h : l.Sound text) (n : ℕ) : (run n l).Sound text := by
  induction n generalizing l with
  | zero =>
    refine h.push ?_
    rintro _ ⟨⟩
    exact .unreadable
  | succ n ih =>
    have hs := h.step
    rw [Lexer.run]
    split
    · next he =>
      rw [he] at hs
      exact hs
    · next he =>
      rw [he] at hs
      exact ih hs
    · next he =>
      rw [he] at hs
      exact h.breakOff hs

theorem mem_merge {marks : List KeyMark} {n : ℕ} {ts : List Token} {f : Fault}
    (h : Token.broken f ∈ merge marks n ts) : Token.broken f ∈ ts := by
  induction ts generalizing n with
  | nil => exact h
  | cons t ts ih =>
    rw [merge] at h
    split at h
    · next m _ =>
      rcases List.mem_append.mp h with h | h
      · -- what announces a key is no fault
        split at h <;> simp at h
      · rcases List.mem_cons.mp h with rfl | h
        · exact List.mem_cons_self
        · exact List.mem_cons_of_mem _ (ih h)
    · rcases List.mem_cons.mp h with rfl | h
      · exact List.mem_cons_self
      · exact List.mem_cons_of_mem _ (ih h)

end Lexer

/-- The fault in the tokens of a text is one of cutting it. -/
theorem tokens_broken {s : Supply} (hs : ∀ f ∈ s.ending, f = .unreadable) {f : Fault}
    (h : Token.broken f ∈ tokens s) : CutFault s.chars f := by
  have start : (Lexer.start s).Sound s.chars := ⟨⟨List.suffix_refl _, hs⟩, nofun⟩
  exact (start.run _).tokens f (List.mem_reverse.mp (Lexer.mem_merge h))

end SymbolRename.Yaml
