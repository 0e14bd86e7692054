import SymbolRename.Directive
import SymbolRename.Proofs.Identifier
import SymbolRename.Proofs.Text.Lines
import SymbolRename.Proofs.Text.Trim
import Mathlib.Data.List.Forall2
import Mathlib.Data.List.Infix

/-!
# The grammar of directives

A line asks for a rename if, apart from blanks around it, it reads as a name, an arrow, a name that
is not reserved, and perhaps a colon with any text behind it. It can be taken apart in one way only,
whatever else the text behind the colon holds. Parsing a response finds just these lines, in order.
-/

set_option autoImplicit false

namespace SymbolRename.Directive
open Text Identifier

structure Request where
  old : Text
  new : Text
  /-- What stands behind the colon, if there is one. -/
  tail : Option Text

namespace Request

def tailText : Option Text → Text
  | none => []
  | some s => .char ':' :: s

def text (r : Request) : Text := r.old ++ " -> " ++ r.new ++ tailText r.tail

structure Fits (r : Request) : Prop where
  old : Spelled r.old
  new : Spelled r.new
  free : r.new ∉ reserved

def reason : Option Text → Text
  | none => []
  | some s => trim s

def directive (r : Request) : Directive := ⟨r.old, r.new, reason r.tail⟩

theorem lead?_old {r : Request} (hf : r.Fits) :
    lead? r.text = some (r.old, arrow ++ (r.new ++ tailText r.tail)) := by
  rw [← lead?_append ((isName_iff _).mpr hf.old)]
  · simp [text, arrow]
  · intro c hc
    cases hc
    rfl

theorem lead?_new {r : Request} (hf : r.Fits) :
    lead? (r.new ++ tailText r.tail) = some (r.new, tailText r.tail) := by
  apply lead?_append ((isName_iff _).mpr hf.new)
  intro c hc
  cases ht : r.tail <;> rw [ht] at hc <;> cases hc
  rfl

theorem tailText_injective {s t : Option Text} (h : tailText s = tailText t) : s = t := by
  cases s <;> cases t <;> cases h <;> rfl

theorem text_injective {p q : Request} (hp : p.Fits) (hq : q.Fits) (h : p.text = q.text) :
    p = q := by
  have ho := lead?_old hp
  rw [h, lead?_old hq] at ho
  obtain ⟨ho, hr⟩ := Prod.mk.inj (Option.some.inj ho)
  have hn := lead?_new hp
  rw [← List.append_cancel_left hr, lead?_new hq] at hn
  obtain ⟨hn, ht⟩ := Prod.mk.inj (Option.some.inj hn)
  cases p
  cases q
  cases ho
  cases hn
  cases tailText_injective ht
  rfl

theorem reason?_tailText (t : Option Text) : reason? (tailText t) = some (reason t) := by
  cases t <;> rfl

end Request

theorem reason?_some {s reason : Text} (h : reason? s = some reason) :
    ∃ t, s = Request.tailText t ∧ reason = Request.reason t := by
  rw [reason?.eq_def] at h
  split at h
  · cases h
    exact ⟨none, rfl, rfl⟩
  · next rest =>
    cases h
    exact ⟨some rest, rfl, rfl⟩
  · cases h

theorem ofTrimmed?_text {r : Request} (hf : r.Fits) :
    ofTrimmed? r.text = some r.directive := by
  have hv : isValid r.new = true := by
    rw [isValid, (isName_iff _).mpr hf.new]
    simpa using hf.free
  have ha : arrow.isPrefixOf? (arrow ++ (r.new ++ Request.tailText r.tail)) =
      some (r.new ++ Request.tailText r.tail) :=
    List.isPrefixOf?_eq_some_iff_append_eq.mpr rfl
  simp only [ofTrimmed?, Request.lead?_old hf, ha, Request.lead?_new hf,
    Request.reason?_tailText, hv, bind, Option.bind]
  rfl

theorem ofTrimmed?_some {line : Text} {d : Directive} (h : ofTrimmed? line = some d) :
    ∃ r : Request, r.Fits ∧ line = r.text ∧ d = r.directive := by
  simp only [ofTrimmed?, bind, Option.bind_eq_some_iff, Prod.exists] at h
  obtain ⟨old, behind, ho, rest, ha, new, last, hn, reason, hr, hv⟩ := h
  split_ifs at hv with hv'
  cases hv
  obtain ⟨hold, rfl⟩ := lead?_some ho
  obtain ⟨hnew, rfl⟩ := lead?_some hn
  obtain ⟨t, rfl, rfl⟩ := reason?_some hr
  rw [List.isPrefixOf?_eq_some_iff_append_eq] at ha
  have hf : new ∉ reserved := by
    rw [isValid, hnew] at hv'
    simpa using hv'
  have ht : old ++ behind = (⟨old, new, t⟩ : Request).text := by
    rw [← ha]
    simp [Request.text, arrow]
  exact ⟨⟨old, new, t⟩, ⟨(isName_iff _).mp hold, (isName_iff _).mp hnew, hf⟩, ht, rfl⟩

def Asks (line : Text) (d : Directive) : Prop :=
  ∃ r : Request, r.Fits ∧ Trims line r.text ∧ d.oldName = r.old ∧ d.newName = r.new ∧
    match r.tail with
    | none => d.reason = []
    | some s => Trims s d.reason

theorem asks_iff (line : Text) (d : Directive) :
    Asks line d ↔ ∃ r : Request, r.Fits ∧ trim line = r.text ∧ d = r.directive := by
  apply exists_congr
  intro r
  rw [trims_iff, eq_comm (a := r.text)]
  obtain ⟨old, new, reason⟩ := d
  obtain ⟨old', new', _ | s⟩ := r
  · simp [Request.directive, Request.reason]
  · simp [Request.directive, Request.reason, trims_iff]

theorem ofLine?_eq_some_iff (line : Text) (d : Directive) :
    ofLine? line = some d ↔ Asks line d := by
  rw [asks_iff]
  constructor
  · exact ofTrimmed?_some
  · rintro ⟨r, hf, hl, rfl⟩
    rw [ofLine?, hl, ofTrimmed?_text hf]

theorem asks_unique {line : Text} {d e : Directive} (hd : Asks line d) (he : Asks line e) :
    d = e := by
  rw [← ofLine?_eq_some_iff] at hd he
  exact Option.some.inj (hd.symm.trans he)

def Answers (line : Text) : Option Directive → Prop
  | some d => Asks line d
  | none => ∀ d, ¬ Asks line d

theorem ofLine?_answers (line : Text) : Answers line (ofLine? line) := by
  cases h : ofLine? line with
  | none =>
    intro d hd
    rw [← ofLine?_eq_some_iff, h] at hd
    cases hd
  | some d => exact (ofLine?_eq_some_iff line d).mp h

theorem unbroken_within {s t : Text} (ht : Unbroken t) (h : s <:+: t) : Unbroken s :=
  fun b hb hc => ht b hb (h.subset hc)

theorem trims_within {s inner : Text} (h : Trims s inner) : inner <:+: s := by
  obtain ⟨-, before, behind, -, -, rfl⟩ := h
  exact ⟨before, behind, rfl⟩

/-- The new name can be used, and the reason is a single line without blanks at its ends. -/
theorem asks_sound {line : Text} {d : Directive} (hl : Unbroken line) (h : Asks line d) :
    accepts (.text d.newName) = true ∧ Unbroken d.reason ∧ Trimmed d.reason := by
  obtain ⟨r, hf, ht, -, hn, hr⟩ := h
  constructor
  · rw [accepts, isValid, hn, (isName_iff _).mpr hf.new]
    simpa using hf.free
  · cases hs : r.tail with
    | none =>
      rw [hs] at hr
      have hr : d.reason = [] := hr
      rw [hr]
      exact ⟨by simp [Unbroken], by simp [Trimmed]⟩
    | some s =>
      rw [hs] at hr
      have hr : Trims s d.reason := hr
      have hi : s <:+: r.text := by
        use r.old ++ " -> " ++ r.new ++ [.char ':'], []
        rw [List.append_nil, Request.text, hs, List.append_assoc]
        rfl
      have hline : d.reason <:+: line := ((trims_within hr).trans hi).trans (trims_within ht)
      exact ⟨unbroken_within hl hline, hr.1⟩

theorem parse_answers (response : Text) :
    List.Forall₂ Answers (lines response) ((lines response).map ofLine?) := by
  rw [List.forall₂_map_right_iff, List.forall₂_same]
  exact fun line _ => ofLine?_answers line

theorem parse_eq (response : Text) :
    parse response = ((lines response).map ofLine?).reduceOption := by
  change _ = List.filterMap id ((lines response).map ofLine?)
  rw [parse, List.filterMap_map]
  rfl

theorem mem_parse {response : Text} {d : Directive} (h : d ∈ parse response) :
    ∃ line ∈ lines response, Asks line d := by
  obtain ⟨line, hl, hd⟩ := List.mem_filterMap.mp h
  exact ⟨line, hl, (ofLine?_eq_some_iff line d).mp hd⟩

/-- Parsing gives what the lines of a response ask for, in order: a response has one cut into
lines, a line that asks for a rename can be taken apart in one way only, and whatever is asked for
is fit to be carried out and to be printed on a line. -/
theorem parse_reads_grammar (response : Text) :
    (∃ ls, (∀ other, IsLines response other ↔ other = ls) ∧
      ∃ outs, List.Forall₂ Answers ls outs ∧ parse response = outs.reduceOption) ∧
    (∀ p q : Request, p.Fits → q.Fits → p.text = q.text → p = q) ∧
    (∀ line d e, Asks line d → Asks line e → d = e) ∧
    ∀ d ∈ parse response,
      accepts (.text d.newName) = true ∧ Unbroken d.reason ∧ Trimmed d.reason := by
  have hsound : ∀ d ∈ parse response,
      accepts (.text d.newName) = true ∧ Unbroken d.reason ∧ Trimmed d.reason := by
    intro d hd
    obtain ⟨line, hl, ha⟩ := mem_parse hd
    exact asks_sound (unbroken_of_lines (isLines_lines response) line hl) ha
  exact ⟨⟨lines response, isLines_iff response, _, parse_answers response, parse_eq response⟩,
    fun p q hp hq h => Request.text_injective hp hq h, fun line d e hd he => asks_unique hd he,
    hsound⟩

example : parse "a -> b: c -> d\r\na -> if" = [⟨"a", "b", "c -> d"⟩] := by
  decide

end SymbolRename.Directive
