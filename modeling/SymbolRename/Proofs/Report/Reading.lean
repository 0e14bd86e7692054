import SymbolRename.Proofs.CodeBlock.Slice
import SymbolRename.Proofs.Directive.Printing
import SymbolRename.Proofs.Report

/-!
# Reports read back

Below its heading a report has one line for each directive, whatever the reasons say, since nothing
that a response asks for has a line boundary in it. A line can be taken apart again, as a name ends
where something else than a letter, an underscore or a digit comes, and the heading gives the count.
So under one name and with one width, responses and counts that have the same report ask for the
same and are the same.
-/

set_option autoImplicit false

namespace SymbolRename.Report
open Text Identifier
open CodeBlock (terminated terminated_cons terminated_append isLines_terminated)
open Directive (Printable parse_printable spelled_unbroken unbroken_append)

/-! ## A line -/

def reasonText (reason : Text) : Text := if reason.isEmpty then [] else " (" ++ reason ++ ")"

theorem line_eq (d : Directive) :
    line d = "• " ++ (d.oldName ++ (" → " ++ (d.newName ++ reasonText d.reason))) := by
  rw [line, List.append_assoc, List.append_assoc, List.append_assoc]
  rfl

theorem reasonText_injective {r s : Text} (h : reasonText r = reasonText s) : r = s := by
  cases r <;> cases s
  · rfl
  · cases h
  · cases h
  · have hinner : (" (" : Text) ++ _ = " (" ++ _ := h
    exact List.append_cancel_right (List.append_cancel_left hinner)

/-- What stands behind a name ends it. -/
theorem isTail_reasonText (reason : Text) :
    ∀ c ∈ (reasonText reason).head?, isTail c = false := by
  intro c hc
  cases reason with
  | nil => cases hc
  | cons r reason =>
    cases hc
    rfl

theorem line_injective {d e : Directive} (hd : Printable d) (he : Printable e)
    (h : line d = line e) : d = e := by
  have harrow (rest : Text) : ∀ c ∈ (" → " ++ rest).head?, isTail c = false := by
    intro c hc
    cases hc
    rfl
  have hold {f : Directive} (hf : Printable f) (rest : Text) :
      lead? (f.oldName ++ (" → " ++ rest)) = some (f.oldName, " → " ++ rest) :=
    lead?_append ((isName_iff _).mpr hf.old) (harrow rest)
  have hnew {f : Directive} (hf : Printable f) :
      lead? (f.newName ++ reasonText f.reason) = some (f.newName, reasonText f.reason) :=
    lead?_append ((isName_iff _).mpr hf.new) (isTail_reasonText _)
  rw [line_eq, line_eq] at h
  have ho := congrArg lead? (List.append_cancel_left h)
  rw [hold hd, hold he] at ho
  obtain ⟨ho, hr⟩ := Prod.mk.inj (Option.some.inj ho)
  have hn := congrArg lead? (List.append_cancel_left hr)
  rw [hnew hd, hnew he] at hn
  obtain ⟨hn, hr⟩ := Prod.mk.inj (Option.some.inj hn)
  cases d
  cases e
  cases ho
  cases hn
  cases reasonText_injective hr
  rfl

theorem lines_injective {ds es : List Directive} (hd : ∀ d ∈ ds, Printable d)
    (he : ∀ e ∈ es, Printable e) (h : ds.map line = es.map line) : ds = es := by
  induction ds generalizing es with
  | nil => exact (List.map_eq_nil_iff.mp h.symm).symm
  | cons d ds ih =>
    cases es with
    | nil => cases h
    | cons e es =>
      obtain ⟨hl, hls⟩ := List.cons.inj h
      obtain ⟨hd, hds⟩ := List.forall_mem_cons.mp hd
      obtain ⟨he, hes⟩ := List.forall_mem_cons.mp he
      rw [line_injective hd he hl, ih hds hes hls]

theorem line_unbroken {d : Directive} (h : Printable d) : Unbroken (line d) := by
  have hreason : Unbroken (reasonText d.reason) := by
    rw [reasonText]
    split
    · exact (unbroken_iff _).mpr (by simp)
    · rw [unbroken_append, unbroken_append]
      exact ⟨⟨(unbroken_iff _).mpr (by decide), h.unbroken⟩, (unbroken_iff _).mpr (by decide)⟩
  rw [line_eq]
  simp only [unbroken_append]
  exact ⟨(unbroken_iff _).mpr (by decide), spelled_unbroken h.old,
    (unbroken_iff _).mpr (by decide), spelled_unbroken h.new, hreason⟩

/-! ## The whole report -/

def heading (functionName : Text) (width : ℤ) (total : ℕ) (count : ℤ) : Text :=
  "Suggestion Report for " ++ functionName ++ "\n" ++
    Text.ofChars (List.replicate width.toNat '=') ++ "\n" ++
    "Total suggestions: " ++ number total ++ "\n" ++
    "Successfully applied: " ++ number count ++ "\n" ++ "\n"

theorem number_injective {i j : ℤ} (h : number i = number j) : i = j := by
  have hchars : Function.Injective ofChars :=
    List.map_injective_iff.mpr fun _ _ he => Code.char.inj he
  exact signedDecimal_injective (hchars h)

theorem number_unbroken (i : ℤ) : Unbroken (number i) := by
  have hdigit : (lineBreaks.all fun b => b != '-' && !isDigitIn 10 b) = true := rfl
  intro b hb hm
  obtain ⟨c, hc, he⟩ := List.mem_map.mp hm
  cases he
  have hbreak := List.all_eq_true.mp hdigit b hb
  rcases mem_signedDecimal hc with h | h
  · simp [h] at hbreak
  · simp [h] at hbreak

/-- The rule comes before the count: what cannot be drawn is told first. -/
theorem make_eq (functionName : Text) (ds : List Directive) (count width : ℤ) :
    make functionName ds count width =
      match Report.rule width with
      | .error f => .error (.rule f)
      | .ok _ => if Value.isTooLong count then .error .countTooLong else
          .ok (heading functionName width ds.length count ++ terminated (ds.map line)) := by
  rw [make, render]
  cases hr : Report.rule width with
  | error f => rfl
  | ok rule =>
    have hreport : terminated (header functionName rule ds.length count ++ ds.map line) =
        heading functionName width ds.length count ++ terminated (ds.map line) := by
      rw [rule_ok hr, terminated_append]
      simp [header, heading, terminated]
    cases ht : Value.isTooLong count with
    | true => rfl
    | false => exact congrArg Except.ok hreport

theorem make_ok {functionName report : Text} {ds : List Directive} {count width : ℤ}
    (h : make functionName ds count width = .ok report) :
    report = heading functionName width ds.length count ++ terminated (ds.map line) := by
  rw [make_eq] at h
  split at h
  · cases h
  · split_ifs at h
    cases h
    rfl

/-- There is a report if its rule can be drawn and its count can be written. -/
theorem make_writable {count width : ℤ} (hl : -0x8000000000000000 ≤ width)
    (hw : width ≤ 0x100000000) (ht : Value.isTooLong count = false) (functionName : Text)
    (ds : List Directive) : ∃ report, make functionName ds count width = .ok report := by
  rw [make_eq, rule_drawable hl hw, ht]
  exact ⟨_, rfl⟩

def counted (ds : List Directive) (count : ℤ) : List Text :=
  ["Total suggestions: " ++ number ds.length, "Successfully applied: " ++ number count, []] ++
    ds.map line

theorem counted_unbroken {ds : List Directive} (h : ∀ d ∈ ds, Printable d) (count : ℤ) :
    ∀ l ∈ counted ds count, Unbroken l := by
  intro l hl
  rcases List.mem_append.mp hl with hl | hl
  · simp only [List.mem_cons, List.not_mem_nil, or_false] at hl
    rcases hl with rfl | rfl | rfl
    · exact unbroken_append.mpr ⟨(unbroken_iff _).mpr (by decide), number_unbroken _⟩
    · exact unbroken_append.mpr ⟨(unbroken_iff _).mpr (by decide), number_unbroken _⟩
    · exact (unbroken_iff _).mpr (by simp)
  · obtain ⟨d, hd, rfl⟩ := List.mem_map.mp hl
    exact line_unbroken (h d hd)

theorem heading_terminated (functionName : Text) (width count : ℤ) (ds : List Directive) :
    heading functionName width ds.length count ++ terminated (ds.map line) =
      "Suggestion Report for " ++ functionName ++ "\n" ++
        Text.ofChars (List.replicate width.toNat '=') ++ "\n" ++ terminated (counted ds count) := by
  simp [heading, counted, terminated]

theorem count_terminated {ls : List Text} (h : ∀ l ∈ ls, Unbroken l) :
    (terminated ls).count (.char '\n') = ls.length := by
  induction ls with
  | nil => rfl
  | cons l ls ih =>
    obtain ⟨hl, hls⟩ := List.forall_mem_cons.mp h
    have hfeed : Code.char '\n' ∉ l := hl '\n' (by decide)
    rw [terminated_cons, List.count_append, List.count_cons_self, List.count_eq_zero.mpr hfeed,
      ih hls, Nat.zero_add, List.length_cons]

/-- Under one name and with one width, only the same directives and the same count have the same
report. -/
theorem report_injective {functionName : Text} {width m n : ℤ} {ds es : List Directive}
    (hd : ∀ d ∈ ds, Printable d) (he : ∀ e ∈ es, Printable e)
    (h : heading functionName width ds.length m ++ terminated (ds.map line) =
      heading functionName width es.length n ++ terminated (es.map line)) : ds = es ∧ m = n := by
  rw [heading_terminated, heading_terminated] at h
  have hlines : counted ds m = counted es n := by
    have hl := congrArg lines (List.append_cancel_left h)
    rwa [lines_eq (isLines_terminated (counted_unbroken hd m)),
      lines_eq (isLines_terminated (counted_unbroken he n))] at hl
  obtain ⟨-, hlines⟩ := List.cons.inj hlines
  obtain ⟨hcount, hlines⟩ := List.cons.inj hlines
  obtain ⟨-, hlines⟩ := List.cons.inj hlines
  exact ⟨lines_injective hd he hlines, number_injective (List.append_cancel_left hcount)⟩

/-- A report on a response can be made if its rule can be drawn and its count can be written. It
loses nothing: under one name and with one width, responses and counts with the same report ask for
the same and are the same. Below the heading it has exactly one line for each directive, however the
lines of a text are counted, with a line feed behind each. -/
theorem make_recovers (functionName : Text) (width : ℤ) :
    (∀ (response : Text) (count : ℤ), -0x8000000000000000 ≤ width → width ≤ 0x100000000 →
      Value.isTooLong count = false →
      ∃ report, make functionName (Directive.parse response) count width = .ok report) ∧
    (∀ (response other : Text) (m n : ℤ) (report : Text),
      make functionName (Directive.parse response) m width = .ok report →
      make functionName (Directive.parse other) n width = .ok report →
      Directive.parse response = Directive.parse other ∧ m = n) ∧
    (∀ (response : Text) (count : ℤ) (report : Text),
      make functionName (Directive.parse response) count width = .ok report →
      ∃ body,
        report = heading functionName width (Directive.parse response).length count ++ body ∧
        body = ((Directive.parse response).map line).flatMap (· ++ "\n") ∧
        lines body = (Directive.parse response).map line ∧
        body.count (.char '\n') = (Directive.parse response).length) := by
  have hprintable (response : Text) : ∀ d ∈ Directive.parse response, Printable d :=
    fun d hd => parse_printable hd
  refine ⟨fun response count hl hw ht => make_writable hl hw ht _ _, ?_, ?_⟩
  · intro response other m n report hm hn
    exact report_injective (hprintable response) (hprintable other)
      ((make_ok hm).symm.trans (make_ok hn))
  · intro response count report h
    have hunbroken : ∀ l ∈ (Directive.parse response).map line, Unbroken l := by
      intro l hl
      obtain ⟨d, hd, rfl⟩ := List.mem_map.mp hl
      exact line_unbroken (hprintable response d hd)
    refine ⟨_, make_ok h, rfl, lines_eq (isLines_terminated hunbroken), ?_⟩
    rw [count_terminated hunbroken, List.length_map]

def tangled : Text := "a -> b: c)\t• d → e (f\n"

def tangledToo : Text := " a -> b:c)\t• d → e (f \u2028 a -> if"

theorem make_recovers_tangled :
    ∃ report, make "• f\n" (Directive.parse tangled) (-1) 3 = .ok report ∧
      make "• f\n" (Directive.parse tangledToo) (-1) 3 = .ok report ∧
      Directive.parse tangled = Directive.parse tangledToo ∧
      Directive.parse tangled = [⟨"a", "b", "c)\t• d → e (f"⟩] ∧
      ∃ body, report = heading "• f\n" 3 1 (-1) ++ body ∧
        lines body = ["• a → b (c)\t• d → e (f)"] := by
  have hs : Directive.parse tangled = [⟨"a", "b", "c)\t• d → e (f"⟩] := by decide +kernel
  have ht : Directive.parse tangledToo = [⟨"a", "b", "c)\t• d → e (f"⟩] := by decide +kernel
  have hline : [(⟨"a", "b", "c)\t• d → e (f"⟩ : Directive)].map line =
      ["• a → b (c)\t• d → e (f)"] := by decide +kernel
  have hshort : Value.isTooLong (-1) = false := by decide +kernel
  obtain ⟨report, hr⟩ := (make_recovers "• f\n" 3).1 tangled (-1) (by decide) (by decide) hshort
  have hother : make "• f\n" (Directive.parse tangledToo) (-1) 3 = .ok report := by
    rw [ht, ← hs]
    exact hr
  obtain ⟨body, hb, -, hl, -⟩ := (make_recovers "• f\n" 3).2.2 tangled (-1) report hr
  rw [hs] at hb hl
  rw [hline] at hl
  exact ⟨report, hr, hother, ((make_recovers "• f\n" 3).2.1 _ _ _ _ _ hr hother).1, hs, body, hb,
    hl⟩

end SymbolRename.Report
