import SymbolRename.Proofs.Command.Loading
import SymbolRename.Proofs.Directive.Printing
import SymbolRename.Proofs.World.Wording

/-!
# Listing the directives of a response

The command that lists what a response asks for prints each directive on a line of information.
These lines, put together again, are a response that asks for just the same.
-/

set_option autoImplicit false

namespace SymbolRename.Command
open Message SymbolRename.Task World
open Directive (Printable)
open Text (IsBreak IsEncodable joined)

def informed (ms : List (Level × Text)) : List Text := (ms.filter (·.1 = .info)).map (·.2)

theorem informed_append (ms more : List (Level × Text)) :
    informed (ms ++ more) = informed ms ++ informed more := by
  rw [informed, List.filter_append, List.map_append]
  rfl

section Notices
variable {d : Directive} {ds : List Directive}

theorem wording_directive (d : Directive) : (directiveNotice d).wording = d.printed := by
  have hplain : (Notice.directive d.oldName d.newName).wording =
      d.oldName ++ ((" -> " : Text) ++ (d.newName ++ [])) := rfl
  have hreason : (Notice.directiveWithReason d.oldName d.newName d.reason).wording =
      d.oldName ++ ((" -> " : Text) ++ (d.newName ++ ((": " : Text) ++ (d.reason ++ [])))) := rfl
  rw [directiveNotice, Directive.printed]
  by_cases hr : d.reason = []
  · rw [if_pos (List.isEmpty_iff.mpr hr), if_pos hr, hplain]
    simp only [List.append_assoc]
  · rw [if_neg (mt List.isEmpty_iff.mp hr), if_neg hr, hreason]
    simp only [List.append_assoc, List.append_nil]

theorem level_directive (d : Directive) : (directiveNotice d).level = .info := by
  rw [directiveNotice]
  split <;> rfl

theorem parseNotices_form (ds : List Directive) :
    ∀ n ∈ parseNotices ds, n.form ∈ Packaged.forms := by
  intro n hn
  rw [parseNotices] at hn
  split at hn
  · rw [List.mem_singleton.mp hn]
    exact form_mem (m := .nothingParsed) (by simp [Packaged.samples]) rfl
  · rcases List.mem_append.mp hn with hn | hn
    · obtain ⟨d, -, rfl⟩ := List.mem_map.mp hn
      rw [directiveNotice]
      split
      · exact form_mem (m := .directive [] []) (by simp [Packaged.samples]) rfl
      · exact form_mem (m := .directiveWithReason [] [] []) (by simp [Packaged.samples]) rfl
    · rw [List.mem_singleton.mp hn]
      exact form_mem (m := .parseSummary 0) (by simp [Packaged.samples]) rfl

theorem parseNotices_encodable
    (h : ∀ d ∈ ds, IsEncodable d.oldName ∧ IsEncodable d.newName ∧ IsEncodable d.reason) :
    ∀ n ∈ parseNotices ds, IsEncodable n.wording := by
  intro n hn
  refine (encodable_wording (parseNotices_form ds n hn)).1 fun a ha => ?_
  rw [parseNotices] at hn
  split at hn
  · rw [List.mem_singleton.mp hn] at ha
    cases ha
  · rcases List.mem_append.mp hn with hn | hn
    · obtain ⟨d, hd, rfl⟩ := List.mem_map.mp hn
      obtain ⟨ho, hn, hr⟩ := h d hd
      rw [directiveNotice] at ha
      split at ha
      · simp only [Notice.directive, List.mem_cons, List.not_mem_nil, or_false] at ha
        rcases ha with rfl | rfl
        · exact ho
        · exact hn
      · simp only [Notice.directiveWithReason, List.mem_cons, List.not_mem_nil, or_false] at ha
        rcases ha with rfl | rfl | rfl
        · exact ho
        · exact hn
        · exact hr
    · rw [List.mem_singleton.mp hn] at ha
      rw [List.mem_singleton.mp ha]
      exact Text.encodable_ofChars _

/-- The information of a listing is a line for each directive. -/
theorem informed_parseNotices (ds : List Directive) :
    informed ((parseNotices ds).map fun n => (n.level, n.wording)) = ds.map Directive.printed := by
  rw [parseNotices]
  cases ds with
  | nil => rfl
  | cons d ds =>
    have hlines (ds : List Directive) :
        informed ((ds.map directiveNotice).map fun n => (n.level, n.wording)) =
          ds.map Directive.printed := by
      rw [informed, List.map_map]
      induction ds with
      | nil => rfl
      | cons d ds ih =>
        rw [List.map_cons, List.filter_cons_of_pos (by simp [level_directive]), List.map_cons, ih]
        exact congrArg (· :: _) (wording_directive d)
    rw [if_neg (by simp), List.map_append, informed_append, hlines]
    exact List.append_nil _

end Notices

/-- Printing directives and parsing lines undo each other. Directives can be printed just if some
response asks for them, and the lines that they are printed on, with any line boundary between them,
ask for these directives again. The command that lists a response it can read says these lines, and
nothing else, as information. -/
theorem parse_listed :
    (∀ ds : List Directive, (∀ d ∈ ds, Printable d) ↔ ∃ response, Directive.parse response = ds) ∧
    (∀ (ds : List Directive) (boundary : Text), (∀ d ∈ ds, Printable d) → IsBreak boundary →
      Directive.parse (joined boundary (ds.map Directive.printed)) = ds) ∧
    ∀ (input : List UInt8) (source text : Text) (w : World), Plain w →
      w.audience = .reader ∨ w.audience = .terminal →
      ((readResponse input source).run w).1 = .ok text →
      ∃ v heard, (runParse input source).run w = (.ok 0, v) ∧
        messages v.journal = messages w.journal ++ heard ∧
        informed heard = (Directive.parse text).map Directive.printed ∧
        ∀ boundary, IsBreak boundary →
          Directive.parse (joined boundary (informed heard)) = Directive.parse text := by
  refine ⟨fun ds => ⟨fun h => ?_, ?_⟩, fun ds boundary h hb => Directive.parse_joined hb h, ?_⟩
  · exact ⟨_, Directive.parse_joined (.single (List.mem_cons_self : '\n' ∈ Text.lineBreaks)) h⟩
  · rintro ⟨response, rfl⟩ d hd
    exact Directive.parse_printable hd
  · intro input source text w hw ha ht
    have hread : (readResponse input source).run w = (.ok text, w) :=
      Prod.ext ht (readResponse_keeps input source w).symm
    have hencodable := parseNotices_encodable fun d hd =>
      Directive.parse_encodable (readResponse_encodable hread) hd
    have hreach : ∀ n ∈ parseNotices (Directive.parse text), Reaches w.audience n := fun n hn =>
      ha.imp_right fun ht => ⟨ht, fun _ => hencodable n hn⟩
    obtain ⟨v, hr, hv⟩ := tell_all_plain hw (parseNotices_form (Directive.parse text)) hreach
    have hinformed := informed_parseNotices (Directive.parse text)
    refine ⟨v, _, ?_, hv.messages, hinformed, fun boundary hb => ?_⟩
    · rw [runParse, response?, run_bind_ok (loaded_ok hread (.ofText source))]
      dsimp only
      rw [run_bind_ok hr]
      rfl
    · rw [hinformed]
      exact Directive.parse_joined hb fun d hd => Directive.parse_printable hd

/-- A reason may look like a directive. -/
theorem parse_listed_reason : ∃ v,
    (runParse (Text.Utf8.encode "a -> b:  c -> d: \nx -> y".toList) "-").run listening =
      (.ok 0, v) ∧ informed (messages v.journal) = ["a -> b: c -> d:", "x -> y"] := by
  have hread := readResponse_input listening
    (show '\r' ∉ "a -> b:  c -> d: \nx -> y".toList by decide)
  obtain ⟨v, heard, hr, hm, hi, -⟩ :=
    parse_listed.2.2 _ _ _ listening listening_plain (.inl rfl) hread
  refine ⟨v, hr, ?_⟩
  rw [hm, show messages listening.journal = [] from rfl, List.nil_append, hi]
  decide +kernel

end SymbolRename.Command
