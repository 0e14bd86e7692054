import SymbolRename.Proofs.Directive.Grammar

/-!
# Printing directives

A directive is printed on a line of its own, with its reason behind a colon if it has one. What a
response asks for can be printed, and printing and parsing undo each other: the lines are told apart
by any line boundary, and nothing that a reason can hold gets in the way. So a name is valid exactly
if a line that offers it asks for it.
-/

set_option autoImplicit false

namespace SymbolRename.Directive
open Text Identifier

def printed (d : Directive) : Text :=
  d.oldName ++ " -> " ++ d.newName ++ if d.reason = [] then [] else (": " : Text) ++ d.reason

/-- The names can be read, the new one can be used, and the reason is a single line without blanks
at its ends. -/
structure Printable (d : Directive) : Prop where
  old : Spelled d.oldName
  new : Spelled d.newName
  free : d.newName ∉ reserved
  unbroken : Unbroken d.reason
  trimmed : Trimmed d.reason

def request (d : Directive) : Request :=
  ⟨d.oldName, d.newName, if d.reason = [] then none else some (.char ' ' :: d.reason)⟩

theorem request_text (d : Directive) : d.request.text = d.printed := by
  rw [Request.text, request, printed]
  split <;> rfl

section Printing
variable {d : Directive}

theorem request_fits (h : Printable d) : d.request.Fits := ⟨h.old, h.new, h.free⟩

/-! ## A printed line -/

theorem isBlank_of_isLineBreak {c : Code} (h : isLineBreak c = true) : isBlank c = true := by
  obtain ⟨b, hb, rfl⟩ := (isLineBreak_iff c).mp h
  have hall : lineBreaks.all (fun b => isBlank (.char b)) = true := by decide
  exact List.all_eq_true.mp hall b hb

theorem spelled_unbroken {name : Text} (h : Spelled name) : Unbroken name := by
  rw [unbroken_iff]
  intro c hc
  rw [Bool.eq_false_iff]
  intro hb
  exact Bool.false_ne_true ((spelled_inked h c hc).symm.trans (isBlank_of_isLineBreak hb))

theorem unbroken_append {s t : Text} : Unbroken (s ++ t) ↔ Unbroken s ∧ Unbroken t := by
  simp only [unbroken_iff, List.forall_mem_append]

theorem printed_unbroken (h : Printable d) : Unbroken d.printed := by
  have harrow : Unbroken (" -> " : Text) := by
    rw [unbroken_iff]
    decide
  have hcolon : Unbroken (": " : Text) := by
    rw [unbroken_iff]
    decide
  have hnames : Unbroken (d.oldName ++ (" -> " : Text) ++ d.newName) :=
    unbroken_append.mpr ⟨unbroken_append.mpr ⟨spelled_unbroken h.old, harrow⟩,
      spelled_unbroken h.new⟩
  refine unbroken_append.mpr ⟨hnames, ?_⟩
  split
  · exact (unbroken_iff []).mpr (by simp)
  · exact unbroken_append.mpr ⟨hcolon, h.unbroken⟩

theorem printed_trimmed (h : Printable d) : Trimmed d.printed := by
  constructor
  · intro c hc
    rw [printed, List.append_assoc, List.append_assoc,
      List.head?_append_of_ne_nil _ (spelled_nonempty h.old)] at hc
    exact spelled_inked h.old c (List.mem_of_mem_head? hc)
  · intro c hc
    rw [printed] at hc
    split at hc
    · rw [List.append_nil, List.getLast?_append_of_ne_nil _ (spelled_nonempty h.new)] at hc
      exact spelled_inked h.new c (List.mem_of_mem_getLast? hc)
    · next hr =>
      rw [← List.append_assoc, List.getLast?_append_of_ne_nil _ hr] at hc
      exact h.trimmed.2 c hc

theorem printed_nonempty (h : Printable d) : d.printed ≠ [] := by
  simp [printed, spelled_nonempty h.old]

theorem printed_asks (h : Printable d) : Asks d.printed d := by
  refine ⟨d.request, request_fits h, ?_, rfl, rfl, ?_⟩
  · rw [request_text]
    exact ⟨printed_trimmed h, [], [], by simp [Blank], by simp [Blank], by simp⟩
  · rw [request]
    by_cases hr : d.reason = []
    · rw [if_pos hr]
      exact hr
    · rw [if_neg hr]
      exact ⟨h.trimmed, [.char ' '], [], List.forall_mem_singleton.mpr rfl, by simp [Blank], by simp⟩

end Printing

/-! ## Printed lines -/

theorem parse_printed {s : Text} {ds : List Directive} (hs : IsLines s (ds.map printed))
    (h : ∀ d ∈ ds, Printable d) : parse s = ds := by
  rw [parse, lines_eq hs, List.filterMap_map]
  calc ds.filterMap (ofLine? ∘ printed) = ds.filterMap some :=
        List.filterMap_congr fun d hd => (ofLine?_eq_some_iff _ d).mpr (printed_asks (h d hd))
    _ = ds := List.filterMap_some

theorem head?_joined {boundary line : Text} (h : line ≠ []) (ls : List Text) :
    (joined boundary (line :: ls)).head? = line.head? := by
  cases ls with
  | nil => rw [joined, List.intercalate_singleton]
  | cons next ls =>
    rw [joined, List.intercalate_cons_cons, List.append_assoc, List.head?_append_of_ne_nil _ h]

theorem isLines_joined {boundary : Text} (hb : IsBreak boundary) {ls : List Text}
    (h : ∀ line ∈ ls, Unbroken line ∧ line ≠ []) : IsLines (joined boundary ls) ls := by
  induction ls with
  | nil => exact .nil
  | cons line ls ih =>
    obtain ⟨⟨hu, hn⟩, hrest⟩ := List.forall_mem_cons.mp h
    cases ls with
    | nil =>
      rw [joined, List.intercalate_singleton]
      exact .last hn hu
    | cons next ls =>
      obtain ⟨hnu, hnn⟩ := hrest next List.mem_cons_self
      rw [joined, List.intercalate_cons_cons]
      refine .cons hu hb (fun _ he => ?_) (ih hrest)
      have he : next.head? = some (.char '\n') := (head?_joined hnn ls).symm.trans he
      exact hnu '\n' (by simp [lineBreaks]) (List.mem_of_mem_head? he)

/-- What a response asks for can be printed. -/
theorem parse_printable {response : Text} {d : Directive} (hd : d ∈ parse response) :
    Printable d := by
  obtain ⟨line, hl, ha⟩ := mem_parse hd
  obtain ⟨-, hu, ht⟩ := asks_sound (unbroken_of_lines (isLines_lines response) line hl) ha
  obtain ⟨r, hf, -, ho, hn, -⟩ := ha
  exact ⟨ho ▸ hf.old, hn ▸ hf.new, hn ▸ hf.free, hu, ht⟩

/-- Directives are printed on lines that parse as these directives. -/
theorem parse_joined {boundary : Text} (hb : IsBreak boundary) {ds : List Directive}
    (h : ∀ d ∈ ds, Printable d) : parse (joined boundary (ds.map printed)) = ds := by
  refine parse_printed (isLines_joined hb fun line hl => ?_) h
  obtain ⟨d, hd, rfl⟩ := List.mem_map.mp hl
  exact ⟨printed_unbroken (h d hd), printed_nonempty (h d hd)⟩

/-! ## A name on offer -/

/-- A line that offers a valid name asks for just this. -/
theorem parse_offer {old name : Text} (ho : Spelled old) (hv : isValid name = true) :
    parse (old ++ " -> " ++ name) = [⟨old, name, []⟩] := by
  obtain ⟨hn, hf⟩ := Bool.and_eq_true_iff.mp hv
  have hp : Printable ⟨old, name, []⟩ :=
    { old := ho
      new := (isName_iff name).mp hn
      free := by simpa using hf
      unbroken := by simp [Unbroken]
      trimmed := by simp [Trimmed] }
  have hprinted : printed ⟨old, name, []⟩ = old ++ " -> " ++ name := List.append_nil _
  have hfeed : IsBreak "\n" := .single (by decide)
  have hline := parse_joined hfeed (List.forall_mem_singleton.mpr hp)
  rwa [List.map_singleton, joined, List.intercalate_singleton, hprinted] at hline

theorem parse_valid {response : Text} {d : Directive} (hd : d ∈ parse response) :
    isValid d.newName = true := by
  have hp := parse_printable hd
  rw [isValid, (isName_iff _).mpr hp.new]
  simpa using hp.free

/-- A name is accepted exactly if a line that offers it as a new name asks for this and nothing
else. Where it is not accepted, whatever the text behind the arrow asks for, on this line or on one
that a line break in the name begins, is another name. -/
theorem accepts_iff_offered (name : Text) :
    (accepts (.text name) = true ↔ parse ("x -> " ++ name) = [⟨"x", name, []⟩]) ∧
    (accepts (.text name) = false → ∀ d ∈ parse ("x -> " ++ name), d.newName ≠ name) := by
  have hx : Spelled "x" := (isName_iff _).mp (by decide)
  refine ⟨⟨fun h => parse_offer hx h, fun h => ?_⟩, fun h d hd he => ?_⟩
  · exact parse_valid (h ▸ List.mem_singleton_self _)
  · have hv := parse_valid hd
    rw [he] at hv
    exact Bool.false_ne_true (h.symm.trans hv)

/-- A name with line breaks in it: its first line asks for a part of it, its second one for a word
that is reserved, and its last one for something else. -/
def brokenName : Text := "y:\r\nx -> if\u2028a -> int1:y"

theorem accepts_iff_offered_broken :
    accepts (.text brokenName) = false ∧
    parse ("x -> " ++ brokenName) = [⟨"x", "y", ""⟩, ⟨"a", "int1", "y"⟩] ∧
    ∀ d ∈ parse ("x -> " ++ brokenName), d.newName ≠ brokenName :=
  ⟨by decide, by decide, (accepts_iff_offered _).2 (by decide)⟩

end SymbolRename.Directive
