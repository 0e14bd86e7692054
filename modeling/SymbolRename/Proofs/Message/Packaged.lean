import SymbolRename.Proofs.Message.Definitions
import SymbolRename.Proofs.Template.Direct

/-!
# The packaged templates

The packaged message files are read as the templates that are in them. Those of the notices have
fields for the arguments of these notices only, so each notice has a text: what stands between the
fields, and the arguments in their places.
-/

set_option autoImplicit false

namespace SymbolRename

structure Notice.Form where
  key : Text
  names : List Text
  /-- All arguments can be shown. -/
  showable : Bool

def Notice.form (n : Notice) : Form where
  key := n.key
  names := n.arguments.map (·.1)
  showable := n.arguments.all fun a => a.2.unshowable?.isNone

namespace Message.Packaged
open Files
open Entries (last?)

/-- The characters of keys and templates. What is computed below is computed with these: taking
strings apart is slow when it is checked. -/
inductive Spells : List (String × String) → List (List Char × List Char) → Prop where
  | nil : Spells [] []
  | cons {ms : List (String × String)} {es : List (List Char × List Char)} {k t : List Char}
      (rest : Spells ms es) : Spells ((String.ofList k, String.ofList t) :: ms) ((k, t) :: es)

def bytesOf (es : List (List Char × List Char)) : List UInt8 :=
  Text.Utf8.encode (Json.write (.dict (es.map Json.entryOf)))

theorem file_spelled {ms : List (String × String)} {es : List (List Char × List Char)}
    (h : Spells ms es) : file ms = .file (bytesOf es) := by
  have hm : ms.map (fun m => ((.text ↑m.1, .text ↑m.2) : Value × Value)) = es.map Json.entryOf := by
    induction h with
    | nil => rfl
    | cons _ ih =>
      rw [List.map_cons, List.map_cons, ih, Json.entryOf, Text.ofString, Text.ofString,
        String.toList_ofList, String.toList_ofList]
  rw [file, hm, bytesOf]

def arePlain (es : List (List Char × List Char)) : Bool :=
  es.all fun e => e.1.all Json.isPlain && e.2.all Json.isPlain

theorem object?_bytesOf {es : List (List Char × List Char)} (h : arePlain es = true) :
    object? (bytesOf es) = some (Entries.ofList (es.map Json.entryOf)) := by
  have hp : ∀ e ∈ es, Json.PlainEntry e := by
    intro e he
    rw [arePlain, List.all_eq_true] at h
    exact (Bool.and_eq_true _ _).mp (h e he)
  rw [object?, bytesOf, Text.Utf8.decode_encode]
  dsimp only
  rw [Text.unifyBreaks_self (Json.write_unbroken hp), Json.read_write_plain hp]

def entriesIn (files : List (List (List Char × List Char))) : Table :=
  files.flatMap fun es => addressed (leaves [] (Entries.ofList (es.map Json.entryOf)))

def samples : List Notice :=
  [.parsed 0 [], .noDirectives [], .skipped [] [], .rejected [] [] [], .partly 0 [],
    .summary 0 0 [], .dryRun ⟨false, []⟩, .saved ⟨false, []⟩, .unchanged ⟨false, []⟩,
    .badDocument ⟨false, []⟩ [], .failure [], .nothingParsed, .directive [] [],
    .directiveWithReason [] [] [], .parseSummary 0, .noCode, .validName [], .invalidName []]

def forms : List Notice.Form := samples.map Notice.form

def encodes : Template.Piece → Bool
  | .text s => s.chars?.isSome
  | _ => true

def shows (ps : List Template.Piece) (name : Text) : Bool :=
  ps.any fun p =>
    match p with
    | .field f => f.name == name
    | _ => false

/-- The fields of a template are for the arguments with these names and show all of them, and what
stands between the fields can be encoded. -/
def suits (names : List Text) (template : Text) : Bool :=
  Template.isFor names template && (Template.pieces template.length template).all encodes &&
    names.all (shows (Template.pieces template.length template))

def fits (table : Table) (form : Notice.Form) : Bool :=
  (last? form.key table).any (suits form.names)

def slot (name : Text) : Template.Piece := .field ⟨name, none, []⟩

def phrases : List (Text × List Template.Piece) :=
  [("apply.run.parsed", [.text "Parsed ", slot "count", .text " rename suggestion(s) for ",
      slot "function", .text "."]),
    ("apply.run.no_directives", [.text "No usable rename suggestions found for ", slot "function",
      .text "."]),
    ("apply.run.summary", [.text "Applied ", slot "applied", .text "/", slot "total",
      .text " suggestion(s) to ", slot "function", .text "."]),
    ("apply.run.partial", [slot "rejected", .text " suggestion(s) for ", slot "function",
      .text " were rejected by the program model."]),
    ("apply.rename.rejected", [.text "Could not apply suggestion: ", slot "old_name",
      .text " -> ", slot "new_name", .text " (", slot "reason", .text ")"]),
    ("apply.rename.skipped", [.text "No symbol named '", slot "old_name", .text "' in ",
      slot "function", .text "; skipped."]),
    ("apply.document.saved", [.text "Saved renamed function to ", slot "path", .text "."]),
    ("apply.document.unchanged", [slot "path", .text " is already up to date."]),
    ("apply.document.dry_run", [.text "Dry run: ", slot "path", .text " was not modified."]),
    ("error.generic", [.text "Error: ", slot "error"]),
    ("error.document", [.text "Invalid function document ", slot "path", .text ": ",
      slot "error"]),
    ("parse.directive", [slot "old_name", .text " -> ", slot "new_name"]),
    ("parse.directive_with_reason", [slot "old_name", .text " -> ", slot "new_name", .text ": ",
      slot "reason"]),
    ("parse.summary", [.text "Found ", slot "count", .text " rename suggestion(s)."]),
    ("parse.none", [.text "No rename suggestions found."]),
    ("extract.none", [.text "No code block found in the response."]),
    ("check.valid", [.text "'", slot "name", .text "' is a valid identifier."]),
    ("check.invalid", [.text "'", slot "name", .text "' is not a valid C identifier."])]

def phrase (key : Text) : List Template.Piece := (Entries.get? key phrases).getD []

def phrased (table : Table) (form : Notice.Form) : Bool :=
  (last? form.key table).any fun t => Template.pieces t.length t = phrase form.key

theorem spelled : ∃ apply command error preview, Spells applyMessages apply ∧
    Spells commandMessages command ∧ Spells errorMessages error ∧ Spells previewMessages preview ∧
    [apply, command, error, preview].all arePlain = true ∧
    forms.all (fits (entriesIn [apply, command, error, preview])) = true ∧
    forms.all (phrased (entriesIn [apply, command, error, preview])) = true :=
  ⟨_, _, _, _, by unfold applyMessages; repeat (first | exact .nil | apply Spells.cons),
    by unfold commandMessages; repeat (first | exact .nil | apply Spells.cons),
    by unfold errorMessages; repeat (first | exact .nil | apply Spells.cons),
    by unfold previewMessages; repeat (first | exact .nil | apply Spells.cons),
    by decide +kernel, by decide +kernel, by decide +kernel⟩

theorem forms_showable : forms.all Notice.Form.showable = true := by decide

theorem showable_of_form {n : Notice} (h : n.form ∈ forms) :
    ∀ a ∈ n.arguments, a.2.unshowable? = none := by
  intro a ha
  have hn := List.all_eq_true.mp forms_showable n.form h
  exact Option.isNone_iff_eq_none.mp (List.all_eq_true.mp hn a ha)

def filesWith (apply command error preview : List (List Char × List Char)) :
    List (Place × List UInt8) :=
  [(["apply.json"], bytesOf apply), (["cli.json"], bytesOf command),
    (["error.json"], bytesOf error), (["preview.json"], bytesOf preview)]

def treeWith (apply command error preview : List (List Char × List Char)) : Tree :=
  ⟨(["needle"], .directory) :: (["needle", "en"], .directory) ::
    (filesWith apply command error preview).map fun f => ("needle" :: "en" :: f.1, .file f.2)⟩

def top : Path := ⟨true, ["needle", "en"]⟩

def overrides : Path := ⟨true, [".namesmith", "needle", "en"]⟩

theorem directories_packaged (v : Sight) :
    Root.packaged.directories v "en" = [top, overrides] := rfl

theorem tree_packaged (v : Sight) : Root.packaged.tree v = tree := rfl

theorem origin_packaged (v : Sight) : Root.packaged.origin v = [] := rfl

theorem filesUnder_top : (tree.filesUnder [] top).isOk = true := by rfl

theorem filesUnder_overrides : (tree.filesUnder [] overrides).isOk = true := by rfl

theorem filesOf_overrides : filesOf tree [] overrides = [] := by rfl

theorem filesOf_treeWith (apply command error preview : List (List Char × List Char)) :
    filesOf (treeWith apply command error preview) [] top =
      filesWith apply command error preview := by rfl

theorem leavesIn_bytesOf {name : Text} {es : List (List Char × List Char)}
    (hn : isMessageFile ⟨false, [name]⟩ = true) (h : arePlain es = true) :
    leavesIn ([name], bytesOf es) = leaves [] (Entries.ofList (es.map Json.entryOf)) := by
  rw [leavesIn, if_pos hn, object?_bytesOf h]
  rfl

section Reading
variable {apply command error preview : List (List Char × List Char)}

theorem readable_packaged (v : Sight) (hv : v.files.Proper)
    (hf : filesOf tree [] top = filesWith apply command error preview)
    (h : [apply, command, error, preview].all arePlain = true) :
    Readable v [.packaged] "en" := by
  simp only [List.all_cons, List.all_nil, Bool.and_true, Bool.and_eq_true] at h
  obtain ⟨ha, hc, he, hp⟩ := h
  refine readable_of_objects hv fun root hr directory hd => ?_
  rw [List.mem_singleton.mp hr] at hd ⊢
  rw [directories_packaged, List.mem_pair] at hd
  rw [tree_packaged, origin_packaged]
  rcases hd with rfl | rfl
  · refine ⟨filesUnder_top, fun f hm => ?_⟩
    rw [hf] at hm
    simp only [filesWith, List.mem_cons, List.not_mem_nil, or_false] at hm
    rcases hm with rfl | rfl | rfl | rfl
    · rw [object?_bytesOf ha, Option.isSome_some]
    · rw [object?_bytesOf hc, Option.isSome_some]
    · rw [object?_bytesOf he, Option.isSome_some]
    · rw [object?_bytesOf hp, Option.isSome_some]
  · refine ⟨filesUnder_overrides, fun f hm => ?_⟩
    rw [filesOf_overrides] at hm
    cases hm

theorem entries_packaged (v : Sight)
    (hf : filesOf tree [] top = filesWith apply command error preview)
    (h : [apply, command, error, preview].all arePlain = true) :
    (definitions v [.packaged] "en").map Definition.entry =
      entriesIn [apply, command, error, preview] := by
  simp only [List.all_cons, List.all_nil, Bool.and_true, Bool.and_eq_true] at h
  obtain ⟨ha, hc, he, hp⟩ := h
  rw [entries_definitions]
  simp only [List.flatMap_cons, List.flatMap_nil, List.append_nil, directories_packaged,
    tree_packaged, origin_packaged, hf, filesOf_overrides, filesWith, entriesIn]
  rw [leavesIn_bytesOf (by decide) ha, leavesIn_bytesOf (by decide) hc,
    leavesIn_bytesOf (by decide) he, leavesIn_bytesOf (by decide) hp]

end Reading

/-- The files of the program are the same wherever it runs. -/
theorem addRoot_packaged (t u : Tree) (here there : Place) (lang : Text) (table : Table) :
    addRoot t here lang table .packaged = addRoot u there lang table .packaged := rfl

/-- The packaged table in English has the template of each notice. -/
theorem merged_forms (v : Sight) : ∃ table, merged [.packaged] v "en" = .ok table ∧
    ∀ form ∈ forms, ∃ t, Entries.get? form.key table = some t ∧ suits form.names t = true ∧
      Template.pieces t.length t = phrase form.key := by
  obtain ⟨apply, command, error, preview, ha, hc, he, hp, hplain, hfits, hphrased⟩ := spelled
  have htree : tree = treeWith apply command error preview := by
    rw [tree, file_spelled ha, file_spelled hc, file_spelled he, file_spelled hp]
    rfl
  have hfiles : filesOf tree [] top = filesWith apply command error preview := by
    rw [htree, filesOf_treeWith]
  have hsame : merged [.packaged] v "en" = merged [.packaged] ⟨⟨[]⟩, []⟩ "en" := by
    rw [merged, merged, loadLanguage, loadLanguage, foldlM_agree fun root hr table => ?_]
    rw [List.mem_singleton.mp hr, addRoot_packaged]
  have hempty : (⟨[]⟩ : Tree).Proper := List.nodup_nil
  have hname : IsName "en" := by decide
  obtain ⟨table, hm, hg⟩ :=
    merged_table hname hempty (readable_packaged ⟨⟨[]⟩, []⟩ hempty hfiles hplain)
  have hget (key : Text) : Entries.get? key table =
      last? key (entriesIn [apply, command, error, preview]) := by
    rw [hg, entries_packaged ⟨⟨[]⟩, []⟩ hfiles hplain]
  refine ⟨table, hsame.trans hm, fun form hform => ?_⟩
  have hfit := List.all_eq_true.mp hfits form hform
  have hform' := List.all_eq_true.mp hphrased form hform
  rw [fits, ← hget] at hfit
  rw [phrased, ← hget] at hform'
  obtain ⟨t, ht, hs⟩ := (Option.any_eq_true _ _).mp hfit
  rw [ht] at hform'
  exact ⟨t, ht, hs, of_decide_eq_true hform'⟩

theorem merged_fits (v : Sight) : ∃ table, merged [.packaged] v "en" = .ok table ∧
    ∀ form ∈ forms, ∃ t, Entries.get? form.key table = some t ∧ suits form.names t = true := by
  obtain ⟨table, hm, h⟩ := merged_forms v
  refine ⟨table, hm, fun form hform => ?_⟩
  obtain ⟨t, ht, hs, -⟩ := h form hform
  exact ⟨t, ht, hs⟩

end Message.Packaged
end SymbolRename
