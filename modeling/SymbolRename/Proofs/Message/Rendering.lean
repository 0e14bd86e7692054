import SymbolRename.Proofs.Message.Definitions
import SymbolRename.Proofs.Template.Direct

/-!
# Making the text of a message

A message has the text of its template filled with the arguments, or one that tells its key where a
field names what is not there or the template is not well formed. A field that looks into its
argument, or lays it out, can go wrong in other ways, and so can an argument that is nested too deep
to be shown. These stop the message and all that waits for it.
-/

set_option autoImplicit false

namespace SymbolRename.World
open Message SymbolRename.Task

section Outcome
variable {α : Type} [Template.Objects α] {key template : Text} {arguments : List (Text × α)}
variable {w v : World}

theorem filled_outcome (key template : Text) (arguments : List (Text × α)) :
    filled key template arguments =
      match Template.fill template arguments with
      | .ok s => .ok s
      | .error e => if e.isFormatting then .ok (formattingError key) else .error e := by
  rw [filled]
  cases Template.fill template arguments with
  | ok s => rfl
  | error e => cases e <;> rfl

theorem renderChecked_run (free : hasReserved reservedNames arguments = false)
    (found : (World.template key none).run w = (.ok (.text template), v)) :
    (renderChecked key arguments).run w =
      ((filled key template arguments).mapError .template, v) := by
  rw [renderChecked, if_neg (by simp [free]), render, run_bind_ok found]
  dsimp only
  cases filled key template arguments <;> rfl

theorem renderChecked_fill (free : hasReserved reservedNames arguments = false)
    (found : (World.template key none).run w = (.ok (.text template), v)) :
    (renderChecked key arguments).run w =
      (match Template.fill template arguments with
        | .ok s => .ok s
        | .error e => if e.isFormatting then .ok (formattingError key) else .error (.template e),
        v) := by
  rw [renderChecked_run free found, filled_outcome]
  cases Template.fill template arguments with
  | ok s => rfl
  | error e => cases e <;> rfl

/-- What comes of a message whose template was found, for arguments of any kind. A direct template
gives what it says. Only a template with fields that are not direct or an argument that refuses to
be shown can stop the message, and nothing but making the text goes wrong then. -/
theorem render_outcome (free : hasReserved reservedNames arguments = false)
    (found : (World.template key none).run w = (.ok (.text template), v)) :
    (∀ s, Template.Says arguments (Template.pieces template.length template) s →
      (renderChecked key arguments).run w = (.ok s, v)) ∧
    match Template.fill template arguments with
    | .ok s => (renderChecked key arguments).run w = (.ok s, v)
    | .error e =>
      if e.isFormatting then
        (renderChecked key arguments).run w = (.ok (formattingError key), v)
      else
        (Template.isDirect template = true → ∃ a ∈ arguments, Template.Refuses a.2 e) ∧
          (renderChecked key arguments).run w = (.error (.template e), v) := by
  have hr := renderChecked_fill free found
  constructor
  · intro s hs
    rw [hr, Template.fill_says hs]
  · cases hf : Template.fill template arguments with
    | ok s =>
      rw [hf] at hr
      exact hr
    | error e =>
      rw [hf] at hr
      dsimp only at hr ⊢
      split
      · next he => rwa [if_pos he] at hr
      · next he =>
        rw [if_neg he] at hr
        exact ⟨fun hd => (Template.fill_fault hd hf).resolve_left he, hr⟩

end Outcome

/-- A direct template makes a text of arguments that are not nested too deep, whatever they are. -/
theorem render_direct {key template : Text} {arguments : List (Text × Template.Argument)}
    {w v : World} (free : hasReserved reservedNames arguments = false)
    (found : (World.template key none).run w = (.ok (.text template), v))
    (hd : Template.isDirect template = true)
    (hs : ∀ a ∈ arguments, a.2.unshowable? ≠ some .tooDeep) :
    ∃ s, (renderChecked key arguments).run w = (.ok s, v) := by
  rw [renderChecked_fill free found]
  cases hf : Template.fill template arguments with
  | ok s => exact ⟨s, rfl⟩
  | error e =>
    have he : e.isFormatting = true := by
      rcases Template.fill_fault hd hf with he | ⟨a, ha, he⟩
      · exact he
      · rw [Template.refuses_iff] at he
        obtain rfl | rfl := Template.unshowable?_fault he
        · rfl
        · exact absurd he (hs a ha)
    refine ⟨formattingError key, ?_⟩
    dsimp only
    rw [if_pos he]

theorem template_run {w v : World} {key s : Text} {asked : Option Text} (ht : w.templates = none)
    (h : (catalogTemplate key asked).run w = (.ok s, v)) :
    (World.template key asked).run w = (.ok (.text s), v) := by
  rw [World.template, run_bind_ok (run_get w), ht]
  dsimp only
  rw [run_bind_ok h]
  rfl

theorem template_found {roots : List Root} {w : World} {key s : Text}
    (hc : w.catalog = .ofRoots roots) (ht : w.templates = none) (hl : w.language = none)
    (hp : w.files.Proper) (hr : Readable ⟨w.files, w.here⟩ roots "en")
    (hs : Entries.last? key ((definitions ⟨w.files, w.here⟩ roots "en").map Definition.entry) =
      some s) : ∃ v, (World.template key none).run w = (.ok (.text s), v) := by
  have hf : (Ledger.start roots w).Follows w := by
    refine ⟨?_, rfl, rfl⟩
    rw [hc]
    exact ⟨rfl, fun _ => rfl⟩
  obtain ⟨table, hm, hg⟩ := merged_table (by decide) hp hr
  have ht' : (Ledger.start roots w).table "en" = .ok table := hm
  have hk := (Ledger.catalogTemplate_run hf key none).1
  rw [hl, show languageOf none none = "en" from rfl, lookUp_found ht' ((hg key).trans hs)] at hk
  rcases hv : (catalogTemplate key none).run w with ⟨r, v⟩
  rw [hv] at hk
  obtain rfl : r = .ok s := hk
  exact ⟨v, template_run ht hv⟩

def withTemplate (template : Text) : World :=
  { world [[".namesmith"], [".namesmith", "needle"], [".namesmith", "needle", "en"]]
      [([".namesmith", "needle", "en", "m.json"], Json.write (.dict [(.text "k", .text template)]))]
    with catalog := .ofRoots [.project ⟨false, []⟩] }

/-- A field whose argument is not there is told by the key. -/
theorem render_outcome_missing :
    ∃ v, (renderChecked "k" [("a", Template.Argument.value (.int 1))]).run (withTemplate "\x7bb!r\x7d") =
      (.ok "<formatting_error for \x27k\x27>", v) := by
  have hp : (withTemplate "\x7bb!r\x7d").files.Proper := by
    unfold Files.Tree.Proper
    decide
  have free : hasReserved reservedNames [("a", Template.Argument.value (.int 1))] = false := by decide
  obtain ⟨v, found⟩ : ∃ v, (World.template "k" none).run (withTemplate "\x7bb!r\x7d") =
      (.ok (.text "\x7bb!r\x7d"), v) :=
    template_found rfl rfl rfl hp (readable_of_objects hp (by decide +kernel)) (by decide +kernel)
  obtain ⟨-, hr⟩ := render_outcome free found
  have hf : Template.fill "\x7bb!r\x7d" [("a", Template.Argument.value (.int 1))] = .error .missing := by
    decide +kernel
  rw [hf] at hr
  exact ⟨v, hr⟩

/-- A template that looks for an item of a number leaves its message without a text. -/
theorem render_stopped :
    ∃ v, (renderChecked "k" [("a", Template.Argument.value (.int 1))]).run (withTemplate "\x7ba[0]\x7d") =
      (.error (.template .wrongKind), v) := by
  have hp : (withTemplate "\x7ba[0]\x7d").files.Proper := by
    unfold Files.Tree.Proper
    decide
  have free : hasReserved reservedNames [("a", Template.Argument.value (.int 1))] = false := by decide
  obtain ⟨v, found⟩ : ∃ v, (World.template "k" none).run (withTemplate "\x7ba[0]\x7d") =
      (.ok (.text "\x7ba[0]\x7d"), v) :=
    template_found rfl rfl rfl hp (readable_of_objects hp (by decide +kernel)) (by decide +kernel)
  have hr := renderChecked_run free found
  have hf : filled "k" "\x7ba[0]\x7d" [("a", Template.Argument.value (.int 1))] = .error .wrongKind := by
    decide +kernel
  rw [hf] at hr
  exact ⟨v, hr⟩

end SymbolRename.World
