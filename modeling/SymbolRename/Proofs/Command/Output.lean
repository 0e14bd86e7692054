import SymbolRename.Command.Run
import SymbolRename.Proofs.Directive.Grammar
import SymbolRename.Proofs.Pass.Symbols
import SymbolRename.Proofs.World.Telling

/-!
# What a run that applies a response shows

Whatever a response is read from, its characters can be encoded, so nothing that is shown of its
directives stands in the way of showing it. That leaves the name of the function and the path of its
document.
-/

set_option autoImplicit false

namespace SymbolRename
open Text (IsEncodable)

namespace Directive
open Text

/-- A directive is made of characters of the response. -/
theorem asks_subset {line : Text} {d : Directive} (h : Asks line d) :
    d.oldName ⊆ line ∧ d.newName ⊆ line ∧ d.reason ⊆ line := by
  obtain ⟨r, -, ht, ho, hn, hr⟩ := h
  have hline : r.text ⊆ line := (trims_within ht).subset
  have hold : r.old ⊆ r.text := by simp [Request.text]
  have hnew : r.new ⊆ r.text := by
    intro c hc
    simp [Request.text, hc]
  refine ⟨ho ▸ List.Subset.trans hold hline, hn ▸ List.Subset.trans hnew hline, ?_⟩
  cases hs : r.tail with
  | none =>
    rw [hs] at hr
    rw [show d.reason = [] from hr]
    exact List.nil_subset line
  | some s =>
    rw [hs] at hr
    have hreason : d.reason ⊆ s := (trims_within hr).subset
    have htail : s ⊆ r.text := by
      intro c hc
      simp [Request.text, hs, Request.tailText, hc]
    exact List.Subset.trans (List.Subset.trans hreason htail) hline

theorem parse_encodable {response : Text} (hr : IsEncodable response) {d : Directive}
    (hd : d ∈ parse response) :
    IsEncodable d.oldName ∧ IsEncodable d.newName ∧ IsEncodable d.reason := by
  obtain ⟨line, hl, ha⟩ := mem_parse hd
  have hs : line ⊆ response := line_subset (isLines_lines response) hl
  obtain ⟨ho, hn, hr'⟩ := asks_subset ha
  have he := encodable_subset hr hs
  exact ⟨encodable_subset he ho, encodable_subset he hn, encodable_subset he hr'⟩

end Directive

namespace Report
open Text

theorem line_encodable {d : Directive}
    (h : IsEncodable d.oldName ∧ IsEncodable d.newName ∧ IsEncodable d.reason) :
    IsEncodable (line d) := by
  obtain ⟨ho, hn, hr⟩ := h
  rw [line, encodable_append]
  constructor
  · have hs (s : String) : IsEncodable (ofString s) := encodable_ofString s
    exact encodable_append.mpr ⟨encodable_append.mpr ⟨encodable_append.mpr ⟨hs _, ho⟩, hs _⟩, hn⟩
  · split
    · exact encodable_ofChars []
    · have hs (s : String) : IsEncodable (ofString s) := encodable_ofString s
      exact encodable_append.mpr ⟨encodable_append.mpr ⟨hs _, hr⟩, hs _⟩

theorem render_encodable {functionName report : Text} {ds : List Directive} {applied width : ℤ}
    (hf : IsEncodable functionName)
    (hd : ∀ d ∈ ds, IsEncodable d.oldName ∧ IsEncodable d.newName ∧ IsEncodable d.reason)
    (h : render functionName ds applied width = .ok report) : IsEncodable report := by
  rw [render] at h
  obtain ⟨s, hs, h⟩ := bind_eq_ok h
  cases h
  have hstring (s : String) : IsEncodable (ofString s) := encodable_ofString s
  have hnumber (i : ℤ) : IsEncodable (number i) := encodable_ofChars _
  refine encodable_flatMap fun part hp => encodable_append.mpr ⟨?_, hstring _⟩
  rcases List.mem_append.mp hp with hp | hp
  · simp only [header, List.mem_cons, List.not_mem_nil, or_false] at hp
    rcases hp with rfl | rfl | rfl | rfl | rfl
    · exact encodable_append.mpr ⟨hstring _, hf⟩
    · rw [rule_ok hs]
      exact encodable_ofChars _
    · exact encodable_append.mpr ⟨hstring _, hnumber _⟩
    · exact encodable_append.mpr ⟨hstring _, hnumber _⟩
    · exact encodable_ofChars []
  · obtain ⟨d, hm, rfl⟩ := List.mem_map.mp hp
    exact line_encodable (hd d hm)

end Report

/-! ## The notices -/

section Members
variable {n : Notice}

theorem Pass.mem_opening {function : Text} {ds : List Directive} (h : n ∈ opening function ds) :
    n = .parsed ds.length function ∨ n = .noDirectives function := by
  rcases List.mem_cons.mp h with h | h
  · exact .inl h
  · split at h
    · exact .inr (List.mem_singleton.mp h)
    · cases h

theorem Function.mem_notices {f : Function} {ds : List Directive} (h : n ∈ f.notices ds) :
    (∃ old, n = .skipped old f.name) ∨ ∃ old new reason, n = .rejected old new reason := by
  obtain ⟨⟨d, outcome⟩, -, ho⟩ := List.mem_filterMap.mp h
  cases outcome with
  | applied => cases ho
  | skipped => exact .inl ⟨d.oldName, (Option.some.inj ho).symm⟩
  | rejected kind reason => exact .inr ⟨d.oldName, d.newName, reason, (Option.some.inj ho).symm⟩

/-- There is a summary only if there was something to carry out. -/
theorem Pass.mem_closing {function : Text} {ds : List Directive} {r : Batch.Record}
    (h : n ∈ closing function ds r) : n = .partly r.diagnostics.length function ∨
      (ds ≠ [] ∧ n = .summary r.applied.length ds.length function) := by
  rcases List.mem_append.mp h with h | h
  · split at h
    · cases h
    · exact .inl (List.mem_singleton.mp h)
  · split at h
    · cases h
    · next hd => exact .inr ⟨fun hn => hd (List.isEmpty_iff.mpr hn), List.mem_singleton.mp h⟩

theorem Command.loadNotice_cases {p : Files.Path} {f : Fault} (h : loadNotice? p f = some n) :
    (∃ error, n = .badDocument p error) ∨ ∃ error, n = .failure error := by
  rw [loadNotice?.eq_def] at h
  split at h
  · obtain ⟨error, -, rfl⟩ := Option.map_eq_some_iff.mp h
    exact .inl ⟨error, rfl⟩
  · obtain ⟨error, -, rfl⟩ := Option.map_eq_some_iff.mp h
    exact .inr ⟨error, rfl⟩
  · obtain ⟨error, -, rfl⟩ := Option.map_eq_some_iff.mp h
    exact .inr ⟨error, rfl⟩
  · obtain ⟨error, -, rfl⟩ := Option.map_eq_some_iff.mp h
    exact .inr ⟨error, rfl⟩
  · exact .inr ⟨_, (Option.some.inj h).symm⟩
  · cases h

end Members

namespace World
open Message

theorem form_mem {n m : Notice} (hm : m ∈ Packaged.samples) (h : n.form = m.form) :
    n.form ∈ Packaged.forms := h ▸ List.mem_map_of_mem hm

/-- What does not go to standard output can be told whatever its arguments are. -/
theorem sayable_quiet {n m : Notice} (hm : m ∈ Packaged.samples) (h : n.form = m.form)
    (hl : n.level.isOutput = false) : Sayable n := by
  refine ⟨form_mem hm h, fun ho => ?_⟩
  rw [hl] at ho
  cases ho

theorem opening_sayable (function : Text) (ds : List Directive) :
    ∀ n ∈ Pass.opening function ds, Sayable n := by
  intro n hm
  rcases Pass.mem_opening hm with rfl | rfl
  · exact sayable_quiet (m := .parsed 0 []) (by simp [Packaged.samples]) rfl rfl
  · exact sayable_quiet (m := .noDirectives []) (by simp [Packaged.samples]) rfl rfl

theorem notices_sayable (f : Function) (ds : List Directive) :
    ∀ n ∈ f.notices ds, Sayable n := by
  intro n hm
  rcases Function.mem_notices hm with ⟨old, rfl⟩ | ⟨old, new, reason, rfl⟩
  · exact sayable_quiet (m := .skipped [] []) (by simp [Packaged.samples]) rfl rfl
  · exact sayable_quiet (m := .rejected [] [] []) (by simp [Packaged.samples]) rfl rfl

theorem partly_sayable (rejected : ℕ) (function : Text) : Sayable (.partly rejected function) :=
  sayable_quiet (m := .partly 0 []) (by simp [Packaged.samples]) rfl rfl

theorem summary_form (applied total : ℕ) (function : Text) :
    (Notice.summary applied total function).form ∈ Packaged.forms :=
  form_mem (m := .summary 0 0 []) (by simp [Packaged.samples]) rfl

theorem summary_sayable {function : Text} (h : IsEncodable function) (applied total : ℕ) :
    Sayable (.summary applied total function) := by
  refine ⟨summary_form _ _ function, fun _ a ha => ?_⟩
  simp only [Notice.summary, List.mem_cons, List.not_mem_nil, or_false] at ha
  rcases ha with rfl | rfl | rfl
  · exact Text.encodable_ofChars _
  · exact Text.encodable_ofChars _
  · exact h

/-- The name of the function shows only if there was something to carry out. -/
theorem closing_sayable {function : Text} {ds : List Directive}
    (hf : IsEncodable function ∨ ds = []) (r : Batch.Record) :
    ∀ n ∈ Pass.closing function ds r, Sayable n := by
  intro n hm
  rcases Pass.mem_closing hm with rfl | ⟨hd, rfl⟩
  · exact partly_sayable _ function
  · exact summary_sayable (hf.resolve_right hd) _ _

section Document
variable {p : Files.Path}

theorem dryRun_form (p : Files.Path) : (Notice.dryRun p).form ∈ Packaged.forms :=
  form_mem (m := .dryRun ⟨false, []⟩) (by simp [Packaged.samples]) rfl

theorem dryRun_sayable (hp : IsEncodable p.text) : Sayable (.dryRun p) := by
  refine ⟨dryRun_form p, fun _ a ha => ?_⟩
  rw [List.mem_singleton.mp ha]
  exact hp

theorem saved_sayable (hp : IsEncodable p.text) : Sayable (.saved p) := by
  refine ⟨form_mem (m := .saved ⟨false, []⟩) (by simp [Packaged.samples]) rfl, fun _ a ha => ?_⟩
  rw [List.mem_singleton.mp ha]
  exact hp

theorem unchanged_sayable (p : Files.Path) : Sayable (.unchanged p) :=
  sayable_quiet (m := .unchanged ⟨false, []⟩) (by simp [Packaged.samples]) rfl rfl

theorem loadNotice_sayable {f : Fault} {n : Notice} (h : Command.loadNotice? p f = some n) :
    Sayable n := by
  rcases Command.loadNotice_cases h with ⟨error, rfl⟩ | ⟨error, rfl⟩
  · exact sayable_quiet (m := .badDocument ⟨false, []⟩ []) (by simp [Packaged.samples]) rfl rfl
  · exact sayable_quiet (m := .failure []) (by simp [Packaged.samples]) rfl rfl

end Document
end World
end SymbolRename
