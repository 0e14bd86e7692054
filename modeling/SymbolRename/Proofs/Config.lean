import SymbolRename.Config
import SymbolRename.Proofs.Text.Utf8
import SymbolRename.Proofs.Toml.Reading

/-!
# What becomes of a configuration file

A file that is no TOML leaves the standard settings, and so does one whose settings are no table;
from a table each setting is taken for itself. Three things stop the program all the same: bytes
that are no text, a text that is too much for the reading, and a document in which what should hold
the settings of all tools is no table.
-/

set_option autoImplicit false

namespace SymbolRename.Config
open Toml (Modest)

/-! ## Settings -/

/-- A setting is one that was given, or the default where none was. -/
def Counts {α : Type} (given : α → Prop) (default a : α) : Prop :=
  given a ∨ (∀ b, ¬ given b) ∧ a = default

theorem counts_getD {α : Type} {given : α → Prop} {found : Option α}
    (h : ∀ a, found = some a ↔ given a) (default : α) :
    Counts given default (found.getD default) := by
  cases found with
  | none => exact .inr ⟨fun b hb => (nomatch (h b).mpr hb), rfl⟩
  | some a => exact .inl ((h a).mp rfl)

structure Settles (table : List (Value × Value)) (config : Config) : Prop where
  width : Counts (fun i => Value.field? "report_width" table = some (.int i) ∧ 0 < i)
    standard.reportWidth config.reportWidth
  source : Counts (fun s => Value.field? "default_source" table = some (.text s))
    standard.defaultSource config.defaultSource
  write : Counts (fun b => Value.field? "write_back" table = some (.bool b))
    standard.writeBack config.writeBack

theorem setting_eq_some {α : Type} {place : Text} {table : List (Value × Value)}
    {key expected : Text} {take : Value → Option α} {a : α} :
    (setting place table key expected take).1 = some a ↔
      ∃ v, Value.field? key table = some v ∧ take v = some a := by
  rw [setting]
  cases hf : Value.field? key table with
  | none => simp
  | some v => cases ht : take v <;> simp [ht]

theorem setting_given {α : Type} {make : α → Value} {take : Value → Option α}
    (ht : ∀ v a, take v = some a ↔ v = make a) (place : Text) (table : List (Value × Value))
    (key expected : Text) (a : α) :
    (setting place table key expected take).1 = some a ↔
      Value.field? key table = some (make a) := by
  rw [setting_eq_some]
  constructor
  · rintro ⟨v, hf, hv⟩
    rw [hf, (ht v a).mp hv]
  · exact fun hf => ⟨make a, hf, (ht _ a).mpr rfl⟩

theorem asInteger_eq_some (v : Value) (i : ℤ) : asInteger v = some i ↔ v = .int i := by
  cases v <;> simp [asInteger]

theorem asText_eq_some (v : Value) (s : Text) : asText v = some s ↔ v = .text s := by
  cases v <;> simp [asText]

theorem asTruth_eq_some (v : Value) (b : Bool) : asTruth v = some b ↔ v = .bool b := by
  cases v <;> simp [asTruth]

theorem positive_eq_some {place : Text} {asked : Option ℤ} {i : ℤ} :
    (positive place asked).1 = some i ↔ asked = some i ∧ 0 < i := by
  cases asked with
  | none => simp [positive]
  | some w =>
    rw [positive]
    split
    · next hw =>
      constructor
      · intro h
        cases h
        exact ⟨rfl, hw⟩
      · exact fun h => h.1
    · next hw =>
      constructor
      · intro h
        cases h
      · rintro ⟨h, hi⟩
        cases h
        contradiction

theorem ofTable_settles (place : Text) (table : List (Value × Value)) :
    Settles table (ofTable place table).1 := by
  constructor
  · refine counts_getD (fun i => positive_eq_some.trans (and_congr_left' ?_)) _
    exact setting_given asInteger_eq_some place table _ _ i
  · exact counts_getD (setting_given asText_eq_some place table _ _) _
  · exact counts_getD (setting_given asTruth_eq_some place table _ _) _

/-! ## Notes -/

def Warns (logs : List Log) : Prop := ∀ l ∈ logs, ∃ text, l = warning text

theorem warns_nil : Warns [] := fun _ h => nomatch h

theorem warns_singleton (text : Text) : Warns [warning text] := by
  intro l hl
  exact ⟨text, List.mem_singleton.mp hl⟩

theorem Warns.append {as bs : List Log} (ha : Warns as) (hb : Warns bs) : Warns (as ++ bs) := by
  intro l hl
  rcases List.mem_append.mp hl with hl | hl
  · exact ha l hl
  · exact hb l hl

theorem setting_warns {α : Type} (place : Text) (table : List (Value × Value))
    (key expected : Text) (take : Value → Option α) :
    Warns (setting place table key expected take).2 := by
  rw [setting]
  split
  · exact warns_nil
  · split
    · exact warns_nil
    · exact warns_singleton _

theorem positive_warns (place : Text) (asked : Option ℤ) : Warns (positive place asked).2 := by
  rw [positive.eq_def]
  split
  · exact warns_nil
  · split
    · exact warns_nil
    · exact warns_singleton _

theorem unknownWarning_warns (place : Text) (keys : List Text) :
    Warns (unknownWarning place keys) := by
  rw [unknownWarning]
  split
  · exact warns_nil
  · exact warns_singleton _

theorem ofTable_warns (place : Text) (table : List (Value × Value)) :
    Warns (ofTable place table).2 :=
  ((((setting_warns place table _ _ asInteger).append (setting_warns place table _ _ asText)).append
    (setting_warns place table _ _ asTruth)).append (positive_warns place _)).append
    (unknownWarning_warns place _)

/-! ## Documents -/

/-- The table under a key; one that is missing is empty. -/
inductive Holds (key : Text) (document : List (Value × Value)) : List (Value × Value) → Prop
  | table {es : List (Value × Value)} : Value.field? key document = some (.dict es) →
      Holds key document es
  | missing : Value.field? key document = none → Holds key document []

def NoTable (key : Text) (document : List (Value × Value)) : Prop :=
  ∃ v, Value.field? key document = some v ∧ ∀ es, v ≠ .dict es

theorem NoTable.getD_ne {key : Text} {document : List (Value × Value)} (h : NoTable key document)
    (es : List (Value × Value)) : (Value.field? key document).getD (.dict []) ≠ .dict es := by
  obtain ⟨v, hv, hn⟩ := h
  rw [hv]
  exact hn es

theorem holds_or_noTable (key : Text) (document : List (Value × Value)) :
    (∃ es, Holds key document es ∧
      (Value.field? key document).getD (.dict []) = .dict es) ∨
    NoTable key document := by
  cases h : Value.field? key document with
  | none => exact .inl ⟨[], .missing h, rfl⟩
  | some v =>
    by_cases hv : ∃ es, v = .dict es
    · obtain ⟨es, rfl⟩ := hv
      exact .inl ⟨es, .table h, rfl⟩
    · exact .inr ⟨v, h, fun es he => hv ⟨es, he⟩⟩

/-- What a document gives: only settings of all tools that are no table are a fault. -/
inductive Outcome (place : Text) (document : List (Value × Value)) :
    Except Fault (Config × List Log) → Prop
  | settled {tools table : List (Value × Value)} {config : Config} {logs : List Log} :
      Holds "tool" document tools → Holds "namesmith" tools table → Settles table config →
      Warns logs → Outcome place document (.ok (config, logs))
  | passedOver {tools : List (Value × Value)} : Holds "tool" document tools →
      NoTable "namesmith" tools → Outcome place document (.ok (standard,
        [warning ("tool.namesmith in " ++ place ++ " is not a table; using defaults")]))
  | stopped : NoTable "tool" document → Outcome place document (.error .toolsNotTable)

theorem ofDocument_outcome (place : Text) (document : List (Value × Value)) :
    Outcome place document (ofDocument place document) := by
  rw [ofDocument]
  rcases holds_or_noTable "tool" document with ⟨tools, ht, he⟩ | hn
  · rw [he]
    dsimp only
    rcases holds_or_noTable "namesmith" tools with ⟨table, hm, he⟩ | hn
    · rw [he]
      exact .settled ht hm (ofTable_settles place table) (ofTable_warns place table)
    · split
      · next he => exact absurd he (hn.getD_ne _)
      · exact .passedOver ht hn
  · split
    · next he => exact absurd he (hn.getD_ne _)
    · exact .stopped hn

/-! ## Files -/

/-- What becomes of the nearest configuration file, whatever bytes it holds: if they are no text,
the program stops. From a text that is no TOML the standard settings come with one warning, and from
a document what it gives. Otherwise the text is too much for the reading: it has more than 4300
digits, or more opening brackets than may stand one inside another. -/
theorem load_outcome {t : Files.Tree} {start directory : Files.Place} {bytes : List UInt8}
    (nearest : Project.configured? t start = .ok (some directory))
    (held : t.node? (directory ++ [Project.configurationName]) = some (.file bytes)) :
    let place := (Files.Path.ofPlace (directory ++ [Project.configurationName])).text
    (∀ f, Text.Utf8.decode bytes = .error f → load t start = .error (.undecodable f)) ∧
    ∀ s, Text.Utf8.Decodes bytes s →
      (Toml.read s = .error .malformed ∧
        load t start = .ok (standard, [warning ("Could not read " ++ place ++ ": no TOML")])) ∨
      (∃ document, Toml.read s = .ok document ∧ Outcome place document (load t start)) ∨
      (¬ Modest Toml.nesting s ∧
        (load t start = .error .tooLong ∨ load t start = .error .tooDeep)) := by
  intro place
  have hl : load t start = ofBytes place bytes := by
    rw [load, nearest]
    dsimp only
    rw [held]
  rw [hl, ofBytes]
  constructor
  · intro f hf
    rw [hf]
  · intro s hd
    rw [Text.Utf8.decodes_decode hd]
    dsimp only
    cases hr : Toml.read s with
    | ok document => exact .inr (.inl ⟨document, rfl, ofDocument_outcome place document⟩)
    | error f =>
      have hm (hf : f ≠ .malformed) : ¬ Modest Toml.nesting s := by
        intro hm
        have hy := Toml.read_reads hm
        rw [hr] at hy
        exact hf hy
      cases f with
      | malformed => exact .inl ⟨rfl, rfl⟩
      | tooLong => exact .inr (.inr ⟨hm (by simp), .inl rfl⟩)
      | tooDeep => exact .inr (.inr ⟨hm (by simp), .inr rfl⟩)

def project (text : String) : Files.Tree :=
  ⟨[(["src"], .directory), ([Project.configurationName], .file (Text.Utf8.encode text.toList))]⟩

theorem load_outcome_word : load (project "tool") ["src"] =
    .ok (standard, [warning "Could not read /pyproject.toml: no TOML"]) := by
  have malformed : Toml.read "tool".toList = .error .malformed := rfl
  have modest : Modest Toml.nesting "tool".toList := ⟨by decide, by decide⟩
  have nearest : Project.configured? (project "tool") ["src"] = .ok (some []) := rfl
  have held : (project "tool").node? ([] ++ [Project.configurationName]) =
      some (.file (Text.Utf8.encode "tool".toList)) := rfl
  have told : "Could not read " ++ (Files.Path.ofPlace [Project.configurationName]).text ++
      ": no TOML" = ("Could not read /pyproject.toml: no TOML" : Text) := by decide
  rcases (load_outcome nearest held).2 _ (Text.Utf8.encode_decodes _) with h | h | h
  · rw [← told]
    exact h.2
  · obtain ⟨document, hr, -⟩ := h
    rw [malformed] at hr
    cases hr
  · exact absurd modest h.1

/-- Bytes that are no text stop the program, and so does an array in the place of all tools. -/
theorem load_stopped :
    load ⟨[([Project.configurationName], .file [0xFF])]⟩ [] =
      .error (.undecodable ⟨[0xFF], 0, .start⟩) ∧
    load (project "[[tool]]\n") [] = .error .toolsNotTable := ⟨rfl, rfl⟩

end SymbolRename.Config
