import SymbolRename.Proofs.Config
import SymbolRename.Proofs.Project
import Mathlib

/-!
# The settings of a project

The settings come from the nearest configuration file and from nothing else. Each depends on what
its own key says: on the value, if it is of the right kind, and otherwise on the default. A table is
told once about each value that is passed over, and once about all of its keys that mean nothing.
-/

set_option autoImplicit false

namespace SymbolRename.Config
open Files

/-! ## Each setting for itself -/

def widthOf : Option Value → ℤ
  | some (.int i) => if 0 < i then i else standard.reportWidth
  | _ => standard.reportWidth

def sourceOf : Option Value → Text
  | some (.text s) => s
  | _ => standard.defaultSource

def writeOf : Option Value → Bool
  | some (.bool b) => b
  | _ => standard.writeBack

def settled (table : List (Value × Value)) : Config where
  reportWidth := widthOf (Value.field? "report_width" table)
  defaultSource := sourceOf (Value.field? "default_source" table)
  writeBack := writeOf (Value.field? "write_back" table)

theorem setting_fst {α : Type} (place : Text) (table : List (Value × Value)) (key expected : Text)
    (take : Value → Option α) :
    (setting place table key expected take).1 = (Value.field? key table).bind take := by
  rw [setting]
  cases Value.field? key table with
  | none => rfl
  | some v => cases ht : take v <;> simp [ht]

theorem positive_fst (place : Text) (asked : Option ℤ) :
    (positive place asked).1 = asked.filter (0 < ·) := by
  cases asked with
  | none => rfl
  | some w => by_cases hw : 0 < w <;> simp [positive, Option.filter, hw]

theorem ofTable_fst (place : Text) (table : List (Value × Value)) :
    (ofTable place table).1 = settled table := by
  rw [ofTable, settled]
  dsimp only
  rw [positive_fst, setting_fst, setting_fst, setting_fst]
  congr 1
  · rcases Value.field? "report_width" table with _ | v
    · rfl
    · cases v with
      | int i => by_cases hi : 0 < i <;> simp [asInteger, widthOf, Option.filter, hi]
      | _ => rfl
  · rcases Value.field? "default_source" table with _ | v
    · rfl
    · cases v <;> rfl
  · rcases Value.field? "write_back" table with _ | v
    · rfl
    · cases v <;> rfl

/-! ## What a table is told about -/

/-- A key that means something, and which values it takes. -/
structure Setting where
  key : Text
  kind : Text
  fits : Value → Bool

def integerSetting : Setting := ⟨"report_width", "int", fun v => (asInteger v).isSome⟩

def textSetting : Setting := ⟨"default_source", "str", fun v => (asText v).isSome⟩

def truthSetting : Setting := ⟨"write_back", "bool", fun v => (asTruth v).isSome⟩

def settings : List Setting := [integerSetting, textSetting, truthSetting]

theorem knownKeys_eq : knownKeys = settings.map (·.key) := rfl

inductive Complaint where
  | wrongKind (s : Setting) (v : Value)
  | notPositive
  | unknown (keys : List Text)

namespace Complaint

def text (place : Text) : Complaint → Text
  | wrongKind s v => "Ignoring tool.namesmith." ++ s.key ++ " in " ++ place ++ ": expected " ++
      s.kind ++ ", got " ++ v.kind
  | notPositive => "Ignoring non-positive tool.namesmith.report_width in " ++ place
  | unknown keys => "Unknown keys in tool.namesmith of " ++ place ++ ": " ++
      (Value.list (keys.map .text)).literal

/-- What there is to be said about a table: about the value of a setting that is of another kind,
about a width that is not positive, and about all keys together that mean nothing. -/
inductive Applies (table : List (Value × Value)) : Complaint → Prop
  | wrongKind {s : Setting} {v : Value} : s ∈ settings → Value.field? s.key table = some v →
      s.fits v = false → Applies table (.wrongKind s v)
  | notPositive {i : ℤ} : Value.field? "report_width" table = some (.int i) → i ≤ 0 →
      Applies table .notPositive
  | unknown {e : Value × Value} : e ∈ table → e.1.shown ∉ knownKeys →
      Applies table (.unknown (unknownKeys table))

def ofSetting (table : List (Value × Value)) (s : Setting) : List Complaint :=
  ((Value.field? s.key table).filter (!s.fits ·)).toList.map (.wrongKind s)

def ofWidth (table : List (Value × Value)) : List Complaint :=
  match Value.field? "report_width" table with
  | some (.int i) => if 0 < i then [] else [.notPositive]
  | _ => []

def ofKeys (keys : List Text) : List Complaint := if keys.isEmpty then [] else [.unknown keys]

def all (table : List (Value × Value)) : List Complaint :=
  settings.flatMap (ofSetting table) ++ ofWidth table ++ ofKeys (unknownKeys table)

theorem setting_logs {α : Type} (place : Text) (table : List (Value × Value)) (s : Setting)
    (take : Value → Option α) (hs : ∀ v, s.fits v = (take v).isSome) :
    (setting place table s.key s.kind take).2 =
      (ofSetting table s).map fun c => warning (c.text place) := by
  rw [setting, ofSetting]
  cases Value.field? s.key table with
  | none => rfl
  | some v => cases ht : take v <;> simp [hs, ht, Option.filter, text]

theorem positive_logs (place : Text) (table : List (Value × Value)) :
    (positive place (setting place table "report_width" "int" asInteger).1).2 =
      (ofWidth table).map fun c => warning (c.text place) := by
  rw [setting_fst, ofWidth]
  rcases Value.field? "report_width" table with _ | v
  · rfl
  · cases v with
    | int i => by_cases hi : 0 < i <;> simp [asInteger, positive, text, hi]
    | _ => rfl

theorem unknownWarning_logs (place : Text) (keys : List Text) :
    unknownWarning place keys = (ofKeys keys).map fun c => warning (c.text place) := by
  rw [unknownWarning, ofKeys]
  split <;> rfl

theorem ofTable_snd (place : Text) (table : List (Value × Value)) :
    (ofTable place table).2 = (all table).map fun c => warning (c.text place) := by
  have integer := setting_logs place table integerSetting asInteger fun _ => rfl
  have words := setting_logs place table textSetting asText fun _ => rfl
  have truth := setting_logs place table truthSetting asTruth fun _ => rfl
  simp only [all, settings, List.flatMap_cons, List.flatMap_nil, List.append_nil, List.map_append]
  rw [← integer, ← words, ← truth, ← positive_logs, ← unknownWarning_logs]
  simp only [ofTable, integerSetting, textSetting, truthSetting, List.append_assoc]

/-! ## Each complaint once -/

theorem mem_insertSorted {s k : Text} {ks : List Text} :
    k ∈ insertSorted s ks ↔ k = s ∨ k ∈ ks := by
  induction ks with
  | nil => simp [insertSorted]
  | cons t ts ih =>
    rw [insertSorted]
    split
    · exact List.mem_cons
    · rw [List.mem_cons, ih, List.mem_cons]
      exact or_left_comm

theorem mem_unknownKeys {table : List (Value × Value)} {k : Text} :
    k ∈ unknownKeys table ↔ (∃ e ∈ table, e.1.shown = k) ∧ k ∉ knownKeys := by
  have sorted (ks : List Text) : k ∈ ks.foldr insertSorted [] ↔ k ∈ ks := by
    induction ks with
    | nil => rfl
    | cons t ts ih => rw [List.foldr_cons, mem_insertSorted, ih, List.mem_cons]
  rw [unknownKeys, sorted]
  simp

theorem mem_ofSetting {table : List (Value × Value)} {s : Setting} {c : Complaint} :
    c ∈ ofSetting table s ↔
      ∃ v, Value.field? s.key table = some v ∧ s.fits v = false ∧ c = wrongKind s v := by
  rw [ofSetting, List.mem_map]
  constructor
  · rintro ⟨v, hv, rfl⟩
    obtain ⟨hf, hk⟩ := Option.filter_eq_some_iff.mp (Option.mem_toList.mp hv)
    exact ⟨v, hf, by simpa using hk, rfl⟩
  · rintro ⟨v, hf, hk, rfl⟩
    exact ⟨v, Option.mem_toList.mpr (Option.filter_eq_some_iff.mpr ⟨hf, by simp [hk]⟩), rfl⟩

theorem mem_ofWidth {table : List (Value × Value)} {c : Complaint} :
    c ∈ ofWidth table ↔
      ∃ i, Value.field? "report_width" table = some (.int i) ∧ i ≤ 0 ∧ c = notPositive := by
  rw [ofWidth]
  split
  · next i hi => by_cases hw : 0 < i <;> simp [hw, hi, Int.not_lt.mp]
  · next hn => simpa using fun i hi => absurd hi (hn i)

theorem mem_ofKeys {table : List (Value × Value)} {c : Complaint} :
    c ∈ ofKeys (unknownKeys table) ↔
      (∃ e ∈ table, e.1.shown ∉ knownKeys) ∧ c = unknown (unknownKeys table) := by
  have some_unknown : unknownKeys table ≠ [] ↔ ∃ e ∈ table, e.1.shown ∉ knownKeys := by
    rw [ne_eq, List.eq_nil_iff_forall_not_mem, not_forall_not]
    simp only [mem_unknownKeys]
    grind
  rw [ofKeys, ← some_unknown]
  by_cases h : unknownKeys table = [] <;> simp [h]

theorem mem_all {table : List (Value × Value)} {c : Complaint} :
    c ∈ all table ↔ Applies table c := by
  rw [all, List.mem_append, List.mem_append, List.mem_flatMap, mem_ofWidth, mem_ofKeys]
  simp only [mem_ofSetting]
  constructor
  · rintro ((⟨s, hs, v, hv, hk, rfl⟩ | ⟨i, hi, hn, rfl⟩) | ⟨⟨e, he, hk⟩, rfl⟩)
    · exact .wrongKind hs hv hk
    · exact .notPositive hi hn
    · exact .unknown he hk
  · intro h
    cases h with
    | wrongKind hs hv hk => exact .inl (.inl ⟨_, hs, _, hv, hk, rfl⟩)
    | notPositive hi hn => exact .inl (.inr ⟨_, hi, hn, rfl⟩)
    | unknown he hk => exact .inr ⟨⟨_, he, hk⟩, rfl⟩

theorem ofSetting_nodup (table : List (Value × Value)) (s : Setting) :
    (ofSetting table s).Nodup := by
  rw [ofSetting]
  cases (Value.field? s.key table).filter (!s.fits ·) <;> simp

theorem ofSettings_nodup (table : List (Value × Value)) :
    (settings.flatMap (ofSetting table)).Nodup := by
  have apart (s s' : Setting) (hk : s.key ≠ s'.key) :
      (ofSetting table s).Disjoint (ofSetting table s') := by
    intro c hc hc'
    obtain ⟨v, -, -, rfl⟩ := mem_ofSetting.mp hc
    obtain ⟨v', -, -, he⟩ := mem_ofSetting.mp hc'
    cases he
    exact hk rfl
  have keys : settings.Pairwise fun s s' => s.key ≠ s'.key := by
    rw [← List.pairwise_map, ← knownKeys_eq]
    decide
  exact List.nodup_flatMap.mpr
    ⟨fun s _ => ofSetting_nodup table s, keys.imp fun hk => apart _ _ hk⟩

theorem all_nodup (table : List (Value × Value)) : (all table).Nodup := by
  have width : (ofWidth table).Nodup := by
    rw [ofWidth]
    split
    · split <;> simp
    · exact .nil
  have keys : (ofKeys (unknownKeys table)).Nodup := by
    rw [ofKeys]
    split <;> simp
  refine List.nodup_append.mpr
    ⟨List.nodup_append.mpr ⟨ofSettings_nodup table, width, ?_⟩, keys, ?_⟩
  -- complaints of different parts are of different kinds
  all_goals
    simp only [List.mem_append, List.mem_flatMap, mem_ofSetting, mem_ofWidth, mem_ofKeys]
    grind

end Complaint

/-! ## The nearest file -/

theorem Holds.getD {key : Text} {document es : List (Value × Value)} (h : Holds key document es) :
    (Value.field? key document).getD (.dict []) = .dict es := by
  cases h with
  | table hf => rw [hf, Option.getD_some]
  | missing hf => rw [hf, Option.getD_none]

theorem load_eq {t : Tree} {start directory : Place} {bytes : List UInt8} {s : List Char}
    {document : List (Value × Value)}
    (nearest : Project.configured? t start = .ok (some directory))
    (held : t.node? (directory ++ [Project.configurationName]) = some (.file bytes))
    (decoded : Text.Utf8.Decodes bytes s) (parsed : Toml.read s = .ok document) :
    load t start =
      ofDocument (Path.ofPlace (directory ++ [Project.configurationName])).text document := by
  rw [load, nearest]
  dsimp only
  rw [held]
  dsimp only
  rw [ofBytes, Text.Utf8.decodes_decode decoded]
  dsimp only
  rw [parsed]

/-- The settings come from the nearest configuration file alone: nothing that stands beside or above
its directory changes them. If that file says nothing about the program, or no table, they are the
standard ones. From a table each setting is taken from its own key, and there is one warning for
each value that is of another kind, one for a width that is not positive, and one for all of the
keys that mean nothing. -/
theorem load_settings {t : Tree} {start directory : Place} {bytes : List UInt8} {s : List Char}
    {document tools : List (Value × Value)}
    (nearest : Project.configured? t start = .ok (some directory))
    (held : t.node? (directory ++ [Project.configurationName]) = some (.file bytes))
    (decoded : Text.Utf8.Decodes bytes s) (parsed : Toml.read s = .ok document)
    (shared : Holds "tool" document tools) :
    let place := (Path.ofPlace (directory ++ [Project.configurationName])).text
    ((".." : Text) ∉ start → ∀ u : Tree,
      (∀ q, q <+: directory ∨ directory <+: q → u.node? q = t.node? q) →
        load u start = load t start) ∧
    (Value.field? "namesmith" tools = none → load t start = .ok (standard, [])) ∧
    (NoTable "namesmith" tools → load t start = .ok (standard,
      [warning ("tool.namesmith in " ++ place ++ " is not a table; using defaults")])) ∧
    ∀ table, Value.field? "namesmith" tools = some (.dict table) →
      ∃ complaints : List Complaint, complaints.Nodup ∧
        (∀ c, c ∈ complaints ↔ Complaint.Applies table c) ∧
        load t start = .ok (settled table, complaints.map fun c => warning (c.text place)) := by
  intro place
  have hl : load t start = ofDocument place document := load_eq nearest held decoded parsed
  refine ⟨fun hs u hu => ?_, fun hn => ?_, fun hn => ?_, fun table ht => ?_⟩
  · have hc : Project.configured? u start = .ok (some directory) :=
      Project.configured?_agree hs nearest hu
    rw [hl]
    exact load_eq hc ((hu _ (.inr (List.prefix_append _ _))).trans held) decoded parsed
  · rw [hl, ofDocument, shared.getD]
    dsimp only
    rw [hn]
    rfl
  · rw [hl, ofDocument, shared.getD]
    dsimp only
    split
    · next he => exact absurd he (hn.getD_ne _)
    · rfl
  · refine ⟨Complaint.all table, Complaint.all_nodup table, fun c => Complaint.mem_all, ?_⟩
    rw [hl, ofDocument, shared.getD]
    dsimp only
    rw [ht, Option.getD_some]
    dsimp only
    rw [← ofTable_fst place table, ← Complaint.ofTable_snd place table]

def mixed : String :=
  "[tool.namesmith]\nreport_width = true\ndefault_source = 'ADC'\nwidht = true\n"

def mixedTable : List (Value × Value) := [(.text "report_width", .bool true),
  (.text "default_source", .text "ADC"), (.text "widht", .bool true)]

theorem load_settings_mixed : ∃ logs,
    load (project mixed) ["src"] = .ok (⟨50, "ADC", true⟩, logs) ∧
    warning "Ignoring tool.namesmith.report_width in /pyproject.toml: expected int, got bool" ∈
      logs ∧
    warning "Unknown keys in tool.namesmith of /pyproject.toml: ['widht']" ∈ logs := by
  have nearest : Project.configured? (project mixed) ["src"] = .ok (some []) := rfl
  have held : (project mixed).node? ([] ++ [Project.configurationName]) =
      some (.file (Text.Utf8.encode mixed.toList)) := rfl
  have parsed : Toml.read mixed.toList =
      .ok [(.text "tool", .dict [(.text "namesmith", .dict mixedTable)])] := by
    set_option maxRecDepth 20000 in cbv
  have shared : Holds "tool" [(.text "tool", .dict [(.text "namesmith", .dict mixedTable)])]
      [(.text "namesmith", .dict mixedTable)] := .table rfl
  have own : Value.field? "namesmith" [(.text "namesmith", .dict mixedTable)] =
      some (.dict mixedTable) := rfl
  obtain ⟨complaints, -, complete, hl⟩ := (load_settings nearest held
    (Text.Utf8.encode_decodes _) parsed shared).2.2.2 mixedTable own
  refine ⟨_, hl, List.mem_map.mpr ⟨.wrongKind integerSetting (.bool true), ?_, ?_⟩,
    List.mem_map.mpr ⟨.unknown (unknownKeys mixedTable), ?_, ?_⟩⟩
  · exact (complete _).mpr (.wrongKind List.mem_cons_self rfl rfl)
  · decide +kernel
  · have misspelt : ((.text "widht", .bool true) : Value × Value) ∈ mixedTable :=
      List.mem_of_getElem? (i := 2) rfl
    exact (complete _).mpr (.unknown misspelt (by decide))
  · decide +kernel

end SymbolRename.Config
