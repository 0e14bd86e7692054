import SymbolRename.Proofs.Files.Order
import SymbolRename.Proofs.Json.Reading
import SymbolRename.Proofs.Message.Leaves
import SymbolRename.Proofs.Message.Reading
import SymbolRename.Proofs.Text.Breaks
import SymbolRename.Proofs.Text.Utf8

/-!
# What message files add to a table

A file, a directory of files, a root and a row of roots are all read the same way: each adds entries
to whatever table there is. The entries of a file are its leaves, and those of the others are the
entries of their parts, one part after another.
-/

set_option autoImplicit false

namespace SymbolRename

/-- The suffix of a name is what follows its last dot, unless nothing stands before or behind it. -/
theorem Files.Path.splitSuffix_dot {stem ending : Text} (hs : stem ≠ []) (he : ending ≠ [])
    (hd : .char '.' ∉ ending) :
    splitSuffix (stem ++ .char '.' :: ending) = (stem, .char '.' :: ending) := by
  have hp : ∀ c ∈ ending.reverse, decide (c ≠ .char '.') = true := fun c hc =>
    decide_eq_true fun h => hd (h ▸ List.mem_reverse.mp hc)
  have hr : (stem ++ .char '.' :: ending).reverse =
      ending.reverse ++ .char '.' :: stem.reverse := by simp
  rw [splitSuffix, hr]
  rw [List.takeWhile_append_of_pos hp, List.dropWhile_append_of_pos hp,
    List.takeWhile_cons_of_neg (by simp), List.dropWhile_cons_of_neg (by simp), List.append_nil,
    List.drop_one, List.tail_cons, List.reverse_reverse, List.reverse_reverse,
    if_neg (by simp [hs, he])]

theorem Files.Path.splitSuffix_split (name : Text) :
    splitSuffix name = (name, []) ∨ ∃ stem ending, stem ≠ [] ∧ name = stem ++ .char '.' :: ending ∧
      splitSuffix name = (stem, .char '.' :: ending) := by
  rw [splitSuffix]
  split
  · exact .inl rfl
  · next h =>
    rw [Bool.or_eq_true, not_or, List.isEmpty_iff, List.isEmpty_iff] at h
    refine .inr ⟨_, _, mt List.reverse_eq_nil_iff.mp h.2, ?_, rfl⟩
    obtain ⟨c, cs, hd⟩ := List.exists_cons_of_ne_nil fun hd => h.2 (congrArg (List.drop 1) hd)
    have hc : c = .char '.' := by
      have hn := List.head?_dropWhile_not (fun c : Code => decide (c ≠ .char '.')) name.reverse
      rw [hd] at hn
      simpa using hn
    have hb : name.reverse.takeWhile (· ≠ .char '.') ++ .char '.' :: cs = name.reverse := by
      have hs := List.takeWhile_append_dropWhile (p := (· ≠ Code.char '.')) (l := name.reverse)
      rwa [hd, hc] at hs
    calc name = (name.reverse.takeWhile (· ≠ .char '.') ++ .char '.' :: cs).reverse := by
          rw [hb, List.reverse_reverse]
      _ = _ := by
          rw [hd, List.reverse_append, List.reverse_cons, List.append_assoc]
          rfl

namespace Message
open Files
open Entries (last? last?_append get?_putAll putAll_distinct last?_distinct Distinct)

/-- The name of a message file ends in `.json`, in any case, and has something before that. -/
def IsMessageName (file : Place) : Prop :=
  ∃ stem ending : Text, file.getLast? = some (stem ++ .char '.' :: ending) ∧ stem ≠ [] ∧
    ending.map lowerCode = "json"

theorem suffix_json (name : Text) : (Path.splitSuffix name).2.map lowerCode = ".json" ↔
    ∃ stem ending : Text, name = stem ++ .char '.' :: ending ∧ stem ≠ [] ∧
      ending.map lowerCode = "json" := by
  constructor
  · intro h
    rcases Path.splitSuffix_split name with hn | ⟨stem, ending, hs, hn, he⟩
    · rw [hn] at h
      cases h
    · rw [he] at h
      exact ⟨stem, ending, hn, hs, (List.cons.inj h).2⟩
  · rintro ⟨stem, ending, rfl, hs, he⟩
    have hne : ending ≠ [] := by
      rintro rfl
      cases he
    have hd : .char '.' ∉ ending := fun hm => by
      have hm := List.mem_map_of_mem (f := lowerCode) hm
      rw [he] at hm
      exact absurd hm (by decide)
    rw [Path.splitSuffix_dot hs hne hd, List.map_cons, he]
    rfl

theorem isMessageFile_iff (top : Path) {file : Place} (hf : file ≠ []) :
    isMessageFile (top.join ⟨false, file⟩) = true ↔ IsMessageName file := by
  obtain ⟨name, hn⟩ : ∃ name, file.getLast? = some name :=
    ⟨_, List.getLast?_eq_some_getLast hf⟩
  have hj : (top.join ⟨false, file⟩).name = name := by
    rw [Path.join, if_neg (by simp), Path.name, List.getLast?_append, hn]
    rfl
  rw [isMessageFile, decide_eq_true_iff, Path.suffix, hj, suffix_json, IsMessageName, hn]
  simp only [Option.some.injEq]

theorem isMessageFile_name {file : Place} (hf : file ≠ []) :
    isMessageFile ⟨false, file⟩ = true ↔ IsMessageName file :=
  isMessageFile_iff ⟨false, []⟩ hf

def object? (bytes : List UInt8) : Option (List (Value × Value)) :=
  match Text.Utf8.decode bytes with
  | .error _ => none
  | .ok s =>
    match Json.read (Text.unifyBreaks s) with
    | .ok (.dict es) => some es
    | _ => none

def TooDeep (bytes : List UInt8) : Prop :=
  ∃ s, Text.Utf8.decode bytes = .ok s ∧ Json.read (Text.unifyBreaks s) = .error .tooDeep

theorem readTable_eq {bytes : List UInt8} (h : ¬ TooDeep bytes) :
    readTable bytes = .ok ((object? bytes).map (flatten [])) := by
  rw [readTable, object?]
  cases hd : Text.Utf8.decode bytes with
  | error f => rfl
  | ok s =>
    dsimp only
    cases hr : Json.read (Text.unifyBreaks s) with
    | ok v => cases v <;> rfl
    | error f =>
      cases f with
      | malformed => rfl
      | tooDeep => exact absurd ⟨s, hd, hr⟩ h

theorem not_tooDeep {bytes : List UInt8} (h : (object? bytes).isSome = true) : ¬ TooDeep bytes := by
  rintro ⟨s, hs, hr⟩
  rw [object?, hs] at h
  dsimp only at h
  rw [hr] at h
  cases h

theorem tooDeep_brackets {n : ℕ} (hn : Json.depthLimit < n) :
    TooDeep (Text.Utf8.encode (List.replicate n '[')) := by
  have hr : '\r' ∉ List.replicate n '[' := fun h => absurd (List.eq_of_mem_replicate h) (by decide)
  exact ⟨_, Text.Utf8.decode_encode _, by rw [Text.unifyBreaks_self hr, Json.read_brackets hn]⟩

def objectIn? (file : Place × List UInt8) : Option (Place × List (Value × Value)) :=
  if isMessageFile ⟨false, file.1⟩ then (object? file.2).map (file.1, ·) else none

def failureIn? (file : Place × List UInt8) : Option Place :=
  if isMessageFile ⟨false, file.1⟩ && (object? file.2).isNone then some file.1 else none

def entriesOf (good : List (Place × List (Value × Value))) : Table :=
  good.flatMap fun e => flatten [] e.2

def skipped (top : Path) (bad : List Place) : List Log :=
  bad.map fun file => unreadableWarning (top.join ⟨false, file⟩)

def leavesIn (file : Place × List UInt8) : List (List Text × Text) :=
  if isMessageFile ⟨false, file.1⟩ then ((object? file.2).map (leaves [])).getD [] else []

/-- Reading adds some entries to whatever table there is, and keeps its keys distinct. -/
def Adds (read : Table → Reading Table) (es : Table) : Prop :=
  ∀ table logs, ∃ table' logs', (read table).run logs = (.ok table', logs') ∧
    (Distinct table → Distinct table') ∧
    ∀ key, Entries.get? key table' = (last? key es).or (Entries.get? key table)

theorem adds_nothing {read : Table → Reading Table}
    (h : ∀ table logs, ∃ logs', (read table).run logs = (.ok table, logs')) : Adds read [] := by
  intro table logs
  obtain ⟨logs', hr⟩ := h table logs
  exact ⟨table, logs', hr, id, fun _ => rfl⟩

variable {α : Type}

theorem adds_foldlM {add : Table → α → Reading Table} {es : α → Table} {as : List α}
    (h : ∀ a ∈ as, Adds (add · a) (es a)) : Adds (as.foldlM add ·) (as.flatMap es) := by
  induction as with
  | nil => exact adds_nothing fun _ logs => ⟨logs, rfl⟩
  | cons a as ih =>
    intro table logs
    obtain ⟨mid, logs', hr, hd, hg⟩ := h a List.mem_cons_self table logs
    obtain ⟨table', logs'', hr', hd', hg'⟩ :=
      ih (fun b hb => h b (List.mem_cons_of_mem a hb)) mid logs'
    refine ⟨table', logs'', ?_, hd' ∘ hd, fun key => ?_⟩
    · dsimp only at hr hr' ⊢
      rw [List.foldlM_cons, Task.run_bind_ok hr, hr']
    · rw [hg', hg, List.flatMap_cons, last?_append, Option.or_assoc]

theorem addFile_other {top : Path} {file : Place × List UInt8}
    (h : ¬ isMessageFile (top.join ⟨false, file.1⟩) = true) (table : Table) (logs : List Log) :
    (addFile top table file).run logs = (.ok table, logs) := by
  rw [addFile]
  exact congrFun (congrArg ExceptT.run (if_neg h)) logs

theorem addFile_object {top : Path} {file : Place × List UInt8}
    (h : isMessageFile (top.join ⟨false, file.1⟩) = true) {es : List (Value × Value)}
    (hr : readTable file.2 = .ok (some (flatten [] es))) (table : Table) (logs : List Log) :
    (addFile top table file).run logs = (.ok (Entries.putAll table (flatten [] es)), logs) := by
  rw [addFile]
  rw [if_pos h, hr]
  rfl

theorem addFile_unreadable {top : Path} {file : Place × List UInt8}
    (h : isMessageFile (top.join ⟨false, file.1⟩) = true) (hr : readTable file.2 = .ok none)
    (table : Table) (logs : List Log) : (addFile top table file).run logs =
      (.ok table, logs ++ [unreadableWarning (top.join ⟨false, file.1⟩)]) := by
  rw [addFile]
  rw [if_pos h, hr]
  rfl

/-- A message file adds the entries of its object, or is told about if it holds none. -/
theorem addFile_run (top : Path) {file : Place × List UInt8} (hf : file.1 ≠ [])
    (h : IsMessageName file.1 → ¬ TooDeep file.2) (table : Table) (logs : List Log) :
    (addFile top table file).run logs =
      (.ok (Entries.putAll table (entriesOf (objectIn? file).toList)),
        logs ++ skipped top (failureIn? file).toList) := by
  have hj := isMessageFile_iff top hf
  have ha := isMessageFile_name hf
  by_cases hn : IsMessageName file.1
  · have hr := readTable_eq (h hn)
    cases ho : object? file.2 with
    | none =>
      rw [ho] at hr
      rw [addFile_unreadable (hj.mpr hn) hr]
      simp [objectIn?, failureIn?, entriesOf, skipped, ha.mpr hn, ho, Entries.putAll]
    | some es =>
      rw [ho] at hr
      rw [addFile_object (hj.mpr hn) hr]
      simp [objectIn?, failureIn?, entriesOf, skipped, ha.mpr hn, ho]
  · rw [addFile_other (mt hj.mp hn)]
    simp [objectIn?, failureIn?, entriesOf, skipped, mt ha.mp hn, Entries.putAll]

theorem addFile_adds (top : Path) {file : Place × List UInt8} (hf : file.1 ≠ [])
    (h : IsMessageName file.1 → ¬ TooDeep file.2) :
    Adds (addFile top · file) (addressed (leavesIn file)) := by
  intro table logs
  refine ⟨_, _, addFile_run top hf h table logs, fun hd => putAll_distinct hd _, fun key => ?_⟩
  have hentries : last? key (entriesOf (objectIn? file).toList) =
      last? key (addressed (leavesIn file)) := by
    rw [objectIn?, leavesIn]
    split
    · cases object? file.2 with
      | none => rfl
      | some es => simpa [entriesOf] using get?_flatten key es
    · rfl
  rw [get?_putAll, hentries]

/-- A directory of messages can be looked up with all that is in it, and no message file below it is
nested too deep. -/
structure Legible (t : Tree) (here : Place) (top : Path) : Prop where
  found : ∀ p, t.find here top ≠ .error (.tooLong p)
  within : ∀ place, t.find here top = .ok (.directory place) → t.Within top place
  shallow : ∀ place file bytes, t.find here top = .ok (.directory place) → file ≠ [] →
    t.node? (place ++ file) = some (.file bytes) → IsMessageName file → ¬ TooDeep bytes

def filesOf (t : Tree) (here : Place) (top : Path) : List (Place × List UInt8) :=
  match t.find here top with
  | .ok (.directory place) => t.filesBelow place
  | _ => []

theorem mem_filesOf {t : Tree} (ht : t.Proper) {here : Place} {top : Path} {file : Place}
    {bytes : List UInt8} : (file, bytes) ∈ filesOf t here top ↔
      ∃ place, t.find here top = .ok (.directory place) ∧ file ≠ [] ∧
        t.node? (place ++ file) = some (.file bytes) := by
  rw [filesOf]
  split
  · next place hp =>
    rw [Tree.mem_filesBelow_iff ht]
    constructor
    · exact fun hm => ⟨place, hp, hm⟩
    · rintro ⟨place', hp', hm⟩
      cases hp.symm.trans hp'
      exact hm
  · next hn =>
    simp only [List.not_mem_nil, false_iff]
    rintro ⟨place, hp, -⟩
    exact hn place hp

theorem filesOf_ascending {t : Tree} (ht : t.Proper) (here : Place) (top : Path) :
    (filesOf t here top).Pairwise fun e f => spelled e.1 < spelled f.1 := by
  rw [filesOf]
  split
  · exact Tree.filesBelow_ascending ht _
  · exact List.Pairwise.nil

theorem filesUnder_eq_ok {t : Tree} {here : Place} {top : Path}
    {files : List (Place × List UInt8)} : t.filesUnder here top = .ok files ↔
      (∀ p, t.find here top ≠ .error (.tooLong p)) ∧
      (∀ place, t.find here top = .ok (.directory place) → t.Within top place) ∧
      files = filesOf t here top := by
  rw [filesOf]
  cases hf : t.find here top with
  | error f =>
    rw [Tree.filesUnder, Tree.probe, hf]
    cases f <;> simp [bind, Except.bind, pure, Except.pure, eq_comm]
  | ok found =>
    cases found with
    | file place bytes =>
      rw [Tree.filesUnder, Tree.probe, hf]
      simp [bind, Except.bind, pure, Except.pure, eq_comm]
    | directory place =>
      by_cases hw : t.Within top place
      · simp [Tree.filesUnder_within hf hw, hw, eq_comm]
      · simp [Tree.filesUnder_beyond hf hw, hw]

theorem loadDirectory_eq {t : Tree} {here : Place} {top : Path}
    {files : List (Place × List UInt8)} (h : t.filesUnder here top = .ok files) :
    loadDirectory t here top = files.foldlM (addFile top) [] := by
  rw [loadDirectory, h]
  rfl

theorem Legible.files {t : Tree} {here : Place} {top : Path} (h : Legible t here top) :
    t.filesUnder here top = .ok (filesOf t here top) :=
  filesUnder_eq_ok.mpr ⟨h.found, h.within, rfl⟩

theorem addLayer_adds {t : Tree} (ht : t.Proper) {here : Place} {top : Path}
    (h : Legible t here top) :
    Adds (addLayer t here · top)
      ((filesOf t here top).flatMap fun f => addressed (leavesIn f)) := by
  have hfiles : ∀ file ∈ filesOf t here top,
      Adds (addFile top · file) (addressed (leavesIn file)) := by
    intro file hm
    obtain ⟨place, hp, hf, hn⟩ := (mem_filesOf ht).mp hm
    exact addFile_adds top hf (h.shallow place _ _ hp hf hn)
  intro table logs
  obtain ⟨new, logs', hr, hd, hg⟩ := adds_foldlM hfiles [] logs
  refine ⟨Entries.putAll table new, logs', ?_, fun hd => putAll_distinct hd _, fun key => ?_⟩
  · dsimp only at hr ⊢
    rw [addLayer, loadDirectory_eq h.files, Task.run_bind_ok hr, Task.run_pure]
  · rw [get?_putAll, last?_distinct (hd Entries.nil_distinct), hg, Entries.get?, Option.or_none]

/-! ## What was read could be read -/

theorem foldlM_ok {α β : Type} {add : β → α → Reading β} {as : List α} {b c : β}
    {logs logs' : List Log} (h : (as.foldlM add b).run logs = (.ok c, logs')) {a : α}
    (ha : a ∈ as) :
    ∃ b' logs c' logs', (add b' a).run logs = (.ok c', logs') := by
  induction as generalizing b logs with
  | nil => cases ha
  | cons a' as ih =>
    rw [List.foldlM_cons, Task.run_bind] at h
    rcases hr : (add b a').run logs with ⟨e | b', more⟩
    · rw [hr] at h
      cases h
    · rw [hr] at h
      rcases List.mem_cons.mp ha with rfl | ha
      · exact ⟨b, logs, b', more, hr⟩
      · exact ih h ha

theorem addFile_ok {top : Path} {table table' : Table} {file : Place × List UInt8}
    {logs logs' : List Log} (h : (addFile top table file).run logs = (.ok table', logs'))
    (hf : file.1 ≠ []) (hn : IsMessageName file.1) : ¬ TooDeep file.2 := by
  rintro ⟨s, hs, hr⟩
  have ht : readTable file.2 = .error .tooDeep := by
    rw [readTable, hs]
    dsimp only
    rw [hr]
  rw [addFile] at h
  rw [if_pos ((isMessageFile_iff top hf).mpr hn), ht] at h
  cases h

theorem addLayer_ok {t : Tree} (ht : t.Proper) {here : Place} {top : Path} {table table' : Table}
    {logs logs' : List Log} (h : (addLayer t here table top).run logs = (.ok table', logs')) :
    Legible t here top := by
  rw [addLayer, Task.run_bind] at h
  rcases hl : (loadDirectory t here top).run logs with ⟨e | new, more⟩
  · rw [hl] at h
    cases h
  · cases hu : t.filesUnder here top with
    | error f =>
      rw [loadDirectory, hu] at hl
      cases hl
    | ok files =>
      rw [loadDirectory_eq hu] at hl
      obtain ⟨hf, hw, rfl⟩ := filesUnder_eq_ok.mp hu
      refine ⟨hf, hw, fun place file bytes hp hne hb hn => ?_⟩
      obtain ⟨b, logs, c, logs', hr⟩ := foldlM_ok hl ((mem_filesOf ht).mpr ⟨place, hp, hne, hb⟩)
      exact addFile_ok hr hne hn

/-! ## Where there is nothing to read -/

theorem addLayer_absent {t : Tree} {here : Place} {top : Path} (h : t.probe here top = .ok none)
    (table : Table) (logs : List Log) :
    (addLayer t here table top).run logs = (.ok table, logs) := by
  rw [addLayer, loadDirectory, Tree.filesUnder, h]
  rfl

theorem forall_layers {P : Path → Prop} {p : Path} {lang : Text} :
    (∀ top ∈ Root.layers p lang, P top) ↔
      P ((p.child "needle").child lang) ∧
        P (((p.child ".namesmith").child "needle").child lang) := by
  rw [Root.layers, List.forall_mem_cons, List.forall_mem_singleton]

/-- A root without directories of messages makes no difference. -/
theorem merged_absent (roots : List Root) {v : Sight} {p : Path} {lang : Text}
    (h : ∀ top ∈ Root.layers p lang, v.files.probe v.here top = .ok none) :
    merged (roots ++ [.project p]) v lang = merged roots v lang := by
  have hroot (table : Table) (logs : List Log) :
      (addRoot v.files v.here lang table (.project p)).run logs = (.ok table, logs) := by
    change ((Root.layers p lang).foldlM (addLayer v.files v.here) table).run logs = _
    obtain ⟨hneedle, hproject⟩ := forall_layers.mp h
    rw [Root.layers, List.foldlM_cons, Task.run_bind_ok (addLayer_absent hneedle table logs),
      List.foldlM_cons, Task.run_bind_ok (addLayer_absent hproject table logs)]
    rfl
  rw [merged, merged, loadLanguage, loadLanguage, List.foldlM_append, Task.run_bind]
  rcases (roots.foldlM (addRoot v.files v.here lang) []).run [] with ⟨e | table, logs⟩
  · rfl
  · dsimp only
    rw [List.foldlM_cons, Task.run_bind_ok (hroot table logs)]
    rfl

end Message
end SymbolRename
