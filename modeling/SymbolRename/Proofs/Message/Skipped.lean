import SymbolRename.Proofs.Files.Tree
import SymbolRename.Proofs.Message.Layers

/-!
# Message files without an object

A directory is read file by file. A message file in which no object stands is told about and gives
nothing; any other file is not even told about. So the table is that of the good files alone, where
the last one that has a key decides.
-/

set_option autoImplicit false

namespace SymbolRename.Message
open Files
open Entries (last? last?_flatMap last?_distinct get?_ofList)

/-! ## One file after another -/

def objects (files : List (Place × List UInt8)) : List (Place × List (Value × Value)) :=
  files.filterMap objectIn?

def failures (files : List (Place × List UInt8)) : List Place := files.filterMap failureIn?

theorem addFiles_run (top : Path) {files : List (Place × List UInt8)}
    (h : ∀ file ∈ files, file.1 ≠ [] ∧ (IsMessageName file.1 → ¬ TooDeep file.2)) (table : Table)
    (logs : List Log) : (files.foldlM (addFile top) table).run logs =
      (.ok (Entries.putAll table (entriesOf (objects files))),
        logs ++ skipped top (failures files)) := by
  induction files generalizing table logs with
  | nil => simp [objects, failures, entriesOf, skipped, Entries.putAll]
  | cons file files ih =>
    obtain ⟨⟨hf, hd⟩, hrest⟩ := List.forall_mem_cons.mp h
    have hobjects : entriesOf (objects (file :: files)) =
        entriesOf (objectIn? file).toList ++ entriesOf (objects files) := by
      cases ho : objectIn? file <;> simp [objects, ho, entriesOf]
    have hfailures : skipped top (failures (file :: files)) =
        skipped top (failureIn? file).toList ++ skipped top (failures files) := by
      cases ho : failureIn? file <;> simp [failures, ho, skipped]
    rw [List.foldlM_cons, Task.run_bind_ok (addFile_run top hf hd table logs), ih hrest, hobjects,
      hfailures, List.append_assoc, Entries.putAll, Entries.putAll, Entries.putAll,
      List.foldl_append]

/-! ## The good files and the others -/

theorem objectIn?_eq_some {file : Place × List UInt8} {e : Place × List (Value × Value)} :
    objectIn? file = some e ↔
      isMessageFile ⟨false, file.1⟩ = true ∧ file.1 = e.1 ∧ object? file.2 = some e.2 := by
  obtain ⟨place, es⟩ := e
  simp [objectIn?, and_comm]

theorem failureIn?_eq_some {file : Place × List UInt8} {place : Place} :
    failureIn? file = some place ↔
      isMessageFile ⟨false, file.1⟩ = true ∧ file.1 = place ∧ object? file.2 = none := by
  simp [failureIn?, and_assoc, and_comm]

/-- The message files below a directory in the order of their paths, those that hold an object and
those that hold none. -/
structure Divided (t : Tree) (place : Place) (good : List (Place × List (Value × Value)))
    (bad : List Place) : Prop where
  good_ascending : good.Pairwise fun e f => spelled e.1 < spelled f.1
  mem_good : ∀ file es, (file, es) ∈ good ↔ IsMessageName file ∧
    ∃ bytes, t.node? (place ++ file) = some (.file bytes) ∧ object? bytes = some es
  bad_ascending : bad.Pairwise fun e f => spelled e < spelled f
  mem_bad : ∀ file, file ∈ bad ↔ IsMessageName file ∧
    ∃ bytes, t.node? (place ++ file) = some (.file bytes) ∧ object? bytes = none

theorem IsMessageName.ne_nil {file : Place} (h : IsMessageName file) : file ≠ [] := by
  rintro rfl
  obtain ⟨stem, ending, he, -⟩ := h
  cases he

variable {t u : Tree} {here place : Place} {top : Path}

/-- The message files below a directory are the files that stand there under such a name. -/
theorem exists_messageFile (ht : t.Proper) (place file : Place) (P : List UInt8 → Prop) :
    (∃ f ∈ t.filesBelow place, isMessageFile ⟨false, f.1⟩ = true ∧ f.1 = file ∧ P f.2) ↔
      IsMessageName file ∧ ∃ bytes, t.node? (place ++ file) = some (.file bytes) ∧ P bytes := by
  constructor
  · rintro ⟨⟨file, bytes⟩, hm, hn, rfl, hp⟩
    obtain ⟨hf, hb⟩ := (Tree.mem_filesBelow_iff ht).mp hm
    exact ⟨(isMessageFile_name hf).mp hn, bytes, hb, hp⟩
  · rintro ⟨hn, bytes, hb, hp⟩
    exact ⟨(file, bytes), (Tree.mem_filesBelow_iff ht).mpr ⟨hn.ne_nil, hb⟩,
      (isMessageFile_name hn.ne_nil).mpr hn, rfl, hp⟩

theorem filesBelow_divided (ht : t.Proper) (place : Place) :
    Divided t place (objects (t.filesBelow place)) (failures (t.filesBelow place)) := by
  have hasc := Tree.filesBelow_ascending ht place
  refine ⟨?_, fun file es => ?_, ?_, fun file => ?_⟩
  · refine hasc.filterMap _ fun f g hlt e he e' he' => ?_
    rwa [← (objectIn?_eq_some.mp he).2.1, ← (objectIn?_eq_some.mp he').2.1]
  · simp only [objects, List.mem_filterMap, objectIn?_eq_some]
    exact exists_messageFile ht place file fun bytes => object? bytes = some es
  · refine hasc.filterMap _ fun f g hlt e he e' he' => ?_
    rwa [← (failureIn?_eq_some.mp he).2.1, ← (failureIn?_eq_some.mp he').2.1]
  · simp only [failures, List.mem_filterMap, failureIn?_eq_some]
    exact exists_messageFile ht place file fun bytes => object? bytes = none

/-- The second tree is the first without some of the files below a directory, none of which is a
message file with an object. -/
def Spared (t u : Tree) (place : Place) : Prop :=
  ∀ q, u.node? q = t.node? q ∨ u.node? q = none ∧ ∃ file bytes, q = place ++ file ∧
    t.node? q = some (.file bytes) ∧ (IsMessageName file → object? bytes = none)

theorem Spared.stay (h : Spared t u place) : Tree.DirectoriesStay t u := by
  intro q hq
  rcases h q with he | ⟨-, file, bytes, -, hb, -⟩
  · exact he.trans hq
  · rw [hb] at hq
    cases hq

theorem Spared.file (h : Spared t u place) {q : Place} {bytes : List UInt8}
    (hq : u.node? q = some (.file bytes)) : t.node? q = some (.file bytes) := by
  rcases h q with he | ⟨hn, -⟩
  · exact he.symm.trans hq
  · rw [hn] at hq
    cases hq

theorem Spared.object (h : Spared t u place) {file : Place} {bytes : List UInt8}
    {es : List (Value × Value)} (hn : IsMessageName file) (ho : object? bytes = some es) :
    u.node? (place ++ file) = some (.file bytes) ↔
      t.node? (place ++ file) = some (.file bytes) := by
  refine ⟨h.file, fun hb => ?_⟩
  rcases h (place ++ file) with he | ⟨-, other, bytes', hp, hb', hnone⟩
  · exact he.trans hb
  · obtain rfl := List.append_cancel_left hp
    cases hb.symm.trans hb'
    rw [hnone hn] at ho
    cases ho

theorem Spared.within (h : Spared t u place) (hw : t.Within top place) : u.Within top place := by
  intro names hne hn
  refine hw names hne ?_
  rcases h (place ++ names) with he | ⟨hnone, -⟩
  · rwa [← he]
  · exact absurd hnone hn

/-! ## A whole directory -/

theorem loadDirectory_run (ht : t.Proper) (found : t.find here top = .ok (.directory place))
    (shallow : ∀ file bytes, t.node? (place ++ file) = some (.file bytes) → IsMessageName file →
      ¬ TooDeep bytes) (within : t.Within top place) :
    ∃ good bad, Divided t place good bad ∧ ∀ logs, (loadDirectory t here top).run logs =
      (.ok (Entries.ofList (entriesOf good)), logs ++ skipped top bad) := by
  refine ⟨_, _, filesBelow_divided ht place, fun logs => ?_⟩
  rw [loadDirectory_eq (Tree.filesUnder_within found within)]
  refine addFiles_run top (fun f hm => ?_) [] logs
  obtain ⟨hf, hb⟩ := (Tree.mem_filesBelow_iff ht).mp hm
  exact ⟨hf, shallow f.1 f.2 hb⟩

theorem get?_entriesOf (key : Text) (good : List (Place × List (Value × Value))) :
    Entries.get? key (Entries.ofList (entriesOf good)) =
      good.reverse.findSome? fun e => Entries.get? key (flatten [] e.2) := by
  rw [get?_ofList, entriesOf, last?_flatMap]
  simp only [last?_distinct (flatten_distinct _ _)]

/-- Message files that cannot be decoded, are no JSON or hold no object give nothing, with one
warning each in the order of their paths, and other files not even that: the table is the same
without them. A key has the text of the last good file that has it. Only where a path below the
directory is too long to be looked up, nothing is read at all. -/
theorem loadDirectory_skips (ht : t.Proper) (found : t.find here top = .ok (.directory place))
    (shallow : ∀ file bytes, t.node? (place ++ file) = some (.file bytes) → IsMessageName file →
      ¬ TooDeep bytes) (logs : List Log) :
    (t.Within top place → ∃ table good bad, Divided t place good bad ∧
      (loadDirectory t here top).run logs = (.ok table, logs ++ bad.map fun file =>
        unreadableWarning (top.join ⟨false, file⟩)) ∧
      (∀ key, Entries.get? key table =
        good.reverse.findSome? fun e => Entries.get? key (flatten [] e.2)) ∧
      ∀ u : Tree, u.Proper → Spared t u place →
        ((loadDirectory u here top).run logs).1 = .ok table) ∧
    (¬ t.Within top place →
      (loadDirectory t here top).run logs = (.error (.file (.tooLong top)), logs)) := by
  constructor
  · intro within
    obtain ⟨good, bad, hd, hr⟩ := loadDirectory_run ht found shallow within
    refine ⟨_, good, bad, hd, hr logs, fun key => get?_entriesOf key good, fun u hu hs => ?_⟩
    obtain ⟨more, others, hd', hr'⟩ := loadDirectory_run hu (Tree.find_stay hs.stay found)
      (fun file bytes hb => shallow file bytes (hs.file hb)) (hs.within within)
    have hgood : good = more := by
      refine Tree.ascending_unique hd.good_ascending hd'.good_ascending fun ⟨file, es⟩ => ?_
      rw [hd.mem_good, hd'.mem_good]
      refine and_congr_right fun hn => exists_congr fun bytes => and_congr_left fun ho => ?_
      exact (hs.object hn ho).symm
    rw [hr' logs, hgood]
  · intro beyond
    rw [loadDirectory, Tree.filesUnder_beyond found beyond]
    rfl

def goodBytes : List UInt8 := Text.Utf8.encode (Json.write (.dict [(.text "k", .text "v")]))

def damaged : Tree where
  nodes := [(["d"], .directory),
    (["d", "a.json"], .file goodBytes),
    (["d", "b.JSON"], .file [0xFF]), (["d", "c.txt"], .file [0xFF])]

def undamaged : Tree := ⟨damaged.nodes.take 2⟩

theorem loadDirectory_skips_undecodable : ∃ table logs,
    (loadDirectory damaged [] ⟨false, ["d"]⟩).run [] = (.ok table, logs) ∧
    unreadableWarning ⟨false, ["d", "b.JSON"]⟩ ∈ logs ∧
    ((loadDirectory undamaged [] ⟨false, ["d"]⟩).run []).1 = .ok table := by
  have hp : damaged.Proper := by
    unfold Tree.Proper
    decide
  have hu : undamaged.Proper := by
    unfold Tree.Proper
    decide
  have found : damaged.find [] ⟨false, ["d"]⟩ = .ok (.directory ["d"]) := rfl
  have undecodable : object? [0xFF] = none := rfl
  have shallow : ∀ file bytes, damaged.node? ([("d" : Text)] ++ file) = some (.file bytes) →
      IsMessageName file → ¬ TooDeep bytes := by
    intro file bytes hb hn
    have hm := (Tree.node?_of_mem hp (List.cons_ne_nil _ _)).mp hb
    simp only [damaged, List.mem_cons, Prod.mk.injEq, Node.file.injEq, List.not_mem_nil] at hm
    rcases hm with h | ⟨-, rfl⟩ | ⟨-, rfl⟩ | ⟨-, rfl⟩ | h
    · cases h.2
    · exact not_tooDeep (by decide +kernel)
    · rintro ⟨s, hs, -⟩
      cases hs
    · rintro ⟨s, hs, -⟩
      cases hs
    · cases h
  have within : damaged.Within ⟨false, ["d"]⟩ ["d"] := Tree.within_iff.mpr (by decide)
  have spared : Spared damaged undamaged ["d"] := by
    intro q
    by_cases hb : q = [("d" : Text), "b.JSON"]
    · exact .inr ⟨hb ▸ rfl, ["b.JSON"], _, hb, hb ▸ rfl, fun _ => undecodable⟩
    · by_cases hc : q = [("d" : Text), "c.txt"]
      · exact .inr ⟨hc ▸ rfl, ["c.txt"], _, hc, hc ▸ rfl, fun _ => undecodable⟩
      · refine .inl ?_
        simp [Tree.node?, undamaged, damaged, List.find?_cons, Ne.symm hb, Ne.symm hc]
  obtain ⟨table, good, bad, hd, hr, -, hs⟩ := (loadDirectory_skips hp found shallow []).1 within
  refine ⟨table, _, hr, List.mem_append_right _ (List.mem_map.mpr ⟨["b.JSON"], ?_, rfl⟩),
    hs _ hu spared⟩
  exact (hd.mem_bad _).mpr ⟨⟨"b", "JSON", by decide⟩, _, rfl, undecodable⟩

/-! ## A path that is too long -/

/-- Going into a directory and out of it again leads nowhere. -/
theorem walk_inAndOut (name : Text) (hn : name ≠ "..") (hb : Path.byteCount name ≤ Path.nameLimit)
    (hd : t.node? (here ++ [name]) = some .directory) (p : Path) (n : ℕ) (rest : List Text) :
    t.walk p here ((List.replicate n [name, ".."]).flatten ++ rest) = t.walk p here rest := by
  induction n with
  | zero => rfl
  | succ n ih =>
    rw [List.replicate_succ, List.flatten_cons, List.append_assoc, List.cons_append,
      List.cons_append, List.nil_append, Tree.walk, if_neg hn, if_neg (by omega), hd]
    dsimp only
    rw [Tree.walk, if_pos rfl, List.dropLast_concat]
    exact ih

def winding : Path := ⟨false, (List.replicate 770 [("d" : Text), ".."]).flatten ++ [("d" : Text)]⟩

def longName : Text := List.replicate 240 (Code.char 'b') ++ (".json" : Text)

def remote : Tree where
  nodes := [(["d"], .directory),
    (["d", "a.json"], .file goodBytes),
    (["d", longName], .file [])]

theorem find_winding {t : Tree} (h : t.node? ["d"] = some .directory) :
    t.find [] winding = .ok (.directory ["d"]) := by
  rw [Tree.find, if_neg (by decide +kernel), if_neg (by decide +kernel)]
  have last : t.walk winding [] ["d"] = .ok (.directory ["d"]) := by
    rw [Tree.walk, if_neg (by decide), if_neg (by decide), List.nil_append, h]
    rfl
  exact (walk_inAndOut "d" (by decide) (by decide) h winding 770 ["d"]).trans last

/-- A file with a path that is too long is not skipped: it takes the good files along. -/
theorem loadDirectory_stopped :
    (loadDirectory remote [] winding).run [] = (.error (.file (.tooLong winding)), []) ∧
    (loadDirectory ⟨remote.nodes.take 2⟩ [] winding).run [] = (.ok [("k", "v")], []) := by
  constructor
  · have beyond : ¬ remote.Within winding ["d"] := mt Tree.within_iff.mp (by decide +kernel)
    rw [loadDirectory, Tree.filesUnder_beyond (find_winding rfl) beyond]
    rfl
  · have within : (Tree.mk (remote.nodes.take 2)).Within winding ["d"] :=
      Tree.within_iff.mpr (by decide +kernel)
    rw [loadDirectory_eq (Tree.filesUnder_within (find_winding rfl) within)]
    have below : (Tree.mk (remote.nodes.take 2)).filesBelow ["d"] =
        [([("a.json" : Text)], goodBytes)] := rfl
    have shallow : IsMessageName ["a.json"] → ¬ TooDeep goodBytes := fun _ =>
      not_tooDeep (by decide +kernel)
    rw [below, addFiles_run winding (List.forall_mem_singleton.mpr ⟨List.cons_ne_nil _ _, shallow⟩)]
    rfl

end SymbolRename.Message
