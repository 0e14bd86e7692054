import SymbolRename.Files.Tree
import SymbolRename.Proofs.Task
import Mathlib.Data.List.Basic

/-!
# Writing a file and reading it

Making directories and writing a file leave every directory where it is. So a path that was written
to leads to the file with what was written, as long as the directories that the path starts from are
there.
-/

set_option autoImplicit false

namespace SymbolRename.Files.Tree

/-- A directory stands at the place and at every place above it. -/
def Standing (t : Tree) (place : Place) : Prop :=
  ∀ above, above <+: place → t.node? above = some .directory

def DirectoriesStay (t u : Tree) : Prop :=
  ∀ place, t.node? place = some .directory → u.node? place = some .directory

theorem node?_root (t : Tree) : t.node? [] = some .directory := if_pos rfl

theorem find?_set (place : Place) (n : Node) (other : Place) (ns : List (Place × Node)) :
    ((set place n ns).find? (·.1 = other)).map (·.2) =
      if other = place then some n else (ns.find? (·.1 = other)).map (·.2) := by
  induction ns with
  | nil => by_cases ho : place = other <;> simp [set, ho, eq_comm]
  | cons m ns ih =>
    rw [set]
    by_cases hm : m.1 = place
    · by_cases ho : place = other <;> simp [hm, ho, eq_comm]
    · rw [if_neg hm]
      by_cases ho : m.1 = other
      · have hne : other ≠ place := fun h => hm (ho.trans h)
        simp [ho, hne]
      · rw [List.find?_cons_of_neg (by simpa using ho), List.find?_cons_of_neg (by simpa using ho)]
        exact ih

theorem node?_put (t : Tree) {place : Place} (hp : place ≠ []) (n : Node) (other : Place) :
    (t.put place n).node? other = if other = place then some n else t.node? other := by
  rw [node?, node?]
  by_cases ho : other = []
  · rw [if_pos ho, if_neg (by rw [ho]; exact Ne.symm hp), if_pos ho]
  · rw [if_neg ho, if_neg ho]
    exact find?_set place n other t.nodes

theorem put_stay {t : Tree} {place : Place} (h : t.node? place ≠ some .directory) (n : Node) :
    DirectoriesStay t (t.put place n) := by
  intro other ho
  have hp : place ≠ [] := by
    rintro rfl
    exact h (node?_root t)
  rw [node?_put t hp, if_neg]
  · exact ho
  · rintro rfl
    exact h ho

theorem standing_root (t : Tree) : t.Standing [] := by
  intro above ha
  rw [List.prefix_nil.mp ha]
  exact node?_root t

theorem standing_stay {t u : Tree} (h : DirectoriesStay t u) {place : Place}
    (hp : t.Standing place) : u.Standing place :=
  fun above ha => h above (hp above ha)

theorem standing_dropLast {t : Tree} {place : Place} (h : t.Standing place) :
    t.Standing place.dropLast :=
  fun above ha => h above (ha.trans (List.dropLast_prefix place))

theorem standing_append {t : Tree} {place : Place} {name : Text} (h : t.Standing place)
    (hn : t.node? (place ++ [name]) = some .directory) : t.Standing (place ++ [name]) := by
  intro above ha
  rcases List.prefix_concat_iff.mp ha with rfl | ha
  · exact hn
  · exact h above ha

/-- One name further along a path. -/
theorem walk_cons {t : Tree} {p : Path} {here d : Place} {n : Text} {ns : List Text}
    (h : t.walk p here (n :: ns) = .ok (.directory d)) :
    (n = ".." ∧ t.walk p here.dropLast ns = .ok (.directory d)) ∨
      (n ≠ ".." ∧ Path.byteCount n ≤ Path.nameLimit ∧
        t.node? (here ++ [n]) = some .directory ∧ t.walk p (here ++ [n]) ns = .ok (.directory d)) := by
  rw [walk] at h
  split at h
  · next hn => exact .inl ⟨hn, h⟩
  · next hn =>
    split at h
    · cases h
    · next hl =>
      split at h
      · cases h
      · next hd => exact .inr ⟨hn, by omega, hd, h⟩
      · split at h <;> cases h

theorem walk_stay {t u : Tree} (h : DirectoriesStay t u) {p : Path} (q : Path) {here d : Place}
    {ns : List Text} (hw : t.walk p here ns = .ok (.directory d)) :
    u.walk q here ns = .ok (.directory d) := by
  induction ns generalizing here with
  | nil =>
    cases hw
    rfl
  | cons n ns ih =>
    rcases walk_cons hw with ⟨hn, hr⟩ | ⟨hn, hl, hd, hr⟩
    · rw [walk, if_pos hn]
      exact ih hr
    · rw [walk, if_neg hn, if_neg (by omega), h _ hd]
      exact ih hr

theorem walk_standing {t : Tree} {p : Path} {here d : Place} {ns : List Text}
    (hs : t.Standing here) (hw : t.walk p here ns = .ok (.directory d)) : t.Standing d := by
  induction ns generalizing here with
  | nil =>
    cases hw
    exact hs
  | cons n ns ih =>
    rcases walk_cons hw with ⟨-, hr⟩ | ⟨-, -, hd, hr⟩
    · exact ih (standing_dropLast hs) hr
    · exact ih (standing_append hs hd) hr

theorem walk_append {t : Tree} {p : Path} {here d : Place} {ns : List Text}
    (hw : t.walk p here ns = .ok (.directory d)) (more : List Text) :
    t.walk p here (ns ++ more) = t.walk p d more := by
  induction ns generalizing here with
  | nil =>
    cases hw
    rfl
  | cons n ns ih =>
    rw [List.cons_append, walk]
    rcases walk_cons hw with ⟨hn, hr⟩ | ⟨hn, hl, hd, hr⟩
    · rw [if_pos hn]
      exact ih hr
    · rw [if_neg hn, if_neg (by omega), hd]
      exact ih hr

def origin (here : Place) (p : Path) : Place := if p.rooted then [] else here

theorem origin_standing {t : Tree} {here : Place} (h : t.Standing here) (p : Path) :
    t.Standing (origin here p) := by
  rw [origin]
  split
  · exact standing_root t
  · exact h

theorem find_ok {t : Tree} {here : Place} {p : Path} {f : Found} (h : t.find here p = .ok f) :
    t.walk p (origin here p) p.parts = .ok f := by
  rw [find] at h
  split at h
  · cases h
  · split at h
    · cases h
    · exact h

/-- A path that leads to a directory still does when more directories are made. -/
theorem find_stay {t u : Tree} (h : DirectoriesStay t u) {here place : Place} {p : Path}
    (hf : t.find here p = .ok (.directory place)) : u.find here p = .ok (.directory place) := by
  have hw := find_ok hf
  rw [find] at hf ⊢
  split at hf
  · cases hf
  · next hi =>
    split at hf
    · cases hf
    · next hl =>
      rw [if_neg hi, if_neg hl]
      exact walk_stay h p hw

/-- A place that can be written to, where the path starts from standing directories: it is named by
the last part of the path, in a directory that the other parts lead to. -/
theorem place_ok {t : Tree} {here place : Place} {p : Path} (hs : t.Standing here)
    (h : t.place here p = .ok place) (hd : t.node? place ≠ some .directory) :
    ∃ (above : Place) (last : Text), p.parts = p.parts.dropLast ++ [last] ∧
      place = above ++ [last] ∧ last ≠ ".." ∧
      Path.byteCount last ≤ Path.nameLimit ∧ p.isImpossible = false ∧
      t.walk p.parent (origin here p) p.parts.dropLast = .ok (.directory above) := by
  rw [Tree.place] at h
  split at h
  · cases h
    exact absurd (origin_standing hs p _ List.prefix_rfl) hd
  · next last hl =>
    split at h
    · cases h
    · next hi =>
      cases hf : t.find here p.parent with
      | error f =>
        rw [hf] at h
        cases h
      | ok found =>
        rw [hf] at h
        cases found with
        | file => cases h
        | directory above =>
          have hw : t.walk p.parent (origin here p) p.parts.dropLast = .ok (.directory above) :=
            find_ok hf
          dsimp only at h
          split at h
          · cases h
            have ha := walk_standing (origin_standing hs p) hw
            exact absurd (ha _ (List.dropLast_prefix above)) hd
          · next hn =>
            split at h
            · cases h
            · next hb =>
              cases h
              refine ⟨above, last, ?_, rfl, hn, by omega, by simpa using hi, hw⟩
              exact (List.dropLast_append_getLast? last hl).symm

theorem write_ok {t u : Tree} {here : Place} {p : Path} {bytes : List UInt8}
    (h : t.write here p bytes = .ok u) :
    ∃ place, t.place here p = .ok place ∧ t.node? place ≠ some .directory ∧
      u = t.put place (.file bytes) := by
  rw [write] at h
  obtain ⟨place, hp, h⟩ := bind_eq_ok h
  split at h
  · cases h
  · next hd =>
    cases h
    exact ⟨place, hp, hd, rfl⟩

/-- The path is not longer than a file system takes, unless it is not a path at all. -/
def FitsLength (p : Path) : Prop :=
  p.isImpossible = false → Path.byteCount p.text ≤ Path.lengthLimit

theorem find_write {t u : Tree} {here : Place} {p : Path} {bytes : List UInt8}
    (hs : t.Standing here) (hl : FitsLength p)
    (h : t.write here p bytes = .ok u) : ∃ place, u.find here p = .ok (.file place bytes) := by
  obtain ⟨place, hp, hd, rfl⟩ := write_ok h
  obtain ⟨above, last, hparts, rfl, hn, hb, hi, hw⟩ := place_ok hs hp hd
  have hwalk := walk_append (walk_stay (put_stay hd (.file bytes)) p hw) [last]
  have hput := node?_put t (List.append_ne_nil_of_right_ne_nil above (List.cons_ne_nil last []))
    (.file bytes) (above ++ [last])
  rw [if_pos rfl] at hput
  have hlength := hl hi
  refine ⟨above ++ [last], ?_⟩
  rw [find, if_neg (by simp [hi]), if_neg (by omega), hparts]
  refine hwalk.trans ?_
  rw [walk, if_neg hn, if_neg (by omega), hput]
  rfl

theorem makeDirectory_stay {t u : Tree} {here : Place} {p : Path}
    (h : t.makeDirectory here p = .ok u) : DirectoriesStay t u := by
  rw [makeDirectory] at h
  obtain ⟨place, -, h⟩ := bind_eq_ok h
  split at h
  · cases h
  · next hn =>
    cases h
    exact put_stay (by rw [hn]; exact fun he => nomatch he) .directory

theorem orPresent_stay {t u : Tree} {here : Place} {p : Path} {r : Except Fault Tree}
    (hr : ∀ v, r = .ok v → DirectoriesStay t v) (h : t.orPresent here p r = .ok u) :
    DirectoriesStay t u := by
  rw [orPresent.eq_def] at h
  split at h
  · cases h
    exact hr _ rfl
  · cases h
  · obtain ⟨there, -, h⟩ := bind_eq_ok h
    cases there with
    | false => cases h
    | true =>
      cases h
      exact fun _ hp => hp

theorem makeDirectories_stay {t u : Tree} {here : Place} {n : ℕ} {p : Path}
    (h : t.makeDirectories here n p = .ok u) : DirectoriesStay t u := by
  induction n generalizing u p with
  | zero =>
    cases h
    exact fun _ hp => hp
  | succ n ih =>
    rw [makeDirectories] at h
    split at h
    · obtain ⟨above, ha, h⟩ := bind_eq_ok h
      have hstay := orPresent_stay (fun v hv => makeDirectory_stay hv) h
      exact fun place hp => hstay place (ih ha place hp)
    · exact orPresent_stay (fun v hv => makeDirectory_stay hv) h

theorem find_writeDeep {t u : Tree} {here : Place} {p : Path} {bytes : List UInt8}
    (hs : t.Standing here) (hl : FitsLength p)
    (h : t.writeDeep here p bytes = .ok u) : ∃ place, u.find here p = .ok (.file place bytes) := by
  rw [writeDeep] at h
  obtain ⟨v, hm, h⟩ := bind_eq_ok h
  exact find_write (standing_stay (makeDirectories_stay hm) hs) hl h

/-- Asking whether something is there fails for a path that is too long. -/
theorem fitsLength_of_present {t : Tree} {here : Place} {p : Path} {b : Bool}
    (h : t.present here p = .ok b) : FitsLength p := by
  intro hi
  by_contra hl
  rw [present, probe, find, if_neg (by simp [hi]), if_pos (by omega)] at h
  cases h

theorem isFile_of_find {t : Tree} {here place : Place} {p : Path} {bytes : List UInt8}
    (h : t.find here p = .ok (.file place bytes)) : t.isFile here p = .ok true := by
  rw [isFile, probe, h]
  rfl

theorem present_of_find {t : Tree} {here : Place} {p : Path} {f : Found}
    (h : t.find here p = .ok f) : t.present here p = .ok true := by
  rw [present, probe, h]
  rfl

theorem read_of_find {t : Tree} {here place : Place} {p : Path} {bytes : List UInt8}
    (h : t.find here p = .ok (.file place bytes)) : t.read here p = .ok bytes := by
  rw [read, h]
  rfl

theorem find_of_read {t : Tree} {here : Place} {p : Path} {bytes : List UInt8}
    (h : t.read here p = .ok bytes) : ∃ place, t.find here p = .ok (.file place bytes) := by
  rw [read] at h
  obtain ⟨found, hf, h⟩ := bind_eq_ok h
  cases found with
  | file place other =>
    cases h
    exact ⟨place, hf⟩
  | directory place => cases h

theorem isFile_error {t : Tree} {here : Place} {p : Path} {f : Fault}
    (h : t.isFile here p = .error f) : ∃ q, f = .tooLong q := by
  rw [isFile] at h
  rcases bind_eq_error h with h | ⟨found, -, h⟩
  · rw [probe.eq_def] at h
    split at h
    · cases h
    · cases h
      exact ⟨_, rfl⟩
    · cases h
  · split at h <;> cases h

theorem read_of_isFile {t : Tree} {here : Place} {p : Path} (h : t.isFile here p = .ok true) :
    ∃ bytes, t.read here p = .ok bytes := by
  rw [isFile] at h
  obtain ⟨found, hp, h⟩ := bind_eq_ok h
  split at h
  · next place bytes =>
    rw [probe.eq_def] at hp
    split at hp
    · next hf =>
      cases hp
      exact ⟨bytes, read_of_find hf⟩
    · cases hp
    · cases hp
  · cases h

end SymbolRename.Files.Tree
