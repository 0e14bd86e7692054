import SymbolRename.Files.Tree
import Mathlib.Data.List.Basic
import Mathlib.Order.Lattice
import Mathlib.Data.List.Lex

/-!
# The order of files

The files below a directory are listed by their names from there, which are compared part by part,
and each part by its code points.
-/

set_option autoImplicit false

namespace SymbolRename

theorem Code.toNat_injective : Function.Injective Code.toNat := by
  intro a b h
  cases a with
  | char c =>
    cases b with
    | char d => exact congrArg Code.char (Char.toNat_inj.mp h)
    | half n =>
      have hc := c.valid
      have hn := n.isLt
      have h : c.val.toNat = 0xD800 + n.val := h
      rw [UInt32.isValidChar, Nat.isValidChar] at hc
      omega
  | half m =>
    cases b with
    | char d =>
      have hd := d.valid
      have hm := m.isLt
      have h : 0xD800 + m.val = d.val.toNat := h
      rw [UInt32.isValidChar, Nat.isValidChar] at hd
      omega
    | half n =>
      have h : 0xD800 + m.val = 0xD800 + n.val := h
      exact congrArg Code.half (Fin.ext (by omega))

namespace Text

def spelled (s : Text) : List ℕ := s.map Code.toNat

theorem spelled_injective : Function.Injective spelled :=
  List.map_injective_iff.mpr Code.toNat_injective

theorem comesBefore_iff (s t : Text) : comesBefore s t = true ↔ spelled s < spelled t := by
  induction s generalizing t with
  | nil => cases t <;> simp [comesBefore, spelled]
  | cons a s ih =>
    cases t with
    | nil => simp [comesBefore, spelled]
    | cons b t =>
      rw [comesBefore, spelled, spelled, List.map_cons, List.map_cons, List.cons_lt_cons_iff]
      by_cases h : a = b
      · rw [if_pos h, ih, h]
        simp [spelled]
      · have hn : a.toNat ≠ b.toNat := fun he => h (Code.toNat_injective he)
        simp [h, hn]

end Text

namespace Files

/-- The parts of a file's name as numbers, which is how names are compared. -/
def spelled (p : Place) : List (List ℕ) := p.map Text.spelled

theorem spelled_injective : Function.Injective spelled :=
  List.map_injective_iff.mpr Text.spelled_injective

namespace Tree

theorem placeBefore_iff (p q : Place) : placeBefore p q = true ↔ ¬ spelled q < spelled p := by
  induction p generalizing q with
  | nil => simp [placeBefore, spelled]
  | cons a p ih =>
    cases q with
    | nil => simp [placeBefore, spelled]
    | cons b q =>
      rw [placeBefore, spelled, spelled, List.map_cons, List.map_cons, List.cons_lt_cons_iff]
      by_cases h : a = b
      · rw [if_pos h, ih, h]
        simp [spelled]
      · have hn : Text.spelled b ≠ Text.spelled a :=
          fun he => h (Text.spelled_injective he).symm
        rw [if_neg h, Text.comesBefore_iff]
        simp [hn, lt_iff_le_and_ne, hn.symm]

variable {α : Type}

def Sorted (es : List (Place × α)) : Prop := es.Pairwise fun e f => spelled e.1 ≤ spelled f.1

theorem mem_insertSorted {e f : Place × α} {es : List (Place × α)} :
    f ∈ insertSorted e es ↔ f = e ∨ f ∈ es := by
  induction es with
  | nil => simp [insertSorted]
  | cons g es ih =>
    rw [insertSorted]
    split
    · simp
    · simp only [List.mem_cons, ih]
      tauto

theorem insertSorted_sorted {es : List (Place × α)} (h : Sorted es) (e : Place × α) :
    Sorted (insertSorted e es) := by
  induction es with
  | nil => exact List.pairwise_singleton _ e
  | cons f es ih =>
    obtain ⟨hf, hs⟩ := List.pairwise_cons.mp h
    rw [insertSorted]
    split
    · next hb =>
      have he := not_lt.mp ((placeBefore_iff e.1 f.1).mp hb)
      refine List.pairwise_cons.mpr ⟨fun g hg => ?_, h⟩
      rcases List.mem_cons.mp hg with rfl | hg
      · exact he
      · exact he.trans (hf g hg)
    · next hb =>
      rw [placeBefore_iff, not_not] at hb
      refine List.pairwise_cons.mpr ⟨fun g hg => ?_, ih hs⟩
      rcases mem_insertSorted.mp hg with rfl | hg
      · exact hb.le
      · exact hf g hg

/-- What one node of a tree adds to the files below a directory. -/
theorem filesBelow_cons (n : Place × Node) (ns : List (Place × Node)) (top : Place) :
    (∃ file bytes, file ≠ [] ∧ n = (top ++ file, .file bytes) ∧
      (Tree.mk (n :: ns)).filesBelow top =
        insertSorted (file, bytes) ((Tree.mk ns).filesBelow top)) ∨
    ((∀ file bytes, file ≠ [] → n ≠ (top ++ file, .file bytes)) ∧
      (Tree.mk (n :: ns)).filesBelow top = (Tree.mk ns).filesBelow top) := by
  rw [filesBelow, List.foldr_cons]
  split
  · next p ps bytes hp hb =>
    rw [List.isPrefixOf?_eq_some_iff_append_eq] at hp
    exact .inl ⟨p :: ps, bytes, List.cons_ne_nil p ps, Prod.ext hp.symm hb, rfl⟩
  · next hn =>
    refine .inr ⟨fun file bytes hf he => ?_, rfl⟩
    obtain ⟨p, ps, rfl⟩ := List.exists_cons_of_ne_nil hf
    exact hn p ps bytes (by rw [he, List.isPrefixOf?_eq_some_iff_append_eq]) (by rw [he])

theorem mem_filesBelow {t : Tree} {top file : Place} {bytes : List UInt8} :
    (file, bytes) ∈ t.filesBelow top ↔ file ≠ [] ∧ (top ++ file, .file bytes) ∈ t.nodes := by
  obtain ⟨ns⟩ := t
  induction ns with
  | nil => simp [filesBelow]
  | cons n ns ih =>
    rw [List.mem_cons]
    rcases filesBelow_cons n ns top with ⟨file', bytes', hf, rfl, he⟩ | ⟨hn, he⟩
    · rw [he, mem_insertSorted, ih, Prod.mk.injEq, Prod.mk.injEq, List.append_cancel_left_eq,
        Node.file.injEq]
      constructor
      · rintro (⟨rfl, rfl⟩ | ⟨hne, hm⟩)
        · exact ⟨hf, .inl ⟨rfl, rfl⟩⟩
        · exact ⟨hne, .inr hm⟩
      · rintro ⟨hne, ⟨rfl, rfl⟩ | hm⟩
        · exact .inl ⟨rfl, rfl⟩
        · exact .inr ⟨hne, hm⟩
    · rw [he, ih]
      constructor
      · exact fun ⟨hne, hm⟩ => ⟨hne, .inr hm⟩
      · rintro ⟨hne, hm | hm⟩
        · exact absurd hm.symm (hn file bytes hne)
        · exact ⟨hne, hm⟩

theorem filesBelow_sorted (t : Tree) (top : Place) : Sorted (t.filesBelow top) := by
  obtain ⟨ns⟩ := t
  induction ns with
  | nil => exact List.Pairwise.nil
  | cons n ns ih =>
    rcases filesBelow_cons n ns top with ⟨file, bytes, -, -, he⟩ | ⟨-, he⟩
    · rw [he]
      exact insertSorted_sorted ih _
    · rw [he]
      exact ih

/-- Only one thing stands at each place. -/
def Proper (t : Tree) : Prop := (t.nodes.map (·.1)).Nodup

theorem insertSorted_perm (e : Place × α) (es : List (Place × α)) :
    (insertSorted e es).Perm (e :: es) := by
  induction es with
  | nil => exact .rfl
  | cons f es ih =>
    rw [insertSorted]
    split
    · exact .rfl
    · exact (ih.cons f).trans (.swap e f es)

theorem filesBelow_nodup {t : Tree} (h : t.Proper) (top : Place) :
    ((t.filesBelow top).map (·.1)).Nodup := by
  obtain ⟨ns⟩ := t
  induction ns with
  | nil => exact List.nodup_nil
  | cons n ns ih =>
    obtain ⟨hn, hd⟩ := List.nodup_cons.mp h
    rcases filesBelow_cons n ns top with ⟨file, bytes, hf, rfl, he⟩ | ⟨-, he⟩
    · rw [he, ((insertSorted_perm _ _).map _).nodup_iff, List.map_cons, List.nodup_cons]
      refine ⟨fun hm => hn ?_, ih hd⟩
      obtain ⟨e, hm, he⟩ := List.mem_map.mp hm
      exact List.mem_map.mpr ⟨_, (mem_filesBelow.mp hm).2, congrArg (top ++ ·) he⟩
    · rw [he]
      exact ih hd

/-- The files below a directory stand one before another. -/
theorem filesBelow_ascending {t : Tree} (h : t.Proper) (top : Place) :
    (t.filesBelow top).Pairwise fun e f => spelled e.1 < spelled f.1 := by
  have hd := List.pairwise_map.mp (filesBelow_nodup h top)
  exact ((filesBelow_sorted t top).and hd).imp fun ⟨hl, hn⟩ =>
    lt_of_le_of_ne hl fun he => hn (spelled_injective he)

/-- In a proper tree what is listed at a place stands there. -/
theorem node?_of_mem {t : Tree} (h : t.Proper) {place : Place} (hp : place ≠ []) {n : Node} :
    t.node? place = some n ↔ (place, n) ∈ t.nodes := by
  rw [node?, if_neg hp]
  obtain ⟨ns⟩ := t
  induction ns with
  | nil => simp
  | cons m ns ih =>
    obtain ⟨hn, hd⟩ := List.nodup_cons.mp h
    rw [List.find?_cons, List.mem_cons]
    by_cases hm : m.1 = place
    · rw [decide_eq_true hm]
      constructor
      · intro he
        exact .inl (Prod.ext hm.symm (Option.some.inj he).symm)
      · rintro (rfl | hmem)
        · rfl
        · exact absurd (List.mem_map.mpr ⟨_, hmem, hm.symm⟩) hn
    · rw [decide_eq_false hm, ih hd]
      constructor
      · exact .inr
      · rintro (rfl | hmem)
        · exact absurd rfl hm
        · exact hmem

/-- In a proper tree the files below a directory are those that stand there. -/
theorem mem_filesBelow_iff {t : Tree} (h : t.Proper) {top file : Place} {bytes : List UInt8} :
    (file, bytes) ∈ t.filesBelow top ↔
      file ≠ [] ∧ t.node? (top ++ file) = some (.file bytes) := by
  rw [mem_filesBelow]
  refine and_congr_right fun hf => ?_
  rw [node?_of_mem h (List.append_ne_nil_of_right_ne_nil top hf)]

/-- There is only one way to put files in order. -/
theorem ascending_unique {es fs : List (Place × α)}
    (he : es.Pairwise fun e f => spelled e.1 < spelled f.1)
    (hf : fs.Pairwise fun e f => spelled e.1 < spelled f.1) (h : ∀ e, e ∈ es ↔ e ∈ fs) :
    es = fs := by
  have hn {gs : List (Place × α)} (hg : gs.Pairwise fun e f => spelled e.1 < spelled f.1) :
      gs.Nodup := hg.imp fun hl heq => hl.ne (congrArg (spelled ·.1) heq)
  have hperm : es.Perm fs := (List.perm_ext_iff_of_nodup (hn he) (hn hf)).mpr h
  exact hperm.eq_of_pairwise (fun _ _ _ _ hab hba => absurd hab hba.not_gt) he hf

/-! ## What can be listed -/

theorem mem_namesBelow {t : Tree} {top names : Place} :
    names ∈ t.namesBelow top ↔ names ≠ [] ∧ t.node? (top ++ names) ≠ none := by
  rw [namesBelow, List.mem_filterMap]
  simp only [Option.filter_eq_some_iff, List.isPrefixOf?_eq_some_iff_append_eq]
  constructor
  · rintro ⟨⟨place, n⟩, hm, rfl, hn⟩
    have hne : names ≠ [] := by simpa using hn
    refine ⟨hne, ?_⟩
    rw [node?, if_neg (List.append_ne_nil_of_right_ne_nil top hne)]
    simpa using ⟨n, hm⟩
  · rintro ⟨hne, hn⟩
    rw [node?, if_neg (List.append_ne_nil_of_right_ne_nil top hne)] at hn
    obtain ⟨e, he⟩ := Option.ne_none_iff_exists'.mp (mt Option.map_eq_none_iff.mpr hn)
    have hp : e.1 = top ++ names := by simpa using List.find?_some he
    exact ⟨e, List.mem_of_find?_eq_some he, hp.symm, by simpa using hne⟩

/-- No path below the directory that a path leads to is too long to be looked up. -/
def Within (t : Tree) (p : Path) (place : Place) : Prop :=
  ∀ names, names ≠ [] → t.node? (place ++ names) ≠ none →
    Path.byteCount (p.join ⟨false, names⟩).text ≤ Path.lengthLimit

theorem within_iff {t : Tree} {p : Path} {place : Place} : t.Within p place ↔
    ∀ names ∈ t.namesBelow place,
      Path.byteCount (p.join ⟨false, names⟩).text ≤ Path.lengthLimit := by
  simp only [Within, mem_namesBelow, and_imp]

theorem filesUnder_within {t : Tree} {here place : Place} {p : Path}
    (h : t.find here p = .ok (.directory place)) (hw : t.Within p place) :
    t.filesUnder here p = .ok (t.filesBelow place) := by
  rw [filesUnder, probe, h]
  exact if_pos (List.all_eq_true.mpr fun names hm => decide_eq_true (within_iff.mp hw names hm))

theorem filesUnder_beyond {t : Tree} {here place : Place} {p : Path}
    (h : t.find here p = .ok (.directory place)) (hw : ¬ t.Within p place) :
    t.filesUnder here p = .error (.tooLong p) := by
  rw [filesUnder, probe, h]
  refine if_neg fun ha => hw (within_iff.mpr fun names hm => ?_)
  exact of_decide_eq_true (List.all_eq_true.mp ha names hm)

end Tree
end Files
end SymbolRename
