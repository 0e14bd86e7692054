import SymbolRename.Command.Run
import SymbolRename.Proofs.Files.Agreement
import SymbolRename.Proofs.Files.Limits
import Mathlib.Data.List.Induction

/-!
# The project of a directory

The configuration and the project of a directory are looked for in two walks upwards. They see the
same directories, so the project is never above or beside the directory of the configuration: it is
this directory or the nearest one below it, on the way from the start, that holds a repository. Only
the root of the tree is no project, even if the configuration lies there.
-/

set_option autoImplicit false

namespace SymbolRename.Project
open Files

/-! ## The nearest directory -/

structure Nearest (P : Place → Prop) (start d : Place) : Prop where
  above : d <+: start
  has : P d
  first : ∀ e, e <+: start → P e → e <+: d

theorem mem_ancestors {start d : Place} :
    d ∈ ancestorsFrom start.length start ↔ d <+: start := by
  induction start using List.reverseRecOn with
  | nil => rw [List.length_nil, ancestorsFrom, List.mem_singleton, List.prefix_nil]
  | append_singleton start n ih =>
    rw [List.length_append, List.length_singleton, ancestorsFrom, List.dropLast_concat,
      List.mem_cons, ih, List.prefix_concat_iff]

theorem find?_ancestors (g : Place → Bool) (start d : Place) :
    (ancestorsFrom start.length start).find? g = some d ↔ Nearest (g · = true) start d := by
  induction start using List.reverseRecOn with
  | nil =>
    rw [List.length_nil, ancestorsFrom, List.find?_singleton]
    constructor
    · intro h
      split at h
      · next hg =>
        cases h
        exact ⟨List.prefix_rfl, hg, fun e he _ => he⟩
      · cases h
    · intro h
      have hd : d = [] := List.prefix_nil.mp h.above
      rw [hd, if_pos (hd ▸ h.has)]
  | append_singleton start n ih =>
    rw [List.length_append, List.length_singleton, ancestorsFrom, List.dropLast_concat]
    cases hg : g (start ++ [n]) with
    | true =>
      rw [List.find?_cons_of_pos hg]
      constructor
      · rintro ⟨⟩
        exact ⟨List.prefix_rfl, hg, fun e he _ => he⟩
      · intro h
        have hd := h.first _ List.prefix_rfl hg
        exact congrArg some (h.above.eq_of_length_le hd.length_le).symm
    | false =>
      rw [List.find?_cons_of_neg (by simp [hg]), ih]
      have hne {e : Place} (he : e <+: start ++ [n]) (hp : g e = true) : e <+: start := by
        refine (List.prefix_concat_iff.mp he).resolve_left ?_
        rintro rfl
        rw [hg] at hp
        cases hp
      constructor
      · intro h
        exact ⟨h.above.trans (List.prefix_append start [n]), h.has,
          fun e he hp => h.first e (hne he hp) hp⟩
      · intro h
        exact ⟨hne h.above h.has, h.has,
          fun e he hp => h.first e (he.trans (List.prefix_append start [n])) hp⟩

theorem nearest_iff {P : Place → Prop} [DecidablePred P] {start d : Place} :
    ((ancestorsFrom start.length start).find? fun d => decide (P d)) = some d ↔
      Nearest P start d := by
  rw [find?_ancestors]
  simp only [decide_eq_true_eq]

/-- A search in which every question is answered. -/
theorem findM?_eq_ok {ε α : Type} {f : α → Except ε Bool} {g : α → Bool} {as : List α}
    (h : ∀ a ∈ as, f a = .ok (g a)) : as.findM? f = .ok (as.find? g) := by
  induction as with
  | nil => rfl
  | cons a as ih =>
    obtain ⟨ha, has⟩ := List.forall_mem_cons.mp h
    rw [List.findM?, ha, List.find?_cons]
    cases hg : g a with
    | true => rfl
    | false => exact ih has

/-! ## Where configurations and repositories stand -/

def Configured (t : Tree) (d : Place) : Prop :=
  ∃ place bytes, t.find [] (inside d configurationName) = .ok (.file place bytes)

def Versioned (t : Tree) (d : Place) : Prop :=
  ∃ place, t.find [] (inside d repositoryName) = .ok (.directory place)

section Asking
variable {t : Tree} {start d : Place} {f : Fault}

theorem inside_impossible (d : Place) : (inside d configurationName).isImpossible =
    (Path.ofPlace d).isImpossible := by
  have hu : (configurationName.any fun c =>
      Code.isSurrogate c.toNat && !Path.standsForByte c) = false := by decide
  have hz : configurationName.contains (.char '\x00') = false := by decide
  simp only [inside, Path.isImpossible, Path.isUnencodable, Path.ofPlace, List.any_append,
    List.any_cons, List.any_nil, hu, hz, Bool.or_false]

/-- If a path in a directory is too long, so is that of the configuration in every directory below,
unless the name is longer than that of a configuration. -/
theorem find_inside_tooLong {name : Text}
    (hn : Path.byteCount name ≤ Path.byteCount configurationName) (hd : d <+: start)
    (hi : (Path.ofPlace start).isImpossible = false) {q : Path}
    (h : t.find [] (inside d name) = .error (.tooLong q)) :
    t.find [] (inside start configurationName) =
      .error (.tooLong (inside start configurationName)) := by
  have hlimit : Path.byteCount configurationName ≤ Path.nameLimit := by decide
  obtain ⟨more, rfl⟩ := hd
  rw [Tree.find, if_neg (by simp [inside_impossible, hi])]
  rw [Tree.find] at h
  split at h
  · cases h
  · split at h
    · next hl =>
      rw [if_pos]
      rw [inside, Path.ofPlace, Path.text_rooted (by simp)] at hl ⊢
      simp only [List.flatMap_append, List.flatMap_singleton, Path.byteCount_append] at hl ⊢
      omega
    · have hw := Tree.walk_tooLong_dropLast (by omega) h
      split
      · rfl
      · rw [inside, Path.ofPlace, List.append_assoc]
        exact Tree.walk_tooLong_append hw _ _

theorem find_inside_top {name : Text}
    (hn : Path.byteCount name ≤ Path.byteCount configurationName) (q : Path) :
    t.find [] (inside [] name) ≠ .error (.tooLong q) := by
  have hlimit : Path.byteCount configurationName ≤ Path.nameLimit := by decide
  have hlength : Path.byteCount "/" + Path.byteCount configurationName ≤ Path.lengthLimit := by
    decide
  intro h
  rw [Tree.find] at h
  split at h
  · cases h
  · rw [if_neg] at h
    · have hw : t.walk (inside [] name) [] [] = .error (.tooLong q) :=
        Tree.walk_tooLong_dropLast (by omega) h
      cases hw
    · rw [inside, Path.ofPlace, Path.text_rooted (by simp), List.nil_append,
        List.flatMap_singleton, Path.byteCount_append]
      omega

/-- Every directory from the start upwards can be asked for its configuration and its repository. -/
def Answering (t : Tree) (start : Place) : Prop :=
  ∀ d, d <+: start → ∀ name ∈ [configurationName, repositoryName], ∀ q,
    t.find [] (inside d name) ≠ .error (.tooLong q)

/-- If the first question can be answered, so can all. -/
theorem answering_or (hi : (Path.ofPlace start).isImpossible = false) :
    Answering t start ∨ start ≠ [] ∧
      t.find [] (inside start configurationName) =
        .error (.tooLong (inside start configurationName)) := by
  have hshort : ∀ name ∈ [configurationName, repositoryName],
      Path.byteCount name ≤ Path.byteCount configurationName := by decide
  by_cases hstart : start = []
  · left
    intro d hd name hname
    rw [hstart, List.prefix_nil] at hd
    rw [hd]
    exact find_inside_top (hshort name hname)
  · by_cases h : Answering t start
    · exact .inl h
    · simp only [Answering, not_forall, not_not] at h
      obtain ⟨d, hd, name, hname, q, hq⟩ := h
      exact .inr ⟨hstart, find_inside_tooLong (hshort name hname) hd hi hq⟩

open Classical in
theorem holdsConfiguration_eq (h : Answering t start) (hd : d <+: start) :
    holdsConfiguration t d = .ok (decide (Configured t d)) :=
  Tree.isFile_eq (h d hd configurationName List.mem_cons_self)

open Classical in
theorem isRoot_eq (h : Answering t start) (hd : d <+: start) :
    isRoot t d = .ok (decide (d ≠ [] ∧ (Configured t d ∨ Versioned t d))) := by
  have hr : t.isDirectory [] (inside d repositoryName) = .ok (decide (Versioned t d)) :=
    Tree.isDirectory_eq (h d hd repositoryName (by simp))
  rw [isRoot, holdsConfiguration_eq h hd, hr]
  cases d with
  | nil => simp [pure, Except.pure]
  | cons n ns =>
    by_cases hc : Configured t (n :: ns) <;> simp [bind, Except.bind, pure, Except.pure, hc]

end Asking

/-! ## The two walks -/

section Walks
variable {t : Tree} {start : Place}

open Classical in
theorem configured?_eq (hi : (Path.ofPlace start).isImpossible = false) (h : Answering t start) :
    configured? t start =
      .ok ((ancestorsFrom start.length start).find? fun d => decide (Configured t d)) := by
  rw [configured?, ancestors, if_neg (by simp [hi])]
  exact findM?_eq_ok fun d hd => holdsConfiguration_eq h (mem_ancestors.mp hd)

open Classical in
theorem root_eq (hi : (Path.ofPlace start).isImpossible = false) (h : Answering t start) :
    root t start = .ok (((ancestorsFrom start.length start).find? fun d =>
      decide (d ≠ [] ∧ (Configured t d ∨ Versioned t d))).getD start) := by
  have hroots : (ancestorsFrom start.length start).findM? (isRoot t) = _ :=
    findM?_eq_ok fun d hd => isRoot_eq h (mem_ancestors.mp hd)
  rw [root, ancestors, if_neg (by simp [hi])]
  simp only [bind, Except.bind, hroots]
  rfl

/-- Where one walk cannot be made, the other one cannot either. -/
theorem walks_or (t : Tree) (start : Place) :
    (Path.ofPlace start).isImpossible = false ∧ Answering t start ∨
      ∃ f, configured? t start = .error f ∧ root t start = .error f := by
  cases hi : (Path.ofPlace start).isImpossible with
  | true =>
    right
    refine ⟨.impossible (.ofPlace start), ?_, ?_⟩
    · rw [configured?, ancestors, if_pos hi]
      rfl
    · rw [root, ancestors, if_pos hi]
      rfl
  | false =>
    refine (answering_or (t := t) hi).imp (⟨rfl, ·⟩) ?_
    rintro ⟨hstart, hfar⟩
    have hholds : holdsConfiguration t start = .error _ := Tree.isFile_tooLong hfar
    obtain ⟨rest, hrest⟩ : ∃ rest, ancestorsFrom start.length start = start :: rest := by
      cases start with
      | nil => exact absurd rfl hstart
      | cons n ns => exact ⟨_, rfl⟩
    refine ⟨.tooLong (inside start configurationName), ?_, ?_⟩
    · rw [configured?, ancestors, if_neg (by simp [hi]), hrest]
      simp only [bind, Except.bind, List.findM?, hholds]
    · rw [root, ancestors, if_neg (by simp [hi]), hrest]
      simp only [bind, Except.bind, List.findM?, isRoot, hholds,
        List.isEmpty_eq_false_iff.mpr hstart]
      rfl

theorem find_inside_agree {u : Tree} {d e : Place} {name : Text} (hd : d <+: e)
    (he : (".." : Text) ∉ e ++ [name])
    (h : ∀ q, q <+: d ∨ d <+: q → u.node? q = t.node? q) :
    u.find [] (inside e name) = t.find [] (inside e name) := by
  refine Tree.find_agree fun q hq => h q ?_
  have hq : q <+: e ++ [name] := (Path.mem_stages_plain he).mp hq
  exact List.prefix_or_prefix_of_prefix hq (hd.trans (List.prefix_append e [name]))

/-- The directory of the configuration does not depend on what stands beside and above it. -/
theorem configured?_agree {u : Tree} {d : Place} (hs : (".." : Text) ∉ start)
    (hc : configured? t start = .ok (some d))
    (h : ∀ q, q <+: d ∨ d <+: q → u.node? q = t.node? q) :
    configured? u start = .ok (some d) := by
  classical
  rcases walks_or t start with ⟨hi, ht⟩ | ⟨f, hf, -⟩
  · rw [configured?_eq hi ht, Except.ok.injEq, nearest_iff] at hc
    have hagree {e : Place} (hd : d <+: e) (he : e <+: start) :
        u.find [] (inside e configurationName) = t.find [] (inside e configurationName) := by
      refine find_inside_agree hd (fun hm => ?_) h
      rcases List.mem_append.mp hm with hm | hm
      · exact hs (he.subset hm)
      · exact absurd (List.mem_singleton.mp hm) (by decide)
    have hu : Answering u start := by
      refine (answering_or hi).resolve_right fun ⟨_, hfar⟩ => ?_
      rw [hagree hc.above List.prefix_rfl] at hfar
      exact ht start List.prefix_rfl configurationName List.mem_cons_self _ hfar
    rw [configured?_eq hi hu, Except.ok.injEq, nearest_iff]
    refine ⟨hc.above, ?_, fun e he hp => ?_⟩
    · rw [Configured, hagree List.prefix_rfl hc.above]
      exact hc.has
    · rcases List.prefix_or_prefix_of_prefix he hc.above with hd | hd
      · exact hd
      · rw [Configured, hagree hd he] at hp
        exact hc.first e he hp
  · rw [hf] at hc
    cases hc

end Walks

/-- Where the project of a directory is, given the directory of its configuration: at the nearest
repository if this is below the configuration, else at the configuration. Without either, and if
they lie in the root of the tree, the directory is a project of its own. -/
inductive Located (t : Tree) (start : Place) : Option Place → Place → Prop
  | repository {c : Option Place} {r : Place} : Nearest (Versioned t) start r → r ≠ [] →
      (∀ d, c = some d → d <+: r ∧ d ≠ r) → Located t start c r
  | configuration {d : Place} : d ≠ [] → (∀ e, e <+: start → Versioned t e → e <+: d) →
      Located t start (some d) d
  | start {c : Option Place} : (∀ e, e <+: start → Versioned t e → e = []) →
      (∀ d, c = some d → d = []) → Located t start c start

section Locating
variable {t : Tree} {start r : Place} {c : Option Place}

theorem Located.above (h : Located t start c r) (hc : ∀ d, c = some d → d <+: start) :
    r <+: start ∧ ∀ d, c = some d → d <+: r := by
  cases h with
  | repository hr _ hd => exact ⟨hr.above, fun d he => (hd d he).1⟩
  | configuration =>
    refine ⟨hc _ rfl, fun d he => ?_⟩
    cases he
    exact List.prefix_rfl
  | start _ hd =>
    refine ⟨List.prefix_rfl, fun d he => ?_⟩
    rw [hd d he]
    exact List.nil_prefix

theorem located_marked (hc : ∀ d, c = some d ↔ Nearest (Configured t) start d)
    (hr : Nearest (fun d => d ≠ [] ∧ (Configured t d ∨ Versioned t d)) start r) :
    Located t start c r := by
  have hfirst : ∀ e, e <+: start → Configured t e ∨ Versioned t e → e <+: r := by
    intro e he hm
    by_cases hn : e = []
    · rw [hn]
      exact List.nil_prefix
    · exact hr.first e he ⟨hn, hm⟩
  have hd : ∀ d, c = some d → d <+: r := fun d h =>
    hfirst d ((hc d).mp h).above (.inl ((hc d).mp h).has)
  by_cases hcr : c = some r
  · rw [hcr]
    exact .configuration hr.has.1 fun e he hv => hfirst e he (.inr hv)
  · have hno : ¬ Configured t r := by
      intro h
      refine hcr ((hc r).mpr ⟨hr.above, h, fun e he hp => hfirst e he (.inl hp)⟩)
    have hv : Versioned t r := hr.has.2.resolve_left hno
    refine .repository ⟨hr.above, hv, fun e he hv => hfirst e he (.inr hv)⟩ hr.has.1
      fun d h => ⟨hd d h, ?_⟩
    rintro rfl
    exact hcr h

theorem located_unmarked (hc : ∀ d, c = some d ↔ Nearest (Configured t) start d)
    (hr : ∀ d, d <+: start → Configured t d ∨ Versioned t d → d = []) :
    Located t start c start :=
  .start (fun e he hv => hr e he (.inr hv)) fun d h =>
    hr d ((hc d).mp h).above (.inl ((hc d).mp h).has)

end Locating

/-- The walk to the project follows the walk to the configuration: it fails where the other one
fails, and otherwise ends between the configuration and the start. Where the messages of a project
are read, they are those of this place. -/
theorem root_follows_configuration (t : Tree) (start : Place) :
    match configured? t start with
    | .error f => root t start = .error f
    | .ok c => (∀ d, c = some d ↔ Nearest (Configured t) start d) ∧
        ∃ r, root t start = .ok r ∧ Located t start c r ∧
          r <+: start ∧ (∀ d, c = some d → d <+: r) ∧
          ∀ language, ∃ w, Command.surroundings t start language = .ok w ∧
            w.catalog = .ofRoots [.packaged, .project (.ofPlace r)] := by
  classical
  rcases walks_or t start with ⟨hi, ha⟩ | ⟨f, hc, hr⟩
  · rw [configured?_eq hi ha]
    dsimp only
    refine ⟨fun d => nearest_iff, ?_⟩
    have hroot := root_eq hi ha
    obtain ⟨r, hr, hl⟩ : ∃ r, root t start = .ok r ∧ Located t start
        ((ancestorsFrom start.length start).find? fun d => decide (Configured t d)) r := by
      cases hf : (ancestorsFrom start.length start).find? fun d =>
          decide (d ≠ [] ∧ (Configured t d ∨ Versioned t d)) with
      | some r =>
        rw [hf] at hroot
        exact ⟨r, hroot, located_marked (fun d => nearest_iff) (nearest_iff.mp hf)⟩
      | none =>
        rw [hf] at hroot
        refine ⟨start, hroot, located_unmarked (fun d => nearest_iff) fun d hd hm => ?_⟩
        have hn := List.find?_eq_none.mp hf d (mem_ancestors.mpr hd)
        simp only [decide_eq_true_eq, not_and] at hn
        by_contra hne
        exact hn hne hm
    obtain ⟨hstart, habove⟩ := hl.above fun d h => (nearest_iff.mp h).above
    refine ⟨r, hr, hl, hstart, habove, fun language => ?_⟩
    rw [Command.surroundings, hr]
    exact ⟨_, rfl, rfl⟩
  · rw [hc]
    exact hr

/-- A configuration in the root of the tree counts, but the project does not begin there. -/
theorem root_passes_top :
    let t : Tree := ⟨[(["src"], .directory), ([configurationName], .file [])]⟩
    configured? t ["src"] = .ok (some []) ∧ ¬ Versioned t ["src"] ∧
      root t ["src"] = .ok ["src"] := by
  refine ⟨rfl, ?_, rfl⟩
  rintro ⟨place, h⟩
  cases h

end SymbolRename.Project
