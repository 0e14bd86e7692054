import SymbolRename.Proofs.Files.Order
import SymbolRename.Proofs.Files.Tree
import Mathlib.Data.List.Infix
import Mathlib.Data.List.Nodup

/-!
# Trees that agree where it matters

What a path leads to depends on what stands at the places that it passes, and the files below a
directory on what stands below it. Trees that agree there cannot be told apart.
-/

set_option autoImplicit false

namespace SymbolRename.Files

namespace Path

/-- The places that a path passes, up to the one that it stands for. -/
def stages (here : Place) (p : Path) : List Place :=
  p.parts.inits.map (resolveParts (Tree.origin here p))

theorem resolve_eq (here : Place) (p : Path) :
    p.resolve here = resolveParts (Tree.origin here p) p.parts := rfl

theorem resolveParts_append (here : Place) (parts more : List Text) :
    resolveParts here (parts ++ more) = resolveParts (resolveParts here parts) more := by
  induction parts generalizing here with
  | nil => rfl
  | cons p parts ih => exact ih _

theorem resolveParts_plain {parts : List Text} (h : (".." : Text) ∉ parts) (here : Place) :
    resolveParts here parts = here ++ parts := by
  induction parts generalizing here with
  | nil => rw [resolveParts, List.append_nil]
  | cons p parts ih =>
    obtain ⟨hp, hparts⟩ := List.forall_mem_cons.mp fun q hq => ne_of_mem_of_not_mem hq h
    rw [resolveParts, if_neg hp, ih fun hm => hparts _ hm rfl, List.append_assoc]
    rfl

theorem resolve_plain {place : Place} (h : (".." : Text) ∉ place) (here : Place) :
    (Path.mk true place).resolve here = place := resolveParts_plain h []

theorem mem_stages_plain {place : Place} (h : (".." : Text) ∉ place) {here q : Place} :
    q ∈ (Path.mk true place).stages here ↔ q <+: place := by
  have hq {q : Place} (hp : q <+: place) : resolveParts [] q = q :=
    resolveParts_plain (mt (hp.subset ·) h) []
  simp only [stages, List.mem_map, List.mem_inits]
  constructor
  · rintro ⟨parts, hp, rfl⟩
    exact (hq hp).symm ▸ hp
  · exact fun hp => ⟨q, hp, hq hp⟩

theorem resolve_mem_stages (here : Place) (p : Path) : p.resolve here ∈ p.stages here :=
  List.mem_map_of_mem ((List.mem_inits _ _).mpr List.prefix_rfl)

end Path

namespace Tree
variable {t u : Tree} {p : Path} {here : Place}

theorem walk_agree {names : List Text}
    (h : ∀ parts, parts <+: names →
      t.node? (Path.resolveParts here parts) = u.node? (Path.resolveParts here parts)) :
    t.walk p here names = u.walk p here names := by
  induction names generalizing here with
  | nil => rfl
  | cons n ns ih =>
    have hrest : ∀ parts, parts <+: ns →
        t.node? (Path.resolveParts here (n :: parts)) =
          u.node? (Path.resolveParts here (n :: parts)) :=
      fun parts hp => h (n :: parts) (List.cons_prefix_cons.mpr ⟨rfl, hp⟩)
    simp only [Path.resolveParts] at hrest
    rw [walk, walk]
    by_cases hn : n = ".."
    · simp only [if_pos hn] at hrest ⊢
      exact ih hrest
    · simp only [if_neg hn] at hrest ⊢
      have hnode : t.node? (here ++ [n]) = u.node? (here ++ [n]) := hrest [] List.nil_prefix
      rw [hnode, ih hrest]

theorem find_agree (h : ∀ q ∈ p.stages here, t.node? q = u.node? q) :
    t.find here p = u.find here p := by
  have hw : t.walk p (origin here p) p.parts = u.walk p (origin here p) p.parts :=
    walk_agree fun parts hp => h _ (List.mem_map_of_mem ((List.mem_inits _ _).mpr hp))
  rw [origin] at hw
  rw [find, find, hw]

theorem walk_place {names : List Text} {d : Place} (h : t.walk p here names = .ok (.directory d)) :
    d = Path.resolveParts here names := by
  induction names generalizing here with
  | nil =>
    cases h
    rfl
  | cons n ns ih =>
    rw [Path.resolveParts]
    rcases walk_cons h with ⟨hn, hw⟩ | ⟨hn, -, -, hw⟩
    · rw [if_pos hn]
      exact ih hw
    · rw [if_neg hn]
      exact ih hw

theorem find_place {d : Place} (h : t.find here p = .ok (.directory d)) : d = p.resolve here :=
  walk_place (find_ok h)

theorem filesBelow_agree (ht : t.Proper) (hu : u.Proper) {top : Place}
    (h : ∀ q, top <+: q → t.node? q = u.node? q) : t.filesBelow top = u.filesBelow top := by
  refine ascending_unique (filesBelow_ascending ht top) (filesBelow_ascending hu top) ?_
  rintro ⟨file, bytes⟩
  rw [mem_filesBelow_iff ht, mem_filesBelow_iff hu, h _ (List.prefix_append top file)]

theorem within_agree {top : Place} (h : ∀ q, top <+: q → t.node? q = u.node? q) :
    t.Within p top ↔ u.Within p top := by
  refine forall₂_congr fun names _ => ?_
  rw [h _ (List.prefix_append top names)]

theorem filesUnder_agree (ht : t.Proper) (hu : u.Proper)
    (h : ∀ q, q ∈ p.stages here ∨ p.resolve here <+: q → t.node? q = u.node? q) :
    t.filesUnder here p = u.filesUnder here p := by
  have hf : t.find here p = u.find here p := find_agree fun q hq => h q (.inl hq)
  cases hd : u.find here p with
  | error f =>
    rw [filesUnder, filesUnder, probe, probe, hf, hd]
    cases f <;> rfl
  | ok found =>
    cases found with
    | file place bytes =>
      rw [filesUnder, filesUnder, probe, probe, hf, hd]
      rfl
    | directory place =>
      have hbelow : ∀ q, place <+: q → t.node? q = u.node? q :=
        fun q hq => h q (.inr (find_place hd ▸ hq))
      have hwithin : t.Within p place ↔ u.Within p place := within_agree hbelow
      by_cases hw : u.Within p place
      · rw [filesUnder_within (hf.trans hd) (hwithin.mpr hw), filesUnder_within hd hw,
          filesBelow_agree ht hu hbelow]
      · rw [filesUnder_beyond (hf.trans hd) (mt hwithin.mp hw), filesUnder_beyond hd hw]

end Tree
end SymbolRename.Files
