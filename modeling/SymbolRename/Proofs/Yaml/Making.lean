import SymbolRename.Proofs.Yaml.Merge
import SymbolRename.Yaml.Object

/-!
# Which nodes have no value

A node without a value breaks the rules of the language, or it is taken for a value that its text
does not say. The latter takes a tag: a word for a truth value, the digits of a number or the fields
of a moment are looked for where the tag, or the form of the text, promises them.
-/

set_option autoImplicit false

namespace SymbolRename.Yaml

inductive Refuses : Tag → Text → Fault → Prop
  | bool {s : Text} {f : Fault} : Content.bool s = .error f → Refuses .bool s f
  | int {s : Text} {f : Fault} : Content.integer s = .error f → Refuses .int s f
  | float {s : Text} {f : Fault} : Content.isNoNumber s = false → Content.float s = .error f →
      Refuses .float s f
  | binary {s : Text} {f : Fault} : Content.binary s = .error f → Refuses .binary s f
  | moment {s : Text} {f : Fault} : Content.moment s = .error f → Refuses .moment s f

namespace Tag

def faults : Tag → List Fault
  | .bool => [.noTruthValue]
  | .int => [.emptyNumber, .noNumber]
  | .float => [.emptyNumber, .noNumber, .beyondDoubles]
  | .binary => [.unreadable]
  | .moment => [.noMoment, .impossibleMoment]
  | _ => []

def wantsText : Tag → Bool
  | .sequence | .pairs | .set | .mapping | .merge | .unknown => false
  | _ => true

end Tag

namespace Content

abbrev Refusing {α : Type} (tag : Tag) (r : Except Fault α) : Prop :=
  Yields (· ∈ tag.faults) (fun _ => True) r

theorem orFault_refusing {α : Type} {tag : Tag} {f : Fault} (h : f ∈ tag.faults) (x : Option α) :
    Refusing tag (orFault f x) := by
  cases x with
  | none => exact h
  | some a => trivial

theorem sumSixties_refusing (place : ℕ) (xs : List Float) (sum : Float) :
    Refusing .float (sumSixties place xs sum) := by
  induction xs generalizing place sum with
  | nil => trivial
  | cons x xs ih =>
    rw [sumSixties]
    split
    · simp [Yields, Tag.faults]
    · exact ih _ _

theorem bool_refusing (s : Text) : Refusing .bool (bool s) := by
  rw [bool]
  split
  · trivial
  · split
    · trivial
    · simp [Yields, Tag.faults]

theorem integer_refusing (s : Text) : Refusing .int (integer s) := by
  rw [integer]
  dsimp only
  split
  · simp [Yields, Tag.faults]
  · exact orFault_refusing (by simp [Tag.faults]) _

theorem float_refusing (s : Text) : Refusing .float (float s) := by
  have empty : Fault.emptyNumber ∈ Tag.float.faults := by simp [Tag.faults]
  have none' : Fault.noNumber ∈ Tag.float.faults := by simp [Tag.faults]
  rw [float]
  dsimp only
  split
  · exact empty
  · split
    · trivial
    · split
      · trivial
      · split
        · refine (orFault_refusing none' _).bind fun parts _ => ?_
          exact (sumSixties_refusing 0 _ 0).bind fun _ _ => trivial
        · exact (orFault_refusing none' _).bind fun _ _ => trivial

theorem binary_refusing (s : Text) : Refusing .binary (binary s) := by
  have hu : Fault.unreadable ∈ Tag.binary.faults := by simp [Tag.faults]
  rw [binary]
  refine (orFault_refusing hu _).bind fun t _ => ?_
  split
  · exact orFault_refusing hu _
  · exact hu

theorem moment_refusing (s : Text) : Refusing .moment (moment s) := by
  have impossible : Fault.impossibleMoment ∈ Tag.moment.faults := by simp [Tag.faults]
  rw [moment]
  refine (orFault_refusing (by simp [Tag.faults]) _).bind fun m _ => ?_
  dsimp only
  split
  · split
    · trivial
    · exact impossible
  · split
    · trivial
    · exact impossible

end Content

theorem Refuses.mem_faults {tag : Tag} {s : Text} {f : Fault} (h : Refuses tag s f) :
    f ∈ tag.faults := by
  have faulty {α : Type} {r : Except Fault α} (hr : Content.Refusing tag r) (he : r = .error f) :
      f ∈ tag.faults := by
    rw [he] at hr
    exact hr
  cases h with
  | bool he => exact faulty (Content.bool_refusing s) he
  | int he => exact faulty (Content.integer_refusing s) he
  | float _ he => exact faulty (Content.float_refusing s) he
  | binary he => exact faulty (Content.binary_refusing s) he
  | moment he => exact faulty (Content.moment_refusing s) he

inductive Raises (g : Array Node) : Fault → Prop
  | unreadable : Raises g .unreadable
  /-- A text does not say a value of its tag; it is that of the node, or what a mapping has under
  its default key. -/
  | refused {n m : ℕ} {s : Text} {f : Fault} : (Graph.node g m).body = .scalar s →
      (m = n ∨ (Graph.node g n).body.isMapping = true) → Refuses (Graph.node g n).tag s f →
      Raises g f
  /-- A mapping that is taken for a text leads to no text. -/
  | endless {n : ℕ} : (Graph.node g n).body.isMapping = true →
      (Graph.node g n).tag.wantsText = true → Raises g .tooDeep
  | momentInMapping {n : ℕ} : (Graph.node g n).body.isMapping = true →
      (Graph.node g n).tag = .moment → Raises g .momentInMapping

/-- Every text of a graph says a value of its tag, and no mapping is taken for a text. -/
structure Saying (g : Array Node) : Prop where
  scalars : ∀ n s f, (Graph.node g n).body = .scalar s → Refuses (Graph.node g n).tag s f →
    f = .unreadable
  mappings : ∀ n, (Graph.node g n).body.isMapping = true → (Graph.node g n).tag.wantsText = false

theorem Refuses.wantsText {tag : Tag} {s : Text} {f : Fault} (h : Refuses tag s f) :
    tag.wantsText = true := by
  cases h <;> rfl

theorem Saying.raises {g : Array Node} (h : Saying g) {f : Fault} (hf : Raises g f) :
    f = .unreadable := by
  cases hf with
  | unreadable => rfl
  | @refused n m s f hm hn hr =>
    rcases hn with rfl | hn
    · exact h.scalars m s f hm hr
    · have ht := h.mappings n hn
      rw [hr.wantsText] at ht
      cases ht
  | endless hn ht =>
    rw [h.mappings _ hn] at ht
    cases ht
  | momentInMapping hn ht =>
    have hw := h.mappings _ hn
    rw [ht] at hw
    cases hw

namespace Objects
open Yaml.Graph

variable {g nodes : Array Node}

theorem textOf_ok {fuel n : ℕ} {s : Text} (h : textOf nodes fuel n = .ok s) :
    ∃ m, (node nodes m).body = .scalar s ∧ (m = n ∨ (node nodes n).body.isMapping = true) := by
  induction fuel generalizing n with
  | zero => cases h
  | succ fuel ih =>
    rw [textOf] at h
    split at h
    · next hb =>
      cases h
      exact ⟨n, hb, .inl rfl⟩
    · cases h
    · next hb =>
      split at h
      · obtain ⟨m, hm, -⟩ := ih h
        exact ⟨m, hm, .inr (by rw [hb]; rfl)⟩
      · cases h

theorem textOf_error {fuel n : ℕ} {f : Fault} (h : textOf nodes fuel n = .error f) :
    f = .unreadable ∨ f = .tooDeep := by
  induction fuel generalizing n with
  | zero =>
    cases h
    exact .inr rfl
  | succ fuel ih =>
    rw [textOf] at h
    split at h
    · cases h
    · cases h
      exact .inl rfl
    · split at h
      · exact ih h
      · cases h
        exact .inl rfl

theorem textOf_endless {fuel n : ℕ} (h : textOf nodes (fuel + 1) n = .error .tooDeep) :
    (node nodes n).body.isMapping = true := by
  rw [textOf] at h
  split at h
  · cases h
  · cases h
  · next hb => rw [hb]; rfl

theorem kept_wantsText {a b : Node} (h : a.Kept b) : b.tag.wantsText = a.tag.wantsText := by
  rcases h.tag with ht | ⟨ha, hb⟩
  · rw [ht]
  · rw [ha, hb]
    rfl

theorem kept_refuses {a b : Node} (h : a.Kept b) {s : Text} {f : Fault}
    (hr : Refuses b.tag s f) : Refuses a.tag s f := by
  rcases h.tag with ht | ⟨-, hb⟩
  · exact ht ▸ hr
  · rw [hb] at hr
    cases hr

theorem kept_scalar {a b : Node} (h : a.Kept b) {s : Text} (hb : b.body = .scalar s) :
    a.body = .scalar s := by
  rcases h.body with he | ⟨-, hm⟩
  · rw [← he, hb]
  · rw [hb] at hm
    cases hm

section Opened
variable {n : ℕ}

theorem textOf_yields (hg : Merged g nodes) (hw : (node nodes n).tag.wantsText = true) :
    Yields (Raises g) (textOf nodes (nodes.size + 1) n = .ok ·)
      (textOf nodes (nodes.size + 1) n) := by
  cases h : textOf nodes (nodes.size + 1) n with
  | ok s => rfl
  | error f =>
    rcases textOf_error h with rfl | rfl
    · exact .unreadable
    · refine .endless (n := n) ?_ ?_
      · rw [← (hg n).mapping]
        exact textOf_endless h
      · rw [← kept_wantsText (hg n)]
        exact hw

/-- What a text does not say by the tag of its node is why the node has no value. -/
theorem said_yields (hg : Merged g nodes) {α : Type} {s : Text} {r : Except Fault α}
    (hs : textOf nodes (nodes.size + 1) n = .ok s)
    (hr : ∀ f, r = .error f → Refuses (node nodes n).tag s f) :
    Yields (Raises g) (fun _ => True) r := by
  cases h : r with
  | ok a => trivial
  | error f =>
    obtain ⟨m, hm, hk⟩ := textOf_ok hs
    rw [(hg n).mapping] at hk
    exact .refused (kept_scalar (hg m) hm) hk (kept_refuses (hg n) (hr f h))

theorem opened_yields (hg : Merged g nodes) (n : ℕ) :
    Yields (Raises g) (fun _ => True) (opened nodes n) := by
  rw [opened]
  split
  · next ht => exact (textOf_yields hg (by rw [ht]; rfl)).map fun _ _ => trivial
  · next ht =>
    refine (textOf_yields hg (by rw [ht]; rfl)).bind fun s hs => ?_
    exact (said_yields hg hs fun f hf => ht ▸ .bool hf).bind fun _ _ => trivial
  · next ht =>
    refine (textOf_yields hg (by rw [ht]; rfl)).bind fun s hs => ?_
    exact (said_yields hg hs fun f hf => ht ▸ .int hf).bind fun _ _ => trivial
  · next ht =>
    refine (textOf_yields hg (by rw [ht]; rfl)).bind fun s hs => ?_
    split
    · trivial
    · next hn =>
      have hn : Content.isNoNumber s = false := by simpa using hn
      exact (said_yields hg hs fun f hf => ht ▸ .float hn hf).bind fun _ _ => trivial
  · next ht =>
    refine (textOf_yields hg (by rw [ht]; rfl)).bind fun s hs => ?_
    exact (said_yields hg hs fun f hf => ht ▸ .binary hf).bind fun _ _ => trivial
  · next ht =>
    refine (textOf_yields hg (by rw [ht]; rfl)).bind fun s hs => ?_
    refine Yields.bind (P := fun _ => True) ?_ fun _ _ => trivial
    rw [Objects.moment.eq_def]
    split
    · next hb =>
      -- merging adds no moments, so the node was one before it
      refine .momentInMapping (n := n) ?_ ?_
      · rw [← (hg n).mapping, hb]
        rfl
      · rcases (hg n).tag with he | ⟨-, he⟩
        · rw [← he, ht]
        · rw [ht] at he
          cases he
    · exact said_yields hg hs fun f hf => ht ▸ .moment hf
  · next ht => exact (textOf_yields hg (by rw [ht]; rfl)).bind fun _ _ => trivial
  · trivial
  · trivial
  · trivial
  · trivial
  · exact .unreadable
  · exact .unreadable
  · exact .unreadable

end Opened

/-! ## Objects in the making -/

/-- Work on objects whose nodes come from a graph by merging. -/
abbrev Makes {α : Type} (g : Array Node) (work : Making α) : Prop :=
  Safe (Raises g) (fun p => Merged g p.nodes) work

theorem fail_makes {α : Type} : Makes g (fail : Making α) := safe_throw .unreadable

theorem put_makes (n : ℕ) (o : Object) : Makes g (put n o) := safe_modify fun _ h => h

theorem make_makes (n : ℕ) : Makes g (make n) := by
  rw [make]
  refine safe_get.bind fun p hp => ?_
  split
  · exact safe_pure trivial
  · refine (safe_lift (opened_yields hp n)).bind fun o _ => (put_makes n o).bind fun _ => ?_
    split
    · exact Safe.bind (safe_modify (by exact fun _ h => h)) fun _ => safe_pure trivial
    · exact safe_pure trivial

theorem makeEntry_makes (e : ℕ × ℕ) : Makes g (makeEntry e) := by
  rw [makeEntry]
  refine (make_makes e.1).bind fun k => ?_
  split
  · exact safe_throw_first .unreadable
  · exact (make_makes e.2).bind fun _ => safe_pure trivial

theorem makeEntries_makes (n : ℕ) : Makes g (makeEntries n) := by
  rw [makeEntries]
  refine safe_get.bind fun p hp => ?_
  have merged := (flatten_merges n p.nodes hp).weaken fun f hf => hf ▸ Raises.unreadable (g := g)
  refine (safe_lift merged).bind fun q hq => Safe.bind (safe_set (by exact hq.2)) fun _ => ?_
  exact (safe_mapM makeEntry_makes _).bind fun _ => safe_pure trivial

theorem makePair_makes (n : ℕ) : Makes g (makePair n) := by
  rw [makePair]
  refine safe_get.bind fun p _ => ?_
  split
  · exact (make_makes _).bind fun _ => (make_makes _).bind fun _ => safe_pure trivial
  · exact fail_makes

theorem makeAll_makes (ns : List ℕ) : Makes g (makeAll ns) :=
  safe_forM (fun n => (make_makes n).bind fun _ => safe_pure trivial) ns

theorem fill_makes (n : ℕ) : Makes g (fill n) := by
  rw [fill]
  refine safe_get.bind fun p _ => ?_
  dsimp only
  split
  · exact (makeAll_makes _).bind fun _ => put_makes n _
  · exact (safe_mapM makePair_makes _).bind fun _ => put_makes n _
  · exact (makeEntries_makes n).bind fun _ => safe_get.bind fun _ _ => put_makes n _
  · exact (makeEntries_makes n).bind fun _ => put_makes n _
  · exact fail_makes

theorem fillLevels_makes (fuel : ℕ) : Makes g (fillLevels fuel) := by
  induction fuel with
  | zero => exact safe_pure trivial
  | succ fuel ih =>
    rw [fillLevels]
    refine safe_get.bind fun p _ => ?_
    dsimp only
    split
    · exact safe_pure trivial
    · refine Safe.bind (safe_modify (by exact fun _ h => h)) fun _ => ?_
      exact (safe_forM fill_makes _).bind fun _ => ih

/-- What keeps the objects of a graph from being made. -/
theorem ofGraph_fault {g : Graph} {f : Fault} (h : ofGraph g = .error f) : Raises g.nodes f := by
  -- the same work without the last step, which only looks at the objects
  have work : Makes g.nodes (do
      let _ ← make g.root
      fillLevels (g.nodes.size + 1)) :=
    (make_makes g.root).bind fun _ => fillLevels_makes _
  have hw := work ⟨g.nodes, .replicate g.nodes.size none, []⟩ fun n => Node.Kept.refl _
  rcases bind_eq_error h with hf | ⟨p, -, hp⟩
  · rw [hf] at hw
    exact hw
  · cases hp

end Objects
end SymbolRename.Yaml
