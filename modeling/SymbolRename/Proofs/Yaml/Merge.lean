import SymbolRename.Proofs.Yaml.Safe
import SymbolRename.Yaml.Merge

/-!
# What merging leaves as it is

Following merge keys moves entries from mapping to mapping, and takes a default key for a text. What
is no mapping stays as it is, and a mapping stays one; so does what kind of value a node stands for,
default keys apart.
-/

set_option autoImplicit false

namespace SymbolRename.Yaml

def Body.isMapping : Body → Bool
  | .mapping _ => true
  | _ => false

structure Node.Kept (a b : Node) : Prop where
  tag : b.tag = a.tag ∨ (a.tag = .default ∧ b.tag = .text)
  body : b.body = a.body ∨ (a.body.isMapping = true ∧ b.body.isMapping = true)

theorem Node.Kept.refl (a : Node) : a.Kept a := ⟨.inl rfl, .inl rfl⟩

theorem Node.Kept.mapping {a b : Node} (h : a.Kept b) : b.body.isMapping = a.body.isMapping := by
  rcases h.body with hb | ⟨ha, hb⟩
  · rw [hb]
  · rw [ha, hb]

namespace Graph

def Merged (g nodes : Array Node) : Prop := ∀ n, (node g n).Kept (node nodes n)

theorem node_setIfInBounds (nodes : Array Node) (n m : ℕ) (a : Node) :
    node (nodes.setIfInBounds n a) m = if n = m ∧ n < nodes.size then a else node nodes m := by
  simp only [node, Array.getD_eq_getD_getElem?, Array.getElem?_setIfInBounds]
  by_cases hm : n = m
  · subst hm
    by_cases hn : n < nodes.size
    · simp [hn]
    · simp [hn]
  · simp [hm]

variable {g : Array Node}

/-- Work that only merges, and gives up only if the rules of the language are broken. -/
abbrev Merges {α : Type} (g : Array Node) (work : Merging α) : Prop :=
  Safe (· = .unreadable) (Merged g) work

theorem Merged.set {nodes : Array Node} (h : Merged g nodes) {n : ℕ} {a : Node}
    (ha : (node g n).Kept a) : Merged g (nodes.setIfInBounds n a) := by
  intro m
  rw [node_setIfInBounds]
  split
  · next hm => exact hm.1 ▸ ha
  · exact h m

theorem setEntries_merges {n : ℕ} (hn : (node g n).body.isMapping = true) (es : List (ℕ × ℕ)) :
    Merges g (setEntries n es) :=
  safe_modify fun _ h => h.set ⟨(h n).tag, .inr ⟨hn, rfl⟩⟩

theorem isMapping_of_entries {nodes : Array Node} {n : ℕ} (h : entries nodes n ≠ []) :
    (node nodes n).body.isMapping = true := by
  rw [entries] at h
  split at h
  · next hb => rw [hb]; rfl
  · contradiction

/-- Only a mapping has a merge key. -/
theorem takeMerge_merges (n : ℕ) :
    SafeFor (· = .unreadable) (Merged g)
      (fun v => v.isSome = true → (node g n).body.isMapping = true) (takeMerge n) := by
  rw [takeMerge]
  refine safe_get.bind fun nodes h => ?_
  dsimp only
  split
  · exact safe_pure nofun
  · next he =>
    have hn : (node g n).body.isMapping = true := by
      rw [← (h n).mapping]
      refine isMapping_of_entries fun hes => ?_
      rw [hes] at he
      cases he
    exact (setEntries_merges hn _).bind fun _ => safe_pure fun _ => hn

theorem settleKey_merged {nodes : Array Node} (h : Merged g nodes) (e : ℕ × ℕ) :
    Merged g (settleKey nodes e) := by
  rw [settleKey]
  split
  · next hk =>
    refine h.set ⟨.inr ⟨?_, rfl⟩, (h e.1).body⟩
    have hd : (node nodes e.1).tag = .default := of_decide_eq_true hk
    rcases (h e.1).tag with ht | ⟨ht, -⟩
    · rw [← ht, hd]
    · exact ht
  · exact h

theorem settleKeys_merged {nodes : Array Node} (h : Merged g nodes) (es : List (ℕ × ℕ)) :
    Merged g (es.foldl settleKey nodes) := by
  induction es generalizing nodes with
  | nil => exact h
  | cons e es ih => exact ih (settleKey_merged h e)

section Flatten
variable {flatten : ℕ → Merging Unit}

theorem broughtBy_merges (hf : ∀ n, Merges g (flatten n)) (n : ℕ) :
    Merges g (broughtBy flatten n) := by
  rw [broughtBy]
  refine safe_get.bind fun nodes _ => ?_
  split
  · exact (hf n).bind fun _ => safe_get.bind fun _ _ => safe_pure trivial
  · exact safe_throw rfl

theorem brought_merges (hf : ∀ n, Merges g (flatten n)) (n : ℕ) :
    Merges g (brought flatten n) := by
  rw [brought]
  refine safe_get.bind fun nodes _ => ?_
  split
  · exact (safe_mapM (broughtBy_merges hf) _).bind fun _ => safe_pure trivial
  · exact broughtBy_merges hf n

end Flatten

theorem flattenWith_merges (fuel n : ℕ) : Merges g (flattenWith fuel n) := by
  induction fuel generalizing n with
  | zero => exact safe_throw rfl
  | succ fuel ih =>
    rw [flattenWith]
    refine (takeMerge_merges n).bind fun v hv => ?_
    split
    · exact safe_modify fun nodes h => settleKeys_merged h _
    · refine (brought_merges ih _).bind fun es => (ih n).bind fun _ => ?_
      exact safe_get.bind fun nodes _ => setEntries_merges (hv rfl) _

theorem flatten_merges (n : ℕ) : Merges g (flatten n) := by
  rw [flatten]
  exact safe_get.bind fun nodes _ => flattenWith_merges _ n

end Graph
end SymbolRename.Yaml
