import SymbolRename.Proofs.Value.Shown
import SymbolRename.Yaml.Object
import Mathlib.Data.List.Forall2

/-!
# Objects and the values they stand for

An object counts as something only if it has a text, as for values. Texts, lists and dictionaries of
a document can be compared with a value, node by node.
-/

set_option autoImplicit false

namespace SymbolRename.Yaml.Objects
open SymbolRename.Value (enclosed enclosed_ne_nil)

theorem map_enclosed_ne_nil {opening closing s : Text} {items : Option (List Text)}
    (ho : opening ≠ []) (h : items.map (enclosed opening · closing) = some s) : s ≠ [] := by
  obtain ⟨ts, -, rfl⟩ := Option.map_eq_some_iff.mp h
  exact enclosed_ne_nil ho ts closing

theorem literalIn_ne_nil {c : Objects} {fuel : ℕ} {outer : List ℕ} {n : ℕ} {s : Text}
    (h : c.literalIn fuel outer n = some s) : s ≠ [] := by
  cases fuel with
  | zero => cases h
  | succ fuel =>
    rw [literalIn] at h
    split at h
    · exact Value.literal?_ne_nil h
    · cases h
      decide
    -- a collection: a text of its own, or its items in brackets
    all_goals
      split at h
      · cases h
        decide
      · exact map_enclosed_ne_nil (by decide) h

theorem shown?_ne_nil {c : Objects} {n : ℕ} {s : Text} (h : c.shown? n = some s)
    (hn : c.isTruthy n = true) : s ≠ [] := by
  rw [shown?] at h
  split at h
  · next v hv =>
    rw [isTruthy, hv] at hn
    exact Value.shown?_ne_nil h hn
  · exact literalIn_ne_nil h

/-- Whether a node stands for a value that is made of texts, lists and dictionaries. The first
argument bounds the depth. -/
def holdsWith (c : Objects) : ℕ → ℕ → Value → Bool
  | 0, _, _ => false
  | fuel + 1, n, v =>
    match c.object n, v with
    | .scalar (.text s), .text t => s = t
    | .list ns, .list vs =>
      ns.length = vs.length && (ns.zip vs).all fun p => holdsWith c fuel p.1 p.2
    | .dict es, .dict kvs =>
      es.length = kvs.length && (es.zip kvs).all fun p =>
        holdsWith c fuel p.1.1 p.2.1 && holdsWith c fuel p.1.2 p.2.2
    | _, _ => false

theorem object_of_text {c : Objects} {fuel n : ℕ} {t : Text}
    (h : c.holdsWith fuel n (.text t) = true) : c.object n = .scalar (.text t) := by
  cases fuel with
  | zero => cases h
  | succ fuel =>
    rw [holdsWith.eq_def] at h
    dsimp only at h
    split at h
    · next ho hv =>
      cases hv
      rw [ho, of_decide_eq_true h]
    all_goals simp_all

theorem forall₂_of_zip {α β : Type} {R : α → β → Bool} {as : List α} {bs : List β}
    (h : (as.length = bs.length && (as.zip bs).all fun p => R p.1 p.2) = true) :
    List.Forall₂ (fun a b => R a b = true) as bs := by
  rw [Bool.and_eq_true, decide_eq_true_eq, List.all_eq_true] at h
  exact List.forall₂_iff_zip.mpr ⟨h.1, fun hm => h.2 _ hm⟩

theorem object_of_list {c : Objects} {fuel n : ℕ} {vs : List Value}
    (h : c.holdsWith fuel n (.list vs) = true) :
    ∃ less ns, c.object n = .list ns ∧
      List.Forall₂ (fun n v => c.holdsWith less n v = true) ns vs := by
  cases fuel with
  | zero => cases h
  | succ less =>
    rw [holdsWith.eq_def] at h
    dsimp only at h
    split at h
    · next hv => cases hv
    · next ns vs' ho hv =>
      cases hv
      exact ⟨less, ns, ho, forall₂_of_zip h⟩
    · next hv => cases hv
    · cases h

theorem object_of_dict {c : Objects} {fuel n : ℕ} {kvs : List (Value × Value)}
    (h : c.holdsWith fuel n (.dict kvs) = true) :
    ∃ less es, c.object n = .dict es ∧
      List.Forall₂ (fun e kv => (c.holdsWith less e.1 kv.1 && c.holdsWith less e.2 kv.2) = true)
        es kvs := by
  cases fuel with
  | zero => cases h
  | succ less =>
    rw [holdsWith.eq_def] at h
    dsimp only at h
    split at h
    · next hv => cases hv
    · next hv => cases hv
    · next es kvs' ho hv =>
      cases hv
      exact ⟨less, es, ho, forall₂_of_zip h⟩
    · cases h

end SymbolRename.Yaml.Objects
