import SymbolRename.Proofs.Task
import SymbolRename.Yaml.Token
import Mathlib.Data.List.Basic

/-!
# Work that runs into known faults only

Reading a document is work on a state, again and again with another state: a cursor, the tokens that
are left, the nodes, the objects in the making. Said once for all of them: the work keeps an
invariant of its state, what it gives has a property, and the faults that it runs into are of a
kind.
-/

set_option autoImplicit false

namespace SymbolRename.Yaml
variable {σ α β : Type}

/-- From a state with the invariant the work gives what has the property and keeps the invariant, or
runs into a fault of the kind. -/
def SafeFor (F : Fault → Prop) (I : σ → Prop) (Q : α → Prop) (work : StateT σ (Except Fault) α) :
    Prop :=
  ∀ s, I s → Yields F (fun p => Q p.1 ∧ I p.2) (work.run s)

abbrev Safe (F : Fault → Prop) (I : σ → Prop) (work : StateT σ (Except Fault) α) : Prop :=
  SafeFor F I (fun _ => True) work

section Closure
variable {F : Fault → Prop} {I : σ → Prop} {P Q : α → Prop} {R : β → Prop}
  {work : StateT σ (Except Fault) α}

theorem safe_pure {a : α} (h : Q a) : SafeFor F I Q (pure a) := fun _ hs => ⟨h, hs⟩

theorem safe_throw {f : Fault} (h : F f) : SafeFor F I Q (throw f : StateT σ (Except Fault) α) :=
  fun _ _ => h

theorem safe_get : SafeFor F I I (get : StateT σ (Except Fault) σ) := fun _ hs => ⟨hs, hs⟩

theorem safe_set {s : σ} (h : I s) : Safe F I (set s : StateT σ (Except Fault) PUnit) :=
  fun _ _ => ⟨trivial, h⟩

theorem safe_modify {change : σ → σ} (h : ∀ s, I s → I (change s)) :
    Safe F I (modify change : StateT σ (Except Fault) PUnit) := fun s hs => ⟨trivial, h s hs⟩

theorem SafeFor.imp (h : SafeFor F I P work) (hq : ∀ a, P a → Q a) : SafeFor F I Q work :=
  fun s hs => (h s hs).imp fun p hp => ⟨hq p.1 hp.1, hp.2⟩

theorem SafeFor.safe (h : SafeFor F I P work) : Safe F I work := h.imp fun _ _ => trivial

theorem SafeFor.bind (h : SafeFor F I P work) {next : α → StateT σ (Except Fault) β}
    (hn : ∀ a, P a → SafeFor F I R (next a)) : SafeFor F I R (work >>= next) := by
  intro s hs
  rw [StateT.run_bind]
  exact (h s hs).bind fun p hp => hn p.1 hp.1 p.2 hp.2

theorem Safe.bind (h : Safe F I work) {next : α → StateT σ (Except Fault) β}
    (hn : ∀ a, SafeFor F I R (next a)) : SafeFor F I R (work >>= next) :=
  SafeFor.bind h fun a _ => hn a

/-- Behind a fault nothing is done. -/
theorem safe_throw_first {f : Fault} (h : F f) {next : α → StateT σ (Except Fault) β} :
    SafeFor F I R ((throw f : StateT σ (Except Fault) α) >>= next) := fun _ _ => h

theorem safe_mapM {f : α → StateT σ (Except Fault) β} (h : ∀ a, Safe F I (f a)) (as : List α) :
    Safe F I (as.mapM f) := by
  induction as with
  | nil => exact safe_pure trivial
  | cons a as ih =>
    rw [List.mapM_cons]
    exact (h a).bind fun _ => ih.bind fun _ => safe_pure trivial

theorem safe_forM {act : α → StateT σ (Except Fault) PUnit} (h : ∀ a, Safe F I (act a))
    (as : List α) : Safe F I (as.forM act) := by
  induction as with
  | nil => exact safe_pure trivial
  | cons a as ih => exact (h a).bind fun _ => ih

theorem safe_lift {r : Except Fault α} (h : Yields F Q r) :
    SafeFor F I Q (liftM r : StateT σ (Except Fault) α) := by
  intro s hs
  cases r with
  | error f => exact h
  | ok a => exact ⟨h, hs⟩

end Closure
end SymbolRename.Yaml
