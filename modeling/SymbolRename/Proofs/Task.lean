import SymbolRename.Task

/-!
# Running tasks

What a task gives back and in which state it leaves things, one equation for each way of making a
task. A sequence whose first part fails stays in the state of that part. One that has no state to
keep gives a result only if its first part does.
-/

set_option autoImplicit false

namespace SymbolRename
variable {σ τ ε δ α β : Type}

theorem bind_eq_ok {r : Except ε α} {next : α → Except ε β} {b : β} (h : r >>= next = .ok b) :
    ∃ a, r = .ok a ∧ next a = .ok b := by
  cases r with
  | error e => cases h
  | ok a => exact ⟨a, rfl, h⟩

theorem bind_eq_error {r : Except ε α} {next : α → Except ε β} {e : ε}
    (h : r >>= next = .error e) : r = .error e ∨ ∃ a, r = .ok a ∧ next a = .error e := by
  cases r with
  | error d =>
    cases h
    exact .inl rfl
  | ok a => exact .inr ⟨a, rfl, h⟩

/-- What has a property, or a fault of a kind. -/
def Yields (F : ε → Prop) (P : α → Prop) : Except ε α → Prop
  | .ok a => P a
  | .error e => F e

section Yields
variable {F : ε → Prop} {P Q : α → Prop} {R : β → Prop} {r : Except ε α}

theorem Yields.imp (h : Yields F P r) (hq : ∀ a, P a → Q a) : Yields F Q r := by
  cases r with
  | error e => exact h
  | ok a => exact hq a h

theorem Yields.weaken {G : ε → Prop} (h : Yields F P r) (hf : ∀ e, F e → G e) : Yields G P r := by
  cases r with
  | error e => exact hf e h
  | ok a => exact h

theorem Yields.map (h : Yields F P r) {f : α → β} (hf : ∀ a, P a → R (f a)) :
    Yields F R (r.map f) := by
  cases r with
  | error e => exact h
  | ok a => exact hf a h

theorem Yields.bind (h : Yields F P r) {next : α → Except ε β}
    (hn : ∀ a, P a → Yields F R (next a)) : Yields F R (r >>= next) := by
  cases r with
  | error e => exact h
  | ok a => exact hn a h

/-- What is done with a result need be the same only where it has the property. -/
theorem Yields.bind_congr (h : Yields F P r) {next next' : α → Except ε β}
    (hn : ∀ a, P a → next a = next' a) : (r >>= next) = (r >>= next') := by
  cases r with
  | error e => rfl
  | ok a => exact hn a h

end Yields

namespace Task

@[simp] theorem run_pure (a : α) (s : σ) : (pure a : Task σ ε α).run s = (.ok a, s) := rfl

@[simp] theorem run_throw (e : ε) (s : σ) :
    (throw e : Task σ ε α).run s = (.error e, s) := rfl

@[simp] theorem run_get (s : σ) : (get : Task σ ε σ).run s = (.ok s, s) := rfl

@[simp] theorem run_set (t s : σ) : (set t : Task σ ε PUnit).run s = (.ok ⟨⟩, t) := rfl

@[simp] theorem run_modify (f : σ → σ) (s : σ) :
    (modify f : Task σ ε PUnit).run s = (.ok ⟨⟩, f s) := rfl

theorem run_bind (task : Task σ ε α) (next : α → Task σ ε β) (s : σ) :
    (task >>= next).run s =
      match task.run s with
      | (.ok a, t) => (next a).run t
      | (.error e, t) => (.error e, t) := by
  change ExceptT.bindCont next (task.run s).1 (task.run s).2 = _
  rcases task.run s with ⟨r | r, t⟩ <;> rfl

theorem run_bind_ok {task : Task σ ε α} {s t : σ} {a : α} (h : task.run s = (.ok a, t))
    (next : α → Task σ ε β) : (task >>= next).run s = (next a).run t := by
  rw [run_bind, h]

theorem run_bind_error {task : Task σ ε α} {s t : σ} {e : ε} (h : task.run s = (.error e, t))
    (next : α → Task σ ε β) : (task >>= next).run s = (.error e, t) := by
  rw [run_bind, h]

theorem run_bind_pure (task : Task σ ε α) (f : α → β) (s : σ) :
    (task >>= fun a => pure (f a)).run s = ((task.run s).1.map f, (task.run s).2) := by
  rw [run_bind]
  rcases task.run s with ⟨r | r, t⟩ <;> rfl

theorem run_forM_cons (act : α → Task σ ε PUnit) (a : α) (as : List α) (s : σ) :
    (List.forM (a :: as) act).run s =
      match (act a).run s with
      | (.ok _, t) => (List.forM as act).run t
      | (.error e, t) => (.error e, t) := by
  rw [List.forM_eq_forM, List.forM_cons, run_bind]
  rcases (act a).run s with ⟨r | r, t⟩ <;> rfl

theorem run_forM_append (act : α → Task σ ε PUnit) (as bs : List α) (s : σ) :
    (List.forM (as ++ bs) act).run s =
      match (List.forM as act).run s with
      | (.ok _, t) => (List.forM bs act).run t
      | (.error e, t) => (.error e, t) := by
  induction as generalizing s with
  | nil => rfl
  | cons a as ih =>
    rw [List.cons_append, run_forM_cons, run_forM_cons]
    rcases (act a).run s with ⟨r | r, t⟩
    · rfl
    · exact ih t

theorem run_onPart (view : σ → τ) (update : τ → σ → σ) (wrap : δ → ε) (task : Task τ δ α)
    (s : σ) :
    (onPart view update wrap task).run s =
      ((task.run (view s)).1.mapError wrap, update (task.run (view s)).2 s) := by
  unfold onPart
  rw [run_bind_ok (run_get s)]
  rcases task.run (view s) with ⟨r | r, t⟩
  · exact run_bind_ok (run_set (update t s) s) _
  · exact run_bind_ok (run_set (update t s) s) _

end Task
end SymbolRename
