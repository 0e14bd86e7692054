import SymbolRename.Proofs.Batch.Carry

/-!
# Histories of a function

A function starts with no symbol, and from then on symbols are added to it, single symbols are
renamed and batches are carried out, in any order and with any names. Whatever fails in between is
dropped by the caller, and the history goes on with what is there. The two collections check names
differently: adding looks at one of them and renaming at both. So the names of each collection stay
apart, and a name comes to be shared between the collections by adding only.
-/

set_option autoImplicit false

namespace SymbolRename
open SymbolRename.Task

/-- What can be done with a function. A symbol is told by its handle, which may have been asked for
at any time before. -/
inductive Operation where
  | add (kind : SymbolKind) (name source : Text)
  | rename (h : Handle) (name source : Text)
  | apply (ds : List Directive)
  /-- Something else changes: who listens, a file, the language. -/
  | surround (w : World)

namespace Operation

def adds : Operation → Bool
  | add .. => true
  | _ => false

def single : Operation → Bool
  | add .. | rename .. => true
  | _ => false

def accept (result : Except Refusal Function) : Task Desk Fault Unit := do
  let f ← orFault .refused result
  modify fun d => { d with function := f }

def perform : Operation → Task Desk Fault Unit
  | add kind name source => do accept ((← get).function.add kind name source)
  | rename h name source => do accept ((← get).function.setName h name source)
  | apply ds => do let _ ← Batch.apply Desk.host Desk.tell ds
  | surround w => modify fun d => { d with world := w }

def leaves (op : Operation) (d : Desk) : Desk := (op.perform.run d).2

theorem accept_run (result : Except Refusal Function) (d : Desk) :
    (accept result).run d =
      match result with
      | .ok f => (.ok (), { d with function := f })
      | .error r => (.error (.refused r), d) := by
  cases result with
  | ok f => exact run_bind_ok (run_pure f d) _
  | error r => exact run_bind_error (run_throw _ d) _

theorem accept_keeps {P : Function → Prop} {result : Except Refusal Function} {d : Desk}
    (hg : ∀ g, result = .ok g → P g) (hd : P d.function) :
    P ((accept result).run d).2.function := by
  rw [accept_run]
  cases result with
  | ok g => exact hg g rfl
  | error r => exact hd

theorem accept_fails {result : Except Refusal Function} {d : Desk} {e : Fault}
    (he : ((accept result).run d).1 = .error e) : ((accept result).run d).2 = d := by
  rw [accept_run] at he ⊢
  cases result with
  | ok g => cases he
  | error r => rfl

theorem perform_add (kind : SymbolKind) (name source : Text) (d : Desk) :
    (add kind name source).perform.run d = (accept (d.function.add kind name source)).run d :=
  run_bind_ok (run_get d) _

theorem perform_rename (h : Handle) (name source : Text) (d : Desk) :
    (rename h name source).perform.run d = (accept (d.function.setName h name source)).run d :=
  run_bind_ok (run_get d) _

theorem leaves_apply (ds : List Directive) (d : Desk) :
    (apply ds).leaves d = ((Batch.apply Desk.host Desk.tell ds).run d).2 := by
  rw [leaves, perform, run_bind]
  rcases (Batch.apply Desk.host Desk.tell ds).run d with ⟨r | r, t⟩ <;> rfl

/-- What adding, renaming and a single directive keep, every operation keeps. -/
theorem leaves_keeps {P : Function → Prop} {op : Operation} {d : Desk}
    (hadd : ∀ kind name source g, op = add kind name source →
      d.function.add kind name source = .ok g → P g)
    (hname : ∀ h name source g, op = rename h name source →
      d.function.setName h name source = .ok g → P g)
    (hcarry : ∀ f e, P f → P (f.carry e).2) (hd : P d.function) :
    P (op.leaves d).function := by
  cases op with
  | add kind name source =>
    rw [leaves, perform_add]
    exact accept_keeps (fun g hk => hadd kind name source g rfl hk) hd
  | rename h name source =>
    rw [leaves, perform_rename]
    exact accept_keeps (fun g hk => hname h name source g rfl hk) hd
  | apply ds =>
    obtain ⟨done, -, he⟩ := Desk.apply_function ds d.world d.function
    rw [leaves_apply, he]
    exact Function.after_keeps hcarry _ done hd
  | surround w => exact hd

theorem leaves_distinct (op : Operation) (d : Desk) (hd : d.function.Distinct) :
    (op.leaves d).function.Distinct :=
  leaves_keeps (fun _ _ _ _ _ hk => Function.add_distinct hk hd)
    (fun _ _ _ _ _ hk => Function.setName_distinct hk hd) Function.carry_distinct hd

theorem leaves_shared {op : Operation} {d : Desk} (ha : op.adds = false) {m : Text}
    (hm : (op.leaves d).function.Shared m) : d.function.Shared m := by
  have hadd : ∀ kind name source g, op = add kind name source →
      d.function.add kind name source = .ok g → g.Shared m → d.function.Shared m := by
    rintro kind name source g rfl
    cases ha
  exact leaves_keeps (P := fun f => f.Shared m → d.function.Shared m) hadd
    (fun _ _ _ _ _ hk => Function.setName_shared hk)
    (fun _ _ hf hs => hf (Function.carry_shared hs)) id hm

theorem leaves_length (op : Operation) (d : Desk) (kind : SymbolKind) :
    (d.function.symbols kind).length ≤ ((op.leaves d).function.symbols kind).length :=
  leaves_keeps (P := fun f => (d.function.symbols kind).length ≤ (f.symbols kind).length)
    (fun _ _ _ _ _ hk => Function.add_length hk kind)
    (fun _ _ _ _ _ hk => Nat.le_of_eq (Function.setName_length hk kind).symm)
    (fun f e hf => (f.length_carry e kind).symm ▸ hf) (Nat.le_refl _)

/-- A request about one symbol that fails leaves everything as it was. -/
theorem single_fails {op : Operation} {d : Desk} {e : Fault} (hs : op.single = true)
    (he : (op.perform.run d).1 = .error e) : op.leaves d = d := by
  cases op with
  | add kind name source =>
    rw [perform_add] at he
    rw [leaves, perform_add]
    exact accept_fails he
  | rename h name source =>
    rw [perform_rename] at he
    rw [leaves, perform_rename]
    exact accept_fails he
  | apply ds => cases hs
  | surround w => cases hs

end Operation

def history : List Operation → Desk → Desk
  | [], d => d
  | op :: ops, d => history ops (op.leaves d)

theorem history_distinct (ops : List Operation) (d : Desk) (hd : d.function.Distinct) :
    (history ops d).function.Distinct := by
  induction ops generalizing d with
  | nil => exact hd
  | cons op ops ih => exact ih _ (op.leaves_distinct d hd)

theorem history_shared (ops : List Operation) (d : Desk) (ha : ∀ op ∈ ops, op.adds = false)
    (m : Text) (hm : (history ops d).function.Shared m) : d.function.Shared m := by
  induction ops generalizing d with
  | nil => exact hm
  | cons op ops ih =>
    have hl := ih _ (fun o ho => ha o (by simp [ho])) hm
    exact Operation.leaves_shared (ha op (by simp)) hl

theorem history_length (ops : List Operation) (d : Desk) (kind : SymbolKind) :
    (d.function.symbols kind).length ≤ ((history ops d).function.symbols kind).length := by
  induction ops generalizing d with
  | nil => exact Nat.le_refl _
  | cons op ops ih => exact Nat.le_trans (op.leaves_length d kind) (ih _)

/-- A handle that was good once stays good. -/
theorem history_symbol (ops : List Operation) (d : Desk) (h : Handle)
    (hs : (d.function.symbol? h).isSome) : ((history ops d).function.symbol? h).isSome := by
  rw [Function.symbol?, isSome_getElem?] at hs ⊢
  exact Nat.lt_of_lt_of_le hs (history_length ops d h.kind)

/-- Whatever was done with a function since it was empty, the names of each collection are apart.
Whatever is done next without adding makes no name shared that was not, and loses no symbol. A
request about one symbol that fails leaves all as it was. -/
theorem history_keeps_names_apart (w : World) (name : Text) (ops : List Operation) :
    let d := history ops ⟨w, .empty name⟩
    d.function.Distinct ∧
      (∀ later : List Operation, (∀ op ∈ later, op.adds = false) →
        ∀ m, (history later d).function.Shared m → d.function.Shared m) ∧
      (∀ later h, (d.function.symbol? h).isSome →
        ((history later d).function.symbol? h).isSome) ∧
      ∀ (op : Operation) (e : Fault), op.single = true → (op.perform.run d).1 = .error e →
        op.leaves d = d := by
  intro d
  have hd : d.function.Distinct := history_distinct ops _ (Function.empty_distinct name)
  exact ⟨hd, fun later ha => history_shared later d ha, fun later => history_symbol later d,
    fun op e hs he => Operation.single_fails hs he⟩

example (w : World) :
    let d := history [.add .parameter "a" "s", .add .localVariable "a" "t",
      .rename ⟨.localVariable, 0⟩ "b" "t", .add .localVariable "a" "t"] ⟨w, .empty "f"⟩
    d.function.locals = [⟨"b", "t"⟩, ⟨"a", "t"⟩] ∧
      ((Operation.rename ⟨.localVariable, 0⟩ "a" "u").perform.run d).1 =
        .error (.refused (.taken "a" "f")) :=
  ⟨rfl, rfl⟩

end SymbolRename
