import SymbolRename.Batch

/-!
# What a record says of a batch

Each directive of a record has been carried out, was skipped or was refused, and it is just one of
these. The lists of them keep the order of the record.
-/

set_option autoImplicit false

namespace SymbolRename.Batch.Record

theorem applied_append (r rest : Record) : applied (r ++ rest) = applied r ++ applied rest := by
  rw [applied, List.filter_append, List.map_append]
  rfl

theorem applied_cons (d : Directive) (outcome : Outcome) (r : Record) :
    applied ((d, outcome) :: r) = if outcome = .applied then d :: applied r else applied r := by
  by_cases h : outcome = .applied <;> simp [applied, h]

theorem applied_sublist (r : Record) : List.Sublist (applied r) (r.map (·.1)) :=
  List.Sublist.map _ List.filter_sublist

theorem length_eq_parts (r : Record) :
    r.length = (applied r).length + (skipped r).length + (diagnostics r).length := by
  induction r with
  | nil => rfl
  | cons e r ih =>
    obtain ⟨d, _ | _ | ⟨kind, reason⟩⟩ := e
    all_goals
      simp only [applied, skipped, diagnostics] at ih
      simp [applied, skipped, diagnostics, ih]
      omega

theorem mem_diagnostics {r : Record} {d : Directive} {kind : SymbolKind} {reason : Text} :
    (d, kind, reason) ∈ diagnostics r ↔ (d, .rejected kind reason) ∈ r := by
  rw [diagnostics, List.mem_filterMap]
  constructor
  · rintro ⟨⟨e, _ | _ | ⟨k, t⟩⟩, he, hd⟩
    · cases hd
    · cases hd
    · cases hd
      exact he
  · intro hd
    exact ⟨_, hd, rfl⟩

/-- A list of directives dealt out into those applied, those skipped and those refused: each of them
goes to just one of the three, behind the ones that came before it. -/
inductive Shared :
    List Directive → List Directive → List Directive → List (Directive × SymbolKind × Text) → Prop
  | nil : Shared [] [] [] []
  | applied {d : Directive} {ds as ss : List Directive} {rs : List (Directive × SymbolKind × Text)}
      (rest : Shared ds as ss rs) : Shared (d :: ds) (d :: as) ss rs
  | skipped {d : Directive} {ds as ss : List Directive} {rs : List (Directive × SymbolKind × Text)}
      (rest : Shared ds as ss rs) : Shared (d :: ds) as (d :: ss) rs
  | rejected {d : Directive} {ds as ss : List Directive} {kind : SymbolKind} {reason : Text}
      {rs : List (Directive × SymbolKind × Text)}
      (rest : Shared ds as ss rs) : Shared (d :: ds) as ss ((d, kind, reason) :: rs)

theorem shared_append {ds as ss es bs us : List Directive}
    {rs qs : List (Directive × SymbolKind × Text)} (h : Shared ds as ss rs)
    (h' : Shared es bs us qs) : Shared (ds ++ es) (as ++ bs) (ss ++ us) (rs ++ qs) := by
  induction h with
  | nil => exact h'
  | applied _ ih => exact ih.applied
  | skipped _ ih => exact ih.skipped
  | rejected _ ih => exact ih.rejected

theorem skipped_append (r rest : Record) : skipped (r ++ rest) = skipped r ++ skipped rest := by
  rw [skipped, List.filter_append, List.map_append]
  rfl

theorem diagnostics_append (r rest : Record) :
    diagnostics (r ++ rest) = diagnostics r ++ diagnostics rest :=
  List.filterMap_append

end SymbolRename.Batch.Record
