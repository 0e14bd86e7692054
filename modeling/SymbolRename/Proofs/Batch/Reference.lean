import SymbolRename.Proofs.Batch.Carry

/-!
# A reference for batches

What a batch should do, said of nothing but two ordered lists of names and sources. The reference
looks for names by going through a list, knows of no place in it and asks nobody. A batch on a
function in memory comes to the same lists and to the same record, directive by directive.
-/

set_option autoImplicit false

namespace SymbolRename.Reference
open Text

abbrev Row := List (Text × Text)

def Row.Has (r : Row) (name : Text) : Prop := ∃ source, (name, source) ∈ r

instance (r : Row) (name : Text) : Decidable (Row.Has r name) :=
  decidable_of_iff (name ∈ r.map (·.1)) (by simp [Row.Has])

/-- The first entry of a name gets another name and keeps its source. -/
def renameFirst (old new : Text) : Row → Row
  | [] => []
  | (name, source) :: rest =>
    if name = old then (new, source) :: rest else (name, source) :: renameFirst old new rest

structure State where
  locals : Row
  parameters : Row
  applied : List Directive
  count : ℕ
  skipped : List Directive
  diagnostics : List (Directive × SymbolKind × Text)

def Unfit (name : Text) : Prop := name = [] ∨ ∃ c ∈ name, isBlank c = true

instance (name : Text) : Decidable (Unfit name) :=
  inferInstanceAs (Decidable (name = [] ∨ ∃ c ∈ name, isBlank c = true))

namespace State

def Has (s : State) (name : Text) : Prop := s.locals.Has name ∨ s.parameters.Has name

instance (s : State) (name : Text) : Decidable (s.Has name) :=
  inferInstanceAs (Decidable (s.locals.Has name ∨ s.parameters.Has name))

def kindOf (s : State) (name : Text) : SymbolKind :=
  if s.locals.Has name then .localVariable else .parameter

def rename (s : State) (old new : Text) : State :=
  if s.locals.Has old then { s with locals := renameFirst old new s.locals }
  else { s with parameters := renameFirst old new s.parameters }

def skip (s : State) (d : Directive) : State := { s with skipped := s.skipped ++ [d] }

def reject (s : State) (d : Directive) (reason : Text) : State :=
  { s with diagnostics := s.diagnostics ++ [(d, s.kindOf d.oldName, reason)] }

def accept (s : State) (d : Directive) : State :=
  { s.rename d.oldName d.newName with applied := s.applied ++ [d], count := s.count + 1 }

def step (function : Text) (s : State) (d : Directive) : State :=
  if ¬ s.Has d.oldName then s.skip d
  else if Unfit d.newName then s.reject d ("Invalid name: \x27" ++ d.newName ++ "\x27")
  else if d.newName ≠ d.oldName ∧ s.Has d.newName then
    s.reject d ("\x27" ++ d.newName ++ "\x27 is already defined in " ++ function)
  else s.accept d

def run (function : Text) (s : State) (ds : List Directive) : State := ds.foldl (step function) s

end State

def row (ss : List Symbol) : Row := ss.map fun s => (s.name, s.source)

def stateOf (f : Function) (r : Batch.Record) : State :=
  ⟨row f.locals, row f.parameters, r.applied, r.applied.length, r.skipped, r.diagnostics⟩

theorem row_has (ss : List Symbol) (name : Text) :
    (row ss).Has name ↔ name ∈ ss.map (·.name) := by
  simp only [Row.Has, row, List.mem_map, Prod.mk.injEq]
  constructor
  · rintro ⟨source, s, hs, hn, -⟩
    exact ⟨s, hs, hn⟩
  · rintro ⟨s, hs, hn⟩
    exact ⟨s.source, s, hs, hn, rfl⟩

theorem stateOf_locals (f : Function) (r : Batch.Record) (name : Text) :
    (stateOf f r).locals.Has name ↔ name ∈ f.names .localVariable :=
  row_has _ _

theorem stateOf_has (f : Function) (r : Batch.Record) (name : Text) :
    (stateOf f r).Has name ↔ f.Named name := by
  rw [← Function.isTaken_iff, Function.isTaken, Bool.or_eq_true, Function.hasName_iff,
    Function.hasName_iff]
  exact or_congr (row_has _ _) (row_has _ _)

theorem unfit_iff (name : Text) : Unfit name ↔ isGivable name = false := by
  rw [isGivable, Bool.and_eq_false_iff]
  simp [Unfit]

theorem kindOf_find {f : Function} {r : Batch.Record} {name : Text} {h : Handle}
    (hf : f.find? name = some h) : (stateOf f r).kindOf name = h.kind := by
  have hl := Function.find?_eq_some_iff.mp hf
  rw [State.kindOf]
  cases hk : h.kind with
  | localVariable =>
    have hm : name ∈ f.names h.kind := List.mem_of_getElem? hl.named
    rw [hk] at hm
    exact if_pos ((stateOf_locals f r name).mpr hm)
  | parameter => exact if_neg fun hm => hl.before hk ((stateOf_locals f r name).mp hm)

/-- Going through a list for a name comes to the same place as its index. -/
theorem renameFirst_row {old : Text} {ss : List Symbol} {i : ℕ} {s : Symbol} (new : Text)
    (hs : ss[i]? = some s) (hn : s.name = old)
    (hb : ∀ j < i, (ss.map (·.name))[j]? ≠ some old) :
    renameFirst old new (row ss) = row (ss.set i ⟨new, s.source⟩) := by
  induction ss generalizing i with
  | nil => simp at hs
  | cons t ss ih =>
    cases i with
    | zero =>
      cases hs
      simp [row, renameFirst, hn]
    | succ i =>
      have ht : t.name ≠ old := by simpa using hb 0 (by omega)
      have hr := ih hs fun j hj => by simpa using hb (j + 1) (by omega)
      simp only [row] at hr
      simp [row, renameFirst, ht, hr]

theorem rename_find {f : Function} {r : Batch.Record} {old new : Text} {h : Handle} {s : Symbol}
    (hf : f.find? old = some h) (hs : f.symbol? h = some s) (hn : s.name = old) :
    (stateOf f r).rename old new = stateOf (f.place h ⟨new, s.source⟩) r := by
  have hl := Function.find?_eq_some_iff.mp hf
  have hr := renameFirst_row new hs hn hl.first
  obtain ⟨kind, i⟩ := h
  rw [State.rename]
  cases kind with
  | localVariable =>
    rw [if_pos ((stateOf_locals f r old).mpr (List.mem_of_getElem? hl.named))]
    exact congrArg (fun ls => { stateOf f r with locals := ls }) hr
  | parameter =>
    rw [if_neg fun hm => hl.before rfl ((stateOf_locals f r old).mp hm)]
    exact congrArg (fun ps => { stateOf f r with parameters := ps }) hr

/-- One directive more at the end of a record. -/
theorem stateOf_skipped (f : Function) (r : Batch.Record) (d : Directive) :
    stateOf f (r ++ [(d, .skipped)]) = (stateOf f r).skip d := by
  simp [stateOf, State.skip, Batch.Record.applied, Batch.Record.skipped, Batch.Record.diagnostics]

theorem stateOf_rejected (f : Function) (r : Batch.Record) (d : Directive) (kind : SymbolKind)
    (reason : Text) (hk : (stateOf f r).kindOf d.oldName = kind) :
    stateOf f (r ++ [(d, .rejected kind reason)]) = (stateOf f r).reject d reason := by
  rw [State.reject, hk]
  simp [stateOf, Batch.Record.applied, Batch.Record.skipped, Batch.Record.diagnostics]

theorem stateOf_applied (f g : Function) (r : Batch.Record) (d : Directive)
    (hg : (stateOf f r).rename d.oldName d.newName = stateOf g r) :
    stateOf g (r ++ [(d, .applied)]) = (stateOf f r).accept d := by
  rw [State.accept, hg]
  simp [stateOf, Batch.Record.applied, Batch.Record.skipped, Batch.Record.diagnostics]

/-- A step of the reference is a directive carried out. -/
theorem step_carry (f : Function) (r : Batch.Record) (d : Directive) :
    (stateOf f r).step f.name d = stateOf (f.carry d).2 (r ++ [(d, (f.carry d).1)]) := by
  have ho := stateOf_has f r d.oldName
  have hn := stateOf_has f r d.newName
  have hu := unfit_iff d.newName
  rw [State.step]
  have hc := f.carry_carries d
  generalize f.carry d = c at hc
  cases hc with
  | skipped absent => rw [if_pos (ho.not.mpr absent), stateOf_skipped]
  | invalid target bad =>
    have hold : (stateOf f r).Has d.oldName := ho.mpr (Function.named_of_find target)
    rw [if_neg (not_not.mpr hold), if_pos (hu.mpr bad),
      stateOf_rejected _ _ _ _ _ (kindOf_find target)]
    rfl
  | taken target good differs taken =>
    have hold : (stateOf f r).Has d.oldName := ho.mpr (Function.named_of_find target)
    have hfit : ¬ Unfit d.newName := hu.not.mpr (by simp [good])
    rw [if_neg (not_not.mpr hold), if_neg hfit, if_pos ⟨differs, hn.mpr taken⟩,
      stateOf_rejected _ _ _ _ _ (kindOf_find target)]
    rfl
  | applied target symbol name good free =>
    have hold : (stateOf f r).Has d.oldName := ho.mpr (Function.named_of_find target)
    have hfit : ¬ Unfit d.newName := hu.not.mpr (by simp [good])
    have hfree : ¬ (d.newName ≠ d.oldName ∧ (stateOf f r).Has d.newName) := by
      rw [hn, ← name]
      tauto
    rw [if_neg (not_not.mpr hold), if_neg hfit, if_neg hfree,
      stateOf_applied _ _ _ _ (rename_find target symbol name)]

theorem run_record (f : Function) (r : Batch.Record) (ds : List Directive) :
    (stateOf f r).run f.name ds = stateOf (f.after ds) (r ++ f.record ds) := by
  induction ds generalizing f r with
  | nil => rw [Function.record, List.append_nil]; rfl
  | cons d ds ih =>
    have hr := ih (f.carry d).2 (r ++ [(d, (f.carry d).1)])
    rw [f.name_carry d, List.append_assoc] at hr
    rw [State.run, List.foldl_cons, step_carry]
    exact hr

theorem run_start (f : Function) (ds : List Directive) :
    (stateOf f []).run f.name ds = stateOf (f.after ds) (f.record ds) := by
  rw [run_record, List.nil_append]

/-- A batch comes to the symbols and the record of the reference. It comes to an end while nobody
listens; if it is cut short by a notice that cannot be told, it has followed the reference up to
there. The symbol that it takes for a name is the one that the function finds. -/
theorem apply_follows_reference (f : Function) (ds : List Directive) (w : World) :
    (∃ (g : Function) (record : Batch.Record), g.name = f.name ∧
      stateOf g record = (stateOf f []).run f.name ds ∧
      (w.audience = .nobody →
        (Batch.apply Desk.host Desk.tell ds).run ⟨w, f⟩ = (.ok record, ⟨w, g⟩)) ∧
      ∀ r d, (Batch.apply Desk.host Desk.tell ds).run ⟨w, f⟩ = (.ok r, d) →
        r = record ∧ d.function = g) ∧
    (∀ e d, (Batch.apply Desk.host Desk.tell ds).run ⟨w, f⟩ = (.error e, d) →
      ∃ done r, done <+: ds ∧ d.function.name = f.name ∧
        stateOf d.function r = (stateOf f []).run f.name done) ∧
    ∀ name, (Batch.target Desk.host name).run ⟨w, f⟩ =
        (.ok ((f.find? name).map fun h => (h.kind, h)), ⟨w, f⟩) ∧
      ∀ h, f.find? name = some h ↔ f.Leads name h := by
  have hsilent : w.audience = .nobody →
      (Batch.apply Desk.host Desk.tell ds).run ⟨w, f⟩ = (.ok (f.record ds), ⟨w, f.after ds⟩) :=
    fun hw => Desk.apply_told (Desk.tell_nobody hw _)
  constructor
  · exact ⟨f.after ds, f.record ds, f.name_after ds, (run_start f ds).symm, hsilent,
      fun r d hr => Desk.apply_ok hr⟩
  constructor
  · intro e d hr
    obtain ⟨done, hp, hf⟩ := Desk.apply_error hr
    rw [hf]
    exact ⟨done, f.record done, hp, f.name_after done, (run_start f done).symm⟩
  · exact fun name => ⟨Desk.target_run name w f, fun h => Function.find?_eq_some_iff⟩

end SymbolRename.Reference
