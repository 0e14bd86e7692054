import SymbolRename.Proofs.Function.First
import SymbolRename.Proofs.Task
import SymbolRename.World

/-!
# Batches on a function in memory

A batch asks a host for the symbols and for each rename. When the host is a function in memory, all
that happens to the function is a recursion over the directives which says nothing of hosts, and
what is told on the way does not touch it. The batch comes to its end exactly if everything that is
to be told can be told; otherwise it stops behind the directive that could not be spoken of.
-/

set_option autoImplicit false

namespace SymbolRename.Function

def sourceAt (f : Function) (h : Handle) : Text := ((f.symbol? h).map (·.source)).getD []

def carry (f : Function) (d : Directive) : Outcome × Function :=
  match f.find? d.oldName with
  | none => (.skipped, f)
  | some h =>
    match f.setName h d.newName (f.sourceAt h) with
    | .ok g => (.applied, g)
    | .error refusal => (.rejected h.kind refusal.message, f)

inductive Carries (f : Function) (d : Directive) : Outcome × Function → Prop
  | skipped (absent : ¬ f.Named d.oldName) : Carries f d (.skipped, f)
  | invalid {h : Handle} (target : f.find? d.oldName = some h)
      (bad : isGivable d.newName = false) :
      Carries f d (.rejected h.kind (Refusal.invalid d.newName).message, f)
  | taken {h : Handle} (target : f.find? d.oldName = some h) (good : isGivable d.newName = true)
      (differs : d.newName ≠ d.oldName) (taken : f.Named d.newName) :
      Carries f d (.rejected h.kind (Refusal.taken d.newName f.name).message, f)
  | applied {h : Handle} {s : Symbol} (target : f.find? d.oldName = some h)
      (symbol : f.symbol? h = some s) (name : s.name = d.oldName)
      (good : isGivable d.newName = true) (free : d.newName = s.name ∨ ¬ f.Named d.newName) :
      Carries f d (.applied, f.place h ⟨d.newName, s.source⟩)

theorem carry_carries (f : Function) (d : Directive) : Carries f d (f.carry d) := by
  rw [carry]
  cases ht : f.find? d.oldName with
  | none => exact .skipped (find?_eq_none_iff.mp ht)
  | some h =>
    obtain ⟨s, hs, hn⟩ := symbol_of_find ht
    have hsource : f.sourceAt h = s.source := by rw [sourceAt, hs]; rfl
    simp only [setName_eq hs, hsource]
    by_cases hg : isGivable d.newName = false
    · rw [if_pos hg]
      exact .invalid ht hg
    have hg' : isGivable d.newName = true := by simpa using hg
    rw [if_neg hg]
    by_cases hc : d.newName ≠ s.name ∧ f.isTaken d.newName = true
    · rw [if_pos hc]
      exact .taken ht hg' (hn ▸ hc.1) ((isTaken_iff f _).mp hc.2)
    · have hfree : d.newName = s.name ∨ ¬ f.Named d.newName := by
        rw [← isTaken_iff]
        tauto
      rw [if_neg hc]
      exact .applied ht hs hn hg' hfree

theorem carry_eq {f : Function} {d : Directive} {r : Outcome × Function} (hr : Carries f d r) :
    f.carry d = r := by
  cases hr with
  | skipped absent => rw [carry, find?_eq_none_iff.mpr absent]
  | invalid target bad =>
    obtain ⟨s, hs, -⟩ := symbol_of_find target
    simp [carry, target, setName_eq hs, bad]
  | taken target good differs taken =>
    obtain ⟨s, hs, hn⟩ := symbol_of_find target
    have ht : f.isTaken d.newName = true := (isTaken_iff f _).mpr taken
    simp [carry, target, setName_eq hs, good, hn, differs, ht]
  | @applied _ s target symbol name good free =>
    have ht : ¬ (d.newName ≠ s.name ∧ f.isTaken d.newName = true) := by
      rw [isTaken_iff]
      tauto
    rw [carry, target]
    simp only [sourceAt, symbol, setName_eq symbol, if_neg ht]
    simp [good]

/-- A directive leaves the function alone or gives its new name to a symbol of its old one. -/
theorem carry_moves (f : Function) (d : Directive) : (f.carry d).2 = f ∨
    ∃ h s, f.symbol? h = some s ∧ s.name = d.oldName ∧
      (f.carry d).2 = f.place h ⟨d.newName, s.source⟩ := by
  have hc := f.carry_carries d
  generalize f.carry d = r at hc
  cases hc with
  | applied _ symbol name => exact .inr ⟨_, _, symbol, name, rfl⟩
  | _ => exact .inl rfl

theorem carry_unapplied {f : Function} {d : Directive} (ha : (f.carry d).1 ≠ .applied) :
    (f.carry d).2 = f := by
  have hc := f.carry_carries d
  generalize f.carry d = r at hc ha
  cases hc with
  | applied => exact absurd rfl ha
  | _ => rfl

/-- What holds of a function, and of it with the target renamed, holds behind a directive. -/
theorem carry_keeps {P : Function → Prop} {f : Function} {d : Directive} (hf : P f)
    (hp : ∀ h s, f.symbol? h = some s → s.name = d.oldName →
      (d.newName = s.name ∨ ¬ f.Named d.newName) → P (f.place h ⟨d.newName, s.source⟩)) :
    P (f.carry d).2 := by
  have hc := f.carry_carries d
  generalize f.carry d = r at hc
  cases hc with
  | applied _ symbol name _ free => exact hp _ _ symbol name free
  | _ => exact hf

theorem name_carry (f : Function) (d : Directive) : (f.carry d).2.name = f.name :=
  carry_keeps (P := fun g => g.name = f.name) rfl fun h _ _ _ _ => name_place f h _

theorem length_carry (f : Function) (d : Directive) (kind : SymbolKind) :
    ((f.carry d).2.symbols kind).length = (f.symbols kind).length :=
  carry_keeps (P := fun g => (g.symbols kind).length = (f.symbols kind).length) rfl
    fun h _ _ _ _ => length_place f h _ kind

theorem carry_distinct (f : Function) (d : Directive) (hd : f.Distinct) :
    (f.carry d).2.Distinct :=
  carry_keeps hd fun _ _ hs _ hn => place_distinct hs hn _ hd

theorem carry_shared {f : Function} {d : Directive} {m : Text} :
    (f.carry d).2.Shared m → f.Shared m :=
  carry_keeps (P := fun g => g.Shared m → f.Shared m) id fun _ _ hs _ hn => place_shared hs hn

def record : Function → List Directive → Batch.Record
  | _, [] => []
  | f, d :: ds => (d, (f.carry d).1) :: record (f.carry d).2 ds

def after : Function → List Directive → Function
  | f, [] => f
  | f, d :: ds => after (f.carry d).2 ds

def notices (f : Function) (ds : List Directive) : List Notice :=
  (f.record ds).filterMap fun e => Batch.notice? f.name e.1 e.2

theorem record_append (f : Function) (ds es : List Directive) :
    f.record (ds ++ es) = f.record ds ++ (f.after ds).record es := by
  induction ds generalizing f with
  | nil => rfl
  | cons d ds ih => exact congrArg ((d, (f.carry d).1) :: ·) (ih _)

theorem after_append (f : Function) (ds es : List Directive) :
    f.after (ds ++ es) = (f.after ds).after es := by
  induction ds generalizing f with
  | nil => rfl
  | cons d ds ih => exact ih _

theorem after_keeps {P : Function → Prop} (step : ∀ f d, P f → P (carry f d).2) (f : Function)
    (ds : List Directive) (h : P f) : P (f.after ds) := by
  induction ds generalizing f with
  | nil => exact h
  | cons d ds ih => exact ih _ (step f d h)

theorem name_after (f : Function) (ds : List Directive) : (f.after ds).name = f.name := by
  induction ds generalizing f with
  | nil => rfl
  | cons d ds ih => exact (ih _).trans (f.name_carry d)

theorem notices_cons (f : Function) (d : Directive) (ds : List Directive) :
    f.notices (d :: ds) =
      (Batch.notice? f.name d (f.carry d).1).toList ++ (f.carry d).2.notices ds := by
  rw [notices, notices, record, name_carry, List.filterMap_cons]
  cases Batch.notice? f.name d (f.carry d).1 <;> rfl

end SymbolRename.Function

namespace SymbolRename

def World.silent : World := ⟨⟨[]⟩, [], none, ⟨[], []⟩, none, .nobody, []⟩

end SymbolRename

namespace SymbolRename.Desk
open SymbolRename.Task

theorem tell_run (n : Notice) (w : World) (f : Function) :
    (tell n).run ⟨w, f⟩ = (((World.tell n).run w).1, ⟨((World.tell n).run w).2, f⟩) := by
  rw [tell, outside, run_onPart]
  cases ((World.tell n).run w).1 <;> rfl

theorem tell_all_run (ns : List Notice) (w : World) (f : Function) :
    (ns.forM tell).run ⟨w, f⟩ =
      (((ns.forM World.tell).run w).1, ⟨((ns.forM World.tell).run w).2, f⟩) := by
  induction ns generalizing w with
  | nil => rfl
  | cons n ns ih =>
    rw [run_forM_cons, run_forM_cons, tell_run]
    rcases (World.tell n).run w with ⟨r | r, v⟩
    · rfl
    · exact ih v

theorem locals_run (w : World) (f : Function) :
    host.locals.run ⟨w, f⟩ = (.ok (f.handlesOf .localVariable), ⟨w, f⟩) := rfl

theorem parameters_run (w : World) (f : Function) :
    host.parameters.run ⟨w, f⟩ = (.ok (f.handlesOf .parameter), ⟨w, f⟩) := rfl

theorem find?_nameOf (kind : SymbolKind) (name : Text) (w : World) (f : Function) :
    (f.handlesOf kind).find? (host.nameOf ⟨w, f⟩ · = name) =
      (Function.indexIn name (f.symbols kind)).map (⟨kind, ·⟩) :=
  f.find?_handlesOf kind name

/-- The symbol that a batch asks for is the one that the function itself would find. -/
theorem target_run (name : Text) (w : World) (f : Function) :
    (Batch.target host name).run ⟨w, f⟩ =
      (.ok ((f.find? name).map fun h => (h.kind, h)), ⟨w, f⟩) := by
  rw [Batch.target, run_bind_ok (locals_run w f), run_bind_ok (parameters_run w f),
    run_bind_ok (run_get _), find?_nameOf, find?_nameOf]
  by_cases hm : name ∈ f.names .localVariable
  · obtain ⟨i, hi⟩ := Option.ne_none_iff_exists'.mp fun hl => Function.indexIn_eq_none_iff.mp hl hm
    rw [Function.find?_of_local hi, hi]
    rfl
  · rw [Function.find?_of_parameters hm, Function.indexIn_eq_none_iff.mpr hm]
    cases Function.indexIn name (f.symbols .parameter) <;> rfl

theorem setName_run (h : Handle) (name source : Text) (w : World) (f : Function) :
    (host.setName h name source).run ⟨w, f⟩ =
      match f.setName h name source with
      | .ok g => (.ok none, ⟨w, g⟩)
      | .error refusal => (.ok (some refusal.message), ⟨w, f⟩) := by
  rw [host, Batch.memoryHost, run_bind_ok (run_get _)]
  cases f.setName h name source with
  | ok g => exact run_bind_ok (run_modify _ _) _
  | error refusal => exact run_pure _ _

theorem step_run (d : Directive) (w : World) (f : Function) :
    (Batch.step host d).run ⟨w, f⟩ = (.ok (f.carry d).1, ⟨w, (f.carry d).2⟩) := by
  rw [Batch.step, run_bind_ok (target_run d.oldName w f), Function.carry]
  cases f.find? d.oldName with
  | none => exact run_pure _ _
  | some h =>
    have hr := setName_run h d.newName (f.sourceAt h) w f
    dsimp only [Option.map_some]
    rw [run_bind_ok (run_get _)]
    change (host.setName h d.newName (f.sourceAt h) >>= _).run _ = _
    cases hk : f.setName h d.newName (f.sourceAt h) with
    | ok g =>
      rw [hk] at hr
      rw [run_bind_ok hr]
      rfl
    | error refusal =>
      rw [hk] at hr
      rw [run_bind_ok hr]
      rfl

theorem apply_cons (d : Directive) (ds : List Directive) (w : World) (f : Function) :
    (Batch.apply host tell (d :: ds)).run ⟨w, f⟩ =
      match ((Batch.notice? f.name d (f.carry d).1).toList.forM World.tell).run w with
      | (.ok _, v) =>
        match (Batch.apply host tell ds).run ⟨v, (f.carry d).2⟩ with
        | (.ok rest, t) => (.ok ((d, (f.carry d).1) :: rest), t)
        | (.error e, t) => (.error e, t)
      | (.error e, v) => (.error e, ⟨v, (f.carry d).2⟩) := by
  rw [Batch.apply, run_bind_ok (step_run d w f), run_bind_ok (run_get _)]
  rw [show host.functionName ⟨w, (f.carry d).2⟩ = f.name from f.name_carry d]
  have hrest (v : World) :
      (Batch.apply host tell ds >>= fun rest => return (d, (f.carry d).1) :: rest).run
        ⟨v, (f.carry d).2⟩ =
      match (Batch.apply host tell ds).run ⟨v, (f.carry d).2⟩ with
      | (.ok rest, t) => (.ok ((d, (f.carry d).1) :: rest), t)
      | (.error e, t) => (.error e, t) := by
    rw [run_bind]
    rcases (Batch.apply host tell ds).run ⟨v, (f.carry d).2⟩ with ⟨r | r, t⟩ <;> rfl
  cases Batch.notice? f.name d (f.carry d).1 with
  | none => exact hrest w
  | some n =>
    dsimp only
    rw [run_bind, tell_run, Option.toList_some, run_forM_cons]
    rcases (World.tell n).run w with ⟨r | r, v⟩
    · rfl
    · exact hrest v

theorem apply_told {ds : List Directive} {f : Function} {w v : World}
    (h : ((f.notices ds).forM World.tell).run w = (.ok ⟨⟩, v)) :
    (Batch.apply host tell ds).run ⟨w, f⟩ = (.ok (f.record ds), ⟨v, f.after ds⟩) := by
  induction ds generalizing f w with
  | nil =>
    cases h
    rfl
  | cons d ds ih =>
    rw [Function.notices_cons, run_forM_append] at h
    rw [apply_cons]
    rcases hn : ((Batch.notice? f.name d (f.carry d).1).toList.forM World.tell).run w with
      ⟨e | u, t⟩
    · rw [hn] at h
      cases h
    · rw [hn] at h
      dsimp only at h ⊢
      rw [ih h]
      rfl

/-- If something cannot be told, the batch stops there, and the directives up to then are carried
out. -/
theorem apply_untold {ds : List Directive} {f : Function} {w v : World} {e : Fault}
    (h : ((f.notices ds).forM World.tell).run w = (.error e, v)) :
    ∃ done, done <+: ds ∧
      (Batch.apply host tell ds).run ⟨w, f⟩ = (.error e, ⟨v, f.after done⟩) := by
  induction ds generalizing f w with
  | nil => cases h
  | cons d ds ih =>
    rw [Function.notices_cons, run_forM_append] at h
    rw [apply_cons]
    rcases hn : ((Batch.notice? f.name d (f.carry d).1).toList.forM World.tell).run w with
      ⟨e' | u, t⟩
    · rw [hn] at h
      cases h
      exact ⟨[d], List.prefix_append [d] ds, rfl⟩
    · rw [hn] at h
      obtain ⟨done, hd, hr⟩ := ih h
      use d :: done
      constructor
      · exact List.cons_prefix_cons.mpr ⟨rfl, hd⟩
      · dsimp only
        rw [hr]
        rfl

/-- However a batch ends, the function has gone through its first directives in order. -/
theorem apply_function (ds : List Directive) (w : World) (f : Function) :
    ∃ done, done <+: ds ∧ ((Batch.apply host tell ds).run ⟨w, f⟩).2.function = f.after done := by
  rcases h : ((f.notices ds).forM World.tell).run w with ⟨e | u, v⟩
  · obtain ⟨done, hd, hr⟩ := apply_untold h
    exact ⟨done, hd, by rw [hr]⟩
  · exact ⟨ds, List.prefix_rfl, by rw [apply_told h]⟩

theorem apply_ok {ds : List Directive} {w : World} {f : Function} {r : Batch.Record} {d : Desk}
    (h : (Batch.apply host tell ds).run ⟨w, f⟩ = (.ok r, d)) :
    r = f.record ds ∧ d.function = f.after ds := by
  rcases hn : ((f.notices ds).forM World.tell).run w with ⟨e | u, v⟩
  · obtain ⟨done, -, hr⟩ := apply_untold hn
    rw [hr] at h
    cases h
  · rw [apply_told hn] at h
    cases h
    exact ⟨rfl, rfl⟩

theorem apply_error {ds : List Directive} {w : World} {f : Function} {e : Fault} {d : Desk}
    (h : (Batch.apply host tell ds).run ⟨w, f⟩ = (.error e, d)) :
    ∃ done, done <+: ds ∧ d.function = f.after done := by
  obtain ⟨done, hd, hf⟩ := apply_function ds w f
  rw [h] at hf
  exact ⟨done, hd, hf⟩

theorem tell_nobody {w : World} (h : w.audience = .nobody) (ns : List Notice) :
    (ns.forM World.tell).run w = (.ok ⟨⟩, w) := by
  have ht (n : Notice) : (World.tell n).run w = (.ok ⟨⟩, w) := by
    rw [World.tell, run_bind_ok (run_get w), h]
    rfl
  induction ns with
  | nil => rfl
  | cons n ns ih =>
    rw [run_forM_cons, ht]
    exact ih

end SymbolRename.Desk
