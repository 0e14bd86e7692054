import SymbolRename.Pass
import SymbolRename.Proofs.Batch.Kept
import SymbolRename.Proofs.Directive.Grammar
import SymbolRename.Proofs.Report

/-!
# What a pass does to a function

The directives of a response ask for names that any function would take, so the only thing that can
stand in the way of a rename is that the name is taken. Apart from what it tells, a pass is the
batch of these directives, and the report at its end gives the numbers of the batch.
-/

set_option autoImplicit false

namespace SymbolRename

namespace Directive
open Identifier

/-- Whatever a response asks for is a name for a variable. -/
theorem parse_spelled {response : Text} {d : Directive} (hd : d ∈ parse response) :
    Spelled d.newName ∧ d.newName ∉ reserved := by
  obtain ⟨line, -, r, hf, -, -, hn, -⟩ := mem_parse hd
  rw [hn]
  exact ⟨hf.new, hf.free⟩

theorem parse_givable {response : Text} {d : Directive} (hd : d ∈ parse response) :
    isGivable d.newName = true :=
  isGivable_spelled (parse_spelled hd).1

end Directive

namespace Pass
open SymbolRename.Task

/-- The four parts of a pass. -/
theorem run_eq (bad : Report.Fault → Fault) (response : Text) (width : ℤ) (w : World)
    (f : Function) :
    (run Desk.host Desk.tell bad response width).run ⟨w, f⟩ =
      match ((opening f.name (Directive.parse response)).forM World.tell).run w with
      | (.error e, v) => (.error e, ⟨v, f⟩)
      | (.ok _, v) =>
        match (Batch.apply Desk.host Desk.tell (Directive.parse response)).run ⟨v, f⟩ with
        | (.error e, d) => (.error e, d)
        | (.ok r, d) =>
          match ((closing f.name (Directive.parse response) r).forM World.tell).run d.world with
          | (.error e, v) => (.error e, ⟨v, d.function⟩)
          | (.ok _, v) =>
            match Report.render f.name (Directive.parse response) r.applied.length width with
            | .error e => (.error (bad e), ⟨v, d.function⟩)
            | .ok s => (.ok ⟨f.name, Directive.parse response, r, s⟩, ⟨v, d.function⟩) := by
  rw [run, run_bind_ok (run_get _)]
  rw [show Desk.host.functionName ⟨w, f⟩ = f.name from rfl]
  rw [run_bind, Desk.tell_all_run]
  rcases ((opening f.name (Directive.parse response)).forM World.tell).run w with ⟨e | u, v⟩
  · rfl
  dsimp only
  rw [run_bind]
  rcases (Batch.apply Desk.host Desk.tell (Directive.parse response)).run ⟨v, f⟩ with ⟨e | r, d⟩
  · rfl
  dsimp only
  rw [run_bind, Desk.tell_all_run]
  rcases ((closing f.name (Directive.parse response) r).forM World.tell).run d.world with
    ⟨e | u, v⟩
  · rfl
  dsimp only
  cases Report.render f.name (Directive.parse response) r.applied.length width <;> rfl

/-- However a pass ends, the function has gone through its first directives in order. -/
theorem run_function (bad : Report.Fault → Fault) (response : Text) (width : ℤ) (w : World)
    (f : Function) :
    ∃ done, done <+: Directive.parse response ∧
      ((run Desk.host Desk.tell bad response width).run ⟨w, f⟩).2.function = f.after done := by
  rw [run_eq]
  rcases ((opening f.name (Directive.parse response)).forM World.tell).run w with ⟨e | u, v⟩
  · exact ⟨[], List.nil_prefix, rfl⟩
  obtain ⟨done, hp, hf⟩ := Desk.apply_function (Directive.parse response) v f
  refine ⟨done, hp, ?_⟩
  rw [← hf]
  dsimp only
  rcases (Batch.apply Desk.host Desk.tell (Directive.parse response)).run ⟨v, f⟩ with ⟨e | r, d⟩
  · rfl
  dsimp only
  rcases ((closing f.name (Directive.parse response) r).forM World.tell).run d.world with
    ⟨e | u, v⟩
  · rfl
  dsimp only
  cases Report.render f.name (Directive.parse response) r.applied.length width <;> rfl

/-- A pass that ends well is the batch of its directives. -/
theorem run_ok {bad : Report.Fault → Fault} {response : Text} {width : ℤ} {w : World}
    {f : Function} {p : Pass} {d : Desk}
    (h : (run Desk.host Desk.tell bad response width).run ⟨w, f⟩ = (.ok p, d)) :
    d.function = f.after (Directive.parse response) ∧ p.functionName = f.name ∧
      p.directives = Directive.parse response ∧ p.record = f.record (Directive.parse response) ∧
      Report.render f.name p.directives p.record.applied.length width = .ok p.report := by
  rw [run_eq] at h
  rcases ho : ((opening f.name (Directive.parse response)).forM World.tell).run w with ⟨e | u, v⟩
  · rw [ho] at h
    cases h
  rw [ho] at h
  rcases ha : (Batch.apply Desk.host Desk.tell (Directive.parse response)).run ⟨v, f⟩ with
    ⟨e | r, t⟩
  · simp only [ha] at h
    cases h
  simp only [ha] at h
  obtain ⟨rfl, hf⟩ := Desk.apply_ok ha
  rcases hc : ((closing f.name (Directive.parse response)
      (f.record (Directive.parse response))).forM World.tell).run t.world with ⟨e | u, v⟩
  · simp only [hc] at h
    cases h
  simp only [hc] at h
  cases hr : Report.render f.name (Directive.parse response)
      (f.record (Directive.parse response)).applied.length width with
  | error e =>
    rw [hr] at h
    cases h
  | ok s =>
    rw [hr] at h
    cases h
    exact ⟨hf, rfl, rfl, rfl, hr⟩

theorem run_nobody {bad : Report.Fault → Fault} {response report : Text} {width : ℤ} {w : World}
    {f : Function} (hw : w.audience = .nobody)
    (hr : Report.render f.name (Directive.parse response)
      (f.record (Directive.parse response)).applied.length width = .ok report) :
    (run Desk.host Desk.tell bad response width).run ⟨w, f⟩ =
      (.ok ⟨f.name, Directive.parse response, f.record (Directive.parse response), report⟩,
        ⟨w, f.after (Directive.parse response)⟩) := by
  rw [run_eq, Desk.tell_nobody hw]
  dsimp only
  rw [Desk.apply_told (Desk.tell_nobody hw _)]
  dsimp only
  rw [Desk.tell_nobody hw]
  dsimp only
  rw [hr]

/-- However a pass ends, each symbol is where it was, with the source it had; its name is the old
one, or the new name of a directive that was applied, and only a directive of the response that asks
for the old one can change it. All new names are good for variables, so no function refuses one but
for its being taken. A pass that ends well has dealt with each directive in one way, and its report
gives how many there were and how many were applied. It ends well if nobody listens and the rule of
the report can be drawn. -/
theorem run_keeps_symbols (f : Function) (w : World) (response : Text) (width : ℤ) :
    let ds := Directive.parse response
    let outcome := (run Desk.host Desk.tell .report response width).run ⟨w, f⟩
    (∃ applied, applied.Sublist ds ∧ f.Keeps ds applied outcome.2.function) ∧
    (∀ d ∈ ds, Identifier.Spelled d.newName ∧ d.newName ∉ Identifier.reserved ∧
      ∀ (g : Function) (h : Handle) (source other : Text),
        g.setName h d.newName source ≠ .error (.invalid other)) ∧
    (∀ p, outcome.1 = .ok p →
      p.functionName = f.name ∧ p.directives = ds ∧ p.record.map (·.1) = ds ∧
      f.Keeps ds p.record.applied outcome.2.function ∧
      (∀ e ∈ p.record.diagnostics,
        e.2.2 = "\x27" ++ e.1.newName ++ "\x27 is already defined in " ++ f.name) ∧
      ds.length =
        p.record.applied.length + p.record.skipped.length + p.record.diagnostics.length ∧
      Report.Shows p.report f.name width ds.length p.record.applied.length) ∧
    (w.audience = .nobody → -0x8000000000000000 ≤ width → width ≤ 0x100000000 →
      ∃ p g, outcome = (.ok p, ⟨w, g⟩)) := by
  intro ds outcome
  have hgivable : ∀ d ∈ ds, isGivable d.newName = true := fun d hd => Directive.parse_givable hd
  refine ⟨?_, ?_, ?_, ?_⟩
  · obtain ⟨done, hp, hf⟩ := run_function .report response width w f
    refine ⟨(f.record done).applied, ?_, ?_⟩
    · have hs := Batch.Record.applied_sublist (f.record done)
      rw [f.record_directives] at hs
      exact hs.trans hp.sublist
    · rw [hf]
      exact Function.keeps_mono (f.after_kept done) hp.subset
  · intro d hd
    obtain ⟨hs, hr⟩ := Directive.parse_spelled hd
    exact ⟨hs, hr, fun g h => g.setName_givable (hgivable d hd) h⟩
  · intro p hp
    obtain ⟨hf, hn, hd, hr, hs⟩ := run_ok (Prod.ext hp rfl : outcome = (.ok p, outcome.2))
    have hdirectives : p.record.map (·.1) = ds := by rw [hr, f.record_directives]
    have hkept : f.Keeps ds p.record.applied outcome.2.function := by
      rw [hf, hr]
      exact f.after_kept ds
    have hrefused : ∀ e ∈ p.record.diagnostics,
        e.2.2 = "\x27" ++ e.1.newName ++ "\x27 is already defined in " ++ f.name := by
      rintro ⟨d, kind, reason⟩ he
      rw [hr] at he
      exact Function.record_refused hgivable (Batch.Record.mem_diagnostics.mp he)
    have hcount : ds.length = p.record.applied.length + p.record.skipped.length +
        p.record.diagnostics.length :=
      calc ds.length = (p.record.map (·.1)).length := by rw [hdirectives]
        _ = p.record.length := List.length_map _
        _ = _ := Batch.Record.length_eq_parts _
    rw [hd] at hs
    exact ⟨hn, hd, hdirectives, hkept, hrefused, hcount, Report.render_shows hs⟩
  · intro hw hl hu
    obtain ⟨report, hr⟩ :=
      Report.render_drawable hl hu f.name ds (f.record ds).applied.length
    exact ⟨_, _, run_nobody hw hr⟩

end Pass
end SymbolRename
