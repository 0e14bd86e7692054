import SymbolRename.Command.Run
import SymbolRename.Proofs.Command.Output
import SymbolRename.Proofs.Pass.Symbols

/-!
# Passes that are told about

A pass touches no file. It comes to its end if the rule of its report can be drawn, its notices have
the templates of the program, and the name of the function can be encoded where it shows.
-/

set_option autoImplicit false

namespace SymbolRename
open SymbolRename.Task World
open Text (IsEncodable)

/-- What a batch leaves of the world comes from what it tells. -/
theorem Desk.apply_world (ds : List Directive) (f : Function) (w : World) :
    ((Batch.apply Desk.host Desk.tell ds).run ⟨w, f⟩).2.world =
      (((f.notices ds).forM World.tell).run w).2 := by
  rcases h : ((f.notices ds).forM World.tell).run w with ⟨e | u, v⟩
  · obtain ⟨done, -, hr⟩ := Desk.apply_untold h
    rw [hr]
  · rw [Desk.apply_told h]

namespace Pass
variable {response : Text} {width : ℤ} {w : World} {f : Function}

/-- Whatever holds from before each notice to after it holds from before a pass to after it. -/
theorem run_keeps {R : World → World → Prop} [IsPreorder World R] (bad : Report.Fault → Fault)
    (response : Text) (width : ℤ) (f : Function)
    (ho : ∀ n ∈ opening f.name (Directive.parse response), Keeps R (World.tell n))
    (hn : ∀ n ∈ f.notices (Directive.parse response), Keeps R (World.tell n))
    (hc : ∀ r, ∀ n ∈ closing f.name (Directive.parse response) r, Keeps R (World.tell n))
    (w : World) : R w ((run Desk.host Desk.tell bad response width).run ⟨w, f⟩).2.world := by
  have ho := keeps_forM ho w
  rw [run_eq]
  rcases hv : ((opening f.name (Directive.parse response)).forM World.tell).run w with ⟨e | u, v⟩
  · rw [hv] at ho
    exact ho
  rw [hv] at ho
  have ha := keeps_forM hn v
  rw [← Desk.apply_world] at ha
  dsimp only
  rcases hd : (Batch.apply Desk.host Desk.tell (Directive.parse response)).run ⟨v, f⟩ with
    ⟨e | r, d⟩
  · rw [hd] at ha
    exact trans_of R ho ha
  rw [hd] at ha
  have hc := keeps_forM (hc r) d.world
  dsimp only
  rcases hu : ((closing f.name (Directive.parse response) r).forM World.tell).run d.world with
    ⟨e | u', v'⟩
  · rw [hu] at hc
    exact trans_of R (trans_of R ho ha) hc
  rw [hu] at hc
  have hall := trans_of R (trans_of R ho ha) hc
  dsimp only
  cases Report.render f.name (Directive.parse response) r.applied.length width <;> exact hall

theorem run_consults (bad : Report.Fault → Fault) (response : Text) (width : ℤ) (w : World)
    (f : Function) :
    Consults w ((run Desk.host Desk.tell bad response width).run ⟨w, f⟩).2.world :=
  run_keeps bad response width f (fun n _ => tell_keeps n) (fun n _ => tell_keeps n)
    (fun _ n _ => tell_keeps n) w

section Ready
variable {table : Message.Table} (bad : Report.Fault → Fault) (response : Text) (width : ℤ)

/-- The directives are always carried out. After that all templates are known, and it depends on the
closing notices and on the report how the pass ends. -/
theorem run_carried (ht : Covers table) (hw : Ready table w) : ∃ v, Settled table v ∧
    (run Desk.host Desk.tell bad response width).run ⟨w, f⟩ =
      match ((closing f.name (Directive.parse response)
          (f.record (Directive.parse response))).forM World.tell).run v with
      | (.error e, u) => (.error e, ⟨u, f.after (Directive.parse response)⟩)
      | (.ok _, u) =>
        match Report.render f.name (Directive.parse response)
            (f.record (Directive.parse response)).applied.length width with
        | .error e => (.error (bad e), ⟨u, f.after (Directive.parse response)⟩)
        | .ok s =>
          (.ok ⟨f.name, Directive.parse response, f.record (Directive.parse response), s⟩,
            ⟨u, f.after (Directive.parse response)⟩) := by
  have hne : opening f.name (Directive.parse response) ≠ [] := List.cons_ne_nil _ _
  obtain ⟨u, ho, hu⟩ := tell_all_ready ht hw (.inr hne)
    (opening_sayable f.name (Directive.parse response))
  obtain ⟨v, ha, hv⟩ := tell_all_ready ht (.inr hu) (.inl hu)
    (notices_sayable f (Directive.parse response))
  refine ⟨v, hv, ?_⟩
  rw [run_eq, ho]
  dsimp only
  rcases hr : (Batch.apply Desk.host Desk.tell (Directive.parse response)).run ⟨u, f⟩ with ⟨r, d⟩
  obtain ⟨rfl, rfl⟩ := Prod.mk.inj (hr.symm.trans (Desk.apply_told ha))
  rfl

theorem run_told (ht : Covers table) (hw : Ready table w)
    (hf : IsEncodable f.name ∨ Directive.parse response = []) : ∃ v, Settled table v ∧
    (run Desk.host Desk.tell bad response width).run ⟨w, f⟩ =
      match Report.render f.name (Directive.parse response)
          (f.record (Directive.parse response)).applied.length width with
      | .error e => (.error (bad e), ⟨v, f.after (Directive.parse response)⟩)
      | .ok s =>
        (.ok ⟨f.name, Directive.parse response, f.record (Directive.parse response), s⟩,
          ⟨v, f.after (Directive.parse response)⟩) := by
  obtain ⟨v, hv, hrun⟩ := run_carried bad response width ht hw
  obtain ⟨u, hc, hu⟩ := tell_all_ready ht (.inr hv) (.inl hv)
    (closing_sayable hf (f.record (Directive.parse response)))
  refine ⟨u, hu, ?_⟩
  rw [hrun, hc]

theorem run_undrawn {fault : Report.Fault} (ht : Covers table) (hw : Ready table w)
    (hf : IsEncodable f.name) (hr : Report.rule width = .error fault) :
    ((run Desk.host Desk.tell bad response width).run ⟨w, f⟩).1 = .error (bad fault) := by
  obtain ⟨v, -, hrun⟩ := run_told (f := f) bad response width ht hw (.inl hf)
  rw [hrun, Report.render, hr]
  rfl

/-- A name that cannot be encoded stops the pass at its summary. -/
theorem run_unencodable (ht : Covers table) (hw : Ready table w) (hf : ¬ IsEncodable f.name)
    (hd : Directive.parse response ≠ []) :
    ((run Desk.host Desk.tell bad response width).run ⟨w, f⟩).1 = .error .unencodable := by
  obtain ⟨v, hv, hrun⟩ := run_carried (f := f) bad response width ht hw
  rw [hrun]
  generalize f.record (Directive.parse response) = r
  -- What comes before the summary is told whatever the name is.
  have hsplit : closing f.name (Directive.parse response) r = closing f.name [] r ++
      [.summary r.applied.length (Directive.parse response).length f.name] := by
    simp [closing, hd]
  obtain ⟨u, hu, hs⟩ := tell_all_ready ht (.inr hv) (.inl hv) (closing_sayable (.inr rfl) r)
  have hsummary : ((World.tell (.summary r.applied.length (Directive.parse response).length
      f.name)).run u).1 = .error .unencodable :=
    tell_unencodable ht (.inr hs) (summary_form _ _ f.name) rfl
      (show Entries.get? ("function" : Text) _ = some (Template.Argument.text f.name) from rfl) hf
  rw [hsplit, run_forM_append, hu]
  dsimp only
  rw [run_forM_cons]
  rcases hx : (World.tell (.summary r.applied.length (Directive.parse response).length
    f.name)).run u with ⟨e, x⟩
  rw [hx] at hsummary
  obtain rfl : e = .error .unencodable := hsummary
  rfl

end Ready
end Pass
end SymbolRename
