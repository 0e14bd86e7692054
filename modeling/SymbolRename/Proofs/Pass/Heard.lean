import SymbolRename.Proofs.Command.Output
import SymbolRename.Proofs.World.Wording

/-!
# What is heard of a pass

A pass comes to the same end whether anybody listens or not. Whoever does hears how many directives
there are, then of each one that was not carried out, in order, and at last how it went altogether.
All of this is worded as it should be, whatever the names and reasons are.
-/

set_option autoImplicit false

namespace SymbolRename.Pass
open Message SymbolRename.Task World
open Report (number)

def saying? (function : Text) : Directive × Outcome → Option (Level × Text)
  | (_, .applied) => none
  | (d, .skipped) =>
    some (.debug, "No symbol named \x27" ++ d.oldName ++ "\x27 in " ++ function ++ "; skipped.")
  | (d, .rejected _ reason) =>
    some (.warning, "Could not apply suggestion: " ++ d.oldName ++ " -> " ++ d.newName ++ " (" ++
      reason ++ ")")

def sayings (function : Text) (ds : List Directive) (r : Batch.Record) : List (Level × Text) :=
  [(.debug, "Parsed " ++ number ds.length ++ " rename suggestion(s) for " ++ function ++ ".")] ++
  (if ds = [] then [(.warning, "No usable rename suggestions found for " ++ function ++ ".")]
    else []) ++
  r.filterMap (saying? function) ++
  (if r.diagnostics = [] then [] else
    [(.warning, number r.diagnostics.length ++ " suggestion(s) for " ++ function ++
      " were rejected by the program model.")]) ++
  if ds = [] then [] else
    [(.success, "Applied " ++ number r.applied.length ++ "/" ++ number ds.length ++
      " suggestion(s) to " ++ function ++ ".")]

def notices (f : Function) (ds : List Directive) : List Notice :=
  opening f.name ds ++ f.notices ds ++ closing f.name ds (f.record ds)

/-! ## The wordings -/

def spoken (n : Notice) : Level × Text := (n.level, n.wording)

section Wording
variable (function : Text) (ds : List Directive)

theorem spoken_opening : (opening function ds).map spoken =
    [(.debug, "Parsed " ++ number ds.length ++ " rename suggestion(s) for " ++ function ++ ".")] ++
    if ds = [] then [(.warning, "No usable rename suggestions found for " ++ function ++ ".")]
      else [] := by
  have hparsed : spoken (.parsed ds.length function) =
      (.debug, "Parsed " ++ number ds.length ++ " rename suggestion(s) for " ++ function ++ ".") := by
    simp only [List.append_assoc]
    rfl
  have hnone : spoken (.noDirectives function) =
      (.warning, "No usable rename suggestions found for " ++ function ++ ".") := by
    simp only [List.append_assoc]
    rfl
  rw [opening, List.map_cons, hparsed]
  cases ds with
  | nil => exact congrArg (fun m => [_, m]) hnone
  | cons d ds => rfl

theorem spoken_notice (e : Directive × Outcome) :
    (Batch.notice? function e.1 e.2).map spoken = saying? function e := by
  obtain ⟨d, outcome⟩ := e
  cases outcome with
  | applied => rfl
  | skipped =>
    simp only [saying?, List.append_assoc]
    rfl
  | rejected kind reason =>
    simp only [saying?, List.append_assoc]
    rfl

theorem spoken_notices (f : Function) :
    (f.notices ds).map spoken = (f.record ds).filterMap (saying? f.name) := by
  rw [Function.notices, List.map_filterMap]
  simp only [spoken_notice]

theorem spoken_closing (r : Batch.Record) : (closing function ds r).map spoken =
    (if r.diagnostics = [] then [] else
      [(.warning, number r.diagnostics.length ++ " suggestion(s) for " ++ function ++
        " were rejected by the program model.")]) ++
    if ds = [] then [] else
      [(.success, "Applied " ++ number r.applied.length ++ "/" ++ number ds.length ++
        " suggestion(s) to " ++ function ++ ".")] := by
  have hpartly : spoken (.partly r.diagnostics.length function) =
      (.warning, number r.diagnostics.length ++ " suggestion(s) for " ++ function ++
        " were rejected by the program model.") := by
    simp only [List.append_assoc]
    rfl
  have hsummary : spoken (.summary r.applied.length ds.length function) =
      (.success, "Applied " ++ number r.applied.length ++ "/" ++ number ds.length ++
        " suggestion(s) to " ++ function ++ ".") := by
    simp only [List.append_assoc]
    rfl
  rw [closing, List.map_append]
  congr 1
  · cases hd : r.diagnostics with
    | nil => rfl
    | cons e es =>
      rw [hd] at hpartly
      exact congrArg (fun m => [m]) hpartly
  · cases ds with
    | nil => rfl
    | cons d ds => exact congrArg (fun m => [m]) hsummary

theorem spoken_all (f : Function) :
    (notices f ds).map spoken = sayings f.name ds (f.record ds) := by
  rw [notices, List.map_append, List.map_append, spoken_opening, spoken_notices, spoken_closing,
    sayings, ← List.append_assoc]

end Wording

theorem last_append (s : Text) {ending : Text} {c : Code} (h : ending.getLast? = some c) :
    (s ++ ending).getLast? = some c := by
  rw [List.getLast?_append, h, Option.some_or]

theorem sayings_last {function : Text} {ds : List Directive} {r : Batch.Record}
    {m : Level × Text} (hm : m ∈ sayings function ds r) :
    m.2.getLast? = some (.char '.') ∨ m.2.getLast? = some (.char ')') := by
  have hsingle {p : Prop} [Decidable p] {level : Level} {text ending : Text}
      (he : ending.getLast? = some (.char '.'))
      (h : m ∈ (if p then [] else [(level, text ++ ending)] : List (Level × Text))) :
      m.2.getLast? = some (.char '.') := by
    split at h
    · cases h
    · rw [List.mem_singleton.mp h]
      exact last_append text he
  simp only [sayings, List.mem_append, or_assoc] at hm
  rcases hm with hm | hm | hm | hm | hm
  · rw [List.mem_singleton.mp hm]
    exact .inl (last_append _ rfl)
  · split at hm
    · rw [List.mem_singleton.mp hm]
      exact .inl (last_append _ rfl)
    · cases hm
  · obtain ⟨⟨d, outcome⟩, -, he⟩ := List.mem_filterMap.mp hm
    cases outcome with
    | applied => cases he
    | skipped =>
      cases he
      exact .inl (last_append _ rfl)
    | rejected kind reason =>
      cases he
      exact .inr (last_append _ rfl)
  · exact .inl (hsingle rfl hm)
  · exact .inl (hsingle rfl hm)

/-- A formatting error ends otherwise than what is heard of a pass. -/
theorem sayings_formed {function : Text} {ds : List Directive} {r : Batch.Record}
    {m : Level × Text} (hm : m ∈ sayings function ds r) (key : Text) :
    m.2 ≠ formattingError key := by
  have he : (formattingError key).getLast? = some (.char '>') := last_append _ rfl
  intro h
  rw [← h] at he
  rcases sayings_last hm with hl | hl <;> rw [he] at hl <;> cases hl

/-! ## The run -/

theorem notices_form (f : Function) (ds : List Directive) :
    ∀ n ∈ notices f ds, n.form ∈ Packaged.forms := by
  intro n hn
  rcases List.mem_append.mp hn with hn | hn
  · rcases List.mem_append.mp hn with hn | hn
    · exact (opening_sayable f.name ds n hn).form
    · exact (notices_sayable f ds n hn).form
  · rcases mem_closing hn with rfl | ⟨-, rfl⟩
    · exact (partly_sayable _ f.name).form
    · exact summary_form _ _ f.name

section Run
variable {w : World} (f : Function) (response : Text) (width : ℤ)

def ended (bad : Report.Fault → Fault) (v : World) : Except Fault Pass × Desk :=
  let ds := Directive.parse response
  match Report.render f.name ds (f.record ds).applied.length width with
  | .error e => (.error (bad e), ⟨v, f.after ds⟩)
  | .ok s => (.ok ⟨f.name, ds, f.record ds, s⟩, ⟨v, f.after ds⟩)

theorem run_ended (bad : Report.Fault → Fault) {u v x : World}
    (ho : ((opening f.name (Directive.parse response)).forM World.tell).run w = (.ok ⟨⟩, u))
    (hn : ((f.notices (Directive.parse response)).forM World.tell).run u = (.ok ⟨⟩, v))
    (hc : ((closing f.name (Directive.parse response)
      (f.record (Directive.parse response))).forM World.tell).run v = (.ok ⟨⟩, x)) :
    (run Desk.host Desk.tell bad response width).run ⟨w, f⟩ = ended f response width bad x := by
  rw [run_eq, ho]
  dsimp only
  rw [Desk.apply_told hn]
  dsimp only
  rw [hc]
  rfl

theorem run_heard (bad : Report.Fault → Fault) (hw : Plain w)
    (ha : ∀ n ∈ notices f (Directive.parse response), Reaches w.audience n) :
    ∃ v, Heard (notices f (Directive.parse response)) w v ∧
      (run Desk.host Desk.tell bad response width).run ⟨w, f⟩ = ended f response width bad v := by
  obtain ⟨v, hr, hv⟩ := tell_all_plain hw (notices_form f (Directive.parse response)) ha
  refine ⟨v, hv, ?_⟩
  rw [notices, run_forM_append, run_forM_append] at hr
  rcases ho : ((opening f.name (Directive.parse response)).forM World.tell).run w with ⟨e | a, u⟩
  · rw [ho] at hr
    cases hr
  rw [ho] at hr
  dsimp only at hr
  rcases hn : ((f.notices (Directive.parse response)).forM World.tell).run u with ⟨e | b, t⟩
  · rw [hn] at hr
    cases hr
  rw [hn] at hr
  exact run_ended f response width bad ho hn hr

theorem run_unheard (bad : Report.Fault → Fault) (hw : w.audience = .nobody) :
    (run Desk.host Desk.tell bad response width).run ⟨w, f⟩ = ended f response width bad w :=
  run_ended f response width bad (Desk.tell_nobody hw _) (Desk.tell_nobody hw _)
    (Desk.tell_nobody hw _)

end Run

/-- A pass ends alike, with the same function, whether a reader listens or nobody does. The reader
hears what is to be heard of the directives and what became of them, in this order and nothing else,
and no formatting error among it. Nothing is said or read if nobody listens. -/
theorem run_listened (f : Function) (response : Text) (width : ℤ) {w : World} (hw : Plain w)
    (ha : w.audience = .reader) :
    let ds := Directive.parse response
    let heard := (run Desk.host Desk.tell .report response width).run ⟨w, f⟩
    let alone : World := { w with audience := .nobody }
    let unheard := (run Desk.host Desk.tell .report response width).run ⟨alone, f⟩
    heard.1 = unheard.1 ∧ heard.2.function = unheard.2.function ∧ unheard.2.world = alone ∧
    messages heard.2.world.journal =
      messages w.journal ++ sayings f.name ds (f.record ds) ∧
    (∀ m ∈ sayings f.name ds (f.record ds), ∀ key, m.2 ≠ formattingError key) ∧
    (∀ p, heard.1 = .ok p → p.directives = ds ∧ p.record = f.record ds) ∧
    (-0x8000000000000000 ≤ width → width ≤ 0x100000000 → ∃ p, heard.1 = .ok p) := by
  intro ds heard alone unheard
  obtain ⟨v, hv, hr⟩ := run_heard f response width .report hw fun n _ => .inl ha
  have hh : heard = ended f response width .report v := hr
  have hu : unheard = ended f response width .report alone := run_unheard f response width .report rfl
  have hended (x : World) : (ended f response width .report x).2 = ⟨x, f.after ds⟩ := by
    rw [ended]
    split <;> rfl
  have hsame (x y : World) :
      (ended f response width .report x).1 = (ended f response width .report y).1 := by
    rw [ended, ended]
    split <;> rfl
  refine ⟨?_, ?_, ?_, ?_, fun m hm => sayings_formed hm, fun p hp => ?_, fun hl hu => ?_⟩
  · rw [hh, hu, hsame]
  · rw [hh, hu, hended, hended]
  · rw [hu, hended]
  · rw [hh, hended, ← spoken_all]
    exact hv.messages
  · obtain ⟨-, -, hd, hrecord, -⟩ := run_ok (Prod.ext hp rfl : heard = (.ok p, heard.2))
    exact ⟨hd, hrecord⟩
  · obtain ⟨report, hreport⟩ :=
      Report.render_drawable hl hu f.name ds (f.record ds).applied.length
    rw [hh, ended, hreport]
    exact ⟨_, rfl⟩

/-- Braces in a name are heard as they are. -/
theorem run_listened_braces :
    messages ((run Desk.host Desk.tell .report "a -> b\nx -> y\nc -> b" 50).run
      ⟨listening, ⟨"f\x7b0\x7d", [], [⟨"a", []⟩, ⟨"c", []⟩]⟩⟩).2.world.journal =
      ([(.debug, "Parsed 3 rename suggestion(s) for f\x7b0\x7d."),
        (.debug, "No symbol named \x27x\x27 in f\x7b0\x7d; skipped."),
        (.warning, "Could not apply suggestion: c -> b " ++
          "(\x27b\x27 is already defined in f\x7b0\x7d)"),
        (.warning, "1 suggestion(s) for f\x7b0\x7d were rejected by the program model."),
        (.success, "Applied 1/3 suggestion(s) to f\x7b0\x7d.")] : List (Level × Text)) := by
  obtain ⟨-, -, -, h, -⟩ := run_listened ⟨"f\x7b0\x7d", [], [⟨"a", []⟩, ⟨"c", []⟩]⟩
    "a -> b\nx -> y\nc -> b" 50 listening_plain rfl
  rw [h]
  decide +kernel

end SymbolRename.Pass
