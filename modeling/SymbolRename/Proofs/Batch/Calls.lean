import SymbolRename.Proofs.Batch.Carry
import SymbolRename.Proofs.Batch.Record

/-!
# What a host is asked for

A host may answer a question otherwise each time, hold two symbols of one name, refuse a rename or
fail in its own way. To see what a batch asks of it, the host is watched: whatever it is asked for
is written down with the answer that it gave. For each directive it is asked for the local
variables, then for the parameters, and then, if one of those it has just named has the old name,
for one rename. A refusal is recorded and the batch goes on; a failure ends it there.
-/

set_option autoImplicit false

namespace SymbolRename.Batch
variable {σ ε ρ α : Type}

inductive Call (ε ρ : Type) where
  | locals (answer : Except ε (List ρ))
  | parameters (answer : Except ε (List ρ))
  | setName (symbol : ρ) (name source : Text) (answer : Except ε (Option Text))

namespace Call

def failure? : Call ε ρ → Option ε
  | .locals (.error e) => some e
  | .parameters (.error e) => some e
  | .setName _ _ _ (.error e) => some e
  | _ => none

def granted? : Call ε ρ → Option Text
  | .setName _ name _ (.ok none) => some name
  | _ => none

def refusal? : Call ε ρ → Option Text
  | .setName _ _ _ (.ok (some reason)) => some reason
  | _ => none

end Call

/-- A host in its surroundings, and what it was asked for, the latest at the end. -/
structure Watch (σ ε ρ : Type) where
  host : σ
  world : World
  calls : List (Call ε ρ)

namespace Watch

def logged (call : Except ε α → Call ε ρ) (task : Task σ ε α) :
    Task (Watch σ ε ρ) (Fault ⊕ ε) α := do
  let v ← get
  let (answer, t) := task.run v.host
  set { v with host := t, calls := v.calls ++ [call answer] }
  Task.orFault .inr answer

def tell (n : Notice) : Task (Watch σ ε ρ) (Fault ⊕ ε) Unit :=
  Task.onPart Watch.world (fun w v => { v with world := w }) .inl (World.tell n)

end Watch

def watched (h : Host σ ε ρ) : Host (Watch σ ε ρ) (Fault ⊕ ε) ρ where
  functionName v := h.functionName v.host
  locals := Watch.logged .locals h.locals
  parameters := Watch.logged .parameters h.parameters
  nameOf v := h.nameOf v.host
  sourceOf v := h.sourceOf v.host
  setName r name source := Watch.logged (.setName r name source) (h.setName r name source)

/-- The first symbol of a name among some local variables and parameters, as the host stands. -/
inductive FirstNamed (h : Host σ ε ρ) (s : σ) (name : Text) :
    List ρ → List ρ → SymbolKind → ρ → Prop
  | localVariable {before after ps : List ρ} {r : ρ}
      (others : ∀ x ∈ before, h.nameOf s x ≠ name) (named : h.nameOf s r = name) :
      FirstNamed h s name (before ++ r :: after) ps .localVariable r
  | parameter {ls before after : List ρ} {r : ρ}
      (others : ∀ x ∈ ls ++ before, h.nameOf s x ≠ name) (named : h.nameOf s r = name) :
      FirstNamed h s name ls (before ++ r :: after) .parameter r

def outcomeOf (kind : SymbolKind) : Option Text → Outcome
  | none => .applied
  | some reason => .rejected kind reason

/-- What a host is asked for on behalf of one directive, and what comes of it. The host goes from
state to state only by what it is asked for. -/
inductive Asks (h : Host σ ε ρ) (d : Directive) (s : σ) :
    List (Call ε ρ) → Except ε Outcome → σ → Prop
  | noLocals {e : ε} {t : σ} (locals : h.locals.run s = (.error e, t)) :
      Asks h d s [.locals (.error e)] (.error e) t
  | noParameters {ls : List ρ} {e : ε} {t u : σ} (locals : h.locals.run s = (.ok ls, t))
      (parameters : h.parameters.run t = (.error e, u)) :
      Asks h d s [.locals (.ok ls), .parameters (.error e)] (.error e) u
  | absent {ls ps : List ρ} {t u : σ} (locals : h.locals.run s = (.ok ls, t))
      (parameters : h.parameters.run t = (.ok ps, u))
      (none : ∀ x ∈ ls ++ ps, h.nameOf u x ≠ d.oldName) :
      Asks h d s [.locals (.ok ls), .parameters (.ok ps)] (.ok .skipped) u
  | asked {ls ps : List ρ} {t u v : σ} {kind : SymbolKind} {r : ρ}
      {answer : Except ε (Option Text)} (locals : h.locals.run s = (.ok ls, t))
      (parameters : h.parameters.run t = (.ok ps, u))
      (first : FirstNamed h u d.oldName ls ps kind r)
      (rename : (h.setName r d.newName (h.sourceOf u r)).run u = (answer, v)) :
      Asks h d s
        [.locals (.ok ls), .parameters (.ok ps), .setName r d.newName (h.sourceOf u r) answer]
        (answer.map (outcomeOf kind)) v

/-- What a host is asked for by a batch: each directive in turn, up to one that fails. -/
inductive Runs (h : Host σ ε ρ) :
    List Directive → σ → List (Call ε ρ) → Except ε Record → σ → Prop
  | done {s : σ} : Runs h [] s [] (.ok []) s
  | stopped {d : Directive} {ds : List Directive} {s t : σ} {calls : List (Call ε ρ)} {e : ε}
      (first : Asks h d s calls (.error e) t) : Runs h (d :: ds) s calls (.error e) t
  | next {d : Directive} {ds : List Directive} {s t u : σ} {calls rest : List (Call ε ρ)}
      {o : Outcome} {result : Except ε Record} (first : Asks h d s calls (.ok o) t)
      (others : Runs h ds t rest result u) :
      Runs h (d :: ds) s (calls ++ rest) (result.map ((d, o) :: ·)) u

structure Settled (ds : List Directive) (calls : List (Call ε ρ)) (r : Record) : Prop where
  unfailing : ∀ c ∈ calls, c.failure? = none
  shared : Record.Shared ds r.applied r.skipped r.diagnostics
  granted : r.applied.map (·.newName) = calls.filterMap Call.granted?
  refused : r.diagnostics.map (·.2.2) = calls.filterMap Call.refusal?
  success : r.success = true ↔ ∀ c ∈ calls, c.refusal? = none

def FailsLast (calls : List (Call ε ρ)) (e : ε) : Prop :=
  ∃ before c, calls = before ++ [c] ∧ (∀ b ∈ before, b.failure? = none) ∧ c.failure? = some e

/-- What a batch gives back, by its calls. -/
def Accounts (ds : List Directive) (calls : List (Call ε ρ)) : Except ε Record → Prop
  | .ok r => Settled ds calls r
  | .error e => FailsLast calls e

/-- A host that answers whatever it is asked for, be it with a refusal. -/
structure Answers (h : Host σ ε ρ) : Prop where
  locals : ∀ s, ∃ ls t, h.locals.run s = (.ok ls, t)
  parameters : ∀ s, ∃ ps t, h.parameters.run s = (.ok ps, t)
  setName : ∀ r name source s, ∃ a t, (h.setName r name source).run s = (.ok a, t)

namespace Watch

theorem logged_run (call : Except ε α → Call ε ρ) (task : Task σ ε α) (v : Watch σ ε ρ) :
    (logged call task).run v =
      ((task.run v.host).1.mapError .inr,
        { v with host := (task.run v.host).2, calls := v.calls ++ [call (task.run v.host).1] }) := by
  unfold logged
  rw [Task.run_bind_ok (Task.run_get v)]
  rcases task.run v.host with ⟨r | r, t⟩ <;> rfl

theorem tell_nobody {v : Watch σ ε ρ} (quiet : v.world.audience = .nobody) (n : Notice) :
    (tell n).run v = (.ok (), v) := by
  have hn : (World.tell n).run v.world = (.ok (), v.world) := by
    rw [World.tell, Task.run_bind_ok (Task.run_get v.world), quiet]
    rfl
  rw [tell, Task.run_onPart, hn]
  rfl

end Watch

def pick (h : Host σ ε ρ) (s : σ) (name : Text) (ls ps : List ρ) : Option (SymbolKind × ρ) :=
  match ls.find? (h.nameOf s · = name) with
  | some r => some (.localVariable, r)
  | none => (ps.find? (h.nameOf s · = name)).map (.parameter, ·)

theorem firstNamed_of_pick {h : Host σ ε ρ} {s : σ} {name : Text} {ls ps : List ρ}
    {kind : SymbolKind} {r : ρ} (hp : pick h s name ls ps = some (kind, r)) :
    FirstNamed h s name ls ps kind r := by
  rw [pick] at hp
  cases hl : ls.find? (h.nameOf s · = name) with
  | some x =>
    rw [hl] at hp
    cases hp
    obtain ⟨hr, before, after, rfl, hb⟩ := List.find?_eq_some_iff_append.mp hl
    exact .localVariable (by simpa using hb) (by simpa using hr)
  | none =>
    rw [hl] at hp
    obtain ⟨x, hx, he⟩ := Option.map_eq_some_iff.mp hp
    cases he
    obtain ⟨hr, before, after, rfl, hb⟩ := List.find?_eq_some_iff_append.mp hx
    have hls : ∀ x ∈ ls, h.nameOf s x ≠ name := by simpa using List.find?_eq_none.mp hl
    exact .parameter (List.forall_mem_append.mpr ⟨hls, by simpa using hb⟩) (by simpa using hr)

theorem unnamed_of_pick {h : Host σ ε ρ} {s : σ} {name : Text} {ls ps : List ρ}
    (hp : pick h s name ls ps = none) : ∀ x ∈ ls ++ ps, h.nameOf s x ≠ name := by
  rw [pick] at hp
  cases hl : ls.find? (h.nameOf s · = name) with
  | some x =>
    rw [hl] at hp
    cases hp
  | none =>
    rw [hl] at hp
    have hls : ∀ x ∈ ls, h.nameOf s x ≠ name := by simpa using List.find?_eq_none.mp hl
    have hps : ∀ x ∈ ps, h.nameOf s x ≠ name := by
      simpa using List.find?_eq_none.mp (Option.map_eq_none_iff.mp hp)
    exact List.forall_mem_append.mpr ⟨hls, hps⟩

theorem locals_watched {h : Host σ ε ρ} {s t : σ} {answer : Except ε (List ρ)}
    (hl : h.locals.run s = (answer, t)) (w : World) (log : List (Call ε ρ)) :
    (watched h).locals.run ⟨s, w, log⟩ =
      (answer.mapError .inr, ⟨t, w, log ++ [.locals answer]⟩) := by
  rw [watched, Watch.logged_run, hl]

theorem parameters_watched {h : Host σ ε ρ} {s t : σ} {answer : Except ε (List ρ)}
    (hp : h.parameters.run s = (answer, t)) (w : World) (log : List (Call ε ρ)) :
    (watched h).parameters.run ⟨s, w, log⟩ =
      (answer.mapError .inr, ⟨t, w, log ++ [.parameters answer]⟩) := by
  rw [watched, Watch.logged_run, hp]

theorem setName_watched {h : Host σ ε ρ} {s t : σ} {r : ρ} {name source : Text}
    {answer : Except ε (Option Text)} (hr : (h.setName r name source).run s = (answer, t))
    (w : World) (log : List (Call ε ρ)) :
    ((watched h).setName r name source).run ⟨s, w, log⟩ =
      (answer.mapError .inr, ⟨t, w, log ++ [.setName r name source answer]⟩) := by
  rw [watched, Watch.logged_run, hr]

theorem target_noLocals {h : Host σ ε ρ} {s t : σ} {e : ε} (hl : h.locals.run s = (.error e, t))
    (name : Text) (w : World) (log : List (Call ε ρ)) :
    (target (watched h) name).run ⟨s, w, log⟩ =
      (.error (.inr e), ⟨t, w, log ++ [.locals (.error e)]⟩) := by
  rw [target, Task.run_bind_error (locals_watched hl w log)]

theorem target_noParameters {h : Host σ ε ρ} {s t u : σ} {ls : List ρ} {e : ε}
    (hl : h.locals.run s = (.ok ls, t)) (hp : h.parameters.run t = (.error e, u))
    (name : Text) (w : World) (log : List (Call ε ρ)) :
    (target (watched h) name).run ⟨s, w, log⟩ =
      (.error (.inr e), ⟨u, w, log ++ [.locals (.ok ls), .parameters (.error e)]⟩) := by
  rw [target, Task.run_bind_ok (locals_watched hl w log),
    Task.run_bind_error (parameters_watched hp w _), List.append_assoc]
  rfl

/-- The host is asked for its parameters even if the symbol is a local variable. -/
theorem target_picks {h : Host σ ε ρ} {s t u : σ} {ls ps : List ρ}
    (hl : h.locals.run s = (.ok ls, t)) (hp : h.parameters.run t = (.ok ps, u))
    (name : Text) (w : World) (log : List (Call ε ρ)) :
    (target (watched h) name).run ⟨s, w, log⟩ =
      (.ok (pick h u name ls ps), ⟨u, w, log ++ [.locals (.ok ls), .parameters (.ok ps)]⟩) := by
  rw [target, Task.run_bind_ok (locals_watched hl w log),
    Task.run_bind_ok (parameters_watched hp w _), Task.run_bind_ok (Task.run_get _),
    List.append_assoc, pick]
  change (match ls.find? (h.nameOf u · = name) with
    | some r => (pure (some (SymbolKind.localVariable, r)) : Task (Watch σ ε ρ) (Fault ⊕ ε) _)
    | none => pure ((ps.find? (h.nameOf u · = name)).map (SymbolKind.parameter, ·))).run _ = _
  cases ls.find? (h.nameOf u · = name) <;> rfl

theorem step_asks (h : Host σ ε ρ) (d : Directive) (s : σ) (w : World) (log : List (Call ε ρ)) :
    ∃ calls o t, Asks h d s calls o t ∧
      (step (watched h) d).run ⟨s, w, log⟩ = (o.mapError .inr, ⟨t, w, log ++ calls⟩) := by
  rcases hl : h.locals.run s with ⟨e | ls, t⟩
  · refine ⟨_, _, _, .noLocals hl, ?_⟩
    rw [step, Task.run_bind_error (target_noLocals hl d.oldName w log)]
    rfl
  rcases hp : h.parameters.run t with ⟨e | ps, u⟩
  · refine ⟨_, _, _, .noParameters hl hp, ?_⟩
    rw [step, Task.run_bind_error (target_noParameters hl hp d.oldName w log)]
    rfl
  have htarget := target_picks hl hp d.oldName w log
  cases hf : pick h u d.oldName ls ps with
  | none =>
    rw [hf] at htarget
    refine ⟨_, _, _, .absent hl hp (unnamed_of_pick hf), ?_⟩
    rw [step, Task.run_bind_ok htarget]
    rfl
  | some found =>
    obtain ⟨kind, r⟩ := found
    rw [hf] at htarget
    rcases hr : (h.setName r d.newName (h.sourceOf u r)).run u with ⟨answer, v⟩
    have hrename := setName_watched hr w (log ++ [.locals (.ok ls), .parameters (.ok ps)])
    rw [List.append_assoc] at hrename
    refine ⟨_, _, _, .asked hl hp (firstNamed_of_pick hf) hr, ?_⟩
    rw [step, Task.run_bind_ok htarget]
    dsimp only
    rw [Task.run_bind_ok (Task.run_get _)]
    rcases answer with e | _ | reason
    · exact Task.run_bind_error hrename _
    · exact Task.run_bind_ok hrename _
    · exact Task.run_bind_ok hrename _

theorem apply_runs (h : Host σ ε ρ) (ds : List Directive) (s : σ) {w : World}
    (quiet : w.audience = .nobody) (log : List (Call ε ρ)) :
    ∃ calls result t, Runs h ds s calls result t ∧
      (apply (watched h) Watch.tell ds).run ⟨s, w, log⟩ =
        (result.mapError .inr, ⟨t, w, log ++ calls⟩) := by
  induction ds generalizing s log with
  | nil => exact ⟨_, _, _, .done, by rw [List.append_nil]; rfl⟩
  | cons d ds ih =>
    obtain ⟨calls, o, t, ha, hs⟩ := step_asks h d s w log
    cases o with
    | error e =>
      refine ⟨_, _, _, .stopped ha, ?_⟩
      rw [apply, Task.run_bind_error hs]
      rfl
    | ok o =>
      obtain ⟨rest, result, u, hr, hrest⟩ := ih t (log ++ calls)
      rw [List.append_assoc] at hrest
      have hnext : (apply (watched h) Watch.tell ds >>= fun r => return (d, o) :: r).run
          ⟨t, w, log ++ calls⟩ =
          ((result.map ((d, o) :: ·)).mapError .inr, ⟨u, w, log ++ (calls ++ rest)⟩) := by
        rw [Task.run_bind, hrest]
        cases result <;> rfl
      refine ⟨_, _, _, .next ha hr, ?_⟩
      rw [apply, Task.run_bind_ok hs, Task.run_bind_ok (Task.run_get _)]
      cases notice? ((watched h).functionName ⟨t, w, log ++ calls⟩) d o with
      | none => exact hnext
      | some n =>
        dsimp only
        rw [Task.run_bind_ok (Watch.tell_nobody quiet n)]
        exact hnext

theorem settled_of {ds : List Directive} {calls : List (Call ε ρ)} {r : Record}
    (hu : ∀ c ∈ calls, c.failure? = none)
    (hs : Record.Shared ds r.applied r.skipped r.diagnostics)
    (hg : r.applied.map (·.newName) = calls.filterMap Call.granted?)
    (hr : r.diagnostics.map (·.2.2) = calls.filterMap Call.refusal?) : Settled ds calls r := by
  refine ⟨hu, hs, hg, hr, ?_⟩
  rw [Record.success, List.isEmpty_iff, ← List.map_eq_nil_iff (f := (·.2.2)), hr,
    List.filterMap_eq_nil_iff]

theorem settled_append {ds es : List Directive} {calls rest : List (Call ε ρ)} {r q : Record}
    (h : Settled ds calls r) (h' : Settled es rest q) :
    Settled (ds ++ es) (calls ++ rest) (r ++ q) := by
  apply settled_of
  · exact List.forall_mem_append.mpr ⟨h.unfailing, h'.unfailing⟩
  · rw [Record.applied_append, Record.skipped_append, Record.diagnostics_append]
    exact Record.shared_append h.shared h'.shared
  · rw [Record.applied_append, List.map_append, List.filterMap_append, h.granted, h'.granted]
  · rw [Record.diagnostics_append, List.map_append, List.filterMap_append, h.refused, h'.refused]

theorem asks_accounts {h : Host σ ε ρ} {d : Directive} {s t : σ} {calls : List (Call ε ρ)}
    {o : Except ε Outcome} (ha : Asks h d s calls o t) :
    Accounts [d] calls (o.map fun o => [(d, o)]) := by
  cases ha with
  | noLocals => exact ⟨[], _, rfl, by simp, rfl⟩
  | @noParameters ls => exact ⟨[.locals (.ok ls)], _, rfl, by simp [Call.failure?], rfl⟩
  | absent => exact settled_of (by simp [Call.failure?]) (.skipped .nil) rfl rfl
  | @asked ls ps _ _ _ _ _ answer =>
    rcases answer with e | _ | reason
    · exact ⟨[.locals (.ok ls), .parameters (.ok ps)], _, rfl, by simp [Call.failure?], rfl⟩
    · exact settled_of (by simp [Call.failure?]) (.applied .nil) rfl rfl
    · exact settled_of (by simp [Call.failure?]) (.rejected .nil) rfl rfl

theorem runs_accounts {h : Host σ ε ρ} {ds : List Directive} {s t : σ} {calls : List (Call ε ρ)}
    {result : Except ε Record} (hr : Runs h ds s calls result t) : Accounts ds calls result := by
  induction hr with
  | done => exact settled_of (by simp) .nil rfl rfl
  | stopped first => exact asks_accounts first
  | @next d ds s t u calls rest o result first _ ih =>
    have hd : Settled [d] calls [(d, o)] := asks_accounts first
    cases result with
    | ok r => exact settled_append hd ih
    | error e =>
      obtain ⟨before, c, rfl, hb, hc⟩ := ih
      refine ⟨calls ++ before, c, by rw [List.append_assoc], ?_, hc⟩
      exact List.forall_mem_append.mpr ⟨hd.unfailing, hb⟩

theorem asks_answered {h : Host σ ε ρ} (ha : Answers h) {d : Directive} {s t : σ}
    {calls : List (Call ε ρ)} {o : Except ε Outcome} (hs : Asks h d s calls o t) :
    ∃ outcome, o = .ok outcome := by
  cases hs with
  | noLocals hl =>
    obtain ⟨ls, t, hok⟩ := ha.locals s
    rw [hl] at hok
    cases hok
  | @noParameters _ _ u _ _ hp =>
    obtain ⟨ps, t, hok⟩ := ha.parameters u
    rw [hp] at hok
    cases hok
  | absent => exact ⟨_, rfl⟩
  | @asked _ _ _ u _ _ r _ _ _ _ hr =>
    obtain ⟨a, t, hok⟩ := ha.setName r d.newName (h.sourceOf u r) u
    rw [hr] at hok
    cases hok
    exact ⟨_, rfl⟩

theorem runs_answered {h : Host σ ε ρ} (ha : Answers h) {ds : List Directive} {s t : σ}
    {calls : List (Call ε ρ)} {result : Except ε Record} (hr : Runs h ds s calls result t) :
    ∃ r, result = .ok r := by
  induction hr with
  | done => exact ⟨_, rfl⟩
  | stopped first =>
    obtain ⟨o, ho⟩ := asks_answered ha first
    cases ho
  | next _ _ ih =>
    obtain ⟨r, rfl⟩ := ih
    exact ⟨_, rfl⟩

/-- A batch of which nothing is told asks a host for what `Runs` says and for nothing else, whatever
the host is and answers. If it comes to its end, each directive is in just one of the three lists
of its record, and the batch is a success unless a rename was refused; it does come to its end if the
host always answers. A failure ends it at once, and is what the batch fails with. -/
theorem apply_calls (h : Host σ ε ρ) (ds : List Directive) (s : σ) {w : World}
    (quiet : w.audience = .nobody) :
    ∃ calls result t,
      (apply (watched h) Watch.tell ds).run ⟨s, w, []⟩ =
        (result.mapError .inr, ⟨t, w, calls⟩) ∧
      Runs h ds s calls result t ∧
      Accounts ds calls result ∧
      (Answers h → ∃ r, result = .ok r ∧ Settled ds calls r) := by
  obtain ⟨calls, result, t, hr, ht⟩ := apply_runs h ds s quiet []
  have hc := runs_accounts hr
  refine ⟨calls, result, t, ht, hr, hc, fun ha => ?_⟩
  obtain ⟨r, rfl⟩ := runs_answered ha hr
  exact ⟨r, rfl, hc⟩

/-- A host that counts its requests. It has two local variables of one name, and other parameters
each time it is asked for them; it never lets a symbol be called `b`. -/
def wayward : Host ℕ Empty (Text × Text) where
  functionName _ := "f"
  locals := do
    modify (· + 1)
    return [("a", "first"), ("a", "second")]
  parameters := do
    modify (· + 1)
    return if (← get) < 4 then [("a", "third")] else [("p", "fourth")]
  nameOf _ r := r.1
  sourceOf _ r := r.2
  setName _ name _ := do
    modify (· + 1)
    return if name = "b" then some "not here" else none

theorem apply_calls_wayward :
    World.silent.audience = .nobody ∧
    ∃ t,
      Runs wayward [⟨"a", "b", ""⟩, ⟨"p", "q", ""⟩, ⟨"z", "a", ""⟩] 0
        [.locals (.ok [("a", "first"), ("a", "second")]), .parameters (.ok [("a", "third")]),
          .setName ("a", "first") "b" "first" (.ok (some "not here")),
          .locals (.ok [("a", "first"), ("a", "second")]), .parameters (.ok [("p", "fourth")]),
          .setName ("p", "fourth") "q" "fourth" (.ok none),
          .locals (.ok [("a", "first"), ("a", "second")]), .parameters (.ok [("p", "fourth")])]
        (.ok [(⟨"a", "b", ""⟩, .rejected .localVariable "not here"), (⟨"p", "q", ""⟩, .applied),
          (⟨"z", "a", ""⟩, .skipped)]) t := by
  refine ⟨rfl, ?_⟩
  obtain ⟨calls, result, t, hrun, hr, -⟩ := apply_calls wayward
    [⟨"a", "b", ""⟩, ⟨"p", "q", ""⟩, ⟨"z", "a", ""⟩] 0 (w := World.silent) rfl
  obtain ⟨hresult, hwatch⟩ := Prod.mk.inj hrun
  have hcalls := congrArg Watch.calls hwatch
  cases result with
  | error e => exact e.elim
  | ok r =>
    cases hresult
    cases hcalls
    exact ⟨t, hr⟩

end SymbolRename.Batch
