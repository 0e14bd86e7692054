import SymbolRename.Proofs.Batch.Carry

/-!
# Batches that are carried out twice

A directive is settled when nobody has its old name, or its new name cannot be given, or somebody
has the new name already. A directive is settled behind itself, and other directives leave it so
unless they take up its new name or bring back its old one. When no new name of a list is an old
name of it, every directive of the list is settled in the end, and a second time nothing happens.
-/

set_option autoImplicit false

namespace SymbolRename.Function

def Settled (f : Function) (d : Directive) : Prop :=
  ¬ f.Named d.oldName ∨ isGivable d.newName = false ∨ f.Named d.newName

theorem place_named {f : Function} {h : Handle} {s : Symbol} (hs : f.symbol? h = some s)
    (t : Symbol) {m : Text} (hm : f.Named m) (hn : m ≠ s.name) : (f.place h t).Named m := by
  obtain ⟨kind, hk⟩ := hm
  use kind
  rw [names_place]
  split
  · next he =>
    subst he
    obtain ⟨j, hj⟩ := List.mem_iff_getElem?.mp hk
    have hi : h.index ≠ j := by
      rintro rfl
      exact hn (Option.some.inj (hj.symm.trans (names_getElem? hs)))
    exact List.mem_iff_getElem?.mpr ⟨j, by rw [List.getElem?_set_ne hi, hj]⟩
  · exact hk

theorem named_of_carry {f : Function} {d : Directive} {m : Text} :
    (f.carry d).2.Named m → f.Named m ∨ m = d.newName := by
  apply carry_keeps (P := fun g => g.Named m → f.Named m ∨ m = d.newName)
  · exact .inl
  · rintro h s - - - ⟨kind, hk⟩
    exact (mem_names_place hk).imp (⟨kind, ·⟩) (·.2)

theorem carry_named {f : Function} {d : Directive} {m : Text} (hm : f.Named m)
    (hn : m ≠ d.oldName) : (f.carry d).2.Named m :=
  carry_keeps (P := fun g => g.Named m) hm fun _ _ hs ho _ => place_named hs _ hm (ho ▸ hn)

theorem carry_settles (f : Function) (d : Directive) : (f.carry d).2.Settled d := by
  have hc := f.carry_carries d
  generalize f.carry d = c at hc
  cases hc with
  | skipped absent => exact .inl absent
  | invalid _ bad => exact .inr (.inl bad)
  | taken _ _ _ taken => exact .inr (.inr taken)
  | applied _ symbol => exact .inr (.inr (named_of_symbol (symbol_place symbol _)))

theorem settled_carry {f : Function} {d e : Directive} (hs : f.Settled d)
    (ho : e.newName ≠ d.oldName) (hn : d.newName ≠ e.oldName) : (f.carry e).2.Settled d := by
  rcases hs with absent | bad | taken
  · left
    intro hm
    rcases named_of_carry hm with hm | hm
    · exact absent hm
    · exact ho hm.symm
  · exact .inr (.inl bad)
  · exact .inr (.inr (carry_named taken hn))

theorem settled_after {f : Function} {d : Directive} {ds : List Directive} (hs : f.Settled d)
    (hd : ∀ e ∈ ds, e.newName ≠ d.oldName ∧ d.newName ≠ e.oldName) : (f.after ds).Settled d := by
  induction ds generalizing f with
  | nil => exact hs
  | cons e ds ih =>
    obtain ⟨ho, hn⟩ := hd e (by simp)
    exact ih (settled_carry hs ho hn) fun e' he => hd e' (by simp [he])

theorem after_settled (f : Function) {ds : List Directive}
    (hd : ∀ d ∈ ds, ∀ e ∈ ds, d.newName ≠ e.oldName) : ∀ d ∈ ds, (f.after ds).Settled d := by
  induction ds generalizing f with
  | nil => simp
  | cons e ds ih =>
    intro d hm
    rcases List.mem_cons.mp hm with rfl | hm
    · have hrest : ∀ e ∈ ds, e.newName ≠ d.oldName ∧ d.newName ≠ e.oldName := by
        intro e he
        exact ⟨hd e (by simp [he]) d (by simp), hd d (by simp) e (by simp [he])⟩
      rw [after]
      exact settled_after (f.carry_settles d) hrest
    · exact ih _ (fun d hd' e he => hd d (by simp [hd']) e (by simp [he])) d hm

/-- A settled directive that asks for another name than the old one is not carried out. -/
theorem carry_idle {f : Function} {d : Directive} (hs : f.Settled d) (hn : d.newName ≠ d.oldName) :
    (f.carry d).1 ≠ .applied ∧ (f.carry d).2 = f := by
  have hc := f.carry_carries d
  generalize f.carry d = c at hc
  cases hc with
  | applied target _ name good free =>
    rcases hs with absent | bad | taken
    · exact absurd (named_of_find target) absent
    · rw [good] at bad
      cases bad
    · exact absurd taken (free.resolve_left (name ▸ hn))
  | _ => exact ⟨nofun, rfl⟩

theorem record_idle {f : Function} {ds : List Directive}
    (hd : ∀ d ∈ ds, f.Settled d ∧ d.newName ≠ d.oldName) :
    (f.record ds).applied = [] ∧ f.after ds = f := by
  induction ds with
  | nil => exact ⟨rfl, rfl⟩
  | cons d ds ih =>
    obtain ⟨hs, hn⟩ := hd d (by simp)
    obtain ⟨ho, hf⟩ := carry_idle hs hn
    obtain ⟨hr, ha⟩ := ih fun e he => hd e (by simp [he])
    rw [record, after, hf]
    constructor
    · rw [Batch.Record.applied, List.filter_cons_of_neg (by simpa using ho)]
      exact hr
    · exact ha

end SymbolRename.Function

namespace SymbolRename.Batch

/-- Carrying out a list a second time renames nothing, if no new name of it is an old name of it:
while nobody listens both times come to an end, and with anybody listening the second time leaves
the function alone, to whatever end it comes. -/
theorem second_apply_idle (f : Function) (ds : List Directive)
    (hd : ∀ d ∈ ds, ∀ e ∈ ds, d.newName ≠ e.oldName) (w : World) :
    (w.audience = .nobody → ∃ first g second,
      (apply Desk.host Desk.tell ds).run ⟨w, f⟩ = (.ok first, ⟨w, g⟩) ∧
      (apply Desk.host Desk.tell ds).run ⟨w, g⟩ = (.ok second, ⟨w, g⟩) ∧
      second.applied.length = 0) ∧
    ∀ first d, (apply Desk.host Desk.tell ds).run ⟨w, f⟩ = (.ok first, d) → ∀ v,
      ((apply Desk.host Desk.tell ds).run ⟨v, d.function⟩).2.function = d.function ∧
      ∀ second, ((apply Desk.host Desk.tell ds).run ⟨v, d.function⟩).1 = .ok second →
        second.applied.length = 0 := by
  have hidle (done : List Directive) (hp : done <+: ds) :
      ((f.after ds).record done).applied = [] ∧ (f.after ds).after done = f.after ds := by
    apply Function.record_idle
    intro d hm
    have hm := hp.subset hm
    exact ⟨Function.after_settled f hd d hm, hd d hm d hm⟩
  obtain ⟨hr, ha⟩ := hidle ds List.prefix_rfl
  constructor
  · intro hw
    have hone : (apply Desk.host Desk.tell ds).run ⟨w, f⟩ = (.ok (f.record ds), ⟨w, f.after ds⟩) :=
      Desk.apply_told (Desk.tell_nobody hw _)
    have htwo : (apply Desk.host Desk.tell ds).run ⟨w, f.after ds⟩ =
        (.ok ((f.after ds).record ds), ⟨w, f.after ds⟩) := by
      rw [Desk.apply_told (Desk.tell_nobody hw _), ha]
    exact ⟨f.record ds, f.after ds, (f.after ds).record ds, hone, htwo, by rw [hr, List.length_nil]⟩
  · intro first d h v
    rw [(Desk.apply_ok h).2]
    constructor
    · obtain ⟨done, hp, he⟩ := Desk.apply_function ds v (f.after ds)
      rw [he, (hidle done hp).2]
    · intro second hs
      rw [(Desk.apply_ok (Prod.ext hs rfl)).1, hr, List.length_nil]

def shadowed : Function :=
  ⟨"f", [⟨"a", "s"⟩, ⟨"c", "s"⟩], [⟨"a", "s"⟩, ⟨"b", "t"⟩]⟩

/-- The first and the last are refused, and the others rename one symbol after the other. -/
def shadowing : List Directive := [⟨"a", "b", []⟩, ⟨"a", "x", []⟩, ⟨"a", "y", []⟩, ⟨"c", [], []⟩]

theorem second_apply_idle_shadowed :
    (∀ d ∈ shadowing, ∀ e ∈ shadowing, d.newName ≠ e.oldName) ∧
      (shadowed.record shadowing).applied.length = 2 ∧
      ∃ first g second,
        (apply Desk.host Desk.tell shadowing).run ⟨.silent, shadowed⟩ = (.ok first, ⟨.silent, g⟩) ∧
        (apply Desk.host Desk.tell shadowing).run ⟨.silent, g⟩ = (.ok second, ⟨.silent, g⟩) ∧
        second.applied.length = 0 :=
  ⟨by decide, by decide, (second_apply_idle shadowed shadowing (by decide) .silent).1 rfl⟩

/-- A name that is given and taken up again is given again the second time. -/
example :
    ((shadowed.after [⟨"b", "x", []⟩, ⟨"x", "b", []⟩]).record
      [⟨"b", "x", []⟩, ⟨"x", "b", []⟩]).applied.length = 2 := by
  decide

end SymbolRename.Batch
