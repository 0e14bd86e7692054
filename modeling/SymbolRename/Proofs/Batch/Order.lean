import SymbolRename.Proofs.Batch.Carry
import SymbolRename.Proofs.Function.Places
import Mathlib.Data.List.Pairwise
import Mathlib.Data.List.Perm.Basic

/-!
# Batches in another order

Each directive of a batch sees what the ones before it have done, so in general their order
matters. Two directives are apart if they have different old names and different new names, and the
new name of neither is the old name of the other. Then one does not change what the other finds: it
meets the same symbol, and its new name is free or taken as before. So when all directives of a list
are apart, each of them goes as it would go on the function as it is at the start, and any order
leads to the same function.
-/

set_option autoImplicit false

namespace SymbolRename

structure Directive.Apart (d e : Directive) : Prop where
  old : d.oldName ≠ e.oldName
  new : d.newName ≠ e.newName
  ahead : d.newName ≠ e.oldName
  behind : e.newName ≠ d.oldName

instance : Std.Symm Directive.Apart :=
  ⟨fun _ _ h => ⟨h.old.symm, h.new.symm, h.behind, h.ahead⟩⟩

theorem Directive.pairwise_apart {ds : List Directive} (old : (ds.map (·.oldName)).Nodup)
    (new : (ds.map (·.newName)).Nodup) (mixed : ∀ d ∈ ds, ∀ e ∈ ds, d.newName ≠ e.oldName) :
    ds.Pairwise Apart := by
  apply (List.Nodup.of_map _ old).pairwise_of_forall_ne
  intro d hd e he hne
  have ho : d.oldName ≠ e.oldName := fun h => hne (List.inj_on_of_nodup_map old hd he h)
  have hn : d.newName ≠ e.newName := fun h => hne (List.inj_on_of_nodup_map new hd he h)
  exact ⟨ho, hn, mixed d hd e he, mixed e he d hd⟩

namespace Function
variable {f : Function} {d e : Directive} {h : Handle} {s : Symbol}

/-- A symbol that changes between names that the directive does not have is none of its business. -/
theorem carry_place {t : Symbol} (hs : f.symbol? h = some s)
    (ho : d.oldName ≠ s.name ∧ d.oldName ≠ t.name)
    (hn : d.newName ≠ s.name ∧ d.newName ≠ t.name) :
    (f.place h t).carry d = ((f.carry d).1, (f.carry d).2.place h t) := by
  have htarget : (f.place h t).find? d.oldName = f.find? d.oldName := find?_place hs ho.1 ho.2
  have hnamed : (f.place h t).Named d.newName ↔ f.Named d.newName := named_place_iff hs hn.1 hn.2
  apply carry_eq
  have hc := f.carry_carries d
  generalize f.carry d = r at hc
  cases hc with
  | skipped absent =>
    exact .skipped ((named_place_iff hs ho.1 ho.2).not.mpr absent)
  | invalid target bad => exact .invalid (htarget.trans target) bad
  | taken target good differs taken =>
    have hc := Carries.taken (htarget.trans target) good differs (hnamed.mpr taken)
    rwa [name_place] at hc
  | @applied k u target symbol name good free =>
    have hk : k ≠ h := by
      rintro rfl
      rw [Option.some.inj (symbol.symm.trans hs)] at name
      exact ho.1 name.symm
    have hu : (f.place h t).symbol? k = some u := (symbol_place_other hk t).trans symbol
    rw [place_comm hk]
    exact .applied (htarget.trans target) hu name good (free.imp_right hnamed.not.mpr)

/-- A directive that is apart from another one goes behind it as it would go without it. -/
theorem carry_apart_place (ha : Directive.Apart d e) (hs : f.symbol? h = some s)
    (hn : s.name = e.oldName) (source : Text) :
    (f.place h ⟨e.newName, source⟩).carry d =
      ((f.carry d).1, (f.carry d).2.place h ⟨e.newName, source⟩) :=
  carry_place hs ⟨hn ▸ ha.old, ha.behind.symm⟩ ⟨hn ▸ ha.ahead, ha.new⟩

theorem outcome_apart (ha : Directive.Apart d e) : ((f.carry e).2.carry d).1 = (f.carry d).1 := by
  obtain he | ⟨h, s, hs, hn, he⟩ := f.carry_moves e
  · rw [he]
  · rw [he, carry_apart_place ha hs hn]

theorem carry_comm (ha : Directive.Apart d e) :
    ((f.carry e).2.carry d).2 = ((f.carry d).2.carry e).2 := by
  obtain he | ⟨h, s, hs, hn, he⟩ := f.carry_moves e
  · obtain hd | ⟨k, u, hu, hm, hd⟩ := f.carry_moves d
    · rw [he, hd, he]
    · rw [he, hd, carry_apart_place (symm ha) hu hm, he]
  · obtain hd | ⟨k, u, hu, hm, hd⟩ := f.carry_moves d
    · rw [he, hd, carry_apart_place ha hs hn, hd, he]
    · have hk : k ≠ h := by
        rintro rfl
        rw [Option.some.inj (hu.symm.trans hs), hn] at hm
        exact ha.old hm.symm
      rw [he, hd, carry_apart_place ha hs hn, carry_apart_place (symm ha) hu hm, hd, he,
        place_comm hk]

theorem record_apart {ds : List Directive} (hd : ds.Pairwise Directive.Apart) :
    f.record ds = ds.map fun d => (d, (f.carry d).1) := by
  induction ds generalizing f with
  | nil => rfl
  | cons e ds ih =>
    obtain ⟨he, hd⟩ := List.pairwise_cons.mp hd
    rw [record, ih hd, List.map_cons, List.cons.injEq]
    refine ⟨rfl, List.map_congr_left fun d hm => ?_⟩
    rw [outcome_apart (symm (he d hm))]

theorem after_eq_foldl (f : Function) (ds : List Directive) :
    f.after ds = ds.foldl (fun g d => (g.carry d).2) f := by
  induction ds generalizing f with
  | nil => rfl
  | cons d ds ih => exact ih _

theorem after_perm {ds es : List Directive} (hp : es.Perm ds)
    (hd : ds.Pairwise Directive.Apart) : f.after es = f.after ds := by
  rw [after_eq_foldl, after_eq_foldl]
  apply hp.foldl_eq'
  intro d hm e hm' g
  by_cases he : d = e
  · rw [he]
  · exact carry_comm (symm (hd.forall (hp.mem_iff.mp hm) (hp.mem_iff.mp hm') he))

end Function

namespace Batch

/-- If no two directives of a list have an old or a new name in common, and none of the new names is
an old one, then it does not matter in which order they are carried out: there is one function that
every order leads to, and one outcome of each directive, the same in every order. While nobody
listens, each order comes to its end. -/
theorem apply_any_order (f : Function) {ds : List Directive} (old : (ds.map (·.oldName)).Nodup)
    (new : (ds.map (·.newName)).Nodup) (mixed : ∀ d ∈ ds, ∀ e ∈ ds, d.newName ≠ e.oldName) :
    ∃ (g : Function) (outcome : Directive → Outcome), ∀ es, es.Perm ds → ∀ w : World,
      (w.audience = .nobody → (apply Desk.host Desk.tell es).run ⟨w, f⟩ =
        (.ok (es.map fun d => (d, outcome d)), ⟨w, g⟩)) ∧
      ∀ r d, (apply Desk.host Desk.tell es).run ⟨w, f⟩ = (.ok r, d) →
        r = es.map (fun d => (d, outcome d)) ∧ d.function = g := by
  have hds : ds.Pairwise Directive.Apart := Directive.pairwise_apart old new mixed
  refine ⟨f.after ds, fun d => (f.carry d).1, fun es hp w => ?_⟩
  have hes : es.Pairwise Directive.Apart := hp.symm.pairwise hds fun h => symm h
  have hr : f.record es = es.map fun d => (d, (f.carry d).1) := Function.record_apart hes
  have hg : f.after es = f.after ds := Function.after_perm hp hds
  constructor
  · intro hw
    rw [Desk.apply_told (Desk.tell_nobody hw _), hr, hg]
  · intro r d h
    obtain ⟨hrec, hf⟩ := Desk.apply_ok h
    exact ⟨hrec.trans hr, hf.trans hg⟩

def overlapping : Function :=
  ⟨"f", [⟨"a", "s"⟩, ⟨"c", "s"⟩], [⟨"a", "t"⟩, ⟨"b", "t"⟩]⟩

def scattered : List Directive := [⟨"a", "x", []⟩, ⟨"b", "c", []⟩, ⟨"z", "y", []⟩]

theorem apply_any_order_overlapping :
    (scattered.map (·.oldName)).Nodup ∧ (scattered.map (·.newName)).Nodup ∧
    (∀ d ∈ scattered, ∀ e ∈ scattered, d.newName ≠ e.oldName) ∧
    (overlapping.record scattered).applied.length = 1 ∧
    (overlapping.record scattered).skipped.length = 1 ∧
    ∃ (g : Function) (outcome : Directive → Outcome),
      (apply Desk.host Desk.tell scattered).run ⟨.silent, overlapping⟩ =
        (.ok (scattered.map fun d => (d, outcome d)), ⟨.silent, g⟩) ∧
      (apply Desk.host Desk.tell scattered.reverse).run ⟨.silent, overlapping⟩ =
        (.ok (scattered.reverse.map fun d => (d, outcome d)), ⟨.silent, g⟩) := by
  have old : (scattered.map (·.oldName)).Nodup := by decide
  have new : (scattered.map (·.newName)).Nodup := by decide
  have mixed : ∀ d ∈ scattered, ∀ e ∈ scattered, d.newName ≠ e.oldName := by decide
  obtain ⟨g, outcome, h⟩ := apply_any_order overlapping old new mixed
  exact ⟨old, new, mixed, by decide, by decide, g, outcome, (h _ (.refl _) .silent).1 rfl,
    (h _ (List.reverse_perm _) .silent).1 rfl⟩

end Batch
end SymbolRename
