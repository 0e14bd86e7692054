import SymbolRename.Proofs.Batch.Carry
import SymbolRename.Proofs.Batch.Record
import SymbolRename.Proofs.Function.Places
import Mathlib.Data.List.Forall2

/-!
# Undoing a batch

When no two symbols of a function have a name in common, a name tells a symbol, and every rename
keeps it so: the symbol that was renamed is the only one of its new name, and nobody has its old
name any more. So a directive that was applied is undone by the one that asks for the old name back,
and a batch by these in reverse order. What the batch skipped or refused has left nothing to undo.
-/

set_option autoImplicit false

namespace SymbolRename

/-- All names can be given, and no two symbols have the same one. -/
structure Function.Tidy (f : Function) : Prop where
  fit : ∀ kind, ∀ name ∈ f.names kind, name ≠ [] ∧ ∀ c ∈ name, Text.isBlank c = false
  distinct : (f.names .localVariable ++ f.names .parameter).Nodup

/-- A directive that asks for the old name of another one back, for whatever reason. -/
structure Directive.Undoes (b d : Directive) : Prop where
  old : b.oldName = d.newName
  new : b.newName = d.oldName

namespace Function
variable {f : Function} {d b : Directive} {h k : Handle} {s : Symbol}

/-- The invariant of a batch: names can be given back, and a name tells a symbol. -/
structure Reversible (f : Function) : Prop where
  givable : ∀ h s, f.symbol? h = some s → isGivable s.name = true
  sole : ∀ h k s t, f.symbol? h = some s → f.symbol? k = some t → s.name = t.name → h = k

theorem sole_of_distinct (hd : (f.names .localVariable ++ f.names .parameter).Nodup)
    {t : Symbol} (hs : f.symbol? h = some s) (ht : f.symbol? k = some t)
    (hn : s.name = t.name) : h = k := by
  obtain ⟨hl, hp, hapart⟩ := List.nodup_append'.mp hd
  have hs := names_getElem? hs
  have ht := hn ▸ names_getElem? ht
  have hlt := (List.getElem?_eq_some_iff.mp hs).1
  obtain ⟨_ | _, i⟩ := h <;> obtain ⟨_ | _, j⟩ := k
  · exact congrArg _ ((List.getElem?_inj hlt hl).mp (hs.trans ht.symm))
  · exact (hapart (List.mem_of_getElem? hs) (List.mem_of_getElem? ht)).elim
  · exact (hapart (List.mem_of_getElem? ht) (List.mem_of_getElem? hs)).elim
  · exact congrArg _ ((List.getElem?_inj hlt hp).mp (hs.trans ht.symm))

theorem reversible_of_tidy (hf : f.Tidy) : f.Reversible := by
  refine ⟨fun h s hs => ?_, fun h k s t hs ht hn => sole_of_distinct hf.distinct hs ht hn⟩
  obtain ⟨hne, hb⟩ := hf.fit h.kind s.name (List.mem_of_getElem? (names_getElem? hs))
  simp [isGivable, hne]
  exact hb

theorem place_reversible (hf : f.Reversible) (hs : f.symbol? h = some s) {name source : Text}
    (hg : isGivable name = true) (hn : name = s.name ∨ ¬ f.Named name) :
    (f.place h ⟨name, source⟩).Reversible := by
  have hhere := symbol_place hs ⟨name, source⟩
  have hother {k : Handle} (hk : k ≠ h) := symbol_place_other (f := f) hk ⟨name, source⟩
  have hnew {k : Handle} {t : Symbol} (hk : k ≠ h) (ht : f.symbol? k = some t) :
      t.name ≠ name := by
    rintro rfl
    rcases hn with hn | hn
    · exact hk (hf.sole k h t s ht hs hn)
    · exact hn (named_of_symbol ht)
  constructor
  · intro k t ht
    by_cases hk : k = h
    · rw [hk, hhere] at ht
      cases ht
      exact hg
    · exact hf.givable k t ((hother hk).symm.trans ht)
  · intro j k t u ht hu he
    by_cases hj : j = h <;> by_cases hk : k = h
    · rw [hj, hk]
    · rw [hj, hhere] at ht
      cases ht
      exact absurd he.symm (hnew hk ((hother hk).symm.trans hu))
    · rw [hk, hhere] at hu
      cases hu
      exact absurd he (hnew hj ((hother hj).symm.trans ht))
    · exact hf.sole j k t u ((hother hj).symm.trans ht) ((hother hk).symm.trans hu) he

theorem carry_reversible (hf : f.Reversible) (d : Directive) : (f.carry d).2.Reversible := by
  have hc := f.carry_carries d
  generalize f.carry d = r at hc
  cases hc with
  | applied _ symbol _ good free => exact place_reversible hf symbol good free
  | _ => exact hf

theorem find?_sole (hf : f.Reversible) (hs : f.symbol? h = some s) : f.find? s.name = some h := by
  cases ht : f.find? s.name with
  | none => exact absurd (named_of_symbol hs) (find?_eq_none_iff.mp ht)
  | some k =>
    obtain ⟨t, hk, hn⟩ := symbol_of_find ht
    rw [hf.sole k h t s hk hs hn]

/-- What was applied can be taken back at once. -/
theorem carry_undone (hf : f.Reversible) (ha : (f.carry d).1 = .applied)
    (hb : Directive.Undoes b d) : (f.carry d).2.carry b = (.applied, f) := by
  have hg := carry_reversible hf d
  have hc := f.carry_carries d
  generalize f.carry d = r at hc ha hg
  cases hc with
  | skipped => cases ha
  | invalid => cases ha
  | taken => cases ha
  | @applied h s target symbol name good free =>
    have hhere := symbol_place symbol ⟨d.newName, s.source⟩
    have hgive : isGivable b.newName = true := by
      rw [hb.new, ← name]
      exact hf.givable h s symbol
    have hfree : b.newName = d.newName ∨ ¬ (f.place h ⟨d.newName, s.source⟩).Named b.newName := by
      rw [hb.new, ← name, or_iff_not_imp_right, not_not, named_iff]
      rintro ⟨k, t, hk, hn⟩
      by_cases he : k = h
      · rw [he, hhere] at hk
        cases hk
        exact hn.symm
      · rw [symbol_place_other he] at hk
        exact absurd (hf.sole k h t s hk symbol hn) he
    have htarget : (f.place h ⟨d.newName, s.source⟩).find? b.oldName = some h := by
      rw [hb.old]
      exact find?_sole hg hhere
    have hback : (f.place h ⟨d.newName, s.source⟩).place h ⟨b.newName, s.source⟩ = f := by
      rw [place_place, hb.new, ← name]
      exact place_self symbol
    have hu := carry_eq (.applied htarget hhere hb.old.symm hgive hfree)
    rwa [hback] at hu

/-- The directives that were applied can be taken back one after another, the last one first. -/
theorem after_undone (hf : f.Reversible) {ds back : List Directive}
    (hb : List.Forall₂ Directive.Undoes back (f.record ds).applied) :
    (f.after ds).record back.reverse = back.reverse.map (·, .applied) ∧
      (f.after ds).after back.reverse = f := by
  induction ds generalizing f back with
  | nil =>
    cases hb
    exact ⟨rfl, rfl⟩
  | cons d ds ih =>
    have hg := carry_reversible hf d
    rw [record, Batch.Record.applied_cons] at hb
    by_cases ha : (f.carry d).1 = .applied
    · rw [if_pos ha] at hb
      obtain ⟨b, rest, hu, hrest, rfl⟩ := List.forall₂_cons_right_iff.mp hb
      obtain ⟨hr, haf⟩ := ih hg hrest
      have hlast := carry_undone hf ha hu
      rw [after, List.reverse_cons, record_append, after_append, haf, hr, List.map_append]
      simp [record, after, hlast]
    · rw [if_neg ha] at hb
      rw [after]
      obtain ⟨hr, haf⟩ := ih hg hb
      exact ⟨hr, haf.trans (carry_unapplied ha)⟩

end Function

namespace Batch

/-- When the names of a function can be given and are all different, undoing every directive that a
batch has applied, the last one first, applies each of them and brings the function back as it was,
whatever else the batch was asked for and whoever listens. While nobody listens, the batch itself
comes to its end. -/
theorem applied_undone {f : Function} (tidy : f.Tidy) (ds : List Directive) (w : World) :
    (w.audience = .nobody → ∃ first g,
      (apply Desk.host Desk.tell ds).run ⟨w, f⟩ = (.ok first, ⟨w, g⟩)) ∧
    ∀ first d, (apply Desk.host Desk.tell ds).run ⟨w, f⟩ = (.ok first, d) →
      ∀ back, List.Forall₂ Directive.Undoes back first.applied.reverse → ∀ v,
        (apply Desk.host Desk.tell back).run ⟨v, d.function⟩ =
          (.ok (back.map (·, .applied)), ⟨v, f⟩) := by
  constructor
  · exact fun hw => ⟨f.record ds, f.after ds, Desk.apply_told (Desk.tell_nobody hw _)⟩
  · intro first d h back hb v
    obtain ⟨rfl, hd⟩ := Desk.apply_ok h
    have hb : List.Forall₂ Directive.Undoes back.reverse (f.record ds).applied := by
      rwa [← List.forall₂_reverse_iff, List.reverse_reverse]
    obtain ⟨hr, ha⟩ := Function.after_undone (Function.reversible_of_tidy tidy) hb
    rw [List.reverse_reverse] at hr ha
    have hquiet : (f.after ds).notices back = [] := by
      rw [Function.notices, hr, List.filterMap_map]
      exact List.filterMap_eq_nil_iff.mpr fun b _ => rfl
    have htold : (((f.after ds).notices back).forM World.tell).run v = (.ok ⟨⟩, v) := by
      rw [hquiet]
      rfl
    rw [hd, Desk.apply_told htold, hr, ha]

def assorted : Function :=
  ⟨"f", [⟨"p", "s"⟩], [⟨"a", "t"⟩, ⟨"b", "u"⟩]⟩

/-- Two names are exchanged by way of a third, a name is given again, and the last two directives
are refused and skipped. -/
def exchanging : List Directive :=
  [⟨"a", "t", []⟩, ⟨"b", "a", []⟩, ⟨"t", "b", []⟩, ⟨"p", "p", []⟩, ⟨"p", "a", []⟩, ⟨"z", "q", []⟩]

def exchangingBack : List Directive :=
  [⟨"p", "p", []⟩, ⟨"b", "t", []⟩, ⟨"a", "b", []⟩, ⟨"t", "a", []⟩]

theorem applied_undone_exchanging :
    assorted.Tidy ∧ ∃ first g,
      (apply Desk.host Desk.tell exchanging).run ⟨.silent, assorted⟩ = (.ok first, ⟨.silent, g⟩) ∧
      List.Forall₂ Directive.Undoes exchangingBack first.applied.reverse ∧ g ≠ assorted ∧
      (apply Desk.host Desk.tell exchangingBack).run ⟨.silent, g⟩ =
        (.ok (exchangingBack.map (·, .applied)), ⟨.silent, assorted⟩) := by
  have tidy : assorted.Tidy := by
    refine ⟨fun kind => ?_, by decide⟩
    cases kind <;> decide
  have hrun : (apply Desk.host Desk.tell exchanging).run ⟨.silent, assorted⟩ =
      (.ok (assorted.record exchanging), ⟨.silent, assorted.after exchanging⟩) :=
    Desk.apply_told (Desk.tell_nobody rfl _)
  have hback : List.Forall₂ Directive.Undoes exchangingBack
      (assorted.record exchanging).applied.reverse := by
    have he : (assorted.record exchanging).applied.reverse =
        [⟨"p", "p", []⟩, ⟨"t", "b", []⟩, ⟨"b", "a", []⟩, ⟨"a", "t", []⟩] := by decide
    rw [he]
    exact .cons ⟨rfl, rfl⟩ (.cons ⟨rfl, rfl⟩ (.cons ⟨rfl, rfl⟩ (.cons ⟨rfl, rfl⟩ .nil)))
  exact ⟨tidy, _, _, hrun, hback, by decide,
    (applied_undone tidy exchanging .silent).2 _ _ hrun _ hback .silent⟩

end Batch
end SymbolRename
