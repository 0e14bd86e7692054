import SymbolRename.Proofs.Batch.Carry
import SymbolRename.Proofs.Batch.Record
import Mathlib.Data.List.Forall2

/-!
# What a batch makes of the symbols

A batch neither adds nor takes away a symbol, nor moves one to another place or collection. A symbol
keeps its source. Its name changes only if a directive asks for the name it has at first, and then
it ends with the new name of some directive that was applied.
-/

set_option autoImplicit false

namespace SymbolRename

/-- What may become of a symbol when some directives are asked for and some of them applied. -/
structure Symbol.Becomes (asked applied : List Directive) (s t : Symbol) : Prop where
  source : t.source = s.source
  name : t.name = s.name ∨ ∃ d ∈ applied, t.name = d.newName
  kept : (∀ d ∈ asked, d.oldName ≠ s.name) → t.name = s.name

/-- What may become of a function: each of its symbols is where it was. -/
structure Function.Keeps (asked applied : List Directive) (f g : Function) : Prop where
  name : g.name = f.name
  symbols : ∀ kind, List.Forall₂ (Symbol.Becomes asked applied) (f.symbols kind) (g.symbols kind)

theorem forall₂_set {α : Type} {R : α → α → Prop} (hr : ∀ a, R a a) {as : List α} {i : ℕ}
    {a b : α} (ha : as[i]? = some a) (hb : R a b) : List.Forall₂ R as (as.set i b) := by
  induction as generalizing i with
  | nil => simp at ha
  | cons c as ih =>
    cases i with
    | zero =>
      cases ha
      exact .cons hb (List.forall₂_same.mpr fun x _ => hr x)
    | succ i => exact .cons (hr c) (ih ha)

theorem forall₂_trans {α : Type} {R S T : α → α → Prop} (h : ∀ a b c, R a b → S b c → T a c)
    {as bs cs : List α} (hr : List.Forall₂ R as bs) (hs : List.Forall₂ S bs cs) :
    List.Forall₂ T as cs := by
  induction hr generalizing cs with
  | nil =>
    cases hs
    exact .nil
  | cons hab _ ih =>
    cases hs with
    | cons hbc hs => exact .cons (h _ _ _ hab hbc) (ih hs)

namespace Symbol

theorem becomes_refl (asked applied : List Directive) (s : Symbol) : Becomes asked applied s s :=
  ⟨rfl, .inl rfl, fun _ => rfl⟩

theorem becomes_trans {asked applied asked' applied' : List Directive} {s t u : Symbol}
    (h : Becomes asked applied s t) (h' : Becomes asked' applied' t u) :
    Becomes (asked ++ asked') (applied ++ applied') s u := by
  have hname : u.name = s.name ∨ ∃ d ∈ applied ++ applied', u.name = d.newName := by
    rcases h'.name with hu | ⟨d, hd, hu⟩
    · rcases h.name with ht | ⟨d, hd, ht⟩
      · exact .inl (hu.trans ht)
      · exact .inr ⟨d, List.mem_append_left _ hd, hu.trans ht⟩
    · exact .inr ⟨d, List.mem_append_right _ hd, hu⟩
  have hkept : (∀ d ∈ asked ++ asked', d.oldName ≠ s.name) → u.name = s.name := by
    intro hn
    obtain ⟨hl, hr⟩ := List.forall_mem_append.mp hn
    have ht : t.name = s.name := h.kept hl
    exact (h'.kept fun d hd => ht ▸ hr d hd).trans ht
  exact ⟨h'.source.trans h.source, hname, hkept⟩

end Symbol

namespace Function

theorem keeps_refl (asked applied : List Directive) (f : Function) : Keeps asked applied f f :=
  ⟨rfl, fun _ => List.forall₂_same.mpr fun s _ => s.becomes_refl asked applied⟩

theorem keeps_trans {asked applied asked' applied' : List Directive} {f g k : Function}
    (h : Keeps asked applied f g) (h' : Keeps asked' applied' g k) :
    Keeps (asked ++ asked') (applied ++ applied') f k := by
  refine ⟨h'.name.trans h.name, fun kind => ?_⟩
  apply forall₂_trans _ (h.symbols kind) (h'.symbols kind)
  exact fun _ _ _ hs ht => Symbol.becomes_trans hs ht

theorem place_keeps {f : Function} {h : Handle} {s : Symbol} {d : Directive}
    (hs : f.symbol? h = some s) (ho : s.name = d.oldName) :
    Keeps [d] [d] f (f.place h ⟨d.newName, s.source⟩) := by
  have hb : Symbol.Becomes [d] [d] s ⟨d.newName, s.source⟩ :=
    ⟨rfl, .inr ⟨d, by simp, rfl⟩, fun hn => absurd ho.symm (hn d (by simp))⟩
  refine ⟨name_place f h _, fun kind => ?_⟩
  rw [symbols_place]
  split
  · next hk =>
    subst hk
    exact forall₂_set (Symbol.becomes_refl _ _) hs hb
  · exact List.forall₂_same.mpr fun t _ => t.becomes_refl _ _

theorem carry_kept (f : Function) (d : Directive) :
    Keeps [d] (Batch.Record.applied [(d, (f.carry d).1)]) f (f.carry d).2 := by
  have hc := f.carry_carries d
  generalize f.carry d = c at hc
  cases hc with
  | applied _ symbol name => exact place_keeps symbol name
  | _ => exact keeps_refl _ _ f

theorem record_directives (f : Function) (ds : List Directive) :
    (f.record ds).map (·.1) = ds := by
  induction ds generalizing f with
  | nil => rfl
  | cons d ds ih => exact congrArg (d :: ·) (ih _)

theorem after_kept (f : Function) (ds : List Directive) :
    Keeps ds (f.record ds).applied f (f.after ds) := by
  induction ds generalizing f with
  | nil => exact keeps_refl _ _ f
  | cons d ds ih =>
    have hr : (f.record (d :: ds)).applied =
        Batch.Record.applied [(d, (f.carry d).1)] ++ ((f.carry d).2.record ds).applied :=
      Batch.Record.applied_append [_] _
    rw [hr]
    exact keeps_trans (carry_kept f d) (ih _)

/-- More directives may be asked for than have been looked at. -/
theorem keeps_mono {asked asked' applied : List Directive} {f g : Function}
    (h : Keeps asked applied f g) (ha : asked ⊆ asked') : Keeps asked' applied f g :=
  ⟨h.name, fun kind => (h.symbols kind).imp fun _ _ hb =>
    ⟨hb.source, hb.name, fun hn => hb.kept fun d hd => hn d (ha hd)⟩⟩

/-- While all new names can be given, a directive is refused only for its name being taken. -/
theorem record_refused {f : Function} {ds : List Directive}
    (hg : ∀ d ∈ ds, isGivable d.newName = true) {d : Directive} {kind : SymbolKind} {reason : Text}
    (hm : (d, .rejected kind reason) ∈ f.record ds) :
    reason = (Refusal.taken d.newName f.name).message := by
  induction ds generalizing f with
  | nil => cases hm
  | cons e ds ih =>
    rcases List.mem_cons.mp hm with he | hm
    · obtain ⟨rfl, hr⟩ := Prod.mk.inj he
      have hc := f.carry_carries d
      generalize f.carry d = c at hc hr
      cases hc with
      | taken => cases hr; rfl
      | invalid _ bad =>
        rw [hg d (by simp)] at bad
        cases bad
      | _ => cases hr
    · rw [ih (fun d hd => hg d (by simp [hd])) hm, f.name_carry e]

end Function
end SymbolRename
