import SymbolRename.Command.Run
import SymbolRename.Proofs.Command.Output
import SymbolRename.Proofs.Document.File
import SymbolRename.Proofs.Files.Overwrite

/-!
# Keeping a renamed function

When a pass is over, the report is printed and the function is kept. That touches no file but the
one of the document, which then holds the function. It comes to its end if what is shown on the way
can be shown.
-/

set_option autoImplicit false

namespace SymbolRename

/-! ## Saving over a file -/

namespace Document
open Files World

/-- A path leads to the file at a place, seen from a directory that stands. -/
structure Opens (p : Path) (place : Place) (w : World) : Prop where
  standing : w.files.Standing w.here
  found : ∃ bytes, w.files.find w.here p = .ok (.file place bytes)

/-- Between two worlds nothing changes but the file at a place, and in the end the path leads to the
document of a function. -/
structure Kept (p : Path) (f : Function) (place : Place) (w v : World) : Prop where
  apart : ∀ q, q ≠ place → v.files.node? q = w.files.node? q
  current : currentText? v.files w.here p = some (text (ofFunction f))

section Consulting
variable {p : Path} {f : Function} {place : Place} {u v w : World}

theorem Opens.consults (h : Opens p place w) (hc : Consults w v) : Opens p place v := by
  obtain ⟨c, j, rfl⟩ := hc
  exact ⟨h.standing, h.found⟩

theorem Kept.before (hc : Consults w v) (h : Kept p f place v u) : Kept p f place w u := by
  obtain ⟨c, j, rfl⟩ := hc
  exact ⟨h.apart, h.current⟩

theorem Kept.behind (h : Kept p f place w v) (hc : Consults v u) : Kept p f place w u := by
  obtain ⟨c, j, rfl⟩ := hc
  exact ⟨h.apart, h.current⟩

end Consulting

theorem writeIfNew_present {t : Tree} {here : Place} {p : Path} (h : t.present here p = .ok true)
    (s : List Char) : writeIfNew t here p s =
      if currentText? t here p = some s then .ok (false, t)
      else (t.writeDeep here p (Text.Utf8.encode s)).map (true, ·) := by
  rw [writeIfNew, h]
  by_cases hc : currentText? t here p = some s
  · rw [if_pos hc, hc]
    exact if_pos (by simp)
  · rw [if_neg hc]
    refine (if_neg (by simp [hc])).trans ?_
    cases t.writeDeep here p (Text.Utf8.encode s) <;> rfl

theorem writeIfNew_over {t : Tree} {here place : Place} {p : Path} {bytes : List UInt8}
    {s : List Char} (hs : t.Standing here) (h : t.find here p = .ok (.file place bytes))
    (hr : '\r' ∉ s) :
    ∃ u, writeIfNew t here p s = .ok (decide (currentText? t here p ≠ some s), u) ∧
      (∀ q, q ≠ place → u.node? q = t.node? q) ∧ currentText? u here p = some s := by
  have hpresent := Tree.present_of_find h
  rw [writeIfNew_present hpresent]
  by_cases hc : currentText? t here p = some s
  · refine ⟨t, ?_, fun _ _ => rfl, hc⟩
    rw [if_pos hc, decide_eq_false (not_not_intro hc)]
  · have hw := Tree.writeDeep_over hs h (Text.Utf8.encode s)
    obtain ⟨-, hf, -⟩ := Tree.place_of_file h
    have hroot : place ≠ [] := by
      rintro rfl
      rw [Tree.node?_root] at hf
      cases hf
    refine ⟨t.put place (.file (Text.Utf8.encode s)), ?_, fun q hq => ?_, ?_⟩
    · rw [if_neg hc, hw, decide_eq_true hc]
      rfl
    · rw [Tree.node?_put t hroot, if_neg hq]
    · obtain ⟨_, hn⟩ := Tree.find_writeDeep hs (Tree.fitsLength_of_present hpresent) hw
      rw [currentText_of_find hn (Text.Utf8.encode_decodes s), Text.unifyBreaks_self hr]

def Holds (w : World) (p : Path) (f : Function) : Prop :=
  currentText? w.files w.here p = some (text (ofFunction f))

instance (w : World) (p : Path) (f : Function) : Decidable (Holds w p f) :=
  inferInstanceAs (Decidable (currentText? w.files w.here p = some (text (ofFunction f))))

theorem save_over {w : World} {place : Place} {p : Path} (h : Opens p place w) (f : Function) :
    ∃ u, (save p f).run w = (.ok (decide (¬ Holds w p f)), { w with files := u }) ∧
      Kept p f place w { w with files := u } := by
  obtain ⟨bytes, hfind⟩ := h.found
  obtain ⟨u, hw, ha, hc⟩ := writeIfNew_over h.standing hfind fun hm =>
    (text_lasting f _ hm).2 rfl
  exact ⟨u, store_run (write_ofFunction f) hw, ha, hc⟩

end Document

/-! ## Keeping the function -/

namespace Command
open Files World Message SymbolRename.Task
open Document (Kept Opens)
open Text (IsEncodable)

section Keeping
variable {table : Table} {w : World} {place : Place} {p : Path}

theorem keep_dry (p : Path) (f : Function) : Keeps Consults (keep p f false) := tell_keeps _

theorem keep_run {b : Bool} {f : Function} {v : World}
    (h : (Document.save p f).run w = (.ok b, v)) :
    (keep p f true).run w = (tell (if b then .saved p else .unchanged p)).run v := by
  rw [keep, if_neg (by simp), run_bind_ok h]
  cases b <;> rfl

theorem keep_kept (h : Opens p place w) (f : Function) :
    Kept p f place w ((keep p f true).run w).2 := by
  obtain ⟨u, hr, hk⟩ := Document.save_over h f
  rw [keep_run hr]
  exact hk.behind (tell_keeps _ _)

theorem settled_files (h : Settled table w) (u : Tree) : Settled table { w with files := u } :=
  ⟨h.listening, h.catalogued, h.english, h.native⟩

theorem keep_ok (ht : Covers table) (hw : Settled table w) (h : Opens p place w)
    (hp : IsEncodable p.text) (f : Function) (mayWrite : Bool) :
    ((keep p f mayWrite).run w).1 = .ok ⟨⟩ := by
  cases mayWrite with
  | false => exact (tell_ready ht (.inr hw) (dryRun_sayable hp)).1
  | true =>
    obtain ⟨u, hr, -⟩ := Document.save_over h f
    have hn (b : Bool) : Sayable (if b then .saved p else .unchanged p) := by
      cases b
      · exact unchanged_sayable p
      · exact saved_sayable hp
    rw [keep_run hr]
    exact (tell_ready ht (.inr (settled_files hw u)) (hn _)).1

end Keeping

/-! ## After the pass -/

def finish (p : Path) (noReport mayWrite : Bool) (pass : Pass) (g : Function) : Act Nat := do
  if !noReport then print pass.report
  if !pass.record.applied.isEmpty then keep p g mayWrite
  return exitCode pass.record.success

section Finishing
variable {table : Table} {w : World} {place : Place} {p : Path}
variable {noReport mayWrite : Bool} {pass : Pass} {g : Function}

def showReport (noReport : Bool) (pass : Pass) : Act Unit :=
  if noReport then pure ⟨⟩ else print pass.report

def keepApplied (p : Path) (mayWrite : Bool) (pass : Pass) (g : Function) : Act Unit :=
  if pass.record.applied = [] then pure ⟨⟩ else keep p g mayWrite

theorem finish_run (p : Path) (noReport mayWrite : Bool) (pass : Pass) (g : Function) (w : World) :
    (finish p noReport mayWrite pass g).run w =
      match (showReport noReport pass).run w with
      | (.error e, v) => (.error e, v)
      | (.ok _, v) => (((keepApplied p mayWrite pass g).run v).1.map fun _ =>
          exitCode pass.record.success, ((keepApplied p mayWrite pass g).run v).2) := by
  have he : finish p noReport mayWrite pass g = showReport noReport pass >>= fun _ =>
      keepApplied p mayWrite pass g >>= fun _ => pure (exitCode pass.record.success) := by
    rw [finish, showReport, keepApplied]
    cases noReport <;> cases pass.record.applied <;> rfl
  rw [he, run_bind]
  rcases (showReport noReport pass).run w with ⟨e | u, v⟩
  · rfl
  · exact run_bind_pure _ _ v

theorem showReport_keeps (noReport : Bool) (pass : Pass) :
    Keeps Consults (showReport noReport pass) := by
  rw [showReport]
  split
  · exact keeps_pure _
  · exact (print_keeps _).mono fun _ _ => Speaks.consults

theorem showReport_ok (hw : Settled table w) (hr : IsEncodable pass.report ∨ noReport = true) :
    ∃ v, (showReport noReport pass).run w = (.ok ⟨⟩, v) ∧ Settled table v := by
  rw [showReport]
  split
  · exact ⟨w, rfl, hw⟩
  · next hn =>
    obtain ⟨ho, hv⟩ := onOutput_settled hw (.print pass.report) (hr.resolve_right hn)
    exact ⟨_, Prod.ext ho rfl, hv⟩

theorem keepApplied_keeps (p : Path) (mayWrite : Bool) (pass : Pass) (g : Function) (w : World) :
    Consults w ((keepApplied p mayWrite pass g).run w).2 ∨
      (pass.record.applied ≠ [] ∧ mayWrite = true) := by
  rw [keepApplied]
  split
  · exact .inl (refl_of Consults w)
  · next ha =>
    cases mayWrite with
    | false => exact .inl (keep_dry p g w)
    | true => exact .inr ⟨ha, rfl⟩

theorem keepApplied_kept (h : Opens p place w) (ha : pass.record.applied ≠ [])
    (hm : mayWrite = true) : Kept p g place w ((keepApplied p mayWrite pass g).run w).2 := by
  rw [keepApplied, if_neg ha, hm]
  exact keep_kept h g

theorem keepApplied_ok (ht : Covers table) (hw : Settled table w) (h : Opens p place w)
    (hp : IsEncodable p.text ∨ pass.record.applied = []) :
    ((keepApplied p mayWrite pass g).run w).1 = .ok ⟨⟩ := by
  rw [keepApplied]
  split
  · rfl
  · next ha => exact keep_ok ht hw h (hp.resolve_right ha) g mayWrite

/-- A file is touched in the end only to keep a function, and then it holds this function. -/
theorem finish_kept (noReport mayWrite : Bool) (pass : Pass) (g : Function) (h : Opens p place w) :
    Consults w ((finish p noReport mayWrite pass g).run w).2 ∨
      (pass.record.applied ≠ [] ∧ mayWrite = true ∧
        Kept p g place w ((finish p noReport mayWrite pass g).run w).2) := by
  rw [finish_run]
  have hc := showReport_keeps noReport pass w
  rcases hr : (showReport noReport pass).run w with ⟨e | u, v⟩
  · rw [hr] at hc
    exact .inl hc
  · rw [hr] at hc
    rcases keepApplied_keeps p mayWrite pass g v with hv | ⟨ha, hm⟩
    · exact .inl (trans_of Consults hc hv)
    · exact .inr ⟨ha, hm, .before hc (keepApplied_kept (h.consults hc) ha hm)⟩

theorem finish_dry (p : Path) (noReport : Bool) (pass : Pass) (g : Function) :
    Keeps Consults (finish p noReport false pass g) := by
  intro w
  rw [finish_run]
  have hc := showReport_keeps noReport pass w
  rcases hr : (showReport noReport pass).run w with ⟨e | u, v⟩
  · rw [hr] at hc
    exact hc
  · rw [hr] at hc
    exact trans_of Consults hc ((keepApplied_keeps p false pass g v).resolve_right (by simp))

theorem finish_ok (pass : Pass) (g : Function) (ht : Covers table) (hw : Settled table w)
    (h : Opens p place w) (hr : IsEncodable pass.report ∨ noReport = true)
    (hp : IsEncodable p.text ∨ pass.record.applied = []) :
    ((finish p noReport mayWrite pass g).run w).1 = .ok (exitCode pass.record.success) ∧
      (pass.record.applied ≠ [] → mayWrite = true →
        Kept p g place w ((finish p noReport mayWrite pass g).run w).2) := by
  obtain ⟨v, hrun, hv⟩ := showReport_ok hw hr
  have hc := showReport_keeps noReport pass w
  rw [hrun] at hc
  have hopens := h.consults hc
  rw [finish_run, hrun]
  dsimp only
  rw [keepApplied_ok ht hv hopens hp]
  exact ⟨rfl, fun ha hm => .before hc (keepApplied_kept hopens ha hm)⟩

/-- A path that cannot be encoded stops a run that says it leaves the document alone. -/
theorem finish_unencodable (g : Function) (ht : Covers table) (hw : Settled table w)
    (hr : IsEncodable pass.report) (ha : pass.record.applied ≠ []) (hp : ¬ IsEncodable p.text) :
    ((finish p noReport false pass g).run w).1 = .error .unencodable := by
  obtain ⟨v, hrun, hv⟩ := showReport_ok hw (.inl hr)
  have hn : ((tell (.dryRun p)).run v).1 = .error .unencodable :=
    tell_unencodable ht (.inr hv) (dryRun_form p) rfl
      (show Entries.get? ("path" : Text) _ = some (Template.Argument.path p) from rfl) hp
  rw [finish_run, hrun]
  dsimp only
  rw [keepApplied, if_neg ha]
  change ((tell (.dryRun p)).run v).1.map _ = _
  rw [hn]
  rfl

end Finishing
end Command
end SymbolRename
