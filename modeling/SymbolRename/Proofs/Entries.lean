import SymbolRename.Entries
import Mathlib.Data.List.Basic
import Mathlib.Data.List.Nodup

/-!
# The last entry of a key

Looking a key up in a table that entries were put into gives the last of these entries, or what the
table had before.
-/

set_option autoImplicit false

namespace SymbolRename.Entries
variable {κ ν : Type}

def Distinct (es : List (κ × ν)) : Prop := (es.map (·.1)).Nodup

theorem nil_distinct : Distinct ([] : List (κ × ν)) := List.nodup_nil

variable [BEq κ]

def last? (k : κ) : List (κ × ν) → Option ν
  | [] => none
  | e :: es => (last? k es).or (if e.1 == k then some e.2 else none)

theorem last?_append (k : κ) (es more : List (κ × ν)) :
    last? k (es ++ more) = (last? k more).or (last? k es) := by
  induction es with
  | nil => rw [List.nil_append, last?, Option.or_none]
  | cons e es ih => rw [List.cons_append, last?, ih, last?, Option.or_assoc]

/-- In tables that are put together, the last one that has a key decides. -/
theorem last?_flatMap {α : Type} (k : κ) (f : α → List (κ × ν)) (as : List α) :
    last? k (as.flatMap f) = as.reverse.findSome? fun a => last? k (f a) := by
  induction as with
  | nil => rfl
  | cons a as ih =>
    rw [List.flatMap_cons, last?_append, ih, List.reverse_cons, List.findSome?_append,
      List.findSome?_singleton]

theorem mem_put {k k' : κ} {v : ν} {es : List (κ × ν)} (h : k' ∈ (put k v es).map (·.1)) :
    k' = k ∨ k' ∈ es.map (·.1) := by
  induction es with
  | nil => exact .inl (List.mem_singleton.mp h)
  | cons e es ih =>
    rw [put] at h
    split at h
    · exact .inr h
    · rcases List.mem_cons.mp h with rfl | h
      · exact .inr List.mem_cons_self
      · exact (ih h).imp_right (List.mem_cons_of_mem _)

theorem putAll_cons (es : List (κ × ν)) (e : κ × ν) (more : List (κ × ν)) :
    putAll es (e :: more) = putAll (put e.1 e.2 es) more := rfl

theorem putAll_append (es xs ys : List (κ × ν)) :
    putAll es (xs ++ ys) = putAll (putAll es xs) ys :=
  List.foldl_append

theorem mem_putAll {k : κ} {es new : List (κ × ν)} (h : k ∈ (putAll es new).map (·.1)) :
    k ∈ es.map (·.1) ∨ k ∈ new.map (·.1) := by
  induction new generalizing es with
  | nil => exact .inl h
  | cons e new ih =>
    rw [List.map_cons, List.mem_cons]
    rcases ih h with hk | hk
    · rcases mem_put hk with hk | hk
      · exact .inr (.inl hk)
      · exact .inl hk
    · exact .inr (.inr hk)

theorem mem_ofList {k : κ} {new : List (κ × ν)} (h : k ∈ (ofList new).map (·.1)) :
    k ∈ new.map (·.1) :=
  (mem_putAll h).resolve_left List.not_mem_nil

/-! ## Keys under another name -/

section Renamed
variable {κ' : Type} [BEq κ'] {f : κ → κ'}

theorem put_renamed {k : κ} {es : List (κ × ν)} (h : ∀ e ∈ es, (f e.1 == f k) = (e.1 == k))
    (v : ν) : (put k v es).map (Prod.map f id) = put (f k) v (es.map (Prod.map f id)) := by
  induction es with
  | nil => rfl
  | cons e es ih =>
    obtain ⟨he, hes⟩ := List.forall_mem_cons.mp h
    rw [put, List.map_cons, put, Prod.map_fst, he]
    split
    · rfl
    · rw [List.map_cons, ih hes]
      rfl

/-- Names that tell keys apart just as the keys themselves do can be given before or after. -/
theorem putAll_renamed {P : κ → Prop} (h : ∀ k k', P k → P k' → (f k == f k') = (k == k'))
    {es new : List (κ × ν)} (hes : ∀ e ∈ es, P e.1) (hnew : ∀ e ∈ new, P e.1) :
    (putAll es new).map (Prod.map f id) =
      putAll (es.map (Prod.map f id)) (new.map (Prod.map f id)) := by
  induction new generalizing es with
  | nil => rfl
  | cons e new ih =>
    obtain ⟨he, hnew⟩ := List.forall_mem_cons.mp hnew
    have hput : ∀ d ∈ put e.1 e.2 es, P d.1 := by
      intro d hd
      rcases mem_put (List.mem_map_of_mem hd) with hk | hk
      · exact hk ▸ he
      · obtain ⟨d', hd', hk⟩ := List.mem_map.mp hk
        exact hk ▸ hes d' hd'
    rw [putAll_cons, ih hput hnew, put_renamed fun d hd => h d.1 e.1 (hes d hd) he]
    rfl

theorem get?_renamed {k : κ} {es : List (κ × ν)} (h : ∀ e ∈ es, (f e.1 == f k) = (e.1 == k)) :
    get? (f k) (es.map (Prod.map f id)) = get? k es := by
  induction es with
  | nil => rfl
  | cons e es ih =>
    obtain ⟨he, hes⟩ := List.forall_mem_cons.mp h
    rw [List.map_cons, get?, Prod.map_fst, he, get?, ih hes]
    rfl

end Renamed

variable [LawfulBEq κ]

theorem mem_of_get? {k : κ} {v : ν} {es : List (κ × ν)} (h : get? k es = some v) :
    (k, v) ∈ es := by
  induction es with
  | nil => cases h
  | cons e es ih =>
    rw [get?] at h
    split at h
    · next hk =>
      obtain rfl := beq_iff_eq.mp hk
      obtain rfl := Option.some.inj h
      exact List.mem_cons_self
    · exact List.mem_cons_of_mem e (ih h)

theorem get?_of_mem_keys {k : κ} {es : List (κ × ν)} (h : k ∈ es.map (·.1)) :
    ∃ v, get? k es = some v := by
  induction es with
  | nil => cases h
  | cons e es ih =>
    rw [get?]
    by_cases hk : (e.1 == k) = true
    · exact ⟨e.2, if_pos hk⟩
    · rw [if_neg hk]
      refine ih ((List.mem_cons.mp h).resolve_left fun he => hk ?_)
      exact beq_iff_eq.mpr he.symm

theorem get?_put (k k' : κ) (v : ν) (es : List (κ × ν)) :
    get? k' (put k v es) = if k == k' then some v else get? k' es := by
  by_cases h : k = k'
  · rw [h, get?_put_self, if_pos BEq.rfl]
  · rw [get?_put_of_ne k k' v es h, if_neg (by simpa using h)]

theorem get?_putAll (k : κ) (es new : List (κ × ν)) :
    get? k (putAll es new) = (last? k new).or (get? k es) := by
  induction new generalizing es with
  | nil => rfl
  | cons e new ih =>
    rw [putAll, List.foldl_cons]
    refine (ih _).trans ?_
    rw [get?_put, last?, Option.or_assoc]
    congr 1
    split <;> rfl

theorem get?_ofList (k : κ) (new : List (κ × ν)) : get? k (ofList new) = last? k new :=
  (get?_putAll k [] new).trans Option.or_none

theorem put_distinct {es : List (κ × ν)} (h : Distinct es) (k : κ) (v : ν) :
    Distinct (put k v es) := by
  induction es with
  | nil => exact List.nodup_singleton k
  | cons e es ih =>
    obtain ⟨hn, hd⟩ := List.nodup_cons.mp h
    rw [put]
    split
    · exact h
    · next hk =>
      refine List.nodup_cons.mpr ⟨fun hm => ?_, ih hd⟩
      rcases mem_put hm with he | hm
      · exact hk (beq_iff_eq.mpr he)
      · exact hn hm

theorem putAll_distinct {es : List (κ × ν)} (h : Distinct es) (new : List (κ × ν)) :
    Distinct (putAll es new) := by
  induction new generalizing es with
  | nil => exact h
  | cons e new ih => exact ih (put_distinct h e.1 e.2)

theorem get?_eq_none {k : κ} {es : List (κ × ν)} (h : k ∉ es.map (·.1)) : get? k es = none := by
  induction es with
  | nil => rfl
  | cons e es ih =>
    rw [List.map_cons, List.mem_cons, not_or] at h
    rw [get?, if_neg (by simpa using Ne.symm h.1)]
    exact ih h.2

theorem last?_distinct {es : List (κ × ν)} (h : Distinct es) (k : κ) :
    last? k es = get? k es := by
  induction es with
  | nil => rfl
  | cons e es ih =>
    obtain ⟨hn, hd⟩ := List.nodup_cons.mp h
    rw [last?, get?, ih hd]
    split
    · next hk =>
      rw [← beq_iff_eq.mp hk, get?_eq_none hn, Option.none_or]
    · rw [Option.or_none]

/-! ## Tables put into tables -/

theorem keys_put_old {k : κ} {es : List (κ × ν)} (h : k ∈ es.map (·.1)) (v : ν) :
    (put k v es).map (·.1) = es.map (·.1) := by
  induction es with
  | nil => cases h
  | cons e es ih =>
    by_cases he : e.1 = k
    · simp [put, he]
    · have hk : k ∈ es.map (·.1) := (List.mem_cons.mp h).resolve_left (Ne.symm he)
      simpa [put, he] using ih hk

theorem put_new {k : κ} {es : List (κ × ν)} (h : k ∉ es.map (·.1)) (v : ν) :
    put k v es = es ++ [(k, v)] := by
  induction es with
  | nil => rfl
  | cons e es ih =>
    rw [List.map_cons, List.mem_cons, not_or] at h
    rw [put, if_neg (by simpa using Ne.symm h.1), ih h.2, List.cons_append]

theorem mem_keys_put (k : κ) (v : ν) (es : List (κ × ν)) : k ∈ (put k v es).map (·.1) := by
  by_cases h : k ∈ es.map (·.1)
  · rwa [keys_put_old h]
  · simp [put_new h]

theorem mem_keys_put_of_mem {k k' : κ} {es : List (κ × ν)} (h : k ∈ es.map (·.1)) (v : ν) :
    k ∈ (put k' v es).map (·.1) := by
  by_cases hk : k' ∈ es.map (·.1)
  · rwa [keys_put_old hk]
  · rw [put_new hk, List.map_append]
    exact List.mem_append_left _ h

/-- The keys of a table are the keys that were put into it, each where it came first. -/
theorem keys_putAll (es new : List (κ × ν)) :
    (putAll es new).map (·.1) =
      es.map (·.1) ++ ((new.map (·.1)).filter (!(es.map (·.1)).contains ·)).eraseDups := by
  induction new generalizing es with
  | nil => simp [putAll]
  | cons e new ih =>
    rw [putAll_cons, ih, List.map_cons]
    by_cases h : e.1 ∈ es.map (·.1)
    · rw [keys_put_old h, List.filter_cons_of_neg (by simpa using h)]
    · have hothers : (new.map (·.1)).filter (!(es.map (·.1) ++ [e.1]).contains ·) =
          ((new.map (·.1)).filter (!(es.map (·.1)).contains ·)).filter (!· == e.1) := by
        rw [List.filter_filter]
        refine List.filter_congr fun k _ => ?_
        rw [Bool.eq_iff_iff]
        simp [and_comm]
      rw [put_new h, List.map_append, List.map_singleton, hothers,
        List.filter_cons_of_pos (by simpa using h), List.eraseDups_cons, List.append_assoc]
      rfl

theorem keys_ofList (new : List (κ × ν)) :
    (ofList new).map (·.1) = (new.map (·.1)).eraseDups := by
  rw [ofList, keys_putAll]
  simp

theorem put_put_self (k : κ) (v w : ν) (es : List (κ × ν)) :
    put k v (put k w es) = put k v es := by
  induction es with
  | nil => simp [put]
  | cons e es ih =>
    by_cases h : e.1 == k
    · simp [put, h]
    · simp [put, h, ih]

/-- A key that is there keeps its place whatever comes behind it. -/
theorem put_comm {k k' : κ} (hn : k ≠ k') {es : List (κ × ν)} (hk : k ∈ es.map (·.1)) (v w : ν) :
    put k v (put k' w es) = put k' w (put k v es) := by
  induction es with
  | nil => cases hk
  | cons e es ih =>
    by_cases he : e.1 = k
    · simp [put, he, hn]
    · have hk : k ∈ es.map (·.1) := (List.mem_cons.mp hk).resolve_left (Ne.symm he)
      by_cases he' : e.1 = k'
      · simp [put, he', Ne.symm hn]
      · simp [put, he, he', ih hk]

theorem put_putAll {k : κ} {es new : List (κ × ν)} (hk : k ∈ es.map (·.1))
    (hn : k ∉ new.map (·.1)) (v : ν) : put k v (putAll es new) = putAll (put k v es) new := by
  induction new generalizing es with
  | nil => rfl
  | cons e new ih =>
    rw [List.map_cons, List.mem_cons, not_or] at hn
    rw [putAll_cons, ih (mem_keys_put_of_mem hk e.2) hn.2, put_comm hn.1 hk]
    rfl

/-- What is put into a table last can be put in before the table is put into another one. -/
theorem putAll_put {new : List (κ × ν)} (hd : Distinct new) (es : List (κ × ν)) (k : κ) (v : ν) :
    putAll es (put k v new) = put k v (putAll es new) := by
  induction new generalizing es with
  | nil => rfl
  | cons e new ih =>
    obtain ⟨hn, hd⟩ := List.nodup_cons.mp hd
    by_cases h : e.1 = k
    · subst h
      rw [put, if_pos BEq.rfl, putAll_cons, putAll_cons, put_putAll (mem_keys_put _ _ _) hn,
        put_put_self]
    · rw [put, if_neg (by simpa using h), putAll_cons, putAll_cons, ih hd]

theorem putAll_putAll {new : List (κ × ν)} (hd : Distinct new) (es more : List (κ × ν)) :
    putAll es (putAll new more) = putAll (putAll es new) more := by
  induction more generalizing new with
  | nil => rfl
  | cons e more ih => rw [putAll_cons, ih (put_distinct hd _ _), putAll_put hd, putAll_cons]

/-- Entries can be put into a table of their own before they are put into another one. -/
theorem putAll_ofList (es new : List (κ × ν)) : putAll es (ofList new) = putAll es new :=
  putAll_putAll nil_distinct es new

theorem putAll_distinct_append {es new : List (κ × ν)} (hd : Distinct (es ++ new)) :
    putAll es new = es ++ new := by
  induction new generalizing es with
  | nil => exact (List.append_nil es).symm
  | cons e new ih =>
    have hs : es ++ e :: new = es ++ [e] ++ new := by simp
    have hn : e.1 ∉ es.map (·.1) := by
      intro hm
      rw [Distinct, List.map_append, List.nodup_append] at hd
      exact hd.2.2 _ hm _ (List.mem_map_of_mem List.mem_cons_self) rfl
    rw [hs] at hd
    rw [putAll_cons, put_new hn, ih hd, hs]

theorem ofList_distinct {es : List (κ × ν)} (hd : Distinct es) : ofList es = es :=
  putAll_distinct_append hd

end SymbolRename.Entries
