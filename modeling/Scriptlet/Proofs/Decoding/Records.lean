-- Which documents are a record with some contents: the array of all of them, or an object
-- of those that are there. An object may hold its fields in any order and other fields
-- between them, but no field twice.
import Mathlib.Data.List.Forall2
import Mathlib.Data.List.Nodup
import Scriptlet.Syntax.Decode

namespace Scriptlet

/-! ## Documents of a record -/

namespace Json

/-- The fields of a record that are there, in the order of the names. -/
def present : List String → List (Option Json) → List (Text × Json)
  | name :: names, some v :: contents => (.whole name, v) :: present names contents
  | _ :: names, none :: contents => present names contents
  | _, _ => []

/-- Whether a document is a record with these contents of the fields that `names` names. -/
inductive IsRecord (names : List String) : Json → List (Option Json) → Prop
  /-- All contents in the order of the names. -/
  | items {items : List Json} : items.length = names.length →
    IsRecord names (.arr items) (items.map some)
  /-- The fields that are there, in any order and with others between them. -/
  | fields {fields others : List (Text × Json)} {contents : List (Option Json)} :
    contents.length = names.length → (∀ f ∈ others, ∃ name, name ∉ names ∧ f.1 = .whole name) →
    fields.Perm (present names contents ++ others) → IsRecord names (.obj fields) contents

end Json

namespace Decode

open Json (present)

theorem mapM_eq_some_iff {α β : Type} {f : α → Option β} {as : List α} {bs : List β} :
    as.mapM f = some bs ↔ List.Forall₂ (fun a b => f a = some b) as bs := by
  induction as generalizing bs with
  | nil => simp [eq_comm]
  | cons a as ih =>
    simp only [List.mapM_cons, Option.bind_eq_bind, Option.bind_eq_some_iff, Option.pure_def,
      Option.some.injEq, List.forall₂_cons_left_iff, ih]
    grind

theorem field?_eq_some_iff {fields : List (Json.Text × Json)} {name : String}
    {content : Option Json} :
    field? fields name = some content ↔ contentsOf name fields = content.toList := by
  unfold field?
  split
  · next h => cases content <;> simp [h]
  · next v h => cases content <;> simp [h]
  · next hnil hone => cases content <;> simp_all

/-! ## The fields of an object -/

theorem contentsOf_append (name : String) (fields fields' : List (Json.Text × Json)) :
    contentsOf name (fields ++ fields') = contentsOf name fields ++ contentsOf name fields' := by
  simp [contentsOf]

theorem contentsOf_eq_nil_iff {name : String} {fields : List (Json.Text × Json)} :
    contentsOf name fields = [] ↔ ∀ f ∈ fields, f.1 ≠ .whole name := by
  simp [contentsOf]

theorem contentsOf_perm {name : String} {fields fields' : List (Json.Text × Json)}
    (h : fields.Perm fields') : (contentsOf name fields).Perm (contentsOf name fields') :=
  (h.filter _).map _

theorem contentsOf_map_self (name : String) (vs : List Json) :
    contentsOf name (vs.map fun v => (.whole name, v)) = vs := by
  induction vs with
  | nil => rfl
  | cons v vs ih =>
    unfold contentsOf at ih ⊢
    simpa using ih

theorem contentsOf_map_of_ne {name name' : String} (h : name' ≠ name) (vs : List Json) :
    contentsOf name (vs.map fun v => (.whole name', v)) = [] := by
  simpa [contentsOf] using fun _ _ => h

theorem present_cons (name : String) (names : List String) (content : Option Json)
    (contents : List (Option Json)) : present (name :: names) (content :: contents) =
      content.toList.map (fun v => (.whole name, v)) ++ present names contents := by
  cases content <;> rfl

theorem mem_present {names : List String} {contents : List (Option Json)} {f : Json.Text × Json}
    (h : f ∈ present names contents) : ∃ name ∈ names, f.1 = .whole name := by
  fun_induction present names contents with
  | case1 name names v contents ih =>
    rcases List.mem_cons.1 h with rfl | h
    · exact ⟨name, .head _, rfl⟩
    · obtain ⟨name', hname, hf⟩ := ih h
      exact ⟨name', .tail _ hname, hf⟩
  | case2 name names contents ih =>
    obtain ⟨name', hname, hf⟩ := ih h
    exact ⟨name', .tail _ hname, hf⟩
  | case3 => cases h

theorem contentsOf_present_of_notMem {name : String} {names : List String} (h : name ∉ names)
    (contents : List (Option Json)) : contentsOf name (present names contents) = [] := by
  rw [contentsOf_eq_nil_iff]
  intro f hf heq
  obtain ⟨name', hname, hf⟩ := mem_present hf
  rw [heq] at hf
  cases hf
  exact h hname

/-- Next to fields of other names, each name has the content that was put there for it. -/
theorem contentsOf_present {names : List String} {contents : List (Option Json)}
    {before : List (Json.Text × Json)} (hnodup : names.Nodup)
    (hlength : contents.length = names.length)
    (hbefore : ∀ name ∈ names, contentsOf name before = []) :
    List.Forall₂ (fun name content =>
      contentsOf name (before ++ present names contents) = content.toList) names contents := by
  induction names generalizing contents before with
  | nil =>
    rw [List.eq_nil_of_length_eq_zero hlength]
    exact .nil
  | cons name names ih =>
    obtain ⟨content, contents, rfl⟩ := List.exists_cons_of_length_eq_add_one hlength
    obtain ⟨hname, hnodup⟩ := List.nodup_cons.1 hnodup
    obtain ⟨hhead, hbefore⟩ := List.forall_mem_cons.1 hbefore
    rw [present_cons]
    constructor
    · rw [contentsOf_append, contentsOf_append, hhead, contentsOf_map_self,
        contentsOf_present_of_notMem hname, List.nil_append, List.append_nil]
    · rw [← List.append_assoc]
      refine ih hnodup (Nat.succ.inj hlength) fun name' hname' => ?_
      have hne : name ≠ name' := by
        rintro rfl
        exact hname hname'
      rw [contentsOf_append, hbefore name' hname', contentsOf_map_of_ne hne, List.append_nil]

theorem filter_eq_map_contentsOf (name : String) (fields : List (Json.Text × Json)) :
    fields.filter (fun f => f.1 = .whole name) =
      (contentsOf name fields).map fun v => (.whole name, v) := by
  unfold contentsOf
  rw [List.map_map]
  refine (List.map_id _).symm.trans (List.map_congr_left fun f hf => ?_)
  have hname : f.1 = .whole name := by simpa using (List.mem_filter.1 hf).2
  exact Prod.ext hname rfl

/-- The fields that have one of some names are those with the contents of the names. -/
theorem perm_present {names : List String} {contents : List (Option Json)}
    {fields : List (Json.Text × Json)} (hnodup : names.Nodup)
    (h : List.Forall₂ (fun name content => contentsOf name fields = content.toList)
      names contents) :
    (fields.filter fun f => f.1 ∈ names.map .whole).Perm (present names contents) := by
  induction h with
  | nil => simp [present]
  | @cons name content names contents hcontent _ ih =>
    obtain ⟨hname, hnodup⟩ := List.nodup_cons.1 hnodup
    have hfirst : (fields.filter fun f => f.1 ∈ (name :: names).map .whole).filter
        (fun f => f.1 = .whole name) = fields.filter fun f => f.1 = .whole name := by
      rw [List.filter_filter]
      refine List.filter_congr fun f _ => ?_
      simp +contextual
    have hothers : (fields.filter fun f => f.1 ∈ (name :: names).map .whole).filter
        (fun f => !decide (f.1 = .whole name)) = fields.filter fun f => f.1 ∈ names.map .whole := by
      rw [List.filter_filter]
      refine List.filter_congr fun f _ => ?_
      have hne : f.1 ∈ names.map .whole → f.1 ≠ .whole name := by
        rintro hf heq
        obtain ⟨name', hname', hwhole⟩ := List.mem_map.1 (heq ▸ hf)
        cases hwhole
        exact hname hname'
      rw [Bool.eq_iff_iff, Bool.and_eq_true, decide_eq_true_eq, decide_eq_true_eq, List.map_cons,
        List.mem_cons, Bool.not_eq_true', decide_eq_false_iff_not]
      exact ⟨fun h => h.2.resolve_left h.1, fun h => ⟨hne h, .inr h⟩⟩
    rw [present_cons, ← hcontent, ← filter_eq_map_contentsOf, ← hfirst]
    refine (List.filter_append_perm (fun f => decide (f.1 = .whole name)) _).symm.trans ?_
    rw [hothers]
    exact (ih hnodup).append_left _

/-! ## Reading a record -/

theorem exists_of_isText {t : Json.Text} (h : isText t = true) : ∃ s, t = .whole s := by
  cases t with
  | whole s => exact ⟨s, rfl⟩
  | broken literal => cases h

theorem isRecord_of_record? {names : List String} (hnodup : names.Nodup)
    {contents : List (Option Json)} {j : Json} (h : record? names j = some contents) :
    j.IsRecord names contents := by
  unfold record? at h
  split at h
  · next fields =>
    split at h
    · next htexts =>
      have hcontents : List.Forall₂ (fun name content =>
          contentsOf name fields = content.toList) names contents :=
        (mapM_eq_some_iff.1 h).imp fun _ _ => field?_eq_some_iff.1
      refine .fields hcontents.length_eq.symm (fun f hf => ?_)
        ((List.filter_append_perm (fun f => decide (f.1 ∈ names.map .whole)) fields).symm.trans
          ((perm_present hnodup hcontents).append_right _))
      obtain ⟨hfield, hnone⟩ := List.mem_filter.1 hf
      obtain ⟨name, hname⟩ := exists_of_isText (List.all_eq_true.1 htexts f hfield)
      refine ⟨name, fun hmem => ?_, hname⟩
      have hnotMem : f.1 ∉ names.map .whole := by simpa using hnone
      exact hnotMem (hname ▸ List.mem_map.2 ⟨name, hmem, rfl⟩)
    · cases h
  · split at h
    · next hlength =>
      cases h
      exact .items hlength
    · cases h
  · cases h

/-- The fields of an object that are there, and others, have their contents. -/
theorem mapM_field?_of_perm {names : List String} (hnodup : names.Nodup)
    {contents : List (Option Json)} (hlength : contents.length = names.length)
    {fields others : List (Json.Text × Json)} (hothers : ∀ name ∈ names,
      contentsOf name others = []) (h : fields.Perm (present names contents ++ others)) :
    names.mapM (field? fields) = some contents := by
  rw [mapM_eq_some_iff]
  refine (contentsOf_present hnodup hlength hothers).imp fun name content hcontent => ?_
  have hperm : (contentsOf name fields).Perm content.toList :=
    hcontent ▸ contentsOf_perm (h.trans List.perm_append_comm)
  rw [field?_eq_some_iff]
  cases content with
  | none => exact hperm.eq_nil
  | some v => exact List.perm_singleton.1 hperm

theorem record?_of_isRecord {names : List String} (hnodup : names.Nodup)
    {contents : List (Option Json)} {j : Json} (h : j.IsRecord names contents) :
    record? names j = some contents := by
  cases h with
  | items hlength => exact if_pos hlength
  | @fields fields others _ hlength hothers hfields =>
    have htexts : fields.all (fun f => isText f.1) = true := by
      rw [List.all_eq_true]
      intro f hf
      have hwhole : ∃ name, f.1 = .whole name := by
        rcases List.mem_append.1 (hfields.mem_iff.1 hf) with hf | hf
        · obtain ⟨name, -, hname⟩ := mem_present hf
          exact ⟨name, hname⟩
        · obtain ⟨name, -, hname⟩ := hothers f hf
          exact ⟨name, hname⟩
      obtain ⟨name, hname⟩ := hwhole
      rw [hname]
      rfl
    have hnone : ∀ name ∈ names, contentsOf name others = [] := by
      intro name hname
      rw [contentsOf_eq_nil_iff]
      intro f hf heq
      obtain ⟨name', hname', hf⟩ := hothers f hf
      rw [heq] at hf
      cases hf
      exact hname' hname
    exact (if_pos htexts).trans (mapM_field?_of_perm hnodup hlength hnone hfields)

theorem record?_eq_some_iff {names : List String} (hnodup : names.Nodup)
    {contents : List (Option Json)} {j : Json} :
    record? names j = some contents ↔ j.IsRecord names contents :=
  ⟨isRecord_of_record? hnodup, record?_of_isRecord hnodup⟩

end Decode

end Scriptlet
