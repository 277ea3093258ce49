-- How values are shown. A list is shown with all of its items wherever it stands, and as
-- `[...]` only where it stands inside itself, so the text of a value has such a mark if
-- and only if the value leads to a list that can be reached from itself. A text without
-- marks writes the whole of the value.
import Mathlib.Data.List.Forall2
import Mathlib.Data.List.Induction
import Scriptlet.Proofs.Slots
import Scriptlet.Value.Display

namespace Scriptlet

/-! ## Outlines -/

/-- What is written for a value, part by part: the text of a scalar, the mark of a list
that stands inside itself, or the items of a list. -/
inductive Outline where
  | scalar (text : String)
  | again
  | list (items : List Outline)

namespace Outline

mutual

/-- The text of an outline: items stand in brackets with commas between them. -/
def text : Outline → String
  | scalar s => s
  | again => "[...]"
  | list items => "[" ++ ", ".intercalate (texts items) ++ "]"

def texts : List Outline → List String
  | [] => []
  | o :: os => o.text :: texts os

end

/-- The part at the end of a path of positions. -/
def at? : Outline → List Nat → Option Outline
  | o, [] => some o
  | list items, i :: path => items[i]?.bind fun o => o.at? path
  | _, _ :: _ => none

@[simp] theorem at?_nil (o : Outline) : o.at? [] = some o := by
  cases o <;> rfl

theorem at?_append (o : Outline) (path rest : List Nat) :
    o.at? (path ++ rest) = (o.at? path).bind fun o => o.at? rest := by
  induction path generalizing o with
  | nil => simp
  | cons i path ih =>
    cases o with
    | scalar s => rfl
    | again => rfl
    | list items => simp only [List.cons_append, at?, Option.bind_assoc, ih]

/-- What holds of a list when it holds of its items holds of every outline, if it holds of
those without items. -/
@[elab_as_elim]
theorem items_induction {motive : Outline → Prop} (scalar : ∀ s, motive (scalar s))
    (again : motive again) (list : ∀ items, (∀ o ∈ items, motive o) → motive (list items)) :
    ∀ o, motive o
  | .scalar s => scalar s
  | .again => again
  | .list items => list items fun o _ => items_induction scalar again list o

/-- There is an end to every path. -/
theorem length_le_of_at? {o s : Outline} {path : List Nat} (h : o.at? path = some s) :
    path.length ≤ sizeOf o := by
  induction path generalizing o with
  | nil => exact Nat.zero_le _
  | cons i path ih =>
    cases o with
    | scalar s => cases h
    | again => cases h
    | list items =>
      obtain ⟨x, hx, hpath⟩ := Option.bind_eq_some_iff.1 h
      have hlength := ih hpath
      have hsize := List.sizeOf_lt_of_mem (List.mem_of_getElem? hx)
      rw [list.sizeOf_spec, List.length_cons]
      omega

end Outline

namespace Heap

variable {h : Heap} {v w x : Value} {r : ListRef} {enclosing rs : List ListRef}
  {path rest : List Nat} {o s : Outline}

/-! ## Places -/

/-- The place at the end of a path of positions from a value: the lists around it, the
innermost first, and the value that stands there. The value at the start stands inside
the lists `enclosing`. -/
def place? (h : Heap) (enclosing : List ListRef) (v : Value) :
    List Nat → Option (List ListRef × Value)
  | [] => some (enclosing, v)
  | i :: path => v.list?.bind fun r => (h.get? r i).bind fun x => h.place? (r :: enclosing) x path

theorem map_place? (h : Heap) (enclosing : List ListRef) (v : Value) (path : List Nat) :
    (h.place? enclosing v path).map Prod.snd = h.follow? v path := by
  induction path generalizing enclosing v with
  | nil => rfl
  | cons i path ih => simp only [place?, follow?, Option.map_bind, Function.comp_def, ih]

/-- A list around a place was there from the start, or the path goes through it. -/
theorem mem_of_place? (hplace : h.place? enclosing v path = some (rs, w)) (hr : r ∈ rs) :
    r ∈ enclosing ∨ ∃ before after, h.follow? v before = some (.list r) ∧ after ≠ [] ∧
      h.follow? (.list r) after = some w := by
  induction path generalizing enclosing v with
  | nil =>
    cases hplace
    exact .inl hr
  | cons i path ih =>
    obtain ⟨q, hq, hrest⟩ := Option.bind_eq_some_iff.1 hplace
    obtain ⟨x, hx, hrest⟩ := Option.bind_eq_some_iff.1 hrest
    rcases ih hrest with hmem | ⟨before, after, hbefore, hne, hafter⟩
    · rcases List.mem_cons.1 hmem with rfl | hmem
      · obtain rfl := Value.list?_eq_some_iff.1 hq
        have hfollow := h.map_place? (r :: enclosing) x path
        rw [hrest] at hfollow
        refine .inr ⟨[], i :: path, rfl, List.cons_ne_nil _ _, ?_⟩
        simp [follow?, Value.list?, hx, ← hfollow]
      · exact .inl hmem
    · refine .inr ⟨i :: before, after, ?_, hne, hafter⟩
      rw [follow?, hq, Option.bind_some, hx, Option.bind_some, hbefore]

/-- Whether a list can be reached from its own items. -/
def ContainsItself (h : Heap) (r : ListRef) : Prop :=
  ∃ path, path ≠ [] ∧ h.follow? (.list r) path = some (.list r)

/-- A path to a list that can be reached from itself can be made as long as one likes. -/
theorem ContainsItself.exists_follow? (hr : h.ContainsItself r)
    (hpath : h.follow? v path = some (.list r)) (n : Nat) :
    ∃ long, n ≤ long.length ∧ h.follow? v long = some (.list r) := by
  obtain ⟨round, hround, hback⟩ := hr
  induction n with
  | zero => exact ⟨path, Nat.zero_le _, hpath⟩
  | succ n ih =>
    obtain ⟨long, hlength, hlong⟩ := ih
    refine ⟨long ++ round, ?_, ?_⟩
    · have := List.length_pos_iff.2 hround
      rw [List.length_append]
      omega
    · rw [follow?_append, hlong, Option.bind_some, hback]

/-! ## What stands for a value -/

/-- What is written for a value inside the lists `rs`: a scalar in full, a list that is
not empty and one of `rs` as the mark, and every other list with all of its items. -/
inductive StandsFor (h : Heap) (rs : List ListRef) : Value → Outline → Prop
  | int (n : Int64) : StandsFor h rs (.int n) (.scalar (toString n.toInt))
  | str (s : String) : StandsFor h rs (.str s) (.scalar s)
  | bool (b : Bool) : StandsFor h rs (.bool b) (.scalar (if b then "true" else "false"))
  | again {q} : h.items q ≠ [] → q ∈ rs → StandsFor h rs (.list q) .again
  | list {q items} : h.items q = [] ∨ q ∉ rs → items.length = h.length q →
    StandsFor h rs (.list q) (.list items)

/-- Whether every part of an outline is what is written for the value at its place. -/
def Outlines (h : Heap) (enclosing : List ListRef) (v : Value) (o : Outline) : Prop :=
  ∀ path s, o.at? path = some s →
    ∃ rs w, h.place? enclosing v path = some (rs, w) ∧ h.StandsFor rs w s

theorem outlines_of_leaf (hs : h.StandsFor enclosing v o) (ho : ∀ items, o ≠ .list items) :
    h.Outlines enclosing v o := by
  intro path s hpath
  cases path with
  | nil =>
    rw [Outline.at?_nil] at hpath
    cases hpath
    exact ⟨_, _, rfl, hs⟩
  | cons i path =>
    cases o with
    | scalar t => cases hpath
    | again => cases hpath
    | list items => exact absurd rfl (ho items)

theorem outlines_list {os : List Outline} (hr : h.items r = [] ∨ r ∉ enclosing)
    (hos : List.Forall₂ (h.Outlines (r :: enclosing)) (h.items r) os) :
    h.Outlines enclosing (.list r) (.list os) := by
  intro path s hpath
  cases path with
  | nil =>
    cases hpath
    exact ⟨_, _, rfl, .list hr (by rw [h.length_eq, hos.length_eq])⟩
  | cons i path =>
    obtain ⟨o, ho, hpath⟩ := Option.bind_eq_some_iff.1 hpath
    obtain ⟨hi, rfl⟩ := List.getElem?_eq_some_iff.1 ho
    have hlt : i < (h.items r).length := hos.length_eq ▸ hi
    obtain ⟨rs, w, hplace, hw⟩ := hos.get hlt hi path s hpath
    refine ⟨rs, w, ?_, hw⟩
    have hitem : h.get? r i = some (h.items r)[i] := by
      rw [get?_eq, List.getElem?_eq_getElem hlt]
    simpa [place?, Value.list?, hitem] using hplace

/-- The text of a value is that of an outline of it. -/
theorem exists_outline (h : Heap) : ∀ enclosing v,
    ∃ o : Outline, h.displayIn enclosing v = o.text ∧ h.Outlines enclosing v o := by
  refine displayIn.induct h _ (fun enclosing vs => ∃ os : List Outline,
    h.displayItems enclosing vs = ", ".intercalate (Outline.texts os) ∧
      List.Forall₂ (h.Outlines enclosing) vs os) ?int ?str ?true ?false ?empty ?again ?list
    ?nil ?single ?cons
  case int =>
    intro enclosing n
    refine ⟨.scalar _, ?_, outlines_of_leaf (.int n) (by simp)⟩
    rw [displayIn, Outline.text]
  case str =>
    intro enclosing s
    refine ⟨.scalar s, ?_, outlines_of_leaf (.str s) (by simp)⟩
    rw [displayIn, Outline.text]
  case true =>
    intro enclosing
    refine ⟨.scalar _, ?_, outlines_of_leaf (.bool true) (by simp)⟩
    rw [displayIn, Outline.text]
  case false =>
    intro enclosing b _
    refine ⟨.scalar _, ?_, outlines_of_leaf (.bool b) (by simp)⟩
    rw [displayIn, Outline.text]
  case empty =>
    intro enclosing r hr
    refine ⟨.list [], ?_, outlines_list (.inl hr) (hr ▸ .nil)⟩
    rw [displayIn, if_pos hr]
    rfl
  case again =>
    intro enclosing r hne hmem
    refine ⟨.again, ?_, outlines_of_leaf (.again hne hmem) (by simp)⟩
    rw [displayIn, if_neg hne, if_pos hmem, Outline.text]
  case list =>
    rintro enclosing r hne hnot ⟨os, htext, hos⟩
    refine ⟨.list os, ?_, outlines_list (.inr hnot) hos⟩
    rw [displayIn, if_neg hne, if_neg hnot, htext, Outline.text]
  case nil =>
    intro enclosing
    refine ⟨[], ?_, .nil⟩
    rw [displayItems]
    rfl
  case single =>
    rintro enclosing v ⟨o, htext, ho⟩
    refine ⟨[o], ?_, .cons ho .nil⟩
    rw [displayItems, htext]
    simp [Outline.texts]
  case cons =>
    rintro enclosing v vs hvs ⟨o, htext, ho⟩ ⟨os, htexts, hos⟩
    refine ⟨o :: os, ?_, .cons ho hos⟩
    obtain _ | ⟨_, _⟩ := hos
    · exact (hvs rfl).elim
    · rw [displayItems, htext, htexts]
      · simp [Outline.texts, String.intercalate_cons_cons]
      · exact hvs

/-! ## Marks -/

/-- Where there is no mark, everything that the value leads to is written. -/
theorem exists_at?_of_follow? (ho : h.Outlines [] v o) (hmark : ∀ path, o.at? path ≠ some .again)
    (hpath : h.follow? v path = some w) : ∃ s, o.at? path = some s := by
  induction path using List.reverseRecOn generalizing w with
  | nil => exact ⟨o, o.at?_nil⟩
  | append_singleton path i ih =>
    rw [follow?_append] at hpath
    obtain ⟨x, hx, hitem⟩ := Option.bind_eq_some_iff.1 hpath
    obtain ⟨r, y, rfl, hy, -⟩ := follow?_cons_eq_some_iff.1 hitem
    obtain ⟨s, hs⟩ := ih hx
    obtain ⟨rs, u, hplace, hu⟩ := ho path s hs
    have hsame : u = .list r := by
      have hfollow := h.map_place? [] v path
      rw [hplace, hx] at hfollow
      exact Option.some.inj hfollow
    subst hsame
    cases hu with
    | again _ _ => exact absurd hs (hmark path)
    | @list _ items _ hlength =>
      have hi : i < items.length := by
        rw [hlength]
        refine Nat.lt_of_not_le fun hle => ?_
        rw [get?_eq_none_iff.2 hle] at hy
        cases hy
      refine ⟨items[i], ?_⟩
      rw [Outline.at?_append, hs, Option.bind_some, Outline.at?, List.getElem?_eq_getElem hi]
      simp

/-- There is a mark if and only if the value leads to a list that contains itself. -/
theorem exists_mark_iff (ho : h.Outlines [] v o) : (∃ path, o.at? path = some .again) ↔
    ∃ r, (∃ path, h.follow? v path = some (.list r)) ∧ h.ContainsItself r := by
  constructor
  · rintro ⟨path, hpath⟩
    obtain ⟨rs, w, hplace, hw⟩ := ho path _ hpath
    cases hw with
    | @again r _ hmem =>
      rcases mem_of_place? hplace hmem with hnil | ⟨before, after, hbefore, hne, hafter⟩
      · cases hnil
      · exact ⟨r, ⟨before, hbefore⟩, after, hne, hafter⟩
  · rintro ⟨r, ⟨path, hpath⟩, hr⟩
    by_contra hmark
    -- a path that goes round often enough is longer than any of the outline
    obtain ⟨long, hlength, hlong⟩ := hr.exists_follow? hpath (sizeOf o + 1)
    obtain ⟨s, hs⟩ := exists_at?_of_follow? ho (not_exists.1 hmark) hlong
    have := Outline.length_le_of_at? hs
    omega

/-! ## Values without cycles -/

/-- The whole of a value, with the items of every list. -/
inductive Writes (h : Heap) : Value → Outline → Prop
  | int (n : Int64) : Writes h (.int n) (.scalar (toString n.toInt))
  | str (s : String) : Writes h (.str s) (.scalar s)
  | bool (b : Bool) : Writes h (.bool b) (.scalar (if b then "true" else "false"))
  | list {q items} : List.Forall₂ (Writes h) (h.items q) items → Writes h (.list q) (.list items)

theorem Outlines.item {items : List Outline} (ho : h.Outlines enclosing (.list r) (.list items))
    {i : Nat} (hi : i < items.length) (hr : i < (h.items r).length) :
    h.Outlines (r :: enclosing) (h.items r)[i] items[i] := by
  intro path s hpath
  have hitem : h.get? r i = some (h.items r)[i] := by
    rw [get?_eq, List.getElem?_eq_getElem hr]
  obtain ⟨rs, w, hplace, hw⟩ := ho (i :: path) s (by simp [Outline.at?, hi, hpath])
  exact ⟨rs, w, by simpa [place?, Value.list?, hitem] using hplace, hw⟩

/-- An outline without marks writes the whole of the value. -/
theorem writes_of_outlines (ho : h.Outlines enclosing v o)
    (hmark : ∀ path, o.at? path ≠ some .again) : h.Writes v o := by
  induction o using Outline.items_induction generalizing enclosing v with
  | scalar s =>
    obtain ⟨_, _, ⟨⟩, hv⟩ := ho [] _ rfl
    cases hv with
    | int n => exact .int n
    | str s => exact .str s
    | bool b => exact .bool b
  | again => exact absurd rfl (hmark [])
  | list items ih =>
    obtain ⟨_, _, ⟨⟩, hv⟩ := ho [] _ rfl
    cases hv with
    | list _ hlength =>
      rw [h.length_eq] at hlength
      refine .list (List.forall₂_iff_get.2 ⟨hlength.symm, fun i hr hi => ?_⟩)
      refine ih _ (List.getElem_mem hi) (ho.item hi hr) fun path hpath => hmark (i :: path) ?_
      simpa [Outline.at?, List.getElem?_eq_getElem hi] using hpath

/-- The text of a value, whatever its lists refer to: there is one, and in it
* a list is shown as `[...]` where it is not empty and one of the lists around that place,
  and with all of its items at every other place;
* there is such a mark if and only if the value leads to a list that contains itself;
* if it leads to none, the whole of the value is written. -/
theorem display_marks_recursion (h : Heap) (v : Value) : ∃ o : Outline, h.display v = o.text ∧
    (∀ path s, o.at? path = some s →
      ∃ rs w, h.place? [] v path = some (rs, w) ∧ h.StandsFor rs w s) ∧
    ((∃ path, o.at? path = some .again) ↔
      ∃ r, (∃ path, h.follow? v path = some (.list r)) ∧ h.ContainsItself r) ∧
    ((∀ path r, h.follow? v path = some (.list r) → ¬ h.ContainsItself r) → h.Writes v o) := by
  obtain ⟨o, htext, ho⟩ := exists_outline h [] v
  refine ⟨o, htext, ho, exists_mark_iff ho, fun hacyclic => ?_⟩
  refine writes_of_outlines ho fun path hpath => ?_
  obtain ⟨r, ⟨path, hpath⟩, hr⟩ := (exists_mark_iff ho).1 ⟨path, hpath⟩
  exact hacyclic path r hpath hr

/-- A list that holds an empty list twice, and itself. -/
example : Heap.display ⟨#[#[.list 1, .list 1, .list 0], #[]]⟩ (.list 0) = "[[], [], [...]]" := by
  cbv

end Heap

end Scriptlet
