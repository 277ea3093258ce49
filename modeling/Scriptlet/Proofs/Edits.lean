-- Edits of a text. The table of distances is filled row by row from the starts of two
-- texts, and its last entry is how few edits of single characters turn the one text into
-- the other, in whatever order and at whatever places they are made.
import Mathlib.Data.List.Basic
import Mathlib.Order.Bounds.Defs
import Scriptlet.Text.EditDistance

namespace Scriptlet.Text

/-! ## Edits -/

/-- One character is put in, taken out, or replaced. -/
inductive Edit : List Char → List Char → Prop
  | insert (before after : List Char) (c : Char) : Edit (before ++ after) (before ++ c :: after)
  | delete (before after : List Char) (c : Char) : Edit (before ++ c :: after) (before ++ after)
  | replace (before after : List Char) (c d : Char) :
    Edit (before ++ c :: after) (before ++ d :: after)

/-- So many edits, one after the other, turn the first text into the second. -/
inductive Edits : Nat → List Char → List Char → Prop
  | done (s : List Char) : Edits 0 s s
  | next {n : Nat} {s t u : List Char} : Edit s t → Edits n t u → Edits (n + 1) s u

theorem Edit.symm {s t : List Char} (h : Edit s t) : Edit t s := by
  cases h with
  | insert before after c => exact .delete before after c
  | delete before after c => exact .insert before after c
  | replace before after c d => exact .replace before after d c

theorem Edit.cons {s t : List Char} (h : Edit s t) (c : Char) : Edit (c :: s) (c :: t) := by
  cases h with
  | insert before after d => exact .insert (c :: before) after d
  | delete before after d => exact .delete (c :: before) after d
  | replace before after d e => exact .replace (c :: before) after d e

theorem Edit.reverse {s t : List Char} (h : Edit s t) : Edit s.reverse t.reverse := by
  cases h with
  | insert before after c => simpa using Edit.insert after.reverse before.reverse c
  | delete before after c => simpa using Edit.delete after.reverse before.reverse c
  | replace before after c d => simpa using Edit.replace after.reverse before.reverse c d

theorem Edit.length_le {s t : List Char} (h : Edit s t) : t.length ≤ s.length + 1 := by
  cases h <;> simp <;> omega

namespace Edits

variable {m n : Nat} {s t u : List Char}

theorem eq_of_zero (h : Edits 0 s t) : s = t := by
  cases h
  rfl

theorem single (h : Edit s t) : Edits 1 s t := .next h (.done t)

theorem trans (h : Edits m s t) (h' : Edits n t u) : Edits (m + n) s u := by
  induction h with
  | done s => simpa using h'
  | next hedit _ ih =>
    have hmore := Edits.next hedit (ih h')
    rwa [Nat.add_right_comm] at hmore

theorem symm (h : Edits n s t) : Edits n t s := by
  induction h with
  | done s => exact .done s
  | next hedit _ ih => exact ih.trans (single hedit.symm)

theorem cons (h : Edits n s t) (c : Char) : Edits n (c :: s) (c :: t) := by
  induction h with
  | done s => exact .done (c :: s)
  | next hedit _ ih => exact .next (hedit.cons c) ih

theorem reverse (h : Edits n s t) : Edits n s.reverse t.reverse := by
  induction h with
  | done s => exact .done s.reverse
  | next hedit _ ih => exact .next hedit.reverse ih

theorem length_le (h : Edits n s t) : t.length ≤ s.length + n := by
  induction h with
  | done s => simp
  | next hedit _ ih =>
    have := hedit.length_le
    omega

theorem insertAll (t : List Char) : Edits t.length [] t := by
  induction t with
  | nil => exact .done []
  | cons d t ih => exact ih.trans (single (.insert [] t d))

end Edits

/-! ## The fewest edits -/

/-- How few edits turn `s` into `t`: what the first characters are does not matter if they
are the same, and else one of them is replaced, taken out, or put in. -/
def fewest (s t : List Char) : Nat :=
  match s, t with
  | [], t => t.length
  | s, [] => s.length
  | c :: s, d :: t =>
    min (min (fewest s t + if c = d then 0 else 1) (fewest s (d :: t) + 1)) (fewest (c :: s) t + 1)
termination_by s.length + t.length

@[simp] theorem fewest_nil_left (t : List Char) : fewest [] t = t.length := by
  simp [fewest]

@[simp] theorem fewest_nil_right (s : List Char) : fewest s [] = s.length := by
  cases s <;> simp [fewest]

theorem fewest_cons_cons (c d : Char) (s t : List Char) :
    fewest (c :: s) (d :: t) =
      min (min (fewest s t + if c = d then 0 else 1) (fewest s (d :: t) + 1))
        (fewest (c :: s) t + 1) := by
  rw [fewest]

/-- So many edits are enough. -/
theorem edits_fewest (s t : List Char) : Edits (fewest s t) s t := by
  induction s, t using fewest.induct with
  | case1 t => simpa using Edits.insertAll t
  | case2 s => simpa using (Edits.insertAll s).symm
  | case3 c s d t ih ih' ih'' =>
    have hreplaced : Edits (fewest s t + if c = d then 0 else 1) (c :: s) (d :: t) := by
      by_cases hcd : c = d
      · subst hcd
        simpa using ih.cons c
      · simp only [hcd, if_false]
        exact (ih.cons c).trans (.single (.replace [] t c d))
    have hdeleted : Edits (fewest s (d :: t) + 1) (c :: s) (d :: t) := .next (.delete [] s c) ih'
    have hinserted : Edits (fewest (c :: s) t + 1) (c :: s) (d :: t) :=
      ih''.trans (.single (.insert [] t d))
    rw [fewest_cons_cons]
    grind

theorem fewest_le_max (s t : List Char) : fewest s t ≤ max s.length t.length := by
  induction s, t using fewest.induct with
  | case1 t => simp
  | case2 s => simp
  | case3 c s d t ih _ _ =>
    rw [fewest_cons_cons]
    simp only [List.length_cons]
    split <;> omega

/-! ## One edit makes a difference of at most one -/

theorem fewest_cons_left_le (c : Char) (s u : List Char) : fewest (c :: s) u ≤ fewest s u + 1 := by
  cases u with
  | nil => simp
  | cons d u =>
    rw [fewest_cons_cons]
    omega

theorem fewest_cons_right_le (s : List Char) (d : Char) (u : List Char) :
    fewest s (d :: u) ≤ fewest s u + 1 := by
  cases s with
  | nil => simp
  | cons c s =>
    rw [fewest_cons_cons]
    omega

theorem fewest_le_cons_left (c : Char) (s u : List Char) : fewest s u ≤ fewest (c :: s) u + 1 := by
  induction u with
  | nil => simp; omega
  | cons d u ih =>
    have := fewest_cons_right_le s d u
    rw [fewest_cons_cons]
    omega

theorem fewest_replace_le (c d : Char) (s u : List Char) :
    fewest (c :: s) u ≤ fewest (d :: s) u + 1 := by
  induction u with
  | nil => simp
  | cons e u ih =>
    rw [fewest_cons_cons, fewest_cons_cons]
    split <;> split <;> omega

theorem fewest_cons_le {s t : List Char} (h : ∀ u, fewest s u ≤ fewest t u + 1) (c : Char)
    (u : List Char) : fewest (c :: s) u ≤ fewest (c :: t) u + 1 := by
  induction u with
  | nil =>
    have := h []
    simp at this ⊢
    omega
  | cons d u ih =>
    have hu := h u
    have hdu := h (d :: u)
    rw [fewest_cons_cons, fewest_cons_cons]
    omega

theorem fewest_append_le {s t : List Char} (h : ∀ u, fewest s u ≤ fewest t u + 1)
    (before u : List Char) : fewest (before ++ s) u ≤ fewest (before ++ t) u + 1 := by
  induction before generalizing u with
  | nil => exact h u
  | cons c before ih => exact fewest_cons_le ih c u

theorem Edit.fewest_le {s t : List Char} (h : Edit s t) (u : List Char) :
    fewest s u ≤ fewest t u + 1 := by
  cases h with
  | insert before after c => exact fewest_append_le (fewest_le_cons_left c after) before u
  | delete before after c => exact fewest_append_le (fewest_cons_left_le c after) before u
  | replace before after c d => exact fewest_append_le (fewest_replace_le c d after) before u

/-- Fewer edits are not enough. -/
theorem Edits.fewest_le {n : Nat} {s t : List Char} (h : Edits n s t) : fewest s t ≤ n := by
  induction h with
  | done s =>
    induction s with
    | nil => simp
    | cons c s ih =>
      rw [fewest_cons_cons]
      simp
      omega
  | @next n s t u hedit _ ih =>
    have := hedit.fewest_le u
    omega

/-! ## The table -/

/-- The row of a text, from where the second text has so much behind it and so much
before it. Texts up to a place are written backwards, the last character first. -/
def row (s : List Char) : List Char → List Char → List Nat
  | behind, [] => [fewest s behind]
  | behind, d :: text => fewest s behind :: row s (d :: behind) text

theorem row_eq_cons (s behind text : List Char) :
    row s behind text = fewest s behind :: (row s behind text).tail := by
  cases text <;> rfl

theorem row_nil (behind text : List Char) :
    row [] behind text = List.range' behind.length (text.length + 1) := by
  induction text generalizing behind with
  | nil => simp [row]
  | cons d text ih => simp [row, ih, List.range'_succ]

theorem getLastD_row (s behind text : List Char) (n : Nat) :
    (row s behind text).getLastD n = fewest s (text.reverse ++ behind) := by
  induction text generalizing behind n with
  | nil => simp [row]
  | cons d text ih =>
    rw [row, List.getLastD_cons, ih]
    simp

/-- An entry is made of the one to its left and of the two above. -/
theorem rowAfter_eq (c : Char) (s behind text : List Char) :
    rowAfter c (fewest (c :: s) behind) text (row s behind text) =
      (row (c :: s) behind text).tail := by
  induction text generalizing behind with
  | nil => simp [rowAfter, row]
  | cons d text ih =>
    have hrest := row_eq_cons (c :: s) (d :: behind) text
    rw [row, row, List.tail_cons, hrest, ← ih (d :: behind), row_eq_cons s (d :: behind) text,
      rowAfter, ← row_eq_cons, fewest_cons_cons]

theorem nextRow_eq (c : Char) (s text : List Char) :
    nextRow text (row s [] text) c = row (c :: s) [] text := by
  have hfirst : fewest s [] + 1 = fewest (c :: s) [] := by simp
  rw [row_eq_cons s, nextRow, ← row_eq_cons, hfirst, rowAfter_eq, ← row_eq_cons]

theorem foldl_nextRow (text s behind : List Char) :
    s.foldl (nextRow text) (row behind [] text) = row (s.reverse ++ behind) [] text := by
  induction s generalizing behind with
  | nil => rfl
  | cons c s ih =>
    rw [List.foldl_cons, nextRow_eq, ih]
    simp

theorem editDistance_eq (s t : String) :
    editDistance s t = fewest s.toList.reverse t.toList.reverse := by
  have hstart : List.range (t.toList.length + 1) = row [] [] t.toList := by
    rw [row_nil, List.range_eq_range']
    rfl
  rw [editDistance, lastRow, hstart, foldl_nextRow, getLastD_row]
  simp

/-! ## Distances -/

theorem edits_editDistance (s t : String) : Edits (editDistance s t) s.toList t.toList := by
  have h := (edits_fewest s.toList.reverse t.toList.reverse).reverse
  rwa [List.reverse_reverse, List.reverse_reverse, ← editDistance_eq] at h

theorem editDistance_le {n : Nat} {s t : String} (h : Edits n s.toList t.toList) :
    editDistance s t ≤ n := by
  rw [editDistance_eq]
  exact h.reverse.fewest_le

/-- The distance of two texts is the least number of edits that turn one into the other.
So it is the same both ways, zero for a text and itself and for no others, at most what it
is by way of a third text, and between the difference of the lengths and the greater of
them. -/
theorem editDistance_isLeast (s t : String) :
    IsLeast {n | Edits n s.toList t.toList} (editDistance s t) ∧
    editDistance s t = editDistance t s ∧
    (editDistance s t = 0 ↔ s = t) ∧
    (∀ u, editDistance s u ≤ editDistance s t + editDistance t u) ∧
    (s.length - t.length : Int).natAbs ≤ editDistance s t ∧
    editDistance s t ≤ max s.length t.length := by
  have hedits := edits_editDistance s t
  refine ⟨⟨hedits, fun n hn => editDistance_le hn⟩, ?_, ?_, ?_, ?_, ?_⟩
  · apply Nat.le_antisymm
    · exact editDistance_le (edits_editDistance t s).symm
    · exact editDistance_le hedits.symm
  · constructor
    · intro hzero
      rw [hzero] at hedits
      exact String.toList_inj.1 hedits.eq_of_zero
    · rintro rfl
      exact Nat.le_zero.1 (editDistance_le (.done s.toList))
  · intro u
    exact editDistance_le (hedits.trans (edits_editDistance t u))
  · have hle := hedits.length_le
    have hge := hedits.symm.length_le
    simp only [String.length_toList] at hle hge
    omega
  · have hmax := fewest_le_max s.toList.reverse t.toList.reverse
    rwa [← editDistance_eq, List.length_reverse, List.length_reverse, String.length_toList,
      String.length_toList] at hmax

example : editDistance "kitten" "sitting" = 3 := by decide

end Scriptlet.Text
