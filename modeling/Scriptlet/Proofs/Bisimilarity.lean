-- What equality of values decides. Lists may be shared and may stand inside
-- themselves, so values are equal by coinduction: some relation holds between them that
-- sees the same scalars on both sides and goes on from lists to their items. Taking the
-- pairs that are being compared to be equal gives exactly that, since an answer `true`
-- means that every pair which was come to on the way was found equal as well.
import Mathlib.Data.List.Forall2
import Mathlib.Logic.Relation
import Scriptlet.Value.Equality

namespace Scriptlet

namespace Heap

variable {h : Heap} {R S : Value → Value → Prop} {v w : Value}
  {comparing : List (ListRef × ListRef)}

/-! ## Bisimulations -/

/-- Whether two values look the same when related ones are not told apart: they are the
same scalar, or lists of one length with related items. -/
inductive Matches (h : Heap) (R : Value → Value → Prop) : Value → Value → Prop
  | int (n : Int64) : Matches h R (.int n) (.int n)
  | str (s : String) : Matches h R (.str s) (.str s)
  | bool (b : Bool) : Matches h R (.bool b) (.bool b)
  | list {a b : ListRef} : List.Forall₂ R (h.items a) (h.items b) → Matches h R (.list a) (.list b)

/-- Whether all related values look the same. -/
def Bisimulation (h : Heap) (R : Value → Value → Prop) : Prop := ∀ v w, R v w → h.Matches R v w

theorem Matches.mono (hm : h.Matches R v w) (hRS : ∀ v w, R v w → S v w) : h.Matches S v w := by
  cases hm with
  | int n => exact .int n
  | str s => exact .str s
  | bool b => exact .bool b
  | list hitems => exact .list (hitems.imp hRS)

theorem bisimulation_eq (h : Heap) : h.Bisimulation (· = ·) := by
  rintro v _ rfl
  cases v with
  | int n => exact .int n
  | str s => exact .str s
  | bool b => exact .bool b
  | list r => exact .list (List.forall₂_eq_eq_eq ▸ rfl)

theorem Bisimulation.flip (hR : h.Bisimulation R) : h.Bisimulation (flip R) := by
  intro v w hvw
  cases hR w v hvw with
  | int n => exact .int n
  | str s => exact .str s
  | bool b => exact .bool b
  | list hitems => exact .list hitems.flip

theorem forall₂_comp {us vs ws : List Value} (huv : List.Forall₂ R us vs)
    (hvw : List.Forall₂ S vs ws) : List.Forall₂ (Relation.Comp R S) us ws := by
  induction huv generalizing ws with
  | nil =>
    cases hvw
    exact .nil
  | cons hr _ ih =>
    cases hvw with
    | cons hs hrest => exact .cons ⟨_, hr, hs⟩ (ih hrest)

theorem Bisimulation.comp (hR : h.Bisimulation R) (hS : h.Bisimulation S) :
    h.Bisimulation (Relation.Comp R S) := by
  rintro u w ⟨v, huv, hvw⟩
  have hm := hS v w hvw
  cases hR u v huv with
  | int n =>
    cases hm
    exact .int n
  | str s =>
    cases hm
    exact .str s
  | bool b =>
    cases hm
    exact .bool b
  | list hleft =>
    obtain _ | _ | _ | hright := hm
    exact .list (forall₂_comp hleft hright)

/-! ## What is found equal is bisimilar -/

/-- Two lists that are equal without a look at their items. -/
def Assumed (comparing : List (ListRef × ListRef)) (v w : Value) : Prop :=
  ∃ a b, v = .list a ∧ w = .list b ∧ (a = b ∨ (a, b) ∈ comparing)

/-- Whether all related values look the same, or are assumed to be equal. -/
def BisimulationUpTo (h : Heap) (comparing : List (ListRef × ListRef))
    (R : Value → Value → Prop) : Prop :=
  ∀ v w, R v w → h.Matches R v w ∨ Assumed comparing v w

/-- Whether a bisimulation up to `comparing` holds of two values. -/
def SimilarUpTo (h : Heap) (comparing : List (ListRef × ListRef)) (v w : Value) : Prop :=
  ∃ R, h.BisimulationUpTo comparing R ∧ R v w

/-- All of them together are one more. -/
theorem bisimulationUpTo_similarUpTo (h : Heap) (comparing : List (ListRef × ListRef)) :
    h.BisimulationUpTo comparing (h.SimilarUpTo comparing) := by
  rintro v w ⟨R, hR, hvw⟩
  exact (hR v w hvw).imp_left fun hm => hm.mono fun v w hvw => ⟨R, hR, hvw⟩

theorem similarUpTo_of_matches (hm : h.Matches (h.SimilarUpTo comparing) v w) :
    h.SimilarUpTo comparing v w := by
  refine ⟨fun x y => h.SimilarUpTo comparing x y ∨ (x = v ∧ y = w), ?_, .inr ⟨rfl, rfl⟩⟩
  rintro x y (hxy | ⟨rfl, rfl⟩)
  · exact (bisimulationUpTo_similarUpTo h comparing x y hxy).imp_left
      fun hm => hm.mono fun _ _ => .inl
  · exact .inl (hm.mono fun _ _ => .inl)

theorem similarUpTo_of_assumed (ha : Assumed comparing v w) : h.SimilarUpTo comparing v w := by
  refine ⟨fun x y => x = v ∧ y = w, ?_, rfl, rfl⟩
  rintro _ _ ⟨rfl, rfl⟩
  exact .inr ha

/-- A pair of lists whose items are equal when the pair is assumed to be equal need not
be assumed: put back among the related pairs, it looks the same on both sides. -/
theorem similarUpTo_of_cons {a b : ListRef}
    (hitems : List.Forall₂ (h.SimilarUpTo ((a, b) :: comparing)) (h.items a) (h.items b)) :
    h.SimilarUpTo comparing (.list a) (.list b) := by
  let R x y := h.SimilarUpTo ((a, b) :: comparing) x y ∨ (x = .list a ∧ y = .list b)
  have hpair : h.Matches R (.list a) (.list b) := .list (hitems.imp fun _ _ => .inl)
  refine ⟨R, ?_, .inr ⟨rfl, rfl⟩⟩
  rintro x y (hxy | ⟨rfl, rfl⟩)
  · rcases bisimulationUpTo_similarUpTo h _ x y hxy with hm | ⟨c, d, rfl, rfl, hcd⟩
    · exact .inl (hm.mono fun _ _ => .inl)
    rcases hcd with rfl | hmem
    · exact .inr ⟨c, c, rfl, rfl, .inl rfl⟩
    rcases List.mem_cons.1 hmem with heq | hmem
    · cases heq
      exact .inl hpair
    · exact .inr ⟨c, d, rfl, rfl, .inr hmem⟩
  · exact .inl hpair

theorem similarUpTo_of_equalIn (h : Heap) : ∀ comparing v w,
    h.equalIn comparing v w = true → h.SimilarUpTo comparing v w := by
  refine equalIn.induct h _ (fun comparing vs ws => h.equalItems comparing vs ws = true →
    List.Forall₂ (h.SimilarUpTo comparing) vs ws) ?int ?str ?bool ?assumed ?items ?differ
    ?nil ?cons ?lengths
  case int =>
    intro comparing m n heq
    rw [equalIn, beq_iff_eq] at heq
    exact heq ▸ similarUpTo_of_matches (.int m)
  case str =>
    intro comparing s t heq
    rw [equalIn, beq_iff_eq] at heq
    exact heq ▸ similarUpTo_of_matches (.str s)
  case bool =>
    intro comparing b c heq
    rw [equalIn, beq_iff_eq] at heq
    exact heq ▸ similarUpTo_of_matches (.bool b)
  case assumed =>
    intro comparing a b hab _
    exact similarUpTo_of_assumed ⟨a, b, rfl, rfl, hab⟩
  case items =>
    intro comparing a b hab ih heq
    rw [equalIn, if_neg hab] at heq
    exact similarUpTo_of_cons (ih heq)
  case differ =>
    intro comparing v w hint hstr hbool hlist heq
    rw [equalIn] at heq
    · cases heq
    all_goals assumption
  case nil =>
    intro comparing _
    exact .nil
  case cons =>
    intro comparing v vs w ws ih ihs heq
    rw [equalItems, Bool.and_eq_true] at heq
    exact .cons (ih heq.1) (ihs heq.2)
  case lengths =>
    intro comparing vs ws hnil hcons heq
    rw [equalItems] at heq
    · cases heq
    all_goals assumption

/-! ## What is bisimilar is found equal -/

theorem equalIn_of_bisimulation (hR : h.Bisimulation R) : ∀ comparing v w,
    R v w → h.equalIn comparing v w = true := by
  refine equalIn.induct h _ (fun comparing vs ws => List.Forall₂ R vs ws →
    h.equalItems comparing vs ws = true) ?int ?str ?bool ?assumed ?items ?differ ?nil ?cons
    ?lengths
  case int =>
    intro comparing m n hmn
    cases hR _ _ hmn
    rw [equalIn, beq_self_eq_true]
  case str =>
    intro comparing s t hst
    cases hR _ _ hst
    rw [equalIn, beq_self_eq_true]
  case bool =>
    intro comparing b c hbc
    cases hR _ _ hbc
    rw [equalIn, beq_self_eq_true]
  case assumed =>
    intro comparing a b hab _
    rw [equalIn, if_pos hab]
  case items =>
    intro comparing a b hab ih hlists
    obtain _ | _ | _ | hitems := hR _ _ hlists
    rw [equalIn, if_neg hab]
    exact ih hitems
  case differ =>
    intro comparing v w hint hstr hbool hlist hvw
    cases hR v w hvw with
    | int n => exact (hint n n rfl rfl).elim
    | str s => exact (hstr s s rfl rfl).elim
    | bool b => exact (hbool b b rfl rfl).elim
    | list _ => exact (hlist _ _ rfl rfl).elim
  case nil =>
    intro comparing _
    rw [equalItems]
  case cons =>
    intro comparing v vs w ws ih ihs hitems
    obtain ⟨hvw, hrest⟩ := List.forall₂_cons.1 hitems
    rw [equalItems, ih hvw, ihs hrest, Bool.and_self]
  case lengths =>
    intro comparing vs ws hnil hcons hitems
    cases hitems with
    | nil => exact (hnil rfl rfl).elim
    | cons _ _ => exact (hcons _ _ _ _ rfl rfl).elim

/-! ## Equality -/

/-- With nothing assumed but that a list is equal to itself, the related values and all
values related to themselves are a bisimulation. -/
theorem exists_bisimulation_of_similarUpTo (hs : h.SimilarUpTo [] v w) :
    ∃ R, h.Bisimulation R ∧ R v w := by
  refine ⟨fun x y => h.SimilarUpTo [] x y ∨ x = y, ?_, .inl hs⟩
  rintro x y (hxy | rfl)
  · rcases bisimulationUpTo_similarUpTo h [] x y hxy with hm | ⟨a, b, rfl, rfl, hab⟩
    · exact hm.mono fun _ _ => .inl
    · obtain rfl := hab.resolve_right List.not_mem_nil
      exact (bisimulation_eq h _ _ rfl).mono fun _ _ => .inr
  · exact (bisimulation_eq h _ _ rfl).mono fun _ _ => .inr

/-- Values are equal if a relation holds of them under which scalars of one kind are the
same, and lists have one length and items in related pairs; and only then. So equality is
an equivalence, also of lists that stand inside themselves. -/
theorem equal_iff_bisimilar (h : Heap) :
    (∀ v w, h.equal v w = true ↔ ∃ R, h.Bisimulation R ∧ R v w) ∧
      Equivalence fun v w => h.equal v w = true := by
  have hiff (v w : Value) : h.equal v w = true ↔ ∃ R, h.Bisimulation R ∧ R v w := by
    constructor
    · intro heq
      exact exists_bisimulation_of_similarUpTo (similarUpTo_of_equalIn h [] v w heq)
    · rintro ⟨R, hR, hvw⟩
      exact equalIn_of_bisimulation hR [] v w hvw
  refine ⟨hiff, ?_, ?_, ?_⟩
  · intro v
    exact (hiff v v).2 ⟨_, bisimulation_eq h, rfl⟩
  · intro v w hvw
    obtain ⟨R, hR, hvw⟩ := (hiff v w).1 hvw
    exact (hiff w v).2 ⟨_, hR.flip, hvw⟩
  · intro u v w huv hvw
    obtain ⟨R, hR, huv⟩ := (hiff u v).1 huv
    obtain ⟨S, hS, hvw⟩ := (hiff v w).1 hvw
    exact (hiff u w).2 ⟨_, hR.comp hS, v, huv, hvw⟩

/-- A list that holds itself and two lists that hold each other. -/
example : Heap.equal ⟨#[#[.list 0], #[.list 2], #[.list 1]]⟩ (.list 0) (.list 1) = true := by
  cbv

end Heap

end Scriptlet
