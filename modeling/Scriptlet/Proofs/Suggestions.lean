-- The name that is suggested for an unknown one. Of the names near enough it is the least by
-- distance and then by name, which is a matter of what names there are, and not of the order
-- in which they are looked at or of how often.
import Mathlib.Data.Prod.Lex
import Mathlib.Data.String.Basic
import Scriptlet.Proofs.Bindings

namespace Scriptlet

namespace Suggestion

variable {name c : String} {candidates others : List String} {threshold : Nat}

/-! ## The best match -/

/-- What matches are ordered by: the distance, and the name where distances are the same. -/
def Match.key (m : Match) : Nat ×ₗ String := toLex (m.distance, m.name)

theorem Match.before_iff {a b : Match} : a.before b ↔ a.key < b.key := by
  simp [before, key, Prod.Lex.lt_iff]

theorem Match.key_better (a b : Match) : (a.better b).key = min a.key b.key := by
  unfold better
  by_cases h : b.before a
  · rw [if_pos h, min_eq_right (before_iff.1 h).le]
  · rw [if_neg h, min_eq_left]
    exact not_lt.1 (mt before_iff.2 h)

/-- The match that is left over has the least key of all. -/
theorem min?_keys (m : Match) (ms : List Match) :
    ((m :: ms).map Match.key).min? = some (ms.foldl Match.better m).key := by
  rw [List.map_cons, List.min?_cons', List.foldl_map]
  exact congrArg some (List.foldl_hom Match.key fun a b => (a.key_better b).symm)

/-! ## The suggested name -/

/-- Whether `c` may be suggested for `name`: another name, and one that is near enough. -/
def IsNear (name : String) (candidates : List String) (threshold : Nat) (c : String) : Prop :=
  c ∈ candidates ∧ c ≠ name ∧ Text.editDistance name c ≤ threshold

/-- A candidate with its distance before it, so that nearer ones are less. -/
def rank (name c : String) : Nat ×ₗ String := toLex (Text.editDistance name c, c)

theorem rank_injective (name : String) : Function.Injective (rank name) := by
  intro c d h
  exact congrArg (fun k => (ofLex k).2) h

theorem mem_keys_iff {k : Nat ×ₗ String} :
    k ∈ (matchesOf name candidates threshold).map Match.key ↔
      ∃ c, IsNear name candidates threshold c ∧ rank name c = k := by
  simp [matchesOf, IsNear, rank, Match.key, and_assoc]

theorem map_rank_closest? (name : String) (candidates : List String) (threshold : Nat) :
    (closest? name candidates threshold).map (rank name) =
      ((matchesOf name candidates threshold).map Match.key).min? := by
  unfold closest?
  cases hmatches : matchesOf name candidates threshold with
  | nil => rfl
  | cons m ms =>
    have hleast := min?_keys m ms
    have hmem := (List.min?_eq_some_iff.1 hleast).1
    rw [← hmatches, mem_keys_iff] at hmem
    obtain ⟨c, -, hc⟩ := hmem
    have hname : c = (ms.foldl Match.better m).name := congrArg (fun k => (ofLex k).2) hc
    rw [hleast, ← hc, hname]
    rfl

theorem closest?_eq_some_iff : closest? name candidates threshold = some c ↔
    IsNear name candidates threshold c ∧
      ∀ d, IsNear name candidates threshold d → rank name c ≤ rank name d := by
  have hmap : closest? name candidates threshold = some c ↔
      (closest? name candidates threshold).map (rank name) = some (rank name c) := by
    simp [(rank_injective name).eq_iff]
  rw [hmap, map_rank_closest?, List.min?_eq_some_iff]
  simp [mem_keys_iff, (rank_injective name).eq_iff]

theorem closest?_eq_none_iff : closest? name candidates threshold = none ↔
    ∀ c, ¬ IsNear name candidates threshold c := by
  have hmap : closest? name candidates threshold = none ↔
      (closest? name candidates threshold).map (rank name) = none := by
    simp
  rw [hmap, map_rank_closest?, List.min?_eq_none_iff, List.eq_nil_iff_forall_not_mem]
  simp only [mem_keys_iff]
  constructor
  · intro hnone c hc
    exact hnone (rank name c) ⟨c, hc, rfl⟩
  · rintro hnone k ⟨c, hc, -⟩
    exact hnone c hc

theorem closest?_congr (h : ∀ c, c ∈ others ↔ c ∈ candidates) :
    closest? name others threshold = closest? name candidates threshold := by
  have hnear : IsNear name others threshold = IsNear name candidates threshold := by
    funext c
    simp only [IsNear, h]
  apply Option.ext
  intro c
  rw [closest?_eq_some_iff, closest?_eq_some_iff, hnear]

end Suggestion

/-! ## Names that are not bound -/

theorem Environment.mem_names_iff {env : Environment} {name : String} :
    name ∈ env.names ↔ env.contains name := by
  unfold names contains get?
  rw [List.mem_map, Option.isSome_iff_exists]
  constructor
  · rintro ⟨b, hb, rfl⟩
    exact ⟨b.2, (mem_iff_lookup env.sorted).1 hb⟩
  · rintro ⟨v, hv⟩
    exact ⟨(name, v), (mem_iff_lookup env.sorted).2 hv, rfl⟩

theorem Environment.read_of_unbound {env : Environment} {name : String}
    (hname : env.get? name = none) {order : List String}
    (horder : ∀ other, other ∈ order ↔ env.contains other) :
    env.read name = .error (.ofCause (.undeclaredVariable name
      (Suggestion.closest? name order suggestionThreshold))) := by
  have hsame : Suggestion.closest? name order suggestionThreshold =
      Suggestion.closest? name env.names suggestionThreshold := by
    apply Suggestion.closest?_congr
    intro other
    rw [horder, mem_names_iff]
  simp only [read, hname, hsame]

/-- The name that is suggested is the least by distance and then by name of all that are
near enough, and there is none only if no name is. So it depends on which candidates there
are, and not on their order or on how often they are given, and the message for a name that
is not bound is the same in whatever order the bound names are gone through. -/
theorem Suggestion.closest?_independent_of_order (name : String) (candidates : List String)
    (threshold : Nat) :
    (∀ c, closest? name candidates threshold = some c ↔
      IsNear name candidates threshold c ∧
        ∀ d, IsNear name candidates threshold d → rank name c ≤ rank name d) ∧
    (closest? name candidates threshold = none ↔ ∀ c, ¬ IsNear name candidates threshold c) ∧
    (∀ others : List String, (∀ c, c ∈ others ↔ c ∈ candidates) →
      closest? name others threshold = closest? name candidates threshold) ∧
    ∀ (env : Environment) (order : List String), env.get? name = none →
      (∀ other, other ∈ order ↔ env.contains other) →
      ∃ f, env.read name = .error f ∧ f.message = "undeclared variable: " ++ name ++
        hint (closest? name order Environment.suggestionThreshold) := by
  refine ⟨fun c => closest?_eq_some_iff, closest?_eq_none_iff, fun others h => ?_,
    fun env order hname horder => ?_⟩
  · exact closest?_congr h
  · exact ⟨_, Environment.read_of_unbound hname horder, rfl⟩

/-- Both names are one edit away. -/
example : Suggestion.closest? "ab" ["ac", "aa"] 1 = some "aa" := by decide

end Scriptlet
