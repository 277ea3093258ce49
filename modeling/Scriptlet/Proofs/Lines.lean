-- Lines of offsets. The search in the starts of lines comes to one more than
-- the line feeds before an offset, also if the offset is within a character
-- or past the end.
import Mathlib.Data.Nat.Basic
import Mathlib.Order.Monotone.Defs
import Scriptlet.LineIndex

namespace Scriptlet

/-! ## Searching -/

/-- The search finds the point at which the entries pass `x`. -/
theorem rankBetween_eq {xs : Array Nat} {x lo hi k : Nat} (hlo : lo ≤ k) (hhi : k ≤ hi)
    (hbelow : ∀ i < k, xs.getD i 0 ≤ x) (habove : ∀ i, k ≤ i → i < hi → x < xs.getD i 0) :
    rankBetween xs x lo hi = k := by
  fun_induction rankBetween xs x lo hi with
  | case1 lo hi h mid hmid ih =>
    have hk : mid < k := by
      refine Nat.lt_of_not_le fun hk => ?_
      have := habove mid hk (by omega)
      omega
    exact ih hk hhi habove
  | case2 lo hi h mid hmid ih =>
    have hk : k ≤ mid := Nat.le_of_not_lt fun hk => hmid (hbelow mid hk)
    exact ih hlo hk fun i hi hlt => habove i hi (by omega)
  | case3 => omega

theorem le_of_lt_countP {l : List Nat} (h : l.Pairwise (· ≤ ·)) {x i : Nat}
    (hi : i < l.countP (· ≤ x)) : l.getD i 0 ≤ x := by
  induction l generalizing i with
  | nil => simp at hi
  | cons a l ih =>
    obtain ⟨ha, hl⟩ := List.pairwise_cons.1 h
    by_cases hax : a ≤ x
    · cases i with
      | zero => exact hax
      | succ i =>
        rw [List.countP_cons_of_pos (by simpa using hax)] at hi
        exact ih hl (by omega)
    · have hnone : l.countP (· ≤ x) = 0 := by
        rw [List.countP_eq_zero]
        intro b hb
        have := ha b hb
        simp only [decide_eq_true_eq]
        omega
      rw [List.countP_cons_of_neg (by simpa using hax), hnone] at hi
      omega

theorem lt_of_countP_le {l : List Nat} (h : l.Pairwise (· ≤ ·)) {x i : Nat}
    (hi : l.countP (· ≤ x) ≤ i) (hlt : i < l.length) : x < l.getD i 0 := by
  induction l generalizing i with
  | nil => simp at hlt
  | cons a l ih =>
    obtain ⟨ha, hl⟩ := List.pairwise_cons.1 h
    by_cases hax : a ≤ x
    · rw [List.countP_cons_of_pos (by simpa using hax)] at hi
      obtain ⟨i, rfl⟩ : ∃ j, i = j + 1 := ⟨i - 1, by omega⟩
      exact ih hl (by omega) (by simpa using hlt)
    · cases i with
      | zero => simpa using hax
      | succ i =>
        have hlt : i < l.length := by simpa using hlt
        have := ha l[i] (l.getElem_mem hlt)
        have hget : l.getD i 0 = l[i] := by simp [List.getD_eq_getElem?_getD, hlt]
        rw [List.getD_cons_succ, hget]
        omega

theorem rank_eq_countP {l : List Nat} (h : l.Pairwise (· ≤ ·)) (x : Nat) :
    rank l.toArray x = l.countP (· ≤ x) := by
  refine rankBetween_eq (Nat.zero_le _) List.countP_le_length (fun i hi => ?_)
    fun i hi hlt => ?_
  · simpa using le_of_lt_countP h hi
  · simpa using lt_of_countP_le h hi hlt

/-! ## Outcomes of a search -/

/-- What a search for a number in entries that ascend comes to: the position of an entry
that is the number, or else the position at which it would have to be put in. -/
inductive SearchOutcome where
  | found (i : Nat)
  | missing (i : Nat)

/-- The line that an outcome in the starts of lines stands for. -/
def SearchOutcome.line : SearchOutcome → Nat
  | found i => i + 1
  | missing i => i

/-- Whether a search for `x` in the entries `xs` may have this outcome. -/
inductive Sought (xs : Array Nat) (x : Nat) : SearchOutcome → Prop
  | found {i} : xs[i]? = some x → Sought xs x (.found i)
  | missing {i} : i ≤ xs.size → (∀ j < i, ∀ y, xs[j]? = some y → y < x) →
    (∀ j ≥ i, ∀ y, xs[j]? = some y → x < y) → Sought xs x (.missing i)

namespace Sought

variable {l : List Nat} {x : Nat} {outcome other : SearchOutcome}

theorem getD_eq {xs : Array Nat} {i y : Nat} (h : xs[i]? = some y) : xs.getD i 0 = y := by
  rw [Array.getD_eq_getD_getElem?, h, Option.getD_some]

theorem getElem?_eq {xs : Array Nat} {i : Nat} (h : i < xs.size) :
    xs[i]? = some (xs.getD i 0) := by
  simp [Array.getD_eq_getD_getElem?, h]

/-- Among entries that ascend, those before one are less and those after it are larger. -/
theorem lt_of_getElem? (h : l.Pairwise (· < ·)) {i j y z : Nat} (hij : i < j)
    (hy : l.toArray[i]? = some y) (hz : l.toArray[j]? = some z) : y < z := by
  obtain ⟨hi, rfl⟩ := Array.getElem?_eq_some_iff.1 hy
  obtain ⟨hj, rfl⟩ := Array.getElem?_eq_some_iff.1 hz
  simpa using List.pairwise_iff_getElem.1 h i j (by simpa using hi) (by simpa using hj) hij

/-- Both outcomes come to the rank: an entry that is found counts, as it is at most `x`. -/
theorem rank_eq (h : l.Pairwise (· < ·)) (hs : Sought l.toArray x outcome) :
    rank l.toArray x = outcome.line := by
  cases hs with
  | @found i hi =>
    obtain ⟨hlt, -⟩ := Array.getElem?_eq_some_iff.1 hi
    refine rankBetween_eq (Nat.zero_le _) hlt (fun j hj => ?_) fun j hj hjsize => ?_
    · rcases Nat.lt_or_eq_of_le (Nat.le_of_lt_succ hj) with hj | rfl
      · exact Nat.le_of_lt (lt_of_getElem? h hj (getElem?_eq (Nat.lt_trans hj hlt)) hi)
      · exact Nat.le_of_eq (getD_eq hi)
    · exact lt_of_getElem? h hj hi (getElem?_eq hjsize)
  | missing hi hbelow habove =>
    refine rankBetween_eq (Nat.zero_le _) hi (fun j hj => ?_) fun j hj hjsize => ?_
    · exact Nat.le_of_lt (hbelow j hj _ (getElem?_eq (Nat.lt_of_lt_of_le hj hi)))
    · exact habove j hj _ (getElem?_eq hjsize)

theorem not_both {xs : Array Nat} {i j : Nat} (hi : Sought xs x (.found i))
    (hj : Sought xs x (.missing j)) : False := by
  cases hi with
  | found hi =>
    cases hj with
    | missing _ hbelow habove =>
      rcases Nat.lt_or_ge i j with hlt | hge
      · exact Nat.lt_irrefl x (hbelow i hlt x hi)
      · exact Nat.lt_irrefl x (habove i hge x hi)

theorem unique (h : l.Pairwise (· < ·)) (ha : Sought l.toArray x outcome)
    (hb : Sought l.toArray x other) : other = outcome := by
  have hline := (hb.rank_eq h).symm.trans (ha.rank_eq h)
  cases outcome <;> cases other
  case found.found => exact congrArg SearchOutcome.found (Nat.succ.inj hline)
  case found.missing => exact (not_both ha hb).elim
  case missing.found => exact (not_both hb ha).elim
  case missing.missing => exact congrArg SearchOutcome.missing hline

end Sought

theorem exists_sought {l : List Nat} (h : l.Pairwise (· < ·)) (x : Nat) :
    ∃ outcome, Sought l.toArray x outcome := by
  have hle : l.Pairwise (· ≤ ·) := h.imp Nat.le_of_lt
  have hget {j y : Nat} (hy : l.toArray[j]? = some y) : l.getD j 0 = y := by
    simpa using Sought.getD_eq hy
  by_cases hx : ∃ i : Nat, l.toArray[i]? = some x
  · obtain ⟨i, hi⟩ := hx
    exact ⟨.found i, .found hi⟩
  · refine ⟨.missing (l.countP (· ≤ x)), .missing List.countP_le_length ?_ ?_⟩
    · intro j hj y hy
      have hyx : y ≤ x := hget hy ▸ le_of_lt_countP hle hj
      exact Nat.lt_of_le_of_ne hyx fun heq => hx ⟨j, heq ▸ hy⟩
    · intro j hj y hy
      obtain ⟨hlt, -⟩ := Array.getElem?_eq_some_iff.1 hy
      exact hget hy ▸ lt_of_countP_le hle hj hlt

/-! ## Line feeds in bytes -/

/-- How many line feeds are among the bytes before an offset. -/
def lineFeedsBefore (source : String) (offset : Nat) : Nat :=
  (source.toUTF8.data.toList.take offset).count 10

theorem utf8_eq_flatMap (source : String) :
    source.toUTF8.data.toList = source.toList.flatMap String.utf8EncodeChar := by
  have h : source.toUTF8 = source.toList.utf8Encode := String.utf8Encode_toList.symm
  rw [h, List.utf8Encode, List.data_toByteArray]

/-- Every byte of a character past ASCII is larger than a line feed. -/
theorem lineFeed_notMem_utf8 {c : Char} (hc : c ≠ '\n') : 10 ∉ String.utf8EncodeChar c := by
  have hval : c.val.toNat ≠ 10 := by
    intro h
    exact hc (Char.ext (UInt32.toNat_inj.1 h))
  have hbyte (n : Nat) (h : n % 256 ≠ 10) : (10 : UInt8) ≠ UInt8.ofNat n := by
    intro hn
    apply h
    have := congrArg UInt8.toNat hn
    simpa using this.symm
  fun_cases String.utf8EncodeChar c
  all_goals simp only [List.mem_cons, List.not_mem_nil, or_false, not_or]
  · exact hbyte _ (by omega)
  · exact ⟨hbyte _ (by omega), hbyte _ (by omega)⟩
  · exact ⟨hbyte _ (by omega), hbyte _ (by omega), hbyte _ (by omega)⟩
  · exact ⟨hbyte _ (by omega), hbyte _ (by omega), hbyte _ (by omega), hbyte _ (by omega)⟩

theorem count_lineFeed_take_utf8 (c : Char) (n : Nat) :
    ((String.utf8EncodeChar c).take n).count 10 = if c = '\n' ∧ 0 < n then 1 else 0 := by
  by_cases hc : c = '\n'
  · subst hc
    have hbytes : String.utf8EncodeChar '\n' = [10] := by decide
    rw [hbytes]
    cases n <;> simp
  · rw [if_neg (by simp [hc]), List.count_eq_zero]
    exact fun h => lineFeed_notMem_utf8 hc (List.mem_of_mem_take h)

/-! ## Starts of lines -/

namespace LineIndex

theorem lt_of_mem_startsAfter {o x : Nat} {cs : List Char} (h : x ∈ startsAfter o cs) : o < x := by
  induction cs generalizing o with
  | nil => simp [startsAfter] at h
  | cons c cs ih =>
    have hsize := c.utf8Size_pos
    unfold startsAfter at h
    split at h
    · rcases List.mem_cons.1 h with rfl | h
      · omega
      · have := ih h
        omega
    · have := ih h
      omega

theorem pairwise_startsAfter (o : Nat) (cs : List Char) :
    (startsAfter o cs).Pairwise (· < ·) := by
  induction cs generalizing o with
  | nil => exact List.Pairwise.nil
  | cons c cs ih =>
    unfold startsAfter
    split
    · exact List.pairwise_cons.2 ⟨fun x hx => lt_of_mem_startsAfter hx, ih _⟩
    · exact ih _

/-- The starts of lines ascend, from that of the first line. -/
theorem pairwise_starts (cs : List Char) : (0 :: startsAfter 0 cs).Pairwise (· < ·) :=
  List.pairwise_cons.2 ⟨fun _ hx => lt_of_mem_startsAfter hx, pairwise_startsAfter 0 cs⟩

theorem countP_startsAfter (o x : Nat) (cs : List Char) : (startsAfter o cs).countP (· ≤ x) =
    ((cs.flatMap String.utf8EncodeChar).take (x - o)).count 10 := by
  induction cs generalizing o with
  | nil => simp [startsAfter]
  | cons c cs ih =>
    rw [List.flatMap_cons, List.take_append, List.count_append, count_lineFeed_take_utf8,
      String.length_utf8EncodeChar, Nat.sub_sub, ← ih]
    rw [startsAfter]
    by_cases hc : c = '\n'
    · subst hc
      have hsize : '\n'.utf8Size = 1 := rfl
      simp only [↓reduceIte, List.countP_cons, hsize, true_and, decide_eq_true_eq]
      have hiff : o + 1 ≤ x ↔ 0 < x - o := by omega
      simp only [hiff]
      omega
    · simp [hc]

/-- The line of an offset is one more than the line feeds before it. -/
theorem lineOf_eq (source : String) (offset : Nat) :
    (ofText source).lineOf offset = 1 + lineFeedsBefore source offset := by
  have hsorted := (pairwise_starts source.toList).imp Nat.le_of_lt
  unfold lineOf ofText lineFeedsBefore
  rw [rank_eq_countP hsorted, List.countP_cons_of_pos (by simp), countP_startsAfter,
    utf8_eq_flatMap, Nat.sub_zero, Nat.add_comm]

theorem lineOf_le_lineCount (source : String) (offset : Nat) :
    (ofText source).lineOf offset ≤ (ofText source).lineCount := by
  unfold lineOf ofText
  rw [rank_eq_countP ((pairwise_starts source.toList).imp Nat.le_of_lt)]
  exact List.countP_le_length

theorem lineFeedsBefore_mono (source : String) : Monotone (lineFeedsBefore source) :=
  fun _ _ h => ((List.take_prefix_take_left h).sublist).count_le 10

/-- The line of an offset of a text, also of one inside a character or past the end:
* it is one more than the line feeds among the bytes before the offset, so that it does
  not go down when the offset goes up;
* it is a line of the text;
* a search for the offset in the starts of lines has one outcome, and this is its line:
  the start of a line is found, and any other offset stands after the start of the first
  line at least, so that it would never be put in before all of them. -/
theorem lineOf_counts_lineFeeds (source : String) :
    let index := ofText source
    Monotone index.lineOf ∧ ∀ offset,
      index.lineOf offset = 1 + lineFeedsBefore source offset ∧
      1 ≤ index.lineOf offset ∧ index.lineOf offset ≤ index.lineCount ∧
      ∃ outcome, (∀ other, Sought index.starts offset other ↔ other = outcome) ∧
        index.lineOf offset = outcome.line ∧ outcome ≠ .missing 0 := by
  intro index
  have hstarts := pairwise_starts source.toList
  refine ⟨fun a b hab => ?_, fun offset => ?_⟩
  · rw [lineOf_eq, lineOf_eq]
    exact Nat.add_le_add_left (lineFeedsBefore_mono source hab) 1
  · have hline := lineOf_eq source offset
    have hpos : 1 ≤ index.lineOf offset := by
      rw [hline]
      exact Nat.le_add_right 1 _
    obtain ⟨outcome, houtcome⟩ := exists_sought hstarts offset
    have hrank : index.lineOf offset = outcome.line := houtcome.rank_eq hstarts
    refine ⟨hline, hpos, lineOf_le_lineCount source offset, outcome, fun other => ?_, hrank, ?_⟩
    · constructor
      · exact houtcome.unique hstarts
      · rintro rfl
        exact houtcome
    · rintro rfl
      rw [hrank] at hpos
      exact absurd hpos (by decide)

/-- The offsets of a line feed, of the middle of `é`, and past the end of a text that ends in
a line feed. -/
example : [0, 1, 2, 3, 4, 5, 9].map (ofText "a\né\n").lineOf = [1, 1, 2, 2, 2, 3, 3] := by
  cbv

end LineIndex

end Scriptlet
