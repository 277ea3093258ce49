-- How a number of a document is written. The lexer takes a number as far as it goes, and
-- what it takes is an integer, which has one text, or is kept as it was written.
import Mathlib.Data.List.TakeWhile
import Scriptlet.Json.Lexer

namespace Scriptlet.Json

/-! ## The parts of a number -/

/-- One or more digits. -/
def AreDigits (ds : List Char) : Prop := ds ≠ [] ∧ ∀ d ∈ ds, d.isDigit = true

/-- The digits of an integer: a lone zero, or digits that do not start with one. -/
def IsWhole (ds : List Char) : Prop := ds = ['0'] ∨ AreDigits ds ∧ ds.head? ≠ some '0'

/-- Nothing, or a point and digits. -/
def IsFraction (cs : List Char) : Prop := cs = [] ∨ ∃ ds, AreDigits ds ∧ cs = '.' :: ds

/-- Nothing, or an `e`, a sign or none, and digits. -/
def IsExponent (cs : List Char) : Prop :=
  cs = [] ∨ ∃ e sign ds, (e = 'e' ∨ e = 'E') ∧ (sign = [] ∨ sign = ['+'] ∨ sign = ['-']) ∧
    AreDigits ds ∧ cs = e :: (sign ++ ds)

/-- A minus or nothing. -/
def signOf (negative : Bool) : List Char := if negative then ['-'] else []

/-- A number that is no integer: one with a fraction or an exponent, or minus zero. -/
def IsReal (cs : List Char) : Prop :=
  ∃ negative whole fraction exponent, IsWhole whole ∧ IsFraction fraction ∧
    IsExponent exponent ∧ (fraction ++ exponent ≠ [] ∨ negative = true ∧ whole = ['0']) ∧
    cs = signOf negative ++ (whole ++ (fraction ++ exponent))

theorem IsWhole.areDigits {ds : List Char} (h : IsWhole ds) : AreDigits ds := by
  rcases h with rfl | ⟨h, -⟩
  · exact ⟨List.cons_ne_nil _ _, by simp⟩
  · exact h

/-- Whether no number that stands before this text goes on in it. -/
def Apart (rest : List Char) : Prop :=
  ∀ c ∈ rest.head?, c.isDigit = false ∧ c ≠ '.' ∧ c ≠ 'e' ∧ c ≠ 'E'

/-- Whether no digits that stand before this text go on in it. -/
def NoDigit (rest : List Char) : Prop := ∀ c ∈ rest.head?, c.isDigit = false

theorem Apart.noDigit {rest : List Char} (h : Apart rest) : NoDigit rest := fun c hc => (h c hc).1

theorem noDigit_exponent {exponent rest : List Char} (he : IsExponent exponent) (h : Apart rest) :
    NoDigit (exponent ++ rest) := by
  rcases he with rfl | ⟨e, sign, ds, he, -, -, rfl⟩
  · exact h.noDigit
  · intro c hc
    cases hc
    rcases he with rfl | rfl <;> decide

theorem noDigit_fraction {fraction rest : List Char} (hf : IsFraction fraction)
    (h : NoDigit rest) : NoDigit (fraction ++ rest) := by
  rcases hf with rfl | ⟨ds, -, rfl⟩
  · exact h
  · intro c hc
    cases hc
    decide

theorem digits?_eq_some {cs ds rest : List Char} (h : digits? cs = some (ds, rest)) :
    AreDigits ds ∧ cs = ds ++ rest := by
  unfold digits? at h
  split at h
  · cases h
  · next hne =>
    cases h
    exact ⟨⟨hne, fun d hd => List.mem_takeWhile_imp hd⟩,
      (List.takeWhile_append_dropWhile (p := Char.isDigit) (l := cs)).symm⟩

theorem digits?_append {ds rest : List Char} (hds : AreDigits ds) (h : NoDigit rest) :
    digits? (ds ++ rest) = some (ds, rest) := by
  have hnone : rest.takeWhile Char.isDigit = [] ∧ rest.dropWhile Char.isDigit = rest := by
    cases rest with
    | nil => exact ⟨rfl, rfl⟩
    | cons c cs =>
      have hc := h c rfl
      simp [hc]
  unfold digits?
  rw [List.takeWhile_append_of_pos hds.2, List.dropWhile_append_of_pos hds.2, hnone.1, hnone.2,
    List.append_nil]
  split
  · exact absurd rfl hds.1
  · rfl

theorem whole?_eq_some {cs ds rest : List Char} (h : whole? cs = some (ds, rest)) :
    IsWhole ds ∧ cs = ds ++ rest := by
  unfold whole? at h
  split at h
  · cases h
    exact ⟨.inl rfl, rfl⟩
  · next hzero =>
    obtain ⟨hds, rfl⟩ := digits?_eq_some h
    refine ⟨.inr ⟨hds, fun hhead => ?_⟩, rfl⟩
    obtain ⟨ds', rfl⟩ := List.head?_eq_some_iff.1 hhead
    exact hzero (ds' ++ rest) rfl

theorem whole?_append {ds rest : List Char} (hds : IsWhole ds) (h : NoDigit rest) :
    whole? (ds ++ rest) = some (ds, rest) := by
  rcases hds with rfl | ⟨hds, hhead⟩
  · rfl
  · unfold whole?
    split
    · next heq =>
      obtain ⟨d, ds', rfl⟩ := List.exists_cons_of_ne_nil hds.1
      rw [List.cons_append] at heq
      exact absurd (congrArg some (List.cons.inj heq).1) hhead
    · exact digits?_append hds h

theorem fraction?_eq_some {cs fraction rest : List Char}
    (h : fraction? cs = some (fraction, rest)) :
    IsFraction fraction ∧ cs = fraction ++ rest := by
  unfold fraction? at h
  split at h
  · obtain ⟨⟨ds, rest⟩, hds, ⟨⟩⟩ := Option.map_eq_some_iff.1 h
    obtain ⟨hdigits, rfl⟩ := digits?_eq_some hds
    exact ⟨.inr ⟨ds, hdigits, rfl⟩, rfl⟩
  · cases h
    exact ⟨.inl rfl, rfl⟩

theorem fraction?_append {fraction rest : List Char} (hf : IsFraction fraction)
    (h : NoDigit rest) (hpoint : ∀ c ∈ rest.head?, c ≠ '.') :
    fraction? (fraction ++ rest) = some (fraction, rest) := by
  rcases hf with rfl | ⟨ds, hds, rfl⟩
  · unfold fraction?
    split
    · next heq =>
      rw [List.nil_append] at heq
      subst heq
      exact absurd rfl (hpoint _ rfl)
    · rfl
  · rw [List.cons_append, fraction?, digits?_append hds h]
    rfl

theorem exponent?_eq_some {cs exponent rest : List Char}
    (h : exponent? cs = some (exponent, rest)) :
    IsExponent exponent ∧ cs = exponent ++ rest := by
  have hsign (cs : List Char) : ((exponentSign cs).1 = [] ∨ (exponentSign cs).1 = ['+'] ∨
      (exponentSign cs).1 = ['-']) ∧ cs = (exponentSign cs).1 ++ (exponentSign cs).2 := by
    unfold exponentSign
    split <;> simp
  unfold exponent? at h
  split at h
  · next c cs =>
    split at h
    · next hc =>
      obtain ⟨⟨ds, rest⟩, hds, ⟨⟩⟩ := Option.map_eq_some_iff.1 h
      obtain ⟨hdigits, hrest⟩ := digits?_eq_some hds
      refine ⟨.inr ⟨c, _, ds, hc, (hsign cs).1, hdigits, rfl⟩, ?_⟩
      rw [List.cons_append, List.append_assoc, ← hrest, ← (hsign cs).2]
    · cases h
      exact ⟨.inl rfl, rfl⟩
  · cases h
    exact ⟨.inl rfl, rfl⟩

theorem exponentSign_append {sign ds : List Char}
    (hsign : sign = [] ∨ sign = ['+'] ∨ sign = ['-']) (hds : AreDigits ds) (rest : List Char) :
    exponentSign (sign ++ (ds ++ rest)) = (sign, ds ++ rest) := by
  rcases hsign with rfl | rfl | rfl
  · obtain ⟨d, ds, rfl⟩ := List.exists_cons_of_ne_nil hds.1
    have hd := hds.2 d (.head _)
    unfold exponentSign
    split
    · next heq =>
      cases heq
      cases hd
    · next heq =>
      cases heq
      cases hd
    · rfl
  · rfl
  · rfl

theorem exponent?_append {exponent rest : List Char} (he : IsExponent exponent)
    (h : Apart rest) : exponent? (exponent ++ rest) = some (exponent, rest) := by
  rcases he with rfl | ⟨e, sign, ds, he, hsign, hds, rfl⟩
  · cases rest with
    | nil => rfl
    | cons c cs =>
      obtain ⟨-, -, hlower, hupper⟩ := h c rfl
      rw [List.nil_append, exponent?, if_neg (not_or.2 ⟨hlower, hupper⟩)]
  · simp only [List.cons_append, List.append_assoc, exponent?, if_pos he,
      exponentSign_append hsign hds, digits?_append hds h.noDigit, Option.map_some]

theorem number?_eq_some {negative : Bool} {cs rest : List Char} {t : Token}
    (h : number? negative cs = some (t, rest)) :
    ∃ whole fraction exponent, IsWhole whole ∧ IsFraction fraction ∧ IsExponent exponent ∧
      cs = whole ++ (fraction ++ exponent) ++ rest ∧
      t = numberToken negative whole (fraction ++ exponent) := by
  simp only [number?, Option.bind_eq_bind, Option.bind_eq_some_iff, Option.pure_def,
    Option.some.injEq, Prod.mk.injEq, Prod.exists] at h
  obtain ⟨whole, _, hwhole, fraction, _, hfraction, exponent, _, hexponent, rfl, rfl⟩ := h
  obtain ⟨hw, rfl⟩ := whole?_eq_some hwhole
  obtain ⟨hf, rfl⟩ := fraction?_eq_some hfraction
  obtain ⟨he, rfl⟩ := exponent?_eq_some hexponent
  exact ⟨whole, fraction, exponent, hw, hf, he, by simp, rfl⟩

theorem number?_append {whole fraction exponent rest : List Char} (negative : Bool)
    (hw : IsWhole whole) (hf : IsFraction fraction) (he : IsExponent exponent) (h : Apart rest) :
    number? negative (whole ++ (fraction ++ exponent) ++ rest) =
      some (numberToken negative whole (fraction ++ exponent), rest) := by
  have hexponent := noDigit_exponent he h
  have hpoint : ∀ c ∈ (exponent ++ rest).head?, c ≠ '.' := by
    rcases he with rfl | ⟨e, sign, ds, he, -, -, rfl⟩
    · exact fun c hc => (h c hc).2.1
    · intro c hc
      cases hc
      rcases he with rfl | rfl <;> decide
  simp only [List.append_assoc, number?, whole?_append hw (noDigit_fraction hf hexponent),
    fraction?_append hf hexponent hpoint, exponent?_append he h, Option.bind_eq_bind,
    Option.bind_some, Option.pure_def]

/-! ## The token of a number -/

theorem digitChar_sub {d : Char} (h : d.isDigit = true) :
    d.toNat - '0'.toNat < 10 ∧ Nat.digitChar (d.toNat - '0'.toNat) = d := by
  have hdigit : ∀ n < 10, Nat.digitChar n = Char.ofNat ('0'.toNat + n) := by decide
  simp only [Char.isDigit, Bool.and_eq_true, decide_eq_true_eq] at h
  have hlo : '0'.toNat ≤ d.toNat := h.1
  have hhi : d.toNat ≤ '9'.toNat := h.2
  have hlt : d.toNat - '0'.toNat < 10 := Nat.lt_succ_of_le (Nat.sub_le_sub_right hhi _)
  refine ⟨hlt, ?_⟩
  rw [hdigit _ hlt, Nat.add_sub_cancel' hlo, Char.ofNat_toNat]

/-- Digits after those of a number other than zero go on with its digits. -/
theorem toDigits_ofDigitChars_of_pos {n : Nat} {ds : List Char} (hn : 0 < n)
    (h : ∀ d ∈ ds, d.isDigit = true) :
    Nat.toDigits 10 (Nat.ofDigitChars 10 ds n) = Nat.toDigits 10 n ++ ds := by
  induction ds generalizing n with
  | nil => rw [Nat.ofDigitChars_nil, List.append_nil]
  | cons d ds ih =>
    obtain ⟨hd, hds⟩ := List.forall_mem_cons.1 h
    obtain ⟨hlt, hchar⟩ := digitChar_sub hd
    rw [Nat.ofDigitChars_cons, ih (by omega) hds,
      ← Nat.toDigits_append_toDigits (by decide) hn hlt, Nat.toDigits_of_lt_base hlt, hchar,
      List.append_assoc, List.singleton_append]

/-- The digits of an integer are those of the number that they write. -/
theorem toDigits_ofDigitChars {ds : List Char} (h : IsWhole ds) :
    Nat.toDigits 10 (Nat.ofDigitChars 10 ds 0) = ds := by
  rcases h with rfl | ⟨⟨hne, hall⟩, hhead⟩
  · rfl
  · obtain ⟨d, ds, rfl⟩ := List.exists_cons_of_ne_nil hne
    obtain ⟨hd, hds⟩ := List.forall_mem_cons.1 hall
    obtain ⟨hlt, hchar⟩ := digitChar_sub hd
    have hpos : 0 < d.toNat - '0'.toNat := by
      refine Nat.pos_of_ne_zero fun hzero => hhead ?_
      rw [List.head?_cons, ← hchar, hzero]
      rfl
    rw [Nat.ofDigitChars_cons, Nat.mul_zero, Nat.zero_add, toDigits_ofDigitChars_of_pos hpos hds,
      Nat.toDigits_of_lt_base hlt, hchar, List.singleton_append]

theorem head?_toDigits {n : Nat} (h : 0 < n) : (Nat.toDigits 10 n).head? ≠ some '0' := by
  induction n using Nat.strongRecOn with
  | ind n ih =>
    rw [Nat.toDigits_eq_if (by decide)]
    split
    · next hlt =>
      have hdigit : ∀ d < 10, 0 < d → [Nat.digitChar d].head? ≠ some '0' := by decide
      exact hdigit n hlt h
    · have hhead := ih (n / 10) (by omega) (by omega)
      obtain ⟨d, ds, hds⟩ := List.exists_cons_of_ne_nil
        (Nat.toDigits_ne_nil (n := n / 10) (b := 10))
      rw [hds] at hhead ⊢
      exact hhead

theorem isWhole_toDigits (n : Nat) : IsWhole (Nat.toDigits 10 n) := by
  rcases Nat.eq_zero_or_pos n with rfl | hn
  · exact .inl rfl
  · exact .inr ⟨⟨Nat.toDigits_ne_nil, fun d hd =>
      Nat.isDigit_of_mem_toDigits (by decide) (by decide) hd⟩, head?_toDigits hn⟩

/-- The text of an integer: a minus for one below zero, then its digits. -/
theorem toList_toString (n : Int) :
    (toString n).toList = signOf (n < 0) ++ Nat.toDigits 10 n.natAbs := by
  rw [Int.toString_eq_repr, Int.repr_eq_if]
  split
  · next h =>
    have hn : n.natAbs = n.toNat ∧ ¬n < 0 := by omega
    simp [signOf, hn]
  · next h =>
    have hn : n.natAbs = (-n).toNat ∧ n < 0 := by omega
    simp [signOf, hn]

/-- A text of a number that is read as this token. -/
inductive NumberWritten : Token → List Char → Prop
  | int (n : Int) : NumberWritten (.int n) (toString n).toList
  | real {cs : List Char} : IsReal cs → NumberWritten (.real (String.ofList cs)) cs

theorem numberWritten_numberToken {negative : Bool} {whole fraction exponent : List Char}
    (hw : IsWhole whole) (hf : IsFraction fraction) (he : IsExponent exponent) :
    NumberWritten (numberToken negative whole (fraction ++ exponent))
      (signOf negative ++ (whole ++ (fraction ++ exponent))) := by
  have hdigits := toDigits_ofDigitChars hw
  unfold numberToken
  generalize Nat.ofDigitChars 10 whole 0 = n at hdigits ⊢
  simp only
  split
  · next h =>
    rw [List.append_assoc]
    refine .real ⟨negative, whole, fraction, exponent, hw, hf, he, h.imp_right fun hzero => ?_, rfl⟩
    exact ⟨hzero.1, by rw [← hdigits, hzero.2]; rfl⟩
  · next h =>
    obtain ⟨hrest, hzero⟩ := not_or.1 h
    rw [not_ne_iff.1 hrest, List.append_nil]
    cases negative with
    | false =>
      have htext := NumberWritten.int n
      rwa [toList_toString, Int.natAbs_natCast, hdigits, decide_eq_false (by omega)] at htext
    | true =>
      have hn : n ≠ 0 := fun hn => hzero ⟨rfl, hn⟩
      have htext := NumberWritten.int (-n)
      rwa [toList_toString, Int.natAbs_neg, Int.natAbs_natCast, hdigits,
        decide_eq_true (by omega)] at htext

theorem numberToken_toDigits (n : Int) :
    numberToken (n < 0) (Nat.toDigits 10 n.natAbs) [] = .int n := by
  have hzero : ¬(n < 0 ∧ n.natAbs = 0) := by omega
  have hsign : (if n < 0 then -(n.natAbs : Int) else n.natAbs) = n := by split <;> omega
  simp only [numberToken, Nat.ofDigitChars_ten_toDigits, decide_eq_true_eq, ne_eq,
    not_true_eq_false, false_or, hzero, if_false, hsign]

theorem NumberWritten.exists_parts {t : Token} {cs : List Char} (h : NumberWritten t cs) :
    ∃ negative whole fraction exponent, IsWhole whole ∧ IsFraction fraction ∧
      IsExponent exponent ∧ numberToken negative whole (fraction ++ exponent) = t ∧
      cs = signOf negative ++ (whole ++ (fraction ++ exponent)) := by
  cases h with
  | int n =>
    exact ⟨_, _, [], [], isWhole_toDigits _, .inl rfl, .inl rfl, numberToken_toDigits n,
      by simpa using toList_toString n⟩
  | real h =>
    obtain ⟨negative, whole, fraction, exponent, hw, hf, he, hreal, rfl⟩ := h
    refine ⟨negative, whole, fraction, exponent, hw, hf, he, ?_, rfl⟩
    unfold numberToken
    rw [if_pos (hreal.imp_right fun h => ⟨h.1, by rw [h.2]; rfl⟩), List.append_assoc]
    rfl

theorem firstToken_of_isDigit {c : Char} (h : c.isDigit = true) (cs : List Char) :
    firstToken c cs = number? false (c :: cs) := by
  unfold firstToken
  split <;> simp_all

theorem isBlank_of_isDigit {c : Char} (h : c.isDigit = true) : isBlank c = false := by
  by_contra hc
  simp only [isBlank, Bool.not_eq_false, Bool.or_eq_true, beq_iff_eq] at hc
  rcases hc with ((rfl | rfl) | rfl) | rfl <;> simp at h

/-- A number is read as its token, if the text after it does not go on with it. -/
theorem NumberWritten.firstToken_eq {t : Token} {cs rest : List Char} (h : NumberWritten t cs)
    (hrest : Apart rest) : ∃ c tail, cs = c :: tail ∧ isBlank c = false ∧
      firstToken c (tail ++ rest) = some (t, rest) := by
  obtain ⟨negative, whole, fraction, exponent, hw, hf, he, rfl, rfl⟩ := h.exists_parts
  have hnumber := number?_append negative hw hf he hrest
  cases negative with
  | true => exact ⟨'-', _, rfl, rfl, hnumber⟩
  | false =>
    obtain ⟨hne, hall⟩ := hw.areDigits
    obtain ⟨d, ds, rfl⟩ := List.exists_cons_of_ne_nil hne
    have hd := hall d (.head _)
    exact ⟨d, _, rfl, isBlank_of_isDigit hd, (firstToken_of_isDigit hd _).trans hnumber⟩

end Scriptlet.Json
