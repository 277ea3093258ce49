-- Chains of `+` and `-`. Integers add up to their exact sum, as long as every sum on the
-- way has 64 bits. From the first string on the chain is a text that grows by the text of
-- each operand, and a text has no `-`.
import Mathlib.Algebra.Ring.Int.Defs
import Scriptlet.Proofs.Chains

namespace Scriptlet

/-! ## Exact sums -/

/-- Whether an integer has 64 bits. -/
def Fits (n : Int) : Prop := Int64.minValue.toInt ≤ n ∧ n ≤ Int64.maxValue.toInt

instance (n : Int) : Decidable (Fits n) := inferInstanceAs (Decidable (_ ∧ _))

/-- What an integer after an operator adds to the sum before it. -/
def BinOp.signed (op : BinOp) (n : Int64) : Int := if op = .sub then -n.toInt else n.toInt

/-- The mathematical sum of the first operands of a chain, which are the integers `ns`. -/
def exactSum (links : List Link) (ns : List Int64) : Int :=
  (List.zipWith BinOp.signed (.add :: links.map Link.op) ns).sum

/-- The text of the exact sum of integers, and no text where there are none. -/
def sumText (links : List Link) (ns : List Int64) : String :=
  if ns = [] then "" else toString (exactSum links ns)

/-- The integers that values begin with. -/
def Value.leadingInts : List Value → List Int64
  | .int n :: vals => n :: leadingInts vals
  | _ => []

variable {env : Environment} {e first : Expr} {l : Link} {links ls more : List Link}
  {h h₁ h' : Heap} {v w : Value} {vals ws texts : List Value} {ns : List Int64} {m n : Int64}

theorem fits_zero : Fits 0 := by
  decide

theorem fits_toInt (n : Int64) : Fits n.toInt :=
  ⟨n.le_toInt, Int.le_sub_one_of_lt n.toInt_lt⟩

theorem exactSum_nil : exactSum links [] = 0 := by
  simp [exactSum]

theorem exactSum_singleton : exactSum links [n] = n.toInt := by
  simp [exactSum, BinOp.signed]

theorem exactSum_concat (hlength : ls.length + 1 = ns.length) (m : Int64) :
    exactSum (ls ++ l :: more) (ns ++ [m]) = exactSum (ls ++ l :: more) ns + l.op.signed m := by
  have hzip (ms : List Int64) :
      List.zipWith BinOp.signed (.add :: (ls ++ l :: more).map Link.op) (ns ++ ms) =
        List.zipWith BinOp.signed (.add :: ls.map Link.op) ns ++
          List.zipWith BinOp.signed (l.op :: more.map Link.op) ms := by
    rw [List.map_append, List.map_cons, ← List.cons_append]
    exact List.zipWith_append (by simpa using hlength)
  have hns := hzip []
  rw [List.append_nil] at hns
  unfold exactSum
  rw [hzip [m], hns]
  simp

/-! ## One step -/

theorem Heap.checked_of_fits (operator : String) (m n : Int64) {r : Int} (hr : Fits r) :
    ∃ k : Int64, k.toInt = r ∧ checked operator m n r = .ok (.int k) := by
  have hk : integer? r = some (Int64.ofInt r) := if_pos hr
  refine ⟨Int64.ofInt r, toInt_of_integer? hk, ?_⟩
  simp only [checked, hk]

theorem Heap.checked_of_not_fits {operator : String} {r : Int} (hr : ¬ Fits r) :
    checked operator m n r = .error (.ofCause (.integerOverflow operator m n)) := by
  have hk : integer? r = none := if_neg hr
  simp only [checked, hk]

theorem BinOp.apply_ints {op : BinOp} (hop : op = add ∨ op = sub) (h : Heap) (m n : Int64) :
    op.apply h (.int m) (.int n) = Heap.checked op.symbol m n (m.toInt + op.signed n) := by
  rcases hop with rfl | rfl <;> rfl

/-- Adding to a text or adding a text joins the texts of both. -/
theorem Heap.add_of_string (hv : v.kind ∈ [.int, .string]) (hw : w.kind ∈ [.int, .string])
    (htext : v.kind = .string ∨ w.kind = .string) (h h' : Heap) :
    h.add v w = .ok (.str (h'.display v ++ h'.display w)) := by
  cases v <;> cases w <;> simp_all [Value.kind, add, display, displayIn]

theorem BinOp.apply_sub_of_string (htext : v.kind = .string ∨ w.kind = .string) (h : Heap) :
    sub.apply h v w =
      .error (.ofCause (.unsupportedOperation "-" (h.describe v) (h.describe w))) := by
  apply subtract_of_not_joins
  rcases htext with htext | htext <;> simp [joins, htext]

namespace Expr

/-- One more integer, if its sum with what comes before it fits. -/
theorem exists_eval_concat_of_fits (hop : l.op = .add ∨ l.op = .sub)
    (hn : (first.chain ls).eval env h = .ok (.int n) h₁)
    (hm : l.operand.eval env h₁ = .ok (.int m) h') (hfits : Fits (n.toInt + l.op.signed m)) :
    ∃ k : Int64, k.toInt = n.toInt + l.op.signed m ∧
      (first.chain (ls ++ [l])).eval env h = .ok (.int k) h' := by
  obtain ⟨k, hk, hchecked⟩ := Heap.checked_of_fits l.op.symbol n m hfits
  refine ⟨k, hk, ?_⟩
  rw [eval_chain_concat hn hm, BinOp.apply_ints hop, hchecked]
  rfl

/-- One more operand of a text, or a string after an integer. -/
theorem eval_join_of_text (hop : l.op = .add) (hv : e.eval env h = .ok v h₁)
    (hw : l.operand.eval env h₁ = .ok w h') (hvkind : v.kind ∈ [.int, .string])
    (hwkind : w.kind ∈ [.int, .string]) (htext : v.kind = .string ∨ w.kind = .string)
    (shown : Heap) :
    (l.join e).eval env h = .ok (.str (shown.display v ++ shown.display w)) h' := by
  unfold Link.join
  rw [eval_binary_of_eval hv hw, hop]
  exact Eval.ofExcept_eq_ok_iff.2 ⟨Heap.add_of_string hvkind hwkind htext h' shown, rfl⟩

/-! ## Integers -/

/-- Integers add up as long as every sum on the way fits. The links `more` come after them,
so that the sums are those of one chain however far its operands are integers. -/
theorem exists_eval_of_ints (hops : ∀ l ∈ links, l.op = .add ∨ l.op = .sub) (more : List Link)
    (heval : evalAll env (operands first links) h = .ok (ns.map .int) h')
    (hfits : ∀ q, q <+: ns → Fits (exactSum (links ++ more) q)) :
    ∃ k : Int64, k.toInt = exactSum (links ++ more) ns ∧
      (first.chain links).eval env h = .ok (.int k) h' := by
  -- The last integer is added to a chain that ends before it.
  induction ns using List.reverseRecOn generalizing links more h' with
  | nil =>
    obtain ⟨_, _, _, -, -, ⟨⟩⟩ := evalAll_cons_eq_ok_iff.1 heval
  | append_singleton ns m ih =>
    rw [List.map_append, List.map_singleton] at heval
    by_cases hns : ns = []
    · subst hns
      obtain ⟨_, _, h₁, hm, hrest, ⟨⟩⟩ := evalAll_cons_eq_ok_iff.1 heval
      obtain ⟨rfl, rfl⟩ := eq_nil_of_evalAll_links hrest
      exact ⟨m, exactSum_singleton.symm, hm⟩
    · obtain ⟨ls, l, rest, h₁, h₂, rfl, hls, hbefore, hm, hrest⟩ :=
        exists_link_of_evalAll (by simpa using hns) heval
      obtain ⟨rfl, rfl⟩ := eq_nil_of_evalAll_links hrest
      rw [List.length_map] at hls
      simp only [← List.append_cons] at hfits ⊢
      obtain ⟨k, hk, hchain⟩ := ih (fun p hp => hops p (by simp [hp])) (l :: more) hbefore
        fun q hq => hfits q (hq.trans (List.prefix_append ns [m]))
      have hfit := hfits (ns ++ [m]) List.prefix_rfl
      rw [exactSum_concat hls, ← hk] at hfit ⊢
      exact exists_eval_concat_of_fits (hops l (by simp)) hchain hm hfit

/-- Integers stop a chain at the first sum that does not fit. -/
theorem exists_overflow_of_ints (hops : ∀ l ∈ links, l.op = .add ∨ l.op = .sub)
    (heval : evalAll env (operands first links) h = .ok (ns.map .int ++ texts) h')
    (hfits : ¬ ∀ q, q <+: ns → Fits (exactSum links q)) :
    ∃ p m rest ls l more, ∃ k : Int64, ∃ h'', ns = p ++ m :: rest ∧
      (∀ q, q <+: p → Fits (exactSum links q)) ∧ ¬ Fits (exactSum links (p ++ [m])) ∧
      links = ls ++ l :: more ∧ ls.length + 1 = p.length ∧ k.toInt = exactSum links p ∧
      (first.chain links).eval env h = .error ⟨.integerOverflow l.op.symbol k m,
        some (first.chain (ls ++ [l])).span⟩ h'' := by
  have hnil : Fits (exactSum links []) := by
    rw [exactSum_nil]
    exact fits_zero
  obtain ⟨p, m, rest, rfl, hp, hm⟩ := exists_shortest_prefix hnil hfits
  have hpne : p ≠ [] := by
    rintro rfl
    rw [List.nil_append, exactSum_singleton] at hm
    exact hm (fits_toInt m)
  rw [List.map_append, List.map_cons, List.append_assoc, List.cons_append] at heval
  obtain ⟨ls, l, more, h₁, h₂, rfl, hls, hbefore, hoperand, -⟩ :=
    exists_link_of_evalAll (by simpa using hpne) heval
  rw [List.length_map] at hls
  obtain ⟨k, hk, hchain⟩ :=
    exists_eval_of_ints (fun q hq => hops q (by simp [hq])) (l :: more) hbefore hp
  refine ⟨p, m, rest, ls, l, more, k, h₂, rfl, hp, hm, rfl, hls, hk, ?_⟩
  apply eval_chain_of_apply_error hchain hoperand
  rw [BinOp.apply_ints (hops l (by simp)), Heap.checked_of_not_fits]
  rwa [hk, ← exactSum_concat hls]

/-! ## Texts -/

/-- From a string on, the value of a chain of `+` is the texts of its operands joined. -/
theorem eval_chain_of_text (hadd : ∀ l ∈ links, l.op = .add) (hv : e.eval env h = .ok v h₁)
    (heval : evalAll env (links.map Link.operand) h₁ = .ok ws h')
    (hkinds : ∀ u ∈ v :: ws, u.kind ∈ [.int, .string])
    (htext : ∃ u ∈ (v :: ws).take 2, u.kind = .string) (shown : Heap) :
    (e.chain links).eval env h = .ok (.str (String.join ((v :: ws).map shown.display))) h' := by
  induction links generalizing e v h₁ ws with
  | nil =>
    obtain ⟨rfl, rfl⟩ := evalAll_nil_eq_ok_iff.1 heval
    cases v <;> simp [Value.kind] at htext
    simpa [chain, Heap.display, Heap.displayIn] using hv
  | cons l links ih =>
    obtain ⟨w, rest, h₂, hw, hrest, rfl⟩ := evalAll_cons_eq_ok_iff.1 heval
    simp only [List.forall_mem_cons] at hadd hkinds
    obtain ⟨hvkind, hwkind, hrestkinds⟩ := hkinds
    have hjoin := eval_join_of_text hadd.1 hv hw hvkind hwkind (by simpa using htext) shown
    have hchain := ih hadd.2 hjoin hrest (by simpa [Value.kind] using hrestkinds)
      (by simp [Value.kind])
    simpa [chain, Heap.display, Heap.displayIn, String.append_assoc] using hchain

/-- After a string a chain stops at the first `-`. -/
theorem eval_chain_of_text_sub (hadd : ∀ p ∈ ls, p.op = .add) (hsub : l.op = .sub)
    (hv : e.eval env h = .ok v h₁)
    (heval : evalAll env ((ls ++ l :: more).map Link.operand) h₁ = .ok ws h')
    (hkinds : ∀ u ∈ v :: ws, u.kind ∈ [.int, .string])
    (htext : ∃ u ∈ (v :: ws).take 2, u.kind = .string) :
    ∃ left right h'', (e.chain (ls ++ l :: more)).eval env h =
      .error ⟨.unsupportedOperation "-" left right, some (e.chain (ls ++ [l])).span⟩ h'' := by
  rw [List.map_append, List.map_cons] at heval
  obtain ⟨us, rest, h₂, hus, hrest, rfl⟩ := exists_of_evalAll_append heval
  obtain ⟨w, rest, h₃, hw, -, rfl⟩ := evalAll_cons_eq_ok_iff.1 hrest
  -- Either the `-` comes first, with the string on one side of it, or a text stands before it.
  obtain ⟨x, hx, hstring⟩ : ∃ x, (e.chain ls).eval env h = .ok x h₂ ∧
      (x.kind = .string ∨ w.kind = .string) := by
    cases ls with
    | nil =>
      obtain ⟨rfl, rfl⟩ := evalAll_nil_eq_ok_iff.1 hus
      exact ⟨v, hv, by simpa using htext⟩
    | cons p ls =>
      obtain ⟨u, us, _, -, -, rfl⟩ := evalAll_cons_eq_ok_iff.1 hus
      have hbefore := eval_chain_of_text hadd hv hus (fun u hu => hkinds u (by grind))
        (by simpa using htext) h₂
      exact ⟨_, hbefore, .inl rfl⟩
  refine ⟨h₃.describe x, h₃.describe w, h₃, ?_⟩
  apply eval_chain_of_apply_error hx hw
  rw [hsub, BinOp.apply_sub_of_string hstring]

/-- The operands from the first string on find a chain that has come to the string, or to
the sum of the integers before it. -/
theorem exists_eval_before_text (hops : ∀ l ∈ links, l.op = .add ∨ l.op = .sub)
    (heval : evalAll env (operands first links) h = .ok (ns.map .int ++ w :: ws) h')
    (hfits : ∀ q, q <+: ns → Fits (exactSum links q)) (hw : w.kind = .string)
    (hkinds : ∀ u ∈ w :: ws, u.kind ∈ [.int, .string]) (shown : Heap) :
    ∃ ls more v h₁ us, links = ls ++ more ∧ ls.length = ns.length - 1 ∧
      (first.chain ls).eval env h = .ok v h₁ ∧
      evalAll env (more.map Link.operand) h₁ = .ok us h' ∧
      (∀ u ∈ v :: us, u.kind ∈ [.int, .string]) ∧
      (∃ u ∈ (v :: us).take 2, u.kind = .string) ∧
      String.join ((v :: us).map shown.display) =
        sumText links ns ++ String.join ((w :: ws).map shown.display) := by
  by_cases hns : ns = []
  · subst hns
    obtain ⟨_, _, h₁, hfirst, hrest, ⟨⟩⟩ := evalAll_cons_eq_ok_iff.1 heval
    exact ⟨[], links, w, h₁, ws, rfl, rfl, hfirst, hrest, hkinds, ⟨w, by simp, hw⟩, by
      simp [sumText]⟩
  · obtain ⟨ls, l, more, h₁, h₂, rfl, hls, hbefore, hoperand, hrest⟩ :=
      exists_link_of_evalAll (by simpa using hns) heval
    rw [List.length_map] at hls
    obtain ⟨k, hk, hchain⟩ :=
      exists_eval_of_ints (fun q hq => hops q (by simp [hq])) (l :: more) hbefore hfits
    have hafter : evalAll env ((l :: more).map Link.operand) h₁ = .ok (w :: ws) h' :=
      evalAll_cons_eq_ok_iff.2 ⟨w, ws, h₂, hoperand, hrest, rfl⟩
    refine ⟨ls, l :: more, .int k, h₁, w :: ws, rfl, by omega, hchain, hafter, ?_,
      ⟨w, by simp, hw⟩, ?_⟩
    · exact List.forall_mem_cons.2 ⟨by simp [Value.kind], hkinds⟩
    · rw [List.map_cons, String.join_cons, sumText, if_neg hns, ← hk]
      simp [Heap.display, Heap.displayIn]

/-- Operands from the first string on are joined, or stop the chain at its first `-`. -/
theorem eval_chain_from_text (hops : ∀ l ∈ links, l.op = .add ∨ l.op = .sub)
    (heval : evalAll env (operands first links) h = .ok (ns.map .int ++ w :: ws) h')
    (hfits : ∀ q, q <+: ns → Fits (exactSum links q)) (hw : w.kind = .string)
    (hkinds : ∀ u ∈ w :: ws, u.kind ∈ [.int, .string]) :
    ((∀ l ∈ links.drop (ns.length - 1), l.op = .add) → (first.chain links).eval env h =
      .ok (.str (sumText links ns ++ String.join ((w :: ws).map h'.display))) h') ∧
    ((¬ ∀ l ∈ links.drop (ns.length - 1), l.op = .add) →
      ∃ ls l more left right h'', links = ls ++ l :: more ∧ ns.length ≤ ls.length + 1 ∧
        l.op = .sub ∧ (∀ p ∈ ls.drop (ns.length - 1), p.op = .add) ∧
        (first.chain links).eval env h = .error ⟨.unsupportedOperation "-" left right,
          some (first.chain (ls ++ [l])).span⟩ h'') := by
  obtain ⟨ls, more, v, h₁, us, rfl, hls, hchain, hafter, hafterkinds, hstring, htext⟩ :=
    exists_eval_before_text hops heval hfits hw hkinds h'
  rw [← hls, List.drop_left, ← htext]
  refine ⟨fun hadd => ?_, fun hsub => ?_⟩
  · rw [chain_append]
    exact eval_chain_of_text hadd hchain hafter hafterkinds hstring h'
  · have hprefix : ¬ ∀ q, q <+: more → ∀ l ∈ q, l.op = .add := fun hall =>
      hsub (hall more List.prefix_rfl)
    obtain ⟨ms, l, rest, rfl, hms, hl⟩ := exists_shortest_prefix (by simp) hprefix
    have hadd : ∀ p ∈ ms, p.op = .add := hms ms List.prefix_rfl
    have hminus : l.op = .sub := by
      refine (hops l (by simp)).resolve_left fun hplus => hl fun p hp => ?_
      rcases List.mem_append.1 hp with hp | hp
      · exact hadd p hp
      · rw [List.mem_singleton.1 hp, hplus]
    obtain ⟨left, right, h'', herror⟩ :=
      eval_chain_of_text_sub hadd hminus hchain hafter hafterkinds hstring
    rw [← chain_append, ← chain_append] at herror
    refine ⟨ls ++ ms, l, rest, left, right, h'', by simp, ?_, hminus, by simpa using hadd, ?_⟩
    · rw [List.length_append]
      omega
    · rwa [List.append_assoc]

end Expr

theorem Value.leadingInts_append_drop (vals : List Value) :
    vals = (leadingInts vals).map .int ++ vals.drop (leadingInts vals).length ∧
      ∀ v ∈ (vals.drop (leadingInts vals).length).head?, v.kind ≠ .int := by
  induction vals with
  | nil => simp [leadingInts]
  | cons v vals ih =>
    cases v with
    | int n => simpa [leadingInts] using ih
    | str | bool | list => simp [leadingInts, kind]

/-- A chain of `+` and `-` whose operands are integers and strings. The integers before the
first string add up to their exact sum, or stop the chain at the first sum that does not fit
in 64 bits. The operands from the first string on are joined to the text of that sum, or stop
the chain at the first `-` that comes after the sum. -/
theorem Expr.eval_sum_chain (hops : ∀ l ∈ links, l.op = .add ∨ l.op = .sub)
    (heval : evalAll env (operands first links) h = .ok vals h')
    (hkinds : ∀ v ∈ vals, v.kind ∈ [.int, .string]) :
    let ns := Value.leadingInts vals
    let texts := vals.drop ns.length
    ((¬ ∀ q, q <+: ns → Fits (exactSum links q)) →
      ∃ p m rest ls l more, ∃ k : Int64, ∃ h'', ns = p ++ m :: rest ∧
        (∀ q, q <+: p → Fits (exactSum links q)) ∧ ¬ Fits (exactSum links (p ++ [m])) ∧
        links = ls ++ l :: more ∧ ls.length + 1 = p.length ∧ k.toInt = exactSum links p ∧
        (first.chain links).eval env h = .error ⟨.integerOverflow l.op.symbol k m,
          some (first.chain (ls ++ [l])).span⟩ h'') ∧
    ((∀ q, q <+: ns → Fits (exactSum links q)) →
      (texts = [] → ∃ k : Int64, k.toInt = exactSum links ns ∧
        (first.chain links).eval env h = .ok (.int k) h') ∧
      (texts ≠ [] → (∀ l ∈ links.drop (ns.length - 1), l.op = .add) →
        (first.chain links).eval env h =
          .ok (.str (sumText links ns ++ String.join (texts.map h'.display))) h') ∧
      (texts ≠ [] → (¬ ∀ l ∈ links.drop (ns.length - 1), l.op = .add) →
        ∃ ls l more left right h'', links = ls ++ l :: more ∧ ns.length ≤ ls.length + 1 ∧
          l.op = .sub ∧ (∀ p ∈ ls.drop (ns.length - 1), p.op = .add) ∧
          (first.chain links).eval env h = .error ⟨.unsupportedOperation "-" left right,
            some (first.chain (ls ++ [l])).span⟩ h'')) := by
  intro ns texts
  obtain ⟨hvals, hhead⟩ : vals = ns.map .int ++ texts ∧ ∀ v ∈ texts.head?, v.kind ≠ .int :=
    Value.leadingInts_append_drop vals
  clear_value texts ns
  subst hvals
  refine ⟨exists_overflow_of_ints hops heval, fun hfits => ?_⟩
  cases texts with
  | nil =>
    have hsum := exists_eval_of_ints hops [] (by simpa using heval)
    simp only [List.append_nil] at hsum
    exact ⟨fun _ => hsum hfits, fun hne => (hne rfl).elim, fun hne => (hne rfl).elim⟩
  | cons w ws =>
    rw [List.forall_mem_append] at hkinds
    have hw : w.kind = .string := by
      simpa [hhead w (by simp)] using hkinds.2 w (by simp)
    obtain ⟨hjoins, hstops⟩ := eval_chain_from_text hops heval hfits hw hkinds.2
    exact ⟨fun hnil => (List.cons_ne_nil w ws hnil).elim, fun _ => hjoins, fun _ => hstops⟩

/-- The integers before the string are added up, and the one after it is joined to it:
`1 + 2 + "a" + 4`. -/
theorem Expr.eval_sum_then_text :
    let links : List Link := [⟨.add, .number 2 ⟨4, 5, 1⟩, ⟨0, 5, 1⟩⟩,
      ⟨.add, .str "\"a\"" ⟨8, 11, 1⟩, ⟨0, 11, 1⟩⟩, ⟨.add, .number 4 ⟨14, 15, 1⟩, ⟨0, 15, 1⟩⟩]
    ((number 1 ⟨0, 1, 1⟩).chain links).eval .empty .empty = .ok (.str "3a4") .empty := by
  intro links
  have heval : evalAll .empty (operands (number 1 ⟨0, 1, 1⟩) links) .empty =
      .ok [.int 1, .int 2, .str "a", .int 4] .empty := rfl
  have hfits : ∀ q, q <+: [1, 2] → Fits (exactSum links q) := by
    intro q hq
    simp only [List.prefix_cons_iff, List.prefix_nil] at hq
    rcases hq with rfl | ⟨_, rfl, rfl | ⟨_, rfl, rfl⟩⟩ <;> decide
  obtain ⟨-, hjoins⟩ := eval_sum_chain (by simp [links]) heval (by simp [Value.kind])
  obtain ⟨-, htext, -⟩ := hjoins hfits
  have hshown : sumText links [1, 2] ++
      String.join ([.str "a", .int 4].map Heap.empty.display) = "3a4" := by
    simp only [List.map_cons, List.map_nil, Heap.display, Heap.displayIn]
    decide
  rw [← hshown]
  exact htext (by simp [Value.leadingInts]) (by simp [links, Value.leadingInts])

end Scriptlet
