-- Loops without the loop. A loop does what statements would do that bind its variable to
-- one counter after another and run its body after each. The counters are those from the
-- one bound to the other, up or down, and are settled before the first turn: they have
-- 64 bits like the bounds, and nothing that the body does to the variable changes them.
import Mathlib.Data.Int.Range
import Scriptlet.Proofs.Bindings
import Scriptlet.Proofs.Outputs

namespace Scriptlet

variable {σ : Type}

namespace Exec

variable {lo hi : Int64}

/-! ## Counters -/

/-- The counters of a loop, in order. -/
def counters (lo hi : Int64) : List Int64 :=
  (List.range (iterations lo hi)).map fun k : Nat => Int64.ofInt (lo.toInt + k * stride lo hi)

theorem length_counters (lo hi : Int64) :
    (counters lo hi).length = (hi.toInt - lo.toInt).natAbs + 1 := by
  simp [counters, iterations]

/-- What lies between two integers of 64 bits is one of them. -/
theorem toInt_ofInt_of_between {a b : Int64} {n : Int} (ha : a.toInt ≤ n) (hb : n ≤ b.toInt) :
    (Int64.ofInt n).toInt = n := by
  have hmin := a.le_toInt
  have hmax := b.toInt_lt
  exact Int64.toInt_ofInt_of_le (by omega) (by omega)

theorem map_toInt_counters (lo hi : Int64) : (counters lo hi).map Int64.toInt =
    (List.range (iterations lo hi)).map fun k : Nat => lo.toInt + k * stride lo hi := by
  rw [counters, List.map_map]
  refine List.map_congr_left fun k hk => ?_
  have hlt : k < (hi.toInt - lo.toInt).natAbs + 1 := List.mem_range.1 hk
  unfold stride
  split
  · exact toInt_ofInt_of_between (a := lo) (b := hi) (by omega) (by omega)
  · exact toInt_ofInt_of_between (a := hi) (b := lo) (by omega) (by omega)

/-- The counters are all integers between the bounds, from the smaller one if that is the
first bound, and from the larger one otherwise. -/
theorem counters_eq_range (lo hi : Int64) : (counters lo hi).map Int64.toInt =
    if lo.toInt ≤ hi.toInt then Int.range lo.toInt (hi.toInt + 1)
    else (Int.range hi.toInt (lo.toInt + 1)).reverse := by
  rw [map_toInt_counters]
  unfold iterations stride Int.range
  split
  · next hle =>
    have hlength : (hi.toInt - lo.toInt).natAbs + 1 = (hi.toInt + 1 - lo.toInt).toNat := by omega
    rw [hlength]
    exact List.map_congr_left fun k _ => by omega
  · next hgt =>
    have hlength : (hi.toInt - lo.toInt).natAbs + 1 = (lo.toInt + 1 - hi.toInt).toNat := by omega
    rw [hlength]
    refine List.ext_getElem (by simp) fun k hk _ => ?_
    simp only [List.length_map, List.length_range] at hk
    simp only [List.getElem_map, List.getElem_range, List.getElem_reverse, List.length_map,
      List.length_range]
    omega

/-! ## Turns -/

/-- Runs a body once for each of some counters, bound to the variable before. -/
def turns (var : String) (body : Exec σ (Option Value)) : List Int64 → Exec σ Unit
  | [] => pure ()
  | k :: ks => do
    assign var (.int k)
    let _ ← body
    turns var body ks

theorem iterate_eq_turns (var : String) (body : Exec σ (Option Value)) (stride : Int) (n : Nat)
    (i : Int) : iterate var body stride n i =
      turns var body ((List.range n).map fun k : Nat => Int64.ofInt (i + k * stride)) := by
  induction n generalizing i with
  | zero => rfl
  | succ n ih =>
    have hnext (k : Nat) : i + (k + 1 : Nat) * stride = i + stride + k * stride := by
      rw [Int.natCast_add, Int.add_mul]
      omega
    rw [List.range_succ_eq_map, List.map_cons, List.map_map]
    simp only [iterate, turns, ih, Function.comp_def, Nat.succ_eq_add_one, hnext,
      Int.natCast_zero, Int.zero_mul, Int.add_zero]

theorem forRange_eq_turns (var : String) (lo hi : Int64) (body : Exec σ (Option Value)) :
    forRange var lo hi body = (do
      turns var body (counters lo hi)
      unbind var) := by
  unfold forRange
  rw [iterate_eq_turns]
  rfl

/-- What the variable was bound to before the loop makes no difference. -/
theorem forRange_assigned (var : String) (lo hi : Int64) (body : Exec σ (Option Value))
    (w : WorldOf σ) (x : Value) :
    forRange var lo hi body { w with env := w.env.write var x } = forRange var lo hi body w := by
  have hwrite (env : Environment) (v : Value) : (env.write var x).write var v = env.write var v := by
    refine Environment.ext_get? fun name => ?_
    by_cases hname : name = var <;> simp [Environment.get?_write, hname]
  have hassign (v : Value) (w : WorldOf σ) :
      assign var v w = .ok () { w with env := w.env.write var v } := rfl
  have hfirst (v : Value) :
      assign var v { w with env := w.env.write var x } = assign var v w := by
    rw [hassign, hassign, hwrite]
  simp only [forRange, iterations, iterate, Bind.bind, EStateM.bind, hfirst]

/-- Turns from the world `w` that end with `r`. The body starts once for each of the
worlds: the first of them is `w` and the others are what a turn left, with the variable
bound to a counter in each; only the last turn may stop. -/
inductive Starts (var : String) (body : Exec σ (Option Value)) :
    List (WorldOf σ) → WorldOf σ → EStateM.Result Fault (WorldOf σ) Unit → Prop
  | done {w} : Starts var body [] w (.ok () w)
  | stop {w u v k f} : u = { w with env := w.env.write var (.int k) } → body u = .error f v →
    Starts var body [u] w (.error f v)
  | next {w u v k result us r} : u = { w with env := w.env.write var (.int k) } →
    body u = .ok result v → Starts var body us v r → Starts var body (u :: us) w r

/-- What the variable is bound to in the worlds in which the body starts. -/
def boundIn (var : String) (us : List (WorldOf σ)) : List (Option Value) :=
  us.map fun u => u.env.get? var

/-- The body starts once for each counter, bound to it, up to the turn that stops. -/
theorem exists_starts (var : String) (body : Exec σ (Option Value)) (ks : List Int64)
    (w : WorldOf σ) : ∃ us, Starts var body us w (turns var body ks w) ∧
      boundIn var us <+: ks.map (fun k => some (.int k)) ∧
      ((∃ v, turns var body ks w = .ok () v) → us.length = ks.length) := by
  induction ks generalizing w with
  | nil => exact ⟨[], .done, List.nil_prefix, fun _ => rfl⟩
  | cons k ks ih =>
    let u : WorldOf σ := { w with env := w.env.write var (.int k) }
    have hbound : u.env.get? var = some (.int k) := by
      simp [u, Environment.get?_write]
    have hturn : turns var body (k :: ks) w = (body >>= fun _ => turns var body ks) u := rfl
    cases hbody : body u with
    | error f v =>
      have hstop : turns var body (k :: ks) w = .error f v := by
        rw [hturn]
        exact bind_eq_error_iff.2 (.inl hbody)
      refine ⟨[u], hstop ▸ .stop rfl hbody, ?_, ?_⟩
      · simp [boundIn, hbound]
      · rintro ⟨_, hok⟩
        rw [hstop] at hok
        cases hok
    | ok result v =>
      have hnext : turns var body (k :: ks) w = turns var body ks v := by
        rw [hturn]
        simp only [Bind.bind, EStateM.bind, hbody]
      obtain ⟨us, hus, hbounds, hlength⟩ := ih v
      refine ⟨u :: us, hnext ▸ .next rfl hbody hus, ?_, fun hok => ?_⟩
      · rw [boundIn, List.map_cons, List.map_cons, hbound]
        exact List.prefix_cons_inj _ |>.2 hbounds
      · rw [List.length_cons, List.length_cons, hlength (hnext ▸ hok)]

end Exec

/-! ## Statements -/

variable [Output σ]

/-- The turns of a loop as statements: for each counter one that binds the variable to
it, and the body. -/
def Stmt.unrolled (var : String) (body : List Stmt) (span : Span) (ks : List Int64) :
    List Stmt :=
  ks.flatMap fun k => .assign var (.number k span) span :: body

namespace Stmt

theorem exec_assign_number (var : String) (k : Int64) (s span : Span) :
    ((assign var (.number k s) span).exec : Exec σ (Option Value)) = (do
      Exec.assign var (.int k)
      return some (.int k)) := by
  funext w
  simp only [exec, Expr.eval]
  rfl

theorem execAll_unrolled (last : Option Value) (var : String) (body : List Stmt) (span : Span)
    (ks : List Int64) : (do
      let _ ← execAll last (unrolled var body span ks)
      return () : Exec σ Unit) = Exec.turns var (execAll none body) ks := by
  induction ks generalizing last with
  | nil => rfl
  | cons k ks ih =>
    have hcons : unrolled var body span (k :: ks) =
        .assign var (.number k span) span :: (body ++ unrolled var body span ks) := by
      simp [unrolled]
    rw [hcons, execAll, exec_assign_number, Exec.turns]
    simp only [execAll_append, execAll_eq_map (some (.int k)) body, bind_assoc, pure_bind,
      bind_map_left, ih]

end Stmt

/-- A loop is its turns one after another. From bounds that come to `lo` and `hi`:
* its counters are the integers from `lo` to `hi`, in order, each of them once;
* it ends as the statements do that bind the variable to each counter and run the body
  after that, with the same fault in the same world if they stop. If they do not, the
  variable is unbound and what it was bound to is the result;
* what the variable was bound to before makes no difference;
* the body starts once for each counter, with the variable bound to the counter, up to
  the turn that stops. -/
theorem loop_unrolls (var : String) (range : Range) (body : List Stmt) (span : Span)
    {lo hi : Int64} {w w₁ w₂ : WorldOf σ}
    (hlo : Exec.evaluate (fun env => range.lo.evalInteger env) w = .ok lo w₁)
    (hhi : Exec.evaluate (fun env => range.hi.evalInteger env) w₁ = .ok hi w₂) :
    let ks := Exec.counters lo hi
    let loop : Stmt := .loop var range body span
    (ks.map Int64.toInt = if lo.toInt ≤ hi.toInt then Int.range lo.toInt (hi.toInt + 1)
      else (Int.range hi.toInt (lo.toInt + 1)).reverse) ∧
    (loop.exec w = match Stmt.execAll none (Stmt.unrolled var body span ks) w₂ with
      | .ok _ v => .ok (v.env.get? var) { v with env := v.env.remove var }
      | .error f v => .error f v) ∧
    (∀ x, Exec.forRange var lo hi (Stmt.execAll none body)
      { w₂ with env := w₂.env.write var x } = loop.exec w) ∧
    ∃ us r, Exec.Starts var (Stmt.execAll none body) us w₂ r ∧
      Exec.boundIn var us <+: ks.map (fun k => some (.int k)) ∧
      match r with
      | .ok _ v => us.length = (hi.toInt - lo.toInt).natAbs + 1 ∧
        loop.exec w = .ok (v.env.get? var) { v with env := v.env.remove var }
      | .error f v => loop.exec w = .error f v := by
  intro ks loop
  have hloop : loop.exec w = Exec.forRange var lo hi (Stmt.execAll none body) w₂ := by
    simp only [loop, Stmt.exec, Bind.bind, EStateM.bind, hlo, hhi]
  have hturns : loop.exec w = match Exec.turns var (Stmt.execAll none body) ks w₂ with
      | .ok _ v => .ok (v.env.get? var) { v with env := v.env.remove var }
      | .error f v => .error f v := by
    rw [hloop, Exec.forRange_eq_turns]
    simp only [Bind.bind, EStateM.bind]
    cases Exec.turns var (Stmt.execAll none body) ks w₂ <;> rfl
  refine ⟨Exec.counters_eq_range lo hi, ?_, fun x => ?_, ?_⟩
  · rw [hturns, ← Stmt.execAll_unrolled none var body span]
    simp only [Bind.bind, EStateM.bind]
    cases Stmt.execAll none (Stmt.unrolled var body span ks) w₂ <;> rfl
  · rw [hloop, Exec.forRange_assigned]
  · obtain ⟨us, hstarts, hbound, hlength⟩ :=
      Exec.exists_starts var (Stmt.execAll none body) ks w₂
    refine ⟨us, _, hstarts, hbound, ?_⟩
    cases hend : Exec.turns var (Stmt.execAll none body) ks w₂ with
    | ok _ v =>
      rw [hend] at hturns hlength
      exact ⟨(hlength ⟨v, rfl⟩).trans (Exec.length_counters lo hi), hturns⟩
    | error f v =>
      rw [hend] at hturns
      exact hturns

/-- A loop up to the largest integer whose body is a loop over the same variable: the
outer loop has its two turns, and the variable is unbound at its end. -/
theorem loop_unrolls_over_itself :
    let span : Span := ⟨0, 0, 1⟩
    let bounds (lo hi : Int64) : Range := ⟨.number lo span, .number hi span, span⟩
    let inner : Stmt := .loop "i" (bounds 7 7) [] span
    let outer : Stmt := .loop "i" (bounds (Int64.maxValue - 1) Int64.maxValue) [inner] span
    let w : World := ⟨.empty, .empty, .unlimited⟩
    outer.exec w = .ok none w ∧ ∃ us v, us.length = 2 ∧
      Exec.Starts "i" (Stmt.execAll none [inner]) us w (.ok () v) ∧
      Exec.boundIn "i" us = [some (.int (Int64.maxValue - 1)), some (.int Int64.maxValue)] := by
  intro span bounds inner outer w
  let range := bounds (Int64.maxValue - 1) Int64.maxValue
  have hlo : Exec.evaluate (fun env => range.lo.evalInteger env) w =
    .ok (Int64.maxValue - 1) w := rfl
  have hhi : Exec.evaluate (fun env => range.hi.evalInteger env) w = .ok Int64.maxValue w := rfl
  obtain ⟨-, hunrolled, -, us, r, hstarts, hbound, hend⟩ :=
    loop_unrolls "i" range [inner] span hlo hhi
  have hexec : outer.exec w = .ok none w := hunrolled
  refine ⟨hexec, us, ?_⟩
  cases r with
  | ok _ v =>
    have hlength : us.length = 2 := hend.1
    have hcounters : (Exec.counters (Int64.maxValue - 1) Int64.maxValue).length = 2 := rfl
    refine ⟨v, hlength, hstarts, hbound.eq_of_length ?_⟩
    rw [Exec.boundIn, List.length_map, List.length_map, hlength, hcounters]
  | error f v =>
    rw [hexec] at hend
    cases hend

end Scriptlet
