-- Layout has no meaning. Blanks, comments, line breaks and leading zeros decide
-- where tokens stand and nothing more: sources with the same tokens are refused at
-- the same one or are the same program but for its places, and that program runs
-- alike.
import Scriptlet.Proofs.Compilation
import Scriptlet.Proofs.Mirroring
import Scriptlet.Proofs.Parsing.Moving

namespace Scriptlet

open Grammar (Tokens)

/-! ## Parsing -/

def Parser.eraseSpans (p : Parser) : Parser := p.mapSpans fun _ => default

/-- Two results of parsing that differ in nothing but places. -/
def ParsedAlike : Except SyntaxError Program → Except SyntaxError Program → Prop
  | .ok p, .ok q => p.eraseSpans = q.eraseSpans
  | .error e, .error e' => e.index = e'.index ∧ e.found = e'.found ∧ e.expected = e'.expected
  | _, _ => False

namespace Parser

variable {p q : Parser}

theorem step_alike (h : p.eraseSpans = q.eraseSpans) (t : Token) (a b : Span) :
    (p.step t a).map eraseSpans = (q.step t b).map eraseSpans := by
  have hp := p.step_mapSpans (f := fun _ => default) (fun _ _ => rfl) t a
  have hq := q.step_mapSpans (f := fun _ => default) (fun _ _ => rfl) t b
  have hstates : p.mapSpans (fun _ => default) = q.mapSpans fun _ => default := h
  rw [hstates] at hp
  exact hp.symm.trans hq

theorem done?_alike (h : p.eraseSpans = q.eraseSpans) :
    p.done?.map (Stmt.mapAllSpans fun _ => default) =
      q.done?.map (Stmt.mapAllSpans fun _ => default) := by
  rw [← p.done?_mapSpans fun _ _ => rfl, ← q.done?_mapSpans fun _ _ => rfl]
  exact congrArg done? h

theorem expected_alike (h : p.eraseSpans = q.eraseSpans) (found : Option Terminal) :
    p.expected found = q.expected found := by
  rw [← p.expected_mapSpans (f := fun _ => default) fun _ _ => rfl,
    ← q.expected_mapSpans (f := fun _ => default) fun _ _ => rfl]
  exact congrArg (expected · found) h

/-- Runs over the same tokens keep states that differ in nothing but places. -/
theorem run_alike (h : p.eraseSpans = q.eraseSpans) {ts us : Tokens}
    (htokens : ts.map Prod.fst = us.map Prod.fst) (lines lines' : LineIndex)
    (i stop stop' : Nat) : ParsedAlike (run lines p i stop ts) (run lines' q i stop' us) := by
  induction ts generalizing p q i stop stop' us with
  | nil =>
    obtain rfl := List.map_eq_nil_iff.1 htokens.symm
    have hdone := done?_alike h
    unfold run
    cases hp : p.done? with
    | none =>
      rw [hp, Option.map_none, eq_comm, Option.map_eq_none_iff] at hdone
      rw [hdone]
      exact ⟨rfl, rfl, expected_alike h none⟩
    | some ss =>
      rw [hp, Option.map_some, eq_comm, Option.map_eq_some_iff] at hdone
      obtain ⟨rs, hq, hrs⟩ := hdone
      rw [hq]
      exact congrArg Program.mk hrs.symm
  | cons t ts ih =>
    obtain ⟨t, a⟩ := t
    obtain ⟨⟨t', b⟩, us, rfl, ht, hrest⟩ := List.map_eq_cons_iff.1 htokens.symm
    obtain rfl : t' = t := ht
    have hstep := step_alike h t' a b
    unfold run
    cases hp : p.step t' a with
    | none =>
      rw [hp, Option.map_none, eq_comm, Option.map_eq_none_iff] at hstep
      rw [hstep]
      exact ⟨rfl, rfl, expected_alike h _⟩
    | some p' =>
      rw [hp, Option.map_some, eq_comm, Option.map_eq_some_iff] at hstep
      obtain ⟨q', hq, hstates⟩ := hstep
      rw [hq]
      exact ih hstates.symm hrest.symm _ _ _

end Parser

theorem parse_alike (source source' : String) {ts us : Tokens}
    (h : ts.map Prod.fst = us.map Prod.fst) : ParsedAlike (parse source ts) (parse source' us) := by
  have hlocate (lines : LineIndex) (ts : Tokens) :
      (lines.locate ts).map Prod.fst = ts.map Prod.fst := by
    simp [LineIndex.locate]
  unfold parse
  apply Parser.run_alike rfl
  rw [hlocate, hlocate, h]

/-! ## Running -/

variable {σ : Type} [Output σ]

/-- Two outcomes in one world: the same result, or faults of the same cause. -/
def EndAlike : EStateM.Result Fault (WorldOf σ) (Option Value) →
    EStateM.Result Fault (WorldOf σ) (Option Value) → Prop
  | .ok result w, .ok result' v => result = result' ∧ w = v
  | .error f w, .error f' v => f.cause = f'.cause ∧ w = v
  | _, _ => False

theorem writesAlike_eq : WritesAlike (Eq : σ → σ → Prop) := by
  refine ⟨fun a b text hab => ?_⟩
  subst hab
  exact ⟨rfl, rfl⟩

omit [Output σ] in
theorem Mirrored.eq {w v : WorldOf σ} (h : Mirrored Eq w v) : w = v := by
  obtain ⟨env, heap, sink⟩ := w
  obtain ⟨_, _, _⟩ := v
  obtain ⟨rfl, rfl, rfl⟩ := h
  rfl

/-- Statements that differ in nothing but places end alike: both do what the
statements without places do. -/
theorem Stmt.execAll_alike {ss rs : List Stmt}
    (h : Stmt.mapAllSpans (fun _ => default) ss = Stmt.mapAllSpans (fun _ => default) rs)
    (w : WorldOf σ) : EndAlike (Stmt.execAll none ss w) (Stmt.execAll none rs w) := by
  have hss := (Stmt.mirrors_execAll (f := fun _ => default) writesAlike_eq none ss).outcome w w
    ⟨rfl, rfl, rfl⟩
  have hrs := (Stmt.mirrors_execAll (f := fun _ => default) writesAlike_eq none rs).outcome w w
    ⟨rfl, rfl, rfl⟩
  rw [h] at hss
  generalize Stmt.execAll none ss w = a at hss
  generalize Stmt.execAll none rs w = b at hrs
  generalize Stmt.execAll none (Stmt.mapAllSpans (fun _ => default) rs) w = c at hss hrs
  cases hss with
  | ok hw =>
    cases hrs with
    | ok hv => exact ⟨rfl, hw.eq.trans hv.eq.symm⟩
  | @error e w' u hw =>
    generalize hmoved : e.mapSpan (fun _ => default) = e' at hrs
    cases hrs with
    | error hv => exact ⟨(congrArg Fault.cause hmoved :), hw.eq.trans hv.eq.symm⟩

theorem Program.run_alike {p q : Program} (h : p.eraseSpans = q.eraseSpans) (w : WorldOf σ) :
    EndAlike (p.run w) (q.run w) := by
  have hexec := Stmt.execAll_alike (Program.mk.inj h) w
  unfold run
  generalize Stmt.execAll none p.stmts w = a at hexec
  generalize Stmt.execAll none q.stmts w = b at hexec
  rcases a with ⟨result, v⟩ | ⟨f, v⟩ <;> rcases b with ⟨result', v'⟩ | ⟨f', v'⟩
  · obtain ⟨rfl, rfl⟩ := hexec
    simp only [Bind.bind, EStateM.bind, Exec.flush]
    rcases Output.flush v.sink with ⟨sink, _ | message⟩
    · exact ⟨rfl, rfl⟩
    · exact ⟨rfl, rfl⟩
  · exact hexec.elim
  · exact hexec.elim
  · obtain ⟨hcause, rfl⟩ := hexec
    exact ⟨hcause, rfl⟩

/-! ## Sources -/

/-- Of two sources with the same tokens either both compile, to trees that differ in
nothing but places and that run alike from every world, or both are refused before
as many tokens and with the same terminals awaited. -/
theorem layout_irrelevant {source source' : String} {ts us : Tokens}
    (hsource : tokenize source = .ok ts) (hsource' : tokenize source' = .ok us)
    (h : ts.map Prod.fst = us.map Prod.fst) :
    (∃ p q, compile source = .ok p ∧ compile source' = .ok q ∧ p.eraseSpans = q.eraseSpans ∧
      ∀ w : WorldOf σ, EndAlike (p.run w) (q.run w)) ∨
    ∃ e e', parse source ts = .error e ∧ parse source' us = .error e' ∧
      compile source = .error e.toCompileError ∧ compile source' = .error e'.toCompileError ∧
      e.index = e'.index ∧ e.found = e'.found ∧ e.expected = e'.expected := by
  have hparsed := parse_alike source source' h
  rw [compile_of_tokenize hsource, compile_of_tokenize hsource']
  generalize parse source ts = a at hparsed
  generalize parse source' us = b at hparsed
  rcases a with e | p <;> rcases b with e' | q
  · exact .inr ⟨e, e', rfl, rfl, rfl, rfl, hparsed⟩
  · exact hparsed.elim
  · exact hparsed.elim
  · exact .inl ⟨p, q, rfl, rfl, hparsed, fun w => Program.run_alike hparsed w⟩

/-- A name without a binding on the second line of one source and on the only line
of another. -/
theorem layout_of_unbound_name :
    let source := "x = 007; // seven\nprint x+y;"
    let source' := "x=7;print x + y ;"
    let w : World := ⟨.empty, .empty, .unlimited⟩
    ∃ p q, compile source = .ok p ∧ compile source' = .ok q ∧ p.eraseSpans = q.eraseSpans ∧
      EndAlike (p.run w) (q.run w) := by
  intro source source' w
  have hsource : tokenize source = .ok [(.ident "x", ⟨0, 1, 1⟩), (.symbol .assign, ⟨2, 3, 1⟩),
    (.int 7, ⟨4, 7, 1⟩), (.symbol .semicolon, ⟨7, 8, 1⟩), (.symbol .print, ⟨18, 23, 2⟩),
    (.ident "x", ⟨24, 25, 2⟩), (.symbol .plus, ⟨25, 26, 2⟩), (.ident "y", ⟨26, 27, 2⟩),
    (.symbol .semicolon, ⟨27, 28, 2⟩)] := by cbv
  have hsource' : tokenize source' = .ok [(.ident "x", ⟨0, 1, 1⟩), (.symbol .assign, ⟨1, 2, 1⟩),
    (.int 7, ⟨2, 3, 1⟩), (.symbol .semicolon, ⟨3, 4, 1⟩), (.symbol .print, ⟨4, 9, 1⟩),
    (.ident "x", ⟨10, 11, 1⟩), (.symbol .plus, ⟨12, 13, 1⟩), (.ident "y", ⟨14, 15, 1⟩),
    (.symbol .semicolon, ⟨16, 17, 1⟩)] := by cbv
  have hcompiles : (compile source).isOk = true := by cbv
  rcases @layout_irrelevant Sink _ source source' _ _ hsource hsource' rfl with
    ⟨p, q, hp, hq, herased, hrun⟩ | ⟨e, e', -, -, hrefused, -⟩
  · exact ⟨p, q, hp, hq, herased, hrun w⟩
  · rw [hrefused] at hcompiles
    cases hcompiles

end Scriptlet
