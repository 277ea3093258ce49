-- Many inputs as one text. Sources with a line feed between two of them are
-- one program, which does what a session does with them one at a time, up to
-- the first that fails.
import Mathlib
import Scriptlet.Proofs.Compilation
import Scriptlet.Proofs.Lexing.LineBreak
import Scriptlet.Proofs.Outputs
import Scriptlet.Session

namespace Scriptlet

open Grammar (Tokens Derives)

/-! ## One text -/

/-- The statements of a source, none if it is not a program. -/
def sourceStmts (source : String) : List Stmt :=
  match compile source with
  | .ok p => p.stmts
  | .error _ => []

/-- The statements of sources with a line feed between two, where so many bytes
and line feeds stand before the first. -/
def joinedStmts (bytes lines : Nat) : List String → List Stmt
  | [] => []
  | source :: rest =>
    Stmt.mapAllSpans (.shift bytes lines) (sourceStmts source) ++
      joinedStmts (bytes + source.utf8ByteSize + 1) (lines + lineFeeds source + 1) rest

theorem exists_of_compiles {source : String} (h : Session.compiles source = true) :
    ∃ p, compile source = .ok p ∧ sourceStmts source = p.stmts := by
  obtain ⟨p, hcompile⟩ := Session.compiles_iff.1 h
  exact ⟨p, hcompile, by simp [sourceStmts, hcompile]⟩

theorem derives_source {source : String} (h : Session.compiles source = true)
    (bytes lines : Nat) : ∃ ts,
      tokensFrom (Position.origin.shift bytes lines) source.toList = .ok ts ∧
      Derives (.statements (Stmt.mapAllSpans (.shift bytes lines) (sourceStmts source))) ts := by
  obtain ⟨⟨ss⟩, hcompile, hstmts⟩ := exists_of_compiles h
  obtain ⟨ts, htokens, hp⟩ := compile_eq_ok_iff.1 hcompile
  cases hp with
  | program hss =>
    refine ⟨Tokens.mapSpans (.shift bytes lines) ts, ?_, ?_⟩
    · unfold tokenize at htokens
      rw [tokensFrom_shift, htokens]
      rfl
    · rw [hstmts]
      exact hss.mapSpans (Span.shift_cover bytes lines)

theorem derives_joined {sources : List String} (h : ∀ s ∈ sources, Session.compiles s = true)
    (bytes lines : Nat) : ∃ ts,
      tokensFrom (Position.origin.shift bytes lines) ("\n".intercalate sources).toList = .ok ts ∧
      Derives (.statements (joinedStmts bytes lines sources)) ts := by
  induction sources generalizing bytes lines with
  | nil =>
    refine ⟨[], ?_, .noStatement⟩
    simp [tokensFrom]
  | cons source rest ih =>
    obtain ⟨hsource, hrest⟩ := List.forall_mem_cons.1 h
    obtain ⟨ts, htokens, hts⟩ := derives_source hsource bytes lines
    cases rest with
    | nil =>
      refine ⟨ts, ?_, ?_⟩
      · simpa using htokens
      · simpa [joinedStmts] using hts
    | cons next rest =>
      obtain ⟨us, husTokens, hus⟩ := ih hrest (bytes + source.utf8ByteSize + 1)
        (lines + lineFeeds source + 1)
      refine ⟨ts ++ us, ?_, hts.append_statements hus⟩
      have htext : ("\n".intercalate (source :: next :: rest)).toList =
          source.toList ++ '\n' :: ("\n".intercalate (next :: rest)).toList := by
        rw [String.intercalate_cons_cons, String.toList_append, String.toList_append]
        simp
      rw [htext, tokensFrom_lineFeed, htokens, next_advance_shift, husTokens]
      rfl

theorem compile_joined {sources : List String} (h : ∀ s ∈ sources, Session.compiles s = true) :
    compile ("\n".intercalate sources) = .ok ⟨joinedStmts 0 0 sources⟩ := by
  obtain ⟨ts, htokens, hts⟩ := derives_joined h 0 0
  exact compile_eq_ok_iff.2 ⟨ts, htokens, .program hts⟩

/-! ## One input at a time -/

/-- The error of a source that stands after so many bytes and line feeds. -/
def RunError.shift (bytes lines : Nat) : RunError → RunError
  | .compile e => .compile e
  | .runtime f => .runtime (f.mapSpan (.shift bytes lines))

/-- Runs sources in order up to the first that fails: the outcome, all that was
printed, and the session after them. The result is that of the last source with
a statement, or `last` if there is none. An error is placed as if so many bytes
and line feeds stood before the first source. -/
def Session.runInOrder (s : Session) (bytes lines : Nat) (last : Option Value) :
    List String → Except RunError (Option Value) × ByteArray × Session
  | [] => (.ok last, .empty, s)
  | source :: rest =>
    match s.run source with
    | (.ok result, printed, s) =>
      let last := if (sourceStmts source).isEmpty then last else result
      let (outcome, more, s) := s.runInOrder (bytes + source.utf8ByteSize + 1)
        (lines + lineFeeds source + 1) last rest
      (outcome, printed ++ more, s)
    | (.error e, printed, s) => (.error (e.shift bytes lines), printed, s)

/-! ## The same run -/

variable {σ : Type} [Output σ]

/-- The outcome of a run as a session gives it. -/
def outcomeOf (r : EStateM.Result Fault (WorldOf σ) (Option Value)) :
    Except RunError (Option Value) × WorldOf σ :=
  match r with
  | .ok result w => (.ok result, w)
  | .error f w => (.error (.runtime f), w)

theorem runSource_of_compile {source : String} {p : Program} (h : compile source = .ok p)
    (w : WorldOf σ) : runSource source w = outcomeOf (p.run w) := by
  unfold runSource runCompiled
  rw [h]
  rfl

/-- One input of a session, against its statements moved to another place and
run with another output. -/
theorem run_input {source : String} {p : Program} (h : compile source = .ok p) (s : Session)
    {t : σ} (ht : Output.Reliable t) (bytes lines : Nat) : ∃ texts outcome s',
      s.run source = (outcome, (String.join texts).toUTF8, s') ∧
      outcomeOf (Stmt.execAll none (Stmt.mapAllSpans (.shift bytes lines) p.stmts)
          ⟨s.env, s.heap, t⟩) =
        (outcome.mapError (.shift bytes lines), ⟨s'.env, s'.heap, Output.after t texts⟩) := by
  have hmirrors := Stmt.mirrors_execAll (f := .shift bytes lines)
    (Output.writesAlike_sameTexts Sink.reliable_unlimited ht) none p.stmts
  have hout := hmirrors.outcome ⟨s.env, s.heap, .unlimited⟩ ⟨s.env, s.heap, t⟩
    ⟨rfl, rfl, .refl _ _⟩
  generalize hsession : Stmt.execAll none p.stmts ⟨s.env, s.heap, Sink.unlimited⟩ = a at hout
  generalize hmoved : Stmt.execAll none (Stmt.mapAllSpans (.shift bytes lines) p.stmts)
    ⟨s.env, s.heap, t⟩ = b at hout
  have hwritten (texts : List String) :
      (Output.flush (Output.after Sink.unlimited texts)).1.written =
        (String.join texts).toUTF8 := by
    rw [Sink.unlimited, Sink.after_unlimited, ByteArray.empty_append]
    rfl
  unfold Session.run
  rw [runSource_of_compile h]
  cases hout with
  | @ok result w v hw =>
    obtain ⟨env, heap, sink⟩ := w
    obtain ⟨_, _, _⟩ := v
    obtain ⟨rfl, rfl, texts, rfl, rfl⟩ := hw
    refine ⟨texts, .ok result, ⟨env, heap⟩, ?_, rfl⟩
    have hflush := Sink.reliable_unlimited.flush_none texts
    rw [← hwritten, Program.run_of_ok hsession hflush]
    rfl
  | @error e w v hw =>
    obtain ⟨env, heap, sink⟩ := w
    obtain ⟨_, _, _⟩ := v
    obtain ⟨rfl, rfl, texts, rfl, rfl⟩ := hw
    refine ⟨texts, .error (.runtime e), ⟨env, heap⟩, ?_, rfl⟩
    rw [← hwritten, Program.run_of_error hsession]
    rfl

theorem run_inputs {sources : List String} (h : ∀ s ∈ sources, Session.compiles s = true)
    (s : Session) {t : σ} (ht : Output.Reliable t) (bytes lines : Nat) (last : Option Value) :
    ∃ texts outcome s',
      s.runInOrder bytes lines last sources = (outcome, (String.join texts).toUTF8, s') ∧
      outcomeOf (Stmt.execAll last (joinedStmts bytes lines sources) ⟨s.env, s.heap, t⟩) =
        (outcome, ⟨s'.env, s'.heap, Output.after t texts⟩) := by
  induction sources generalizing s t bytes lines last with
  | nil => exact ⟨[], .ok last, s, rfl, rfl⟩
  | cons source rest ih =>
    obtain ⟨hsource, hrest⟩ := List.forall_mem_cons.1 h
    obtain ⟨p, hcompile, hstmts⟩ := exists_of_compiles hsource
    obtain ⟨texts, outcome, s', hrun, hexec⟩ := run_input hcompile s ht bytes lines
    have hempty : (Stmt.mapAllSpans (.shift bytes lines) p.stmts).isEmpty = p.stmts.isEmpty := by
      simp [Stmt.mapAllSpans_eq_map]
    unfold Session.runInOrder joinedStmts
    rw [hrun, hstmts, Stmt.execAll_append, Stmt.execAll_eq_map, hempty]
    simp only [Bind.bind, Functor.map, EStateM.bind, EStateM.map]
    generalize Stmt.execAll none (Stmt.mapAllSpans (.shift bytes lines) p.stmts)
      ⟨s.env, s.heap, t⟩ = a at hexec
    cases a with
    | ok result w =>
      obtain ⟨houtcome, rfl⟩ := Prod.mk.inj hexec
      cases outcome with
      | error e => cases houtcome
      | ok r =>
        cases houtcome
        obtain ⟨more, outcome, s'', hruns, hexecs⟩ := ih hrest s' (ht.after texts)
          (bytes + source.utf8ByteSize + 1) (lines + lineFeeds source + 1)
          (if p.stmts.isEmpty then last else result)
        refine ⟨texts ++ more, outcome, s'', ?_, ?_⟩
        · have hbytes : (String.join (texts ++ more)).toUTF8 =
              (String.join texts).toUTF8 ++ (String.join more).toUTF8 := by simp
          simp only [hruns, hbytes]
        · rw [Output.after_append]
          exact hexecs
    | error e w =>
      obtain ⟨houtcome, rfl⟩ := Prod.mk.inj hexec
      cases outcome with
      | ok r => cases houtcome
      | error e' =>
        refine ⟨texts, .error (e'.shift bytes lines), s', rfl, ?_⟩
        exact Prod.ext houtcome rfl

/-- Sources with a line feed between two are one program: the statements of each
one where it then stands. One run of it, with an output that never fails, is all
of their runs in a session up to the first error. -/
theorem runSource_joined (sources : List String)
    (h : ∀ s ∈ sources, Session.compiles s = true) :
    compile ("\n".intercalate sources) = .ok ⟨joinedStmts 0 0 sources⟩ ∧
    ∀ (w : WorldOf σ), Output.Reliable w.sink → ∃ texts outcome s,
      Session.runInOrder ⟨w.env, w.heap⟩ 0 0 none sources =
        (outcome, (String.join texts).toUTF8, s) ∧
      runSource ("\n".intercalate sources) w =
        (outcome, ⟨s.env, s.heap, (Output.flush (Output.after w.sink texts)).1⟩) := by
  have hcompile := compile_joined h
  refine ⟨hcompile, fun w hw => ?_⟩
  obtain ⟨texts, outcome, s, hruns, hexec⟩ := run_inputs h ⟨w.env, w.heap⟩ hw 0 0 none
  refine ⟨texts, outcome, s, hruns, ?_⟩
  rw [runSource_of_compile hcompile]
  generalize hrun : Stmt.execAll none (joinedStmts 0 0 sources) w = a at hexec
  cases a with
  | ok result v =>
    obtain ⟨rfl, rfl⟩ := Prod.mk.inj hexec
    rw [Program.run_of_ok hrun (hw.flush_none texts)]
    rfl
  | error e v =>
    obtain ⟨rfl, rfl⟩ := Prod.mk.inj hexec
    rw [Program.run_of_error hrun]
    rfl

/-- A text that ends in a comment, one that is empty, and one that fails: the
fault is on the third line of the three together. -/
theorem runSource_joined_fault :
    let sources := ["x = 7; // seven", "", "println y;"]
    let w : World := ⟨.empty, .empty, .unlimited⟩
    let fault := RunError.runtime ⟨.undeclaredVariable "y" (some "x"), some ⟨25, 26, 3⟩⟩
    (Session.runInOrder .start 0 0 none sources).1 = .error fault ∧
      (runSource ("\n".intercalate sources) w).1 = .error fault := by
  intro sources w fault
  have h : ∀ s ∈ sources, Session.compiles s = true := by
    simp only [sources, List.forall_mem_cons, List.not_mem_nil, false_implies, implies_true,
      and_true]
    exact ⟨by cbv, by cbv, by cbv⟩
  obtain ⟨texts, outcome, s, hsession, hjoined⟩ :=
    (runSource_joined sources h).2 w Sink.reliable_unlimited
  have hfault : (Session.runInOrder .start 0 0 none sources).1 = .error fault := by cbv
  have houtcome : outcome = .error fault := by
    rw [← hfault]
    exact (congrArg Prod.fst hsession).symm
  exact ⟨hfault, by rw [hjoined, houtcome]⟩

end Scriptlet
