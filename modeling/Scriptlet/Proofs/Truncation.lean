-- A sink that is full. It keeps the first bytes of what is printed, and the run stops at
-- the text that goes past them. Up to there the run is the one with a sink that has no
-- limit, and so it is to the end if all that is printed fits.
import Scriptlet.Proofs.Coupling
import Scriptlet.Proofs.Printing

namespace Scriptlet

/-! ## Writes -/

theorem ByteArray.extract_of_size_le {bytes : ByteArray} {n : Nat} (h : bytes.size ≤ n) :
    bytes.extract 0 n = bytes := by
  rw [← Nat.max_eq_left h]
  exact ByteArray.extract_zero_max_size

namespace Sink

variable {s : Sink} {n : Nat} {text : String}

theorem write_of_fits (hlimit : s.limit = some n)
    (hfits : s.written.size + text.toUTF8.size ≤ n) :
    Output.write s text = ({ s with written := s.written ++ text.toUTF8 }, none) := by
  refine write_of_fitting ?_
  simp only [fitting, hlimit]
  omega

theorem write_of_overflows (hlimit : s.limit = some n) (hsize : s.written.size ≤ n)
    (hover : n < s.written.size + text.toUTF8.size) :
    Output.write s text =
      ({ s with written := (s.written ++ text.toUTF8).extract 0 n }, some closedMessage) := by
  have hfitting : s.fitting text.toUTF8.size = n - s.written.size := by
    simp only [fitting, hlimit]
    omega
  have hne : n - s.written.size ≠ text.toUTF8.size := by omega
  simp only [Output.write, write, hfitting, if_neg hne, ByteArray.extract_append,
    ByteArray.extract_of_size_le hsize, Nat.zero_sub]

/-- A text of two parts fits as far as its first part does, and then as far as the second
one does after it. -/
theorem fitting_add {s : Sink} {bytes : ByteArray} (h : s.fitting bytes.size = bytes.size)
    (n : Nat) : s.fitting (bytes.size + n) =
      bytes.size + fitting { s with written := s.written ++ bytes } n := by
  unfold fitting at h ⊢
  cases hlimit : s.limit with
  | none => rfl
  | some limit =>
    simp only [hlimit, ByteArray.size_append] at h ⊢
    omega

theorem fitting_add_of_ne {s : Sink} {m : Nat} (h : s.fitting m ≠ m) (n : Nat) :
    s.fitting (m + n) = s.fitting m ∧ s.fitting m < m := by
  unfold fitting at h ⊢
  cases hlimit : s.limit with
  | none => simp [hlimit] at h
  | some limit =>
    simp only [hlimit] at h ⊢
    omega

/-- Two texts that are written as one are written one after the other, the second one
unless the first one fails. -/
theorem write_append (s : Sink) (a b : String) :
    s.write (a ++ b) =
      match s.write a with
      | (s, none) => s.write b
      | failed => failed := by
  have hbytes : (a ++ b).toUTF8 = a.toUTF8 ++ b.toUTF8 := String.toByteArray_append
  simp only [write, hbytes, ByteArray.size_append]
  by_cases hfits : s.fitting a.toUTF8.size = a.toUTF8.size
  · simp only [fitting_add hfits, hfits, ByteArray.extract_zero_size, ↓reduceIte,
      Nat.add_right_inj, ByteArray.append_assoc, ByteArray.extract_append, Nat.zero_sub,
      Nat.add_sub_cancel_left, ByteArray.extract_of_size_le (Nat.le_add_right ..)]
  · obtain ⟨hsame, hlt⟩ := fitting_add_of_ne hfits b.toUTF8.size
    have hne : s.fitting a.toUTF8.size ≠ a.toUTF8.size + b.toUTF8.size := by omega
    simp only [hsame, if_neg hfits, if_neg hne, ByteArray.extract_append, Nat.zero_sub,
      Nat.sub_eq_zero_of_le (Nat.le_of_lt hlt), ByteArray.extract_same, ByteArray.append_empty]

/-- The sink after some texts, up to the first of them that fails. -/
def writePieces (s : Sink) : List String → Sink × Option String
  | [] => (s, none)
  | piece :: pieces =>
    match s.write piece with
    | (s, none) => s.writePieces pieces
    | failed => failed

theorem writePieces_eq (s : Sink) (pieces : List String) :
    s.writePieces pieces = s.write (String.join pieces) := by
  induction pieces generalizing s with
  | nil =>
    have hfitting : s.fitting 0 = 0 := by
      unfold fitting
      split <;> simp
    simp [writePieces, write, hfitting]
  | cons piece pieces ih =>
    rw [String.join_cons, write_append, writePieces]
    simp only [ih]

end Sink

/-! ## A run with a limit and one without -/

/-- The same world, with a sink that holds at most `n` bytes. -/
def WorldOf.limited (n : Nat) (w : World) : World :=
  { w with sink := { w.sink with limit := some n } }

/-- The same outcome, with that limit. -/
def Outcome.limited {α : Type} (n : Nat) :
    EStateM.Result Fault World α → EStateM.Result Fault World α
  | .ok a w => .ok a (w.limited n)
  | .error f w => .error f (w.limited n)

/-- Worlds that differ in the limit of their sinks: the first one holds at most `n` bytes,
the second one any number, and all that it has been given fits into the first. -/
structure LimitedTo (n : Nat) (w v : World) : Prop where
  eq : w = v.limited n
  unlimited : v.sink.limit = none
  size_le : v.sink.written.size ≤ n

/-- A run with a limit goes together with one without until a text does not fit. -/
def Sink.coupling (n : Nat) : Coupling Sink where
  Worlds := LimitedTo n
  Faults := Eq
  Breaks f := ∃ message, f.cause = .io message

theorem Sink.laws_coupling (n : Nat) : (Sink.coupling n).Laws fun _ => True where
  heap := by
    rintro _ v ⟨rfl, -, -⟩
    rfl
  evaluate := by
    intro α step _
    refine ⟨?_⟩
    rintro _ v ⟨rfl, hlimit, hsize⟩
    unfold Exec.evaluate
    simp only [WorldOf.limited]
    cases step v.env v.heap with
    | ok a heap => exact .ok ⟨rfl, hlimit, hsize⟩
    | error f heap => exact .error ⟨rfl, hlimit, hsize⟩ rfl
  assign name x _ := by
    refine ⟨?_⟩
    rintro _ v ⟨rfl, hlimit, hsize⟩
    exact .ok ⟨rfl, hlimit, hsize⟩
  unbind name _ := by
    refine ⟨?_⟩
    rintro _ v ⟨rfl, hlimit, hsize⟩
    exact .ok ⟨rfl, hlimit, hsize⟩
  setItem r i x := by
    refine ⟨?_⟩
    rintro _ v ⟨rfl, hlimit, hsize⟩
    exact .ok ⟨rfl, hlimit, hsize⟩
  output s text := by
    refine ⟨?_⟩
    rintro _ v ⟨rfl, hlimit, hsize⟩
    have hunlimited := Sink.write_of_limit_none hlimit text
    by_cases hfits : v.sink.written.size + text.toUTF8.size ≤ n
    · have hlimited := Sink.write_of_fits (s := (v.limited n).sink) rfl hfits
      simp only [Exec.output, hunlimited, hlimited]
      exact .ok ⟨rfl, hlimit, ByteArray.size_append ▸ hfits⟩
    · have hlimited := Sink.write_of_overflows (s := (v.limited n).sink) rfl hsize
        (Nat.lt_of_not_le hfits)
      simp only [Exec.output, hlimited]
      exact .broken ⟨Sink.closedMessage, rfl⟩

/-! ## The output of a run -/

/-- What an unlimited sink has been given after the bytes `old`. -/
structure Sink.Extends (old : ByteArray) (s : Sink) : Prop where
  unlimited : s.limit = none
  written : ∃ more, s.written = old ++ more

theorem Sink.Extends.write {old : ByteArray} {s : Sink} (h : s.Extends old) (text : String) :
    (Output.write s text).1.Extends old := by
  obtain ⟨more, hmore⟩ := h.written
  rw [write_of_limit_none h.unlimited]
  exact ⟨h.unlimited, more ++ text.toUTF8, by rw [hmore, ByteArray.append_assoc]⟩

theorem Sink.Extends.kept (old : ByteArray) (ss : List Stmt) (w : World) :
    Kept (fun u => u.sink.Extends old) ss w := by
  constructor
  · intro e u hu
    rwa [(Exec.untouched_worldAfter (fun env => e.pure_eval env) u).sink]
  · intro s u _ hs hu
    rcases Stmt.sink_of_simple hs u with hsink | ⟨_, _, _, _, -, -, hsink⟩
    · rwa [hsink]
    · rw [hsink]
      exact hu.write _
  · intro _ _ _ _ _ _ _ _ hv
    exact hv
  · intro _ _ _ _ _ _ _ hv
    exact hv

/-! ## Runs -/

/-- A text that does not fit is that of a print statement, which does not stop in the
world without the limit. It leaves the world that it comes to there, and of all bytes
printed so far those that fit. -/
theorem Stmt.exec_limited_of_io {s : Stmt} (hs : s.Simple) {u v : World} {n : Nat} {f : Fault}
    {message : String} (hu : u.sink.limit = none) (hsize : u.sink.written.size ≤ n)
    (hexec : s.exec (u.limited n) = .error f v) (hf : f.cause = .io message) :
    ∃ e ending x u', s.printed? = some (e, ending) ∧ s.exec u = .ok (some x) u' ∧
      u'.sink.limit = none ∧ n < u'.sink.written.size ∧
      f = ⟨.io Sink.closedMessage, some e.span⟩ ∧
      v = ⟨u'.env, u'.heap,
        { u'.sink with written := u'.sink.written.extract 0 n, limit := some n }⟩ := by
  obtain ⟨e, ending, x, h, hprinted, heval, hwrite, rfl, rfl⟩ := exec_eq_error_of_io hs hexec hf
  generalize htext : h.display x ++ ending = text at hwrite ⊢
  have hover : n < u.sink.written.size + text.toUTF8.size := by
    refine Nat.lt_of_not_le fun hfits => ?_
    rw [Sink.write_of_fits (s := (u.limited n).sink) rfl hfits] at hwrite
    cases hwrite
  rw [Sink.write_of_overflows (s := (u.limited n).sink) rfl hsize hover] at hwrite ⊢
  cases hwrite
  have hdoes : Does u s x _ := .prints hprinted heval htext (Sink.write_of_limit_none hu text)
  have hprints := (exec_eq_ok_iff_of_printed hprinted).2 ⟨x, rfl, hdoes⟩
  refine ⟨e, ending, x, _, hprinted, hprints, hu, ?_, rfl, rfl⟩
  rwa [ByteArray.size_append]

namespace Program

variable {p : Program} {w : World} {n : Nat}

theorem sink_worldAfter_run (p : Program) (w : World) :
    (Exec.worldAfter p.run w).sink = (Exec.worldAfter (Stmt.execAll none p.stmts) w).sink := by
  rw [p.worldAfter_run w]
  rfl

/-- A run whose statements have the same outcome in both sinks has so as a whole. -/
theorem run_limited_of_execAll
    (h : Stmt.execAll none p.stmts (w.limited n) =
      Outcome.limited n (Stmt.execAll none p.stmts w)) :
    p.run (w.limited n) = Outcome.limited n (p.run w) := by
  unfold run
  rw [h]
  cases Stmt.execAll none p.stmts w with
  | error f v => rfl
  | ok result v =>
    obtain ⟨env, heap, written, limit, _ | _⟩ := v <;> rfl

/-- Either the statements have the same outcome in both sinks and all that they print fits,
or the output stops them in the sink with the limit. -/
theorem execAll_limited (p : Program) (hw : w.sink.limit = none)
    (hsize : w.sink.written.size ≤ n) :
    Stmt.execAll none p.stmts (w.limited n) = Outcome.limited n (Stmt.execAll none p.stmts w) ∧
        (Exec.worldAfter (Stmt.execAll none p.stmts) w).sink.written.size ≤ n ∨
      ∃ f v message, Stmt.execAll none p.stmts (w.limited n) = .error f v ∧
        f.cause = .io message := by
  have hcouples := Stmt.couples_execAll (Sink.laws_coupling n) none p.stmts fun _ _ _ _ => trivial
  have hout := hcouples.outcomes (w.limited n) w ⟨rfl, hw, hsize⟩
  unfold Exec.worldAfter
  generalize Stmt.execAll none p.stmts (w.limited n) = outcome at hout ⊢
  generalize Stmt.execAll none p.stmts w = other at hout ⊢
  cases hout with
  | ok hv =>
    obtain ⟨rfl, -, hfits⟩ := hv
    exact .inl ⟨rfl, hfits⟩
  | error hv hf =>
    obtain ⟨rfl, -, hfits⟩ := hv
    cases hf
    exact .inl ⟨rfl, hfits⟩
  | broken hbreaks =>
    obtain ⟨message, hf⟩ := hbreaks
    exact .inr ⟨_, _, message, rfl, hf⟩

/-- What has been printed by a statement that a run comes to, all that the run prints
begins with. -/
theorem exists_written_of_reaches (p : Program) {s : Stmt} {u v : World} {result : Option Value}
    (hreaches : Reaches p.stmts w s u) (hexec : s.exec u = .ok result v)
    (hv : v.sink.limit = none) :
    ∃ more, (Exec.worldAfter p.run w).sink.written = v.sink.written ++ more := by
  have hextends : (Exec.worldAfter s.exec u).sink.Extends v.sink.written := by
    rw [Exec.worldAfter_of_ok hexec]
    exact ⟨hv, .empty, ByteArray.append_empty.symm⟩
  rw [sink_worldAfter_run]
  exact ((Sink.Extends.kept v.sink.written p.stmts w).of_reaches hreaches hextends none).written

end Program

/-- A sink that is full cuts the output off and changes nothing else. From a world in
which the sink has no limit, a program prints some bytes. With a limit, in the same world
otherwise:
* if these bytes fit, the run is the same, to its outcome and all that it leaves;
* if not, it stops at the operand of the print statement that goes past the limit, with
  the bindings and lists that the other run has there, and just the first of the bytes
  have been printed;
* it makes no difference whether a text is written at once or in pieces, up to the first
  of them that fails. -/
theorem run_limited (p : Program) (w : World) (limit : Nat) (hw : w.sink.limit = none)
    (hsize : w.sink.written.size ≤ limit) :
    let output := (Exec.worldAfter p.run w).sink.written
    (output.size ≤ limit → p.run (w.limited limit) = Outcome.limited limit (p.run w)) ∧
    (limit < output.size → ∃ s e ending x u v more, Reaches p.stmts w s u ∧
      s.printed? = some (e, ending) ∧ s.exec u = .ok (some x) v ∧
      u.sink.written.size ≤ limit ∧ limit < v.sink.written.size ∧
      output = v.sink.written ++ more ∧
      p.run (w.limited limit) = .error ⟨.io Sink.closedMessage, some e.span⟩
        ⟨v.env, v.heap, { v.sink with written := output.extract 0 limit, limit := some limit }⟩) ∧
    ∀ sink pieces, Sink.writePieces sink pieces = sink.write (String.join pieces) := by
  intro output
  refine and_assoc.1 ⟨?_, Sink.writePieces_eq⟩
  rcases p.execAll_limited hw hsize with ⟨hsame, hfits⟩ | ⟨f, _, message, hstops, hf⟩
  · rw [← p.sink_worldAfter_run w] at hfits
    exact ⟨fun _ => Program.run_limited_of_execAll hsame,
      fun hover => absurd hover (Nat.not_lt.2 hfits)⟩
  · obtain ⟨s, _, hcomes, hexec, hs⟩ := Stmt.exists_simple_of_io hstops hf
    obtain ⟨u, hreaches, rfl, hu, husize⟩ :=
      (Sink.laws_coupling limit).reaches hcomes (fun _ _ _ _ => trivial) ⟨rfl, hw, hsize⟩
    obtain ⟨e, ending, x, v, hprinted, hprints, hv, hover, rfl, rfl⟩ :=
      Stmt.exec_limited_of_io hs hu husize hexec hf
    obtain ⟨more, hmore⟩ : ∃ more, output = v.sink.written ++ more :=
      p.exists_written_of_reaches hreaches hprints hv
    have hfirst : output.extract 0 limit = v.sink.written.extract 0 limit := by
      rw [hmore, ByteArray.extract_append, Nat.zero_sub, Nat.sub_eq_zero_of_le (Nat.le_of_lt hover),
        ByteArray.extract_same, ByteArray.append_empty]
    have hlonger : limit < output.size := by
      rw [hmore, ByteArray.size_append]
      omega
    refine ⟨fun hfits => absurd hlonger (Nat.not_lt.2 hfits), fun _ => ?_⟩
    refine ⟨s, e, ending, x, u, v, more, hreaches, hprinted, hprints, husize, hover, hmore, ?_⟩
    rw [hfirst]
    exact Program.run_of_error hstops

/-- A sink with room for three bytes that is full inside a list: its closing bracket and
the end of the line are lost. -/
theorem run_limited_inside_list :
    let span : Span := ⟨0, 0, 1⟩
    let operand := Expr.list [.number 7 span] ⟨10, 13, 2⟩
    let p := Program.mk [.print (.str "\"a\"" span) span, .printLine operand span]
    let w : World := ⟨.empty, ⟨#[]⟩, .unlimited⟩
    (Exec.worldAfter p.run w).sink.written = "a[7]\n".toUTF8 ∧
      p.run (w.limited 3) = .error ⟨.io Sink.closedMessage, some operand.span⟩
        ⟨.empty, ⟨#[#[.int 7]]⟩, ⟨"a[7".toUTF8, some 3, false⟩⟩ := by
  intro span operand p w
  let u : World := { w with sink := ⟨"a".toUTF8, none, false⟩ }
  let v : World := ⟨.empty, ⟨#[#[.int 7]]⟩, ⟨"a[7]\n".toUTF8, none, false⟩⟩
  have hletter : Heap.display ⟨#[]⟩ (.str "a") ++ "" = "a" := by
    simp [Heap.display, Heap.displayIn]
  have hlist : Heap.display ⟨#[#[.int 7]]⟩ (.list 0) ++ "\n" = "[7]\n" := by
    have hseven : Int.repr 7 = "7" := rfl
    simp [Heap.display, Heap.displayIn, Heap.displayItems, Heap.items, hseven]
  have hfirst : (Stmt.print (.str "\"a\"" span) span).exec w = .ok (some (.str "a")) u :=
    (Stmt.exec_eq_ok_iff_of_printed rfl).2
      ⟨_, rfl, .prints rfl rfl hletter (Sink.write_unlimited ..)⟩
  have hsecond : (Stmt.printLine operand span).exec u = .ok (some (.list 0)) v :=
    (Stmt.exec_eq_ok_iff_of_printed rfl).2 ⟨_, rfl, .prints rfl rfl hlist (Sink.write_unlimited ..)⟩
  have hexec : Stmt.execAll none p.stmts w = .ok (some (.list 0)) v := by
    unfold Stmt.execAll
    refine bind_eq_ok_iff.2 ⟨_, u, hfirst, ?_⟩
    unfold Stmt.execAll
    refine bind_eq_ok_iff.2 ⟨_, v, hsecond, ?_⟩
    unfold Stmt.execAll
    rfl
  have hrun : p.run w = .ok (some (.list 0)) v := Program.run_of_ok hexec rfl
  have houtput : (Exec.worldAfter p.run w).sink.written = "a[7]\n".toUTF8 := by
    rw [Exec.worldAfter_of_ok hrun]
  have hover : 3 < (Exec.worldAfter p.run w).sink.written.size := by
    rw [houtput]
    decide
  obtain ⟨s, e, ending, x, y, z, more, hreaches, hprinted, hprints, -, hsize, -, hlimited⟩ :=
    (run_limited p w 3 rfl (by decide)).2.1 hover
  refine ⟨houtput, hlimited.trans ?_⟩
  cases hreaches with
  | here =>
    cases hfirst.symm.trans hprints
    exact absurd hsize (by decide)
  | next h hreaches =>
    cases hfirst.symm.trans h
    cases hreaches with
    | here =>
      cases hprinted
      cases hsecond.symm.trans hprints
      rw [houtput]
      rfl
    | next _ hreaches => cases hreaches

end Scriptlet
