-- What a run writes. An output that never fails is handed one text after the
-- other and decides nothing, so all such outputs are handed the same texts. A
-- sink without a limit is one of them: it holds just the bytes of the texts.
import Scriptlet.Proofs.Mirroring

namespace Scriptlet

variable {σ τ : Type} [Output σ] [Output τ]

/-! ## Texts -/

namespace Output

/-- The output after some texts. -/
def after (s : σ) (texts : List String) : σ := texts.foldl (fun s text => (write s text).1) s

theorem after_append (s : σ) (xs ys : List String) :
    after s (xs ++ ys) = after (after s xs) ys := List.foldl_append

theorem after_concat (s : σ) (texts : List String) (text : String) :
    after s (texts ++ [text]) = (write (after s texts) text).1 := by
  rw [after_append]
  rfl

/-- An output that takes every text and every flush, whatever it was given
before. -/
structure Reliable (s : σ) : Prop where
  write_none : ∀ texts text, (write (after s texts) text).2 = none
  flush_none : ∀ texts, (flush (after s texts)).2 = none

theorem Reliable.after {s : σ} (h : Reliable s) (texts : List String) :
    Reliable (Output.after s texts) := by
  refine ⟨fun more text => ?_, fun more => ?_⟩
  · rw [← after_append]
    exact h.write_none _ text
  · rw [← after_append]
    exact h.flush_none _

/-- Two outputs that have taken the same texts since they were `s` and `t`. -/
def SameTexts (s : σ) (t : τ) (a : σ) (b : τ) : Prop :=
  ∃ texts, a = after s texts ∧ b = after t texts

theorem SameTexts.refl (s : σ) (t : τ) : SameTexts s t s t := ⟨[], rfl, rfl⟩

theorem writesAlike_sameTexts {s : σ} {t : τ} (hs : Reliable s) (ht : Reliable t) :
    WritesAlike (SameTexts s t) := by
  refine ⟨fun a b text hab => ?_⟩
  obtain ⟨texts, rfl, rfl⟩ := hab
  refine ⟨⟨texts ++ [text], ?_, ?_⟩, ?_⟩
  · rw [after_concat]
  · rw [after_concat]
  · rw [hs.write_none, ht.write_none]

end Output

/-! ## Sinks without a limit -/

namespace Sink

theorem write_of_fitting {s : Sink} {text : String}
    (h : s.fitting text.toUTF8.size = text.toUTF8.size) :
    Output.write s text = ({ s with written := s.written ++ text.toUTF8 }, none) := by
  simp only [Output.write, write, h, ByteArray.extract_zero_size, ↓reduceIte]

/-- A sink without a limit takes every text. -/
theorem write_of_limit_none {s : Sink} (h : s.limit = none) (text : String) :
    Output.write s text = ({ s with written := s.written ++ text.toUTF8 }, none) := by
  refine write_of_fitting ?_
  simp only [fitting, h]

theorem write_unlimited (bytes : ByteArray) (text : String) :
    Output.write (⟨bytes, none, false⟩ : Sink) text =
      (⟨bytes ++ text.toUTF8, none, false⟩, none) := write_of_limit_none rfl text

theorem after_unlimited (bytes : ByteArray) (texts : List String) :
    Output.after (⟨bytes, none, false⟩ : Sink) texts =
      ⟨bytes ++ (String.join texts).toUTF8, none, false⟩ := by
  induction texts generalizing bytes with
  | nil => simp [Output.after]
  | cons text texts ih =>
    have hcons : Output.after (⟨bytes, none, false⟩ : Sink) (text :: texts) =
      Output.after (⟨bytes ++ text.toUTF8, none, false⟩ : Sink) texts := by
      simp [Output.after, write_unlimited]
    rw [hcons, ih]
    simp [ByteArray.append_assoc]

theorem reliable_unlimited : Output.Reliable unlimited := by
  refine ⟨fun texts text => ?_, fun texts => ?_⟩
  · rw [unlimited, after_unlimited, write_unlimited]
  · rw [unlimited, after_unlimited]
    rfl

end Sink

/-! ## Runs -/

namespace Program

variable {p : Program} {w v : WorldOf σ}

theorem run_of_ok {result : Option Value} (h : Stmt.execAll none p.stmts w = .ok result v)
    (hflush : (Output.flush v.sink).2 = none) :
    p.run w = .ok result { v with sink := (Output.flush v.sink).1 } := by
  unfold run
  rw [h]
  rcases hsink : Output.flush v.sink with ⟨sink, message⟩
  rw [hsink] at hflush
  cases hflush
  simp [Bind.bind, EStateM.bind, Exec.flush, hsink, Pure.pure, EStateM.pure]

theorem run_of_error {f : Fault} (h : Stmt.execAll none p.stmts w = .error f v) :
    p.run w = .error f { v with sink := (Output.flush v.sink).1 } := by
  unfold run
  rw [h]

end Program

namespace Stmt

theorem execAll_append (last : Option Value) (ss rs : List Stmt) :
    (execAll last (ss ++ rs) : Exec σ (Option Value)) =
      execAll last ss >>= fun last => execAll last rs := by
  induction ss generalizing last with
  | nil => simp [execAll]
  | cons s ss ih => simp [execAll, ih]

/-- The result before statements matters only if there are none. -/
theorem execAll_eq_map (last : Option Value) (ss : List Stmt) :
    (execAll last ss : Exec σ (Option Value)) =
      (fun result => if ss.isEmpty then last else result) <$> execAll none ss := by
  cases ss with
  | nil => rfl
  | cons s ss => simp [execAll]

end Stmt

end Scriptlet
