-- The parser recognizes the grammar: it gives a program just for the tokens
-- that spell it, and no tokens spell two programs.
import Scriptlet.Proofs.Grammar.Acceptance
import Scriptlet.Proofs.Grammar.Reading

namespace Scriptlet

open Grammar (Tokens Derives)

namespace Grammar

theorem Derives.steps_start {p : Program} {ts : Tokens} (h : Derives (.program p) ts) :
    ∃ q, Parser.start.steps ts = some q ∧ q.done? = some p.stmts := by
  have hreads : ReadsStatements p.stmts ts := h.reads
  obtain ⟨q, hq, hboundary⟩ := hreads .start .start rfl
  have hdone := Parser.done?_eq_some_iff.2 ⟨_, hboundary, rfl⟩
  rw [List.reverse_append, List.reverse_reverse] at hdone
  exact ⟨q, hq, hdone⟩

theorem derives_iff_steps {p : Program} {ts : Tokens} :
    Derives (.program p) ts ↔ ∃ q, Parser.start.steps ts = some q ∧ q.done? = some p.stmts := by
  refine ⟨Derives.steps_start, ?_⟩
  rintro ⟨q, hq, hdone⟩
  exact (consumed_start.steps hq).done hdone

/-- Tokens spell one program at most. -/
theorem Derives.program_unique {p q : Program} {ts : Tokens} (hp : Derives (.program p) ts)
    (hq : Derives (.program q) ts) : p = q := by
  obtain ⟨r, hr, hp⟩ := hp.steps_start
  obtain ⟨r', hr', hq⟩ := hq.steps_start
  cases hr.symm.trans hr'
  obtain ⟨ss⟩ := p
  cases hp.symm.trans hq
  rfl

end Grammar

theorem parse_eq_ok_iff {source : String} {ts : Tokens} {p : Program} :
    parse source ts = .ok p ↔ Derives (.program p) ((LineIndex.ofText source).locate ts) := by
  rw [Grammar.derives_iff_steps]
  exact Parser.run_eq_ok_iff

/-- Tokens are parsed to a program just when they spell it, and they spell no
other. -/
theorem parse_eq_ok_iff_derives (source : String) (tokens : Tokens) (p : Program) :
    (parse source tokens = .ok p ↔
      Derives (.program p) ((LineIndex.ofText source).locate tokens)) ∧
    ∀ ts q r, Derives (.program q) ts → Derives (.program r) ts → q = r := by
  exact ⟨parse_eq_ok_iff, fun ts q r hq hr => hq.program_unique hr⟩

end Scriptlet
