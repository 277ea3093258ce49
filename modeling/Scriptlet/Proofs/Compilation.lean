-- What compiling gives: the program that the tokens of a source spell. All of
-- its nodes lie within the source, at stretches that are not empty and on the
-- lines that the source has there.
import Scriptlet.Compile
import Scriptlet.Proofs.Grammar.Extents
import Scriptlet.Proofs.Grammar.Recognition
import Scriptlet.Proofs.Grammar.Spelling
import Scriptlet.Proofs.Lexing

namespace Scriptlet

open Grammar (Tokens Derives Ascending extent opening closing)

theorem compile_of_tokenize {source : String} {ts : Tokens} (h : tokenize source = .ok ts) :
    compile source = (parse source ts).mapError SyntaxError.toCompileError := by
  unfold compile
  rw [h]

theorem compile_eq_ok_iff {source : String} {p : Program} :
    compile source = .ok p ↔ ∃ ts, tokenize source = .ok ts ∧ Derives (.program p) ts := by
  constructor
  · intro h
    rcases htokens : tokenize source with e | ts
    · unfold compile at h
      rw [htokens] at h
      cases h
    · rw [compile_of_tokenize htokens] at h
      rcases hparse : parse source ts with e | q
      · rw [hparse] at h
        cases h
      · rw [hparse] at h
        cases h
        rw [parse_eq_ok_iff, locate_of_tokenize htokens] at hparse
        exact ⟨ts, rfl, hparse⟩
  · rintro ⟨ts, htokens, h⟩
    rw [← locate_of_tokenize htokens, ← parse_eq_ok_iff] at h
    rw [compile_of_tokenize htokens, h]
    rfl

/-! ## Places of nodes -/

theorem ascending_of_tokenize {source : String} {ts : Tokens} (h : tokenize source = .ok ts) :
    Ascending ts := by
  obtain ⟨hstretch, hpairwise⟩ := stretches_of_tokensFrom h
  exact ⟨fun t ht => (hstretch t ht).start_lt, hpairwise⟩

/-- Neighbouring tokens of a source take up a stretch that is not empty, on the
line that the source has there. -/
theorem place_of_extent {source : String} {ts us : Tokens} (h : tokenize source = .ok ts)
    (hpart : us <:+: ts) (hne : us ≠ []) :
    (extent us).start < (extent us).stop ∧ (extent us).stop ≤ source.utf8ByteSize ∧
      (extent us).line = 1 + lineFeedsBefore source (extent us).start := by
  have hlt := ((ascending_of_tokenize h).of_part hpart).extent_lt hne
  have hstretch := (stretches_of_tokensFrom h).1
  obtain ⟨t, ht, hopening⟩ := Grammar.exists_mem_opening hne
  obtain ⟨u, hu, hclosing⟩ := Grammar.exists_mem_closing hne
  refine ⟨hlt, ?_, ?_⟩
  · rw [← Position.offset_advance_origin, extent, Span.cover_stop, ← hclosing]
    exact (hstretch u (hpart.subset hu)).stop_le
  · rw [extent, Span.cover_line, Span.cover_start, ← hopening]
    exact (hstretch t (hpart.subset ht)).line_eq

/-- A node of a compiled program lies within the source. -/
theorem place_of_node {source : String} {p : Program} (h : compile source = .ok p) {n : Node}
    (hn : n ∈ p.nodes) : n.span.start < n.span.stop ∧ n.span.stop ≤ source.utf8ByteSize ∧
      n.span.line = 1 + lineFeedsBefore source n.span.start := by
  obtain ⟨ts, htokens, hp⟩ := compile_eq_ok_iff.1 h
  obtain ⟨us, hpart, hspelled⟩ := hp.allSpelled.exists_part n hn
  rw [hspelled.span_eq]
  exact place_of_extent htokens hpart hspelled.ne_nil

theorem place_of_compile {source : String} {p : Program} (h : compile source = .ok p) {s : Span}
    (hs : s ∈ p.nodeSpans) : s.start < s.stop ∧ s.stop ≤ source.utf8ByteSize ∧
      s.line = 1 + lineFeedsBefore source s.start := by
  obtain ⟨n, hn, rfl⟩ := List.mem_map.1 (Stmt.allNodeSpans_subset p.stmts hs)
  exact place_of_node h hn

end Scriptlet
