-- Stretches of tokens. What tokens take up together runs from the first of them
-- to the last one, and is not empty if they stand in order.
import Scriptlet.Proofs.Grammar

namespace Scriptlet.Grammar

theorem exists_mem_opening {ts : Tokens} (hne : ts ≠ []) : ∃ t ∈ ts, t.2 = opening ts := by
  obtain ⟨t, ts, rfl⟩ := List.exists_cons_of_ne_nil hne
  exact ⟨t, List.mem_cons_self, rfl⟩

theorem exists_mem_closing {ts : Tokens} (hne : ts ≠ []) : ∃ t ∈ ts, t.2 = closing ts := by
  refine ⟨ts.getLast hne, List.getLast_mem hne, ?_⟩
  rw [closing, List.getLast?_eq_some_getLast hne]
  rfl

/-- Tokens that stand one after the other, none of them empty. -/
structure Ascending (ts : Tokens) : Prop where
  start_lt : ∀ t ∈ ts, t.2.start < t.2.stop
  pairwise : ts.Pairwise fun a b => a.2.stop ≤ b.2.start

theorem Ascending.of_part {ts us : Tokens} (h : Ascending ts) (hpart : us <:+: ts) :
    Ascending us :=
  ⟨fun t ht => h.start_lt t (hpart.subset ht), h.pairwise.sublist hpart.sublist⟩

theorem Ascending.extent_lt {ts : Tokens} (h : Ascending ts) (hne : ts ≠ []) :
    (extent ts).start < (extent ts).stop := by
  obtain ⟨t, ts, rfl⟩ := List.exists_cons_of_ne_nil hne
  have ht := h.start_lt t List.mem_cons_self
  rcases ts.eq_nil_or_concat with rfl | ⟨us, u, rfl⟩
  · exact ht
  · have hu := h.start_lt u (by simp)
    have hle := (List.pairwise_cons.1 h.pairwise).1 u (by simp)
    simp only [extent, opening_cons, Span.cover_start, Span.cover_stop]
    rw [List.concat_eq_append, closing_cons t (by simp), closing_append us (by simp),
      closing_singleton]
    omega

end Scriptlet.Grammar
