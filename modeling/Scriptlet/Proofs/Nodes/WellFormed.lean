-- Trees that a source can have. A tree read from elsewhere may hold names, numbers
-- and strings that no token carries, and operators on nodes of another family. The
-- tree of a source never does.
import Scriptlet.Proofs.Compilation
import Scriptlet.Proofs.Lexing.Writing

namespace Scriptlet

open Grammar

/-! ## Well-formed nodes -/

/-- Whether what the node itself holds can be written. -/
def Node.WellFormed : Node → Prop
  | expression (.number n _) => 0 ≤ n.toInt
  | expression (.str raw _) => IsStringLiteral raw
  | expression (.ident name _) | expression (.index name _ _) => IsName name
  | expression (.binary family op _ _ _) => op.family = family
  | statement (.assign name _ _) | statement (.indexAssign name _ _ _)
  | statement (.loop name _ _ _) => IsName name
  | _ => True

/-- Whether every node can be written. -/
def Program.WellFormed (p : Program) : Prop := ∀ n ∈ p.nodes, n.WellFormed

theorem Node.wellFormed_mapSpans (f : Span → Span) (n : Node) :
    (n.mapSpans f).WellFormed ↔ n.WellFormed := by
  rcases n with s | r | e
  · rcases s with _ | _ | _ | _ | _ | ⟨_, _, _ | _, _⟩ <;> exact Iff.rfl
  · exact Iff.rfl
  · cases e <;> exact Iff.rfl

theorem Program.wellFormed_eraseSpans (p : Program) : p.eraseSpans.WellFormed ↔ p.WellFormed := by
  unfold WellFormed eraseSpans
  rw [Program.nodes_mapSpans, List.forall_mem_map]
  simp only [Node.wellFormed_mapSpans]

/-! ## What tokens spell is well-formed -/

namespace Grammar

theorem Operator.family_eq {f : Family} {s : Symbol} {op : BinOp} (h : Operator f s op) :
    op.family = f := by
  cases h <;> rfl

/-- Whether the node that a phrase is, or the name that it leaves to one, can be
written. -/
def Phrase.WellFormed : Phrase → Prop
  | statement s => (Node.statement s).WellFormed
  | target name _ => IsName name
  | expression e | sum e | extremum e | term e => (Node.expression e).WellFormed
  | _ => True

theorem Derives.wellFormed {ph : Phrase} {ts : Tokens} (h : Derives ph ts)
    (hts : ∀ t ∈ ts, t.1.Written) : ph.WellFormed := by
  induction h with
  | assign => exact hts _ (.head _)
  | loop => exact hts _ (.tail _ (.head _))
  | target => exact hts _ (.head _)
  | number | str | ident => exact hts _ (.head _)
  | comparison hop => exact hop.family_eq
  | sum hop => exact hop.family_eq
  | extremum hop => exact hop.family_eq
  | indexAssign _ _ ih =>
    apply ih
    intro t ht
    exact hts t (by simp [ht])
  | parens _ ih =>
    apply ih
    intro t ht
    exact hts t (by simp [ht])
  | ofSum _ ih | ofExtremum _ ih | ofTerm _ ih | index _ ih => exact ih hts
  | _ => trivial

end Grammar

/-- Every node of a compiled program is spelled by tokens of its own. -/
theorem wellFormed_of_compile {source : String} {p : Program} (h : compile source = .ok p) :
    p.WellFormed := by
  obtain ⟨ts, htokens, hp⟩ := compile_eq_ok_iff.1 h
  have hwritten := written_of_tokensFrom htokens
  intro n hn
  obtain ⟨us, hpart, hspelled⟩ := hp.allSpelled.exists_part n hn
  have hphrase := hspelled.derives.wellFormed fun t ht => hwritten t (hpart.subset ht)
  cases n with
  | statement s => exact hphrase
  | range r => trivial
  | expression e => exact hphrase

end Scriptlet
