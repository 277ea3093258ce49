-- Pieces of a source. The stretch of a node, cut out of the source, compiles to
-- that node alone: a statement as it stands, an expression or the bounds of a
-- loop where they can stand.
import Scriptlet.Proofs.Compilation
import Scriptlet.Proofs.Lexing.Writing

namespace Scriptlet

open Grammar (Tokens Derives Spelled extent opening closing)

/-! ## Cutting out -/

/-- The part of a source that a stretch takes up, if it cuts no character. -/
def Span.slice? (s : Span) (source : String) : Option String :=
  String.fromUTF8? (source.toUTF8.extract s.start s.stop)

theorem fromUTF8?_toUTF8 (text : String) : String.fromUTF8? text.toUTF8 = some text := by
  simp only [String.fromUTF8?, String.toUTF8_eq_toByteArray, text.isValidUTF8, ↓reduceDIte]
  rfl

theorem Span.slice?_of_split {left piece right : String} {s : Span}
    (hstart : s.start = left.utf8ByteSize) (hstop : s.stop = s.start + piece.utf8ByteSize) :
    s.slice? (left ++ (piece ++ right)) = some piece := by
  unfold slice?
  have hskip : (left ++ (piece ++ right)).toUTF8.extract s.start s.stop =
      (piece.toUTF8 ++ right.toUTF8).extract 0 piece.utf8ByteSize := by
    rw [hstop, hstart, String.toUTF8_eq_toByteArray, String.toByteArray_append,
      String.toByteArray_append]
    exact ByteArray.extract_append_size_add (i := 0)
  have hpiece : (piece.toUTF8 ++ right.toUTF8).extract 0 piece.utf8ByteSize = piece.toUTF8 :=
    ByteArray.extract_append_eq_left rfl
  rw [hskip, hpiece, fromUTF8?_toUTF8]

/-! ## Moving back -/

/-- The stretch without so many bytes and lines before its text. -/
def Span.unshift (bytes lines : Nat) (s : Span) : Span :=
  ⟨s.start - bytes, s.stop - bytes, s.line - lines⟩

theorem Span.unshift_shift (bytes lines : Nat) (s : Span) :
    (s.shift bytes lines).unshift bytes lines = s := by
  simp [shift, unshift]

theorem Grammar.Tokens.mapSpans_unshift (bytes lines : Nat) (ts : Tokens) :
    Tokens.mapSpans (.unshift bytes lines) (Tokens.mapSpans (.shift bytes lines) ts) = ts := by
  unfold Tokens.mapSpans
  rw [List.map_map]
  exact List.map_id'' (fun t => by simp [Span.unshift_shift]) ts

theorem Position.eq_shift {p : Position} (h : 1 ≤ p.line) :
    p = origin.shift p.offset (p.line - 1) := by
  obtain ⟨offset, line⟩ := p
  simp only [origin, shift, Position.mk.injEq] at h ⊢
  omega

/-! ## Tokens of a piece -/

/-- Neighbouring tokens of a source are all that the stretch from the first to the
last of them has, also if other text is put around it. -/
theorem exists_slice {source : String} {ts us : Tokens} (h : tokenize source = .ok ts)
    (hpart : us <:+: ts) (hne : us ≠ []) :
    ∃ piece vs, (extent us).slice? source = some piece ∧
      us = Tokens.mapSpans
        (.shift (extent us).start (lineFeedsBefore source (extent us).start)) vs ∧
      ∀ bytes lines rest, Fenced rest →
        tokensFrom (Position.origin.shift bytes lines) (piece.toList ++ rest) =
          (tokensFrom ((Position.origin.shift bytes lines).advance piece.toList) rest).map
            (Tokens.mapSpans (.shift bytes lines) vs ++ ·) := by
  obtain ⟨before, after, rfl⟩ := hpart
  obtain ⟨t, us', rfl⟩ := List.exists_cons_of_ne_nil hne
  rw [List.append_assoc, List.cons_append] at h
  obtain ⟨left, right, hsource, htokens, hstart, hline⟩ := exists_before_token h
  have hlines := Position.line_advance_origin hsource
  have hstart : (extent (t :: us')).start = (Position.origin.advance left).offset := hstart
  rw [← hstart] at hlines
  have hshift := Position.eq_shift (p := Position.origin.advance left) (by omega)
  rw [← hstart, hlines, Nat.add_sub_cancel_left] at hshift
  rw [hshift, tokensFrom_shift] at htokens
  -- The tokens from there on, read as if their text stood at the start.
  obtain ⟨xs, hxs, hmoved⟩ : ∃ xs, tokensFrom Position.origin right = .ok xs ∧
      Tokens.mapSpans (.shift (extent (t :: us')).start
        (lineFeedsBefore source (extent (t :: us')).start)) xs = t :: us' ++ after := by
    cases hxs : tokensFrom Position.origin right with
    | error e =>
      rw [hxs] at htokens
      cases htokens
    | ok xs =>
      rw [hxs] at htokens
      exact ⟨xs, rfl, Except.ok.inj htokens⟩
  obtain ⟨vs, ws, rfl, hvs, -⟩ := List.map_eq_append_iff.1 hmoved
  have hvs : Tokens.mapSpans _ vs = t :: us' := hvs
  have hvsne : vs ≠ [] := by
    rintro rfl
    cases hvs
  obtain ⟨piece, right', rfl, -, hstop, hmore⟩ := exists_piece hvsne hxs
  refine ⟨String.ofList piece, vs, ?_, hvs.symm, ?_⟩
  · have hleft := Position.offset_advance_origin (String.ofList left)
    have hpiece := Position.offset_advance_origin (String.ofList piece)
    rw [String.toList_ofList] at hleft hpiece
    have hclosing := Tokens.closing_mapSpans (Span.shift (extent (t :: us')).start
      (lineFeedsBefore source (extent (t :: us')).start)) hvsne
    have heq : source = String.ofList left ++ (String.ofList piece ++ String.ofList right') := by
      rw [← String.ofList_append, ← String.ofList_append, ← hsource, String.ofList_toList]
    rw [hvs] at hclosing
    have hend : (extent (t :: us')).stop = (closing vs).stop + (extent (t :: us')).start :=
      congrArg Span.stop hclosing
    rw [heq]
    refine Span.slice?_of_split (hstart.trans hleft) ?_
    rw [← hpiece, hstop, hend, Nat.add_comm]
  · intro bytes lines rest hfenced
    rw [String.toList_ofList]
    exact hmore bytes lines rest hfenced

/-! ## Nodes of a piece -/

namespace Node

theorem phrase_mapSpans (f : Span → Span) (n : Node) :
    (n.mapSpans f).phrase = n.phrase.mapSpans f := by
  cases n <;> rfl

theorem mapSpans_mapSpans (f g : Span → Span) (n : Node) :
    (n.mapSpans f).mapSpans g = n.mapSpans (g ∘ f) := by
  cases n with
  | statement s => exact congrArg statement (s.mapSpans_mapSpans f g)
  | range r => exact congrArg range (r.mapSpans_mapSpans f g)
  | expression e => exact congrArg expression (e.mapSpans_mapSpans f g)

/-- The node without its places. -/
def eraseSpans (n : Node) : Node := n.mapSpans fun _ => default

@[simp] theorem eraseSpans_mapSpans (f : Span → Span) (n : Node) :
    (n.mapSpans f).eraseSpans = n.eraseSpans := n.mapSpans_mapSpans f _

theorem exists_expression_of_eraseSpans {n : Node} {e : Expr}
    (h : n.eraseSpans = (expression e).eraseSpans) :
    ∃ e', n = expression e' ∧ e'.eraseSpans = e.eraseSpans := by
  cases n with
  | expression e' => exact ⟨e', rfl, Node.expression.inj h⟩
  | statement s => cases h
  | range r => cases h

theorem exists_range_of_eraseSpans {n : Node} {r : Range}
    (h : n.eraseSpans = (range r).eraseSpans) :
    ∃ r', n = range r' ∧ r'.eraseSpans = r.eraseSpans := by
  cases n with
  | range r' => exact ⟨r', rfl, Node.range.inj h⟩
  | statement s => cases h
  | expression e => cases h

/-- Tokens that spell the node, but for the places. -/
def SpelledBy (n : Node) (us : Tokens) : Prop :=
  ∃ m : Node, m.eraseSpans = n.eraseSpans ∧ Derives m.phrase us

end Node

/-- The stretch of a node, cut out: at the start of a text it has the tokens of the
node moved back, and elsewhere the same ones in other places. -/
theorem exists_slice_of_node {source : String} {p : Program} (h : compile source = .ok p) {n : Node}
    (hn : n ∈ p.nodes) : ∃ text us, n.span.slice? source = some text ∧
      tokenize text = .ok us ∧
      Derives n.phrase
        (Tokens.mapSpans (.shift n.span.start (lineFeedsBefore source n.span.start)) us) ∧
      Derives
        (n.mapSpans (.unshift n.span.start (lineFeedsBefore source n.span.start))).phrase us ∧
      ReadsAs text.toList n.SpelledBy := by
  obtain ⟨ts, htokens, hp⟩ := compile_eq_ok_iff.1 h
  obtain ⟨vs, hpart, hspelled⟩ := hp.allSpelled.exists_part n hn
  obtain ⟨text, us, hslice, hmoved, htext⟩ := exists_slice htokens hpart hspelled.ne_nil
  rw [← hspelled.span_eq] at hslice hmoved
  have hspells := hspelled.derives
  rw [hmoved] at hspells
  have hback := hspells.mapSpans (f := .unshift n.span.start
    (lineFeedsBefore source n.span.start)) fun _ _ => rfl
  rw [Tokens.mapSpans_unshift, ← Node.phrase_mapSpans] at hback
  refine ⟨text, us, hslice, ?_, hspells, hback, ?_⟩
  · have hstart := htext 0 0 [] fenced_nil
    rw [List.append_nil, tokensFrom] at hstart
    exact hstart.trans (congrArg Except.ok (by simp [Tokens.mapSpans, Span.shift]))
  · intro q rest hline hfenced
    have hmapped := hback.mapSpans (f := .shift q.offset (q.line - 1)) fun _ _ => rfl
    have hmore := htext q.offset (q.line - 1) rest hfenced
    rw [← Node.phrase_mapSpans] at hmapped
    rw [← Position.eq_shift hline] at hmore
    refine ⟨_, ⟨_, ?_, hmapped⟩, hmore⟩
    rw [Node.eraseSpans_mapSpans, Node.eraseSpans_mapSpans]

/-! ## Compiling a piece -/

theorem Grammar.Derives.singleton_program {s : Stmt} {ts : Tokens}
    (h : Derives (.statement s) ts) : Derives (.program ⟨[s]⟩) ts :=
  .program (.nextStatement .noStatement h)

theorem fenced_semicolon (rest : List Char) :
    Fenced ((Token.symbol .semicolon).text.toList ++ rest) :=
  fenced_cons (by decide) rest

/-- A text that is read as an expression can be assigned. -/
theorem exists_compile_assign {text : String} {P : Expr → Prop}
    (h : ReadsAs text.toList fun us => ∃ e, P e ∧ Derives (.expression e) us) :
    ∃ e span, compile ("x = " ++ text ++ ";") = .ok ⟨[.assign "x" e span]⟩ ∧ P e := by
  have hname : (Token.ident "x").Written := ⟨⟨'x', [], rfl, by decide, by simp⟩, by decide⟩
  have hassign : (Token.symbol .assign).Written := trivial
  have hsemicolon : (Token.symbol .semicolon).Written := trivial
  have hreads := hname.readsAs.append_space
    (hassign.readsAs.append_space (h.append hsemicolon.readsAs fun rest _ => fenced_semicolon rest))
  have htext : ("x = " ++ text ++ ";").toList = (Token.ident "x").text.toList ++
      ' ' :: ((Token.symbol .assign).text.toList ++
        ' ' :: (text.toList ++ (Token.symbol .semicolon).text.toList)) := by
    simp [Token.text, Symbol.spelling]
  rw [← htext] at hreads
  obtain ⟨_, htokens, _, _, ⟨a, rfl⟩, ⟨_, _, ⟨b, rfl⟩,
    ⟨us, _, ⟨e, he, hderives⟩, ⟨c, rfl⟩, rfl⟩, rfl⟩, rfl⟩ := hreads.exists_tokenize
  exact ⟨e, _, compile_eq_ok_iff.2 ⟨_, htokens, (Derives.assign hderives).singleton_program⟩, he⟩

theorem compile_assign_of_readsAs {text : String} {e : Expr}
    (h : ReadsAs text.toList (Node.expression e).SpelledBy) : ∃ e' span,
      compile ("x = " ++ text ++ ";") = .ok ⟨[.assign "x" e' span]⟩ ∧
        e'.eraseSpans = e.eraseSpans := by
  refine exists_compile_assign (h.mono ?_)
  rintro us ⟨n, herased, hderives⟩
  obtain ⟨e', rfl, he'⟩ := Node.exists_expression_of_eraseSpans herased
  exact ⟨e', he', hderives⟩

theorem compile_loop_of_readsAs {text : String} {r : Range}
    (h : ReadsAs text.toList (Node.range r).SpelledBy) : ∃ r' span,
      compile ("for v in " ++ text ++ " \x7b \x7d") = .ok ⟨[.loop "v" r' [] span]⟩ ∧
        r'.eraseSpans = r.eraseSpans := by
  have hname : (Token.ident "v").Written := ⟨⟨'v', [], rfl, by decide, by simp⟩, by decide⟩
  have hsymbol : ∀ s, (Token.symbol s).Written := fun _ => trivial
  have hreads := (hsymbol .loop).readsAs.append_space (hname.readsAs.append_space
    ((hsymbol .within).readsAs.append_space (h.append_space
      ((hsymbol .openBrace).readsAs.append_space (hsymbol .closeBrace).readsAs))))
  have htext : ("for v in " ++ text ++ " \x7b \x7d").toList = (Token.symbol .loop).text.toList ++
      ' ' :: ((Token.ident "v").text.toList ++ ' ' :: ((Token.symbol .within).text.toList ++
        ' ' :: (text.toList ++ ' ' :: ((Token.symbol .openBrace).text.toList ++
          ' ' :: (Token.symbol .closeBrace).text.toList)))) := by
    simp [Token.text, Symbol.spelling]
  rw [← htext] at hreads
  obtain ⟨_, htokens, _, _, ⟨a, rfl⟩, ⟨_, _, ⟨b, rfl⟩, ⟨_, _, ⟨c, rfl⟩,
    ⟨us, _, ⟨n, herased, hderives⟩, ⟨_, _, ⟨d, rfl⟩, ⟨e, rfl⟩, rfl⟩, rfl⟩, rfl⟩, rfl⟩, rfl⟩ :=
      hreads.exists_tokenize
  obtain ⟨r', rfl, hr'⟩ := Node.exists_range_of_eraseSpans herased
  have hloop := @Derives.loop "v" _ _ _ _ a b c hderives (.block (a := d) (b := e) .noStatement)
  refine ⟨r', _, compile_eq_ok_iff.2 ⟨_, ?_, hloop.singleton_program⟩, hr'⟩
  rw [htokens]
  simp

/-- What the text of a node compiles to: a statement by itself, and an expression
or the bounds of a loop where they can stand. -/
def Node.Recompiles (source text : String) : Node → Prop
  | statement s => ∃ s', compile text = .ok ⟨[s']⟩ ∧
    s = s'.mapSpans (.shift s.span.start (lineFeedsBefore source s.span.start))
  | expression e => ∃ e' span,
    compile ("x = " ++ text ++ ";") = .ok ⟨[.assign "x" e' span]⟩ ∧ e'.eraseSpans = e.eraseSpans
  | range r => ∃ r' span,
    compile ("for v in " ++ text ++ " \x7b \x7d") = .ok ⟨[.loop "v" r' [] span]⟩ ∧
      r'.eraseSpans = r.eraseSpans

/-- The stretch of every node of a compiled program is cut out of the source at
characters, and compiles to the node again. -/
theorem recompiles_of_slice {source : String} {p : Program} (h : compile source = .ok p) {n : Node}
    (hn : n ∈ p.nodes) : ∃ text, n.span.slice? source = some text ∧ n.Recompiles source text := by
  obtain ⟨text, us, hslice, htokens, hspells, hback, hreads⟩ := exists_slice_of_node h hn
  refine ⟨text, hslice, ?_⟩
  cases n with
  | statement s =>
    refine ⟨_, compile_eq_ok_iff.2 ⟨us, htokens, hback.singleton_program⟩, ?_⟩
    -- Both trees are spelled by the tokens of the source, and the grammar has one.
    have hforth := hback.mapSpans (f := .shift s.span.start
      (lineFeedsBefore source s.span.start)) fun _ _ => rfl
    have hunique := Derives.program_unique hspells.singleton_program hforth.singleton_program
    exact (List.cons.inj (Program.mk.inj hunique)).1
  | expression e => exact compile_assign_of_readsAs hreads
  | range r => exact compile_loop_of_readsAs hreads

/-- A sum in parentheses, on the second line: its stretch does not have them. -/
theorem recompiles_in_parentheses :
    let source := "// two\nprint (1 + 2) - x;"
    let sum := Expr.binary .sum .add (.number 1 ⟨14, 15, 2⟩) (.number 2 ⟨18, 19, 2⟩) ⟨14, 19, 2⟩
    ∃ text, sum.span.slice? source = some text ∧ (Node.expression sum).Recompiles source text := by
  intro source sum
  have hcompile : compile source = .ok ⟨[.print
      (.binary .sum .sub sum (.ident "x" ⟨23, 24, 2⟩) ⟨13, 24, 2⟩) ⟨7, 25, 2⟩]⟩ := by cbv
  exact recompiles_of_slice hcompile (n := .expression sum) (.tail _ (.tail _ (.head _)))

end Scriptlet
