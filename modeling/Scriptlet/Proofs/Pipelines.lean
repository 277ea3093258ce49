-- Two ways to run a source. Its printed tree, read back, runs as the source does, as
-- long as no more than 127 containers nest in it. Sources nest without a limit, so
-- there are some with a tree that can be printed and not read back.
import Scriptlet.Command
import Scriptlet.Proofs.Rendering
import Scriptlet.Proofs.Slices
import Scriptlet.Proofs.TreeForms

namespace Scriptlet

open Grammar (Tokens Derives)

/-! ## The printed tree of a source -/

theorem lineFeedsBefore_le (source : String) (offset : Nat) :
    lineFeedsBefore source offset ≤ offset := by
  unfold lineFeedsBefore
  exact Nat.le_trans List.count_le_length (List.length_take_le ..)

/-- All stretches of a program have 64 bits if the length of its source does. -/
theorem fits_of_compile {source : String} {p : Program} (h : compile source = .ok p)
    (hsize : source.utf8ByteSize < UInt64.size) : p.Fits := by
  intro n hn
  obtain ⟨hlt, hle, hline⟩ := place_of_node h hn
  have hfeeds := lineFeedsBefore_le source n.span.start
  exact ⟨by omega, by omega, by omega⟩

/-- Printing a source succeeds. The printed tree is read back and runs as the source
does, from any world, up to 127 nested containers; beyond that it is refused. -/
theorem run_printed_tree {source : String} {p : Program} (h : compile source = .ok p)
    (hsize : source.utf8ByteSize < UInt64.size) (file : String) :
    let printed := p.toJson.pretty ++ "\n"
    Command.onText .parse file source = .success printed.toUTF8 ∧
      (p.toJson.depth ≤ 127 → readTree printed = .ok p ∧
        ∀ {σ : Type} [Output σ] (w : WorldOf σ),
          runCompiled (readTree printed) w = runSource source w) ∧
      (127 < p.toJson.depth → ∃ e, readTree printed = .error e) := by
  intro printed
  have hread := readTree_of_parse? (fits_of_compile h hsize)
    (Json.parse?_pretty_lineFeed p.plain_toJson)
  refine ⟨?_, ?_, hread.2⟩
  · unfold Command.onText
    simp only [h, printed]
  · intro hdepth
    refine ⟨hread.1 hdepth, ?_⟩
    intro σ _ w
    rw [hread.1 hdepth, runSource, h]

/-- A sum, of which both ways print and give three. -/
theorem run_printed_tree_sum :
    let source := "print 1 + 2;"
    let p : Program := ⟨[.print (.binary .sum .add (.number 1 ⟨6, 7, 1⟩) (.number 2 ⟨10, 11, 1⟩)
      ⟨6, 11, 1⟩) ⟨0, 12, 1⟩]⟩
    let printed := p.toJson.pretty ++ "\n"
    compile source = .ok p ∧ readTree printed = .ok p ∧
      ∀ w : World, runCompiled (readTree printed) w = runSource source w := by
  intro source p printed
  have hcompile : compile source = .ok p := by cbv
  have hdepth : p.toJson.depth ≤ 127 := by cbv
  obtain ⟨-, hrun, -⟩ := run_printed_tree hcompile (by decide) "sum.cn"
  exact ⟨hcompile, (hrun hdepth).1, (hrun hdepth).2⟩

/-! ## Sources that nest deeply -/

mutual

theorem Expr.depth_toJson_mapSpans (f : Span → Span) :
    (e : Expr) → (e.mapSpans f).toJson.depth = e.toJson.depth
  | .number .. | .str .. | .ident .. => by simp [mapSpans, toJson, Json.depth_node_variant]
  | .list items s => by
    simp [mapSpans, toJson, Json.depth_node_variant, Expr.itemsDepth_mapAllSpans f items]
  | .index name position s => by
    simp [mapSpans, toJson, Json.depth_node_variant, Expr.depth_toJson_mapSpans f position]
  | .binary family op lhs rhs s => by
    simp [mapSpans, toJson, Json.depth_node_variant, Json.deepest,
      Expr.depth_toJson_mapSpans f lhs, Expr.depth_toJson_mapSpans f rhs]

theorem Expr.itemsDepth_mapAllSpans (f : Span → Span) : (es : List Expr) →
    Json.itemsDepth (Expr.allToJson (Expr.mapAllSpans f es)) = Json.itemsDepth (Expr.allToJson es)
  | [] => rfl
  | e :: es => by
    simp [mapAllSpans, allToJson, Json.itemsDepth, Expr.depth_toJson_mapSpans f e,
      Expr.itemsDepth_mapAllSpans f es]

end

/-- A one with `n` more ones added, each in turn. -/
def Expr.ones : Nat → Expr
  | 0 => .number 1 default
  | n + 1 => .binary .sum .add (ones n) (.number 1 default) default

theorem Expr.depth_ones (n : Nat) : (ones n).toJson.depth = 3 * n + 2 := by
  induction n with
  | zero => simp [ones, toJson, Json.depth_node_variant]
  | succ n ih =>
    simp [ones, toJson, Json.depth_node_variant, Json.deepest, ih]
    omega

/-- A text that adds ones. -/
def onesText : Nat → String
  | 0 => "1"
  | n + 1 => onesText n ++ " + 1"

theorem utf8ByteSize_onesText (n : Nat) : (onesText n).utf8ByteSize = 4 * n + 1 := by
  induction n with
  | zero => rfl
  | succ n ih =>
    have hmore : " + 1".utf8ByteSize = 4 := rfl
    rw [onesText, String.utf8ByteSize_append, ih, hmore]
    omega

theorem readsAs_onesText (n : Nat) : ReadsAs (onesText n).toList ((Expr.ones n).SpelledAt 2) := by
  have hone : (Token.int 1).Written := Int.zero_le_ofNat 1
  have htext : (Token.int 1).text.toList = ['1'] := by decide
  have hplus : (Token.symbol .plus).Written := trivial
  induction n with
  | zero =>
    refine hone.readsAs.mono ?_
    rintro _ ⟨a, rfl⟩
    exact ⟨_, Derives.number.loosen (Nat.zero_le 2), rfl⟩
  | succ n ih =>
    have hmore : (onesText (n + 1)).toList = (onesText n).toList ++
        ' ' :: ((Token.symbol .plus).text.toList ++ ' ' :: (Token.int 1).text.toList) := by
      rw [htext]
      simp [onesText, Token.text, Symbol.spelling]
    rw [hmore]
    refine (ih.append_space (hplus.readsAs.append_space hone.readsAs)).mono ?_
    rintro _ ⟨us, _, ⟨e, he, herase⟩, ⟨_, _, ⟨b, rfl⟩, ⟨c, rfl⟩, rfl⟩, rfl⟩
    have hright : Derives (.extremum (.number 1 c)) [(.int 1, c)] := .ofTerm .number
    exact ⟨_, .sum .add he hright,
      congrArg (Expr.binary .sum .add · (.number 1 default) default) herase⟩

/-- There is no limit on how deep the tree of a source nests. -/
theorem exists_compile_onesText (n : Nat) :
    ∃ p, compile ("x = " ++ onesText n ++ ";") = .ok p ∧ p.toJson.depth = 3 * n + 7 := by
  have hreads := (readsAs_onesText n).mono fun us ⟨e, he, herase⟩ =>
    (⟨.expression e, congrArg Node.expression herase, he.expression_of_level⟩ :
      (Node.expression (Expr.ones n)).SpelledBy us)
  obtain ⟨e, span, hcompile, herase⟩ := compile_assign_of_readsAs hreads
  have hdepth : e.toJson.depth = (Expr.ones n).toJson.depth := by
    rw [← e.depth_toJson_mapSpans fun _ => default, ← (Expr.ones n).depth_toJson_mapSpans
      fun _ => default]
    exact congrArg (fun e => e.toJson.depth) herase
  refine ⟨_, hcompile, ?_⟩
  rw [Expr.depth_ones] at hdepth
  simp [Program.toJson, Stmt.allToJson, Json.itemsDepth, Stmt.toJson,
    Json.depth_node_variant, Json.deepest, hdepth]

/-- The tree of 41 additions is printed and not read back. -/
theorem printed_tree_refused :
    ∃ p, compile ("x = " ++ onesText 41 ++ ";") = .ok p ∧
      ∃ e, readTree (p.toJson.pretty ++ "\n") = .error e := by
  obtain ⟨p, hcompile, hdepth⟩ := exists_compile_onesText 41
  have hsize : ("x = " ++ onesText 41 ++ ";").utf8ByteSize < UInt64.size := by
    rw [String.utf8ByteSize_append, String.utf8ByteSize_append, utf8ByteSize_onesText]
    decide
  have hread := readTree_of_parse? (fits_of_compile hcompile hsize)
    (Json.parse?_pretty_lineFeed p.plain_toJson)
  exact ⟨p, hcompile, hread.2 (by omega)⟩

end Scriptlet
