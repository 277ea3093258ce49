-- The texts of a tree. Both printed forms of a program are read back as the program
-- as long as no more than 127 containers nest in them, and are refused beyond that.
-- How a form is presented makes no difference: a text is read as a program if it writes
-- any form of the program in which no more of them nest, and no other text is.
import Scriptlet.Compile
import Scriptlet.Proofs.Decoding
import Scriptlet.Proofs.Decoding.Bounds
import Scriptlet.Proofs.Json.Parsing

namespace Scriptlet

/-! ## The JSON form of a tree can be read -/

namespace Json

@[simp] theorem plain_ofString (s : String) : (ofString s).Plain := trivial

@[simp] theorem plain_int (n : Int) : (int n).Plain := trivial

@[simp] theorem plain_null : null.Plain := trivial

@[simp] theorem plain_arr (items : List Json) : (arr items).Plain ↔ AllPlain items := Iff.rfl

@[simp] theorem plain_ofFields (fields : List (String × Json)) :
    (ofFields fields).Plain ↔ ∀ f ∈ fields, f.2.Plain := by
  induction fields with
  | nil => simp [ofFields, Plain, FieldsPlain]
  | cons f fields ih =>
    rw [List.forall_mem_cons, ← ih]
    exact Iff.of_eq (true_and _)

@[simp] theorem plain_variant (name : String) (content : Json) :
    (variant name content).Plain ↔ content.Plain := by
  simp [variant]

@[simp] theorem plain_node (content : Json) (span : Span) :
    (node content span).Plain ↔ content.Plain := by
  simp [node, Span.toJson, ofNat]

end Json

mutual

theorem Expr.plain_toJson : (e : Expr) → e.toJson.Plain
  | .number k s | .str raw s | .ident name s => by simp [toJson]
  | .list items s => by simp [toJson, Expr.allPlain_toJson items]
  | .index name position s => by simp [toJson, Json.index, Expr.plain_toJson position]
  | .binary family op lhs rhs s => by
    simp [toJson, Expr.plain_toJson lhs, Expr.plain_toJson rhs]

theorem Expr.allPlain_toJson : (es : List Expr) → Json.AllPlain (Expr.allToJson es)
  | [] => trivial
  | e :: es => ⟨Expr.plain_toJson e, Expr.allPlain_toJson es⟩

end

theorem Range.plain_toJson (r : Range) : r.toJson.Plain := by
  simp [toJson, Expr.plain_toJson]

mutual

theorem Stmt.plain_toJson : (s : Stmt) → s.toJson.Plain
  | .assign name e s | .print e s | .printLine e s => by simp [toJson, Expr.plain_toJson]
  | .indexAssign name position e s => by simp [toJson, Json.index, Expr.plain_toJson]
  | .loop var range body s => by
    simp [toJson, Range.plain_toJson, Stmt.allPlain_toJson body]
  | .branch cond thenBody none s => by
    simp [toJson, Expr.plain_toJson, Stmt.allPlain_toJson thenBody]
  | .branch cond thenBody (some elseBody) s => by
    simp [toJson, Expr.plain_toJson, Stmt.allPlain_toJson thenBody,
      Stmt.allPlain_toJson elseBody]

theorem Stmt.allPlain_toJson : (ss : List Stmt) → Json.AllPlain (Stmt.allToJson ss)
  | [] => trivial
  | s :: ss => ⟨Stmt.plain_toJson s, Stmt.allPlain_toJson ss⟩

end

theorem Program.plain_toJson (p : Program) : p.toJson.Plain := by
  simp [toJson, Stmt.allPlain_toJson]

/-! ## Reading a tree from its text -/

theorem readTree_eq_ok_iff {source : String} {p : Program} :
    readTree source = .ok p ↔ Program.ofJson? source = some p := by
  unfold readTree
  cases Program.ofJson? source with
  | none => simp
  | some q => simp

/-- A text is read as a program if it writes one of the forms of the program. -/
theorem ofJson?_eq_some_iff {source : String} {p : Program} :
    Program.ofJson? source = some p ↔
      ∃ j, p.forms 127 j ∧ Json.parse? source = some j := by
  simp only [Program.ofJson?, Option.bind_eq_some_iff, Decode.depthLimit,
    Decode.program?_eq_some_iff, and_comm]

/-- A text of the printed form of a program. -/
theorem readTree_of_parse? {source : String} {p : Program} (hfits : p.Fits)
    (h : Json.parse? source = some p.toJson) :
    (p.toJson.depth ≤ 127 → readTree source = .ok p) ∧
      (127 < p.toJson.depth → ∃ e, readTree source = .error e) := by
  constructor
  · intro hdepth
    rw [readTree_eq_ok_iff, ofJson?_eq_some_iff]
    exact ⟨_, p.least_forms.mem hfits hdepth, h⟩
  · intro hdepth
    cases hread : readTree source with
    | error e => exact ⟨e, rfl⟩
    | ok q =>
      rw [readTree_eq_ok_iff, ofJson?_eq_some_iff] at hread
      obtain ⟨_, hforms, hparse⟩ := hread
      cases h.symm.trans hparse
      -- Where the form may nest as deep as it does it is read as both programs.
      have hq := Decode.program?_eq_some_iff.2 (q.least_forms.mono hdepth.le hforms)
      have hp := Decode.program?_eq_some_iff.2 (p.least_forms.mem hfits (Nat.le_refl _))
      cases hp.symm.trans hq
      exact absurd (p.least_forms.le hforms).2 (Nat.not_le.2 hdepth)

theorem bounded_of_readTree {source : String} {p : Program} (h : readTree source = .ok p) :
    p.Fits ∧ p.toJson.depth ≤ 127 := by
  rw [readTree_eq_ok_iff, ofJson?_eq_some_iff] at h
  obtain ⟨j, hforms, -⟩ := h
  exact p.least_forms.le hforms

/-- Both forms of a program are read back as the program up to 127 nested containers and
refused beyond. What was read from any text is within that. -/
theorem readTree_printed :
    (∀ p : Program, p.Fits →
      (p.toJson.depth ≤ 127 →
        readTree p.toJson.compact = .ok p ∧ readTree p.toJson.pretty = .ok p) ∧
      (127 < p.toJson.depth →
        (∃ e, readTree p.toJson.compact = .error e) ∧
          ∃ e, readTree p.toJson.pretty = .error e)) ∧
    ∀ source p, readTree source = .ok p →
      readTree p.toJson.compact = .ok p ∧ readTree p.toJson.pretty = .ok p := by
  have hforms : ∀ p : Program, Json.parse? p.toJson.compact = some p.toJson ∧
      Json.parse? p.toJson.pretty = some p.toJson := fun p =>
    ⟨Json.parse?_compact p.plain_toJson, Json.parse?_pretty p.plain_toJson⟩
  constructor
  · intro p hfits
    have hcompact := readTree_of_parse? hfits (hforms p).1
    have hpretty := readTree_of_parse? hfits (hforms p).2
    exact ⟨fun h => ⟨hcompact.1 h, hpretty.1 h⟩, fun h => ⟨hcompact.2 h, hpretty.2 h⟩⟩
  · intro source p h
    obtain ⟨hfits, hdepth⟩ := bounded_of_readTree h
    exact ⟨(readTree_of_parse? hfits (hforms p).1).1 hdepth,
      (readTree_of_parse? hfits (hforms p).2).1 hdepth⟩

/-- A program with a negative number, which no source has, and one that was read from
an array of its only field. -/
theorem readTree_printed_negative :
    let p : Program := ⟨[.print (.number (-5) ⟨6, 8, 1⟩) ⟨0, 9, 1⟩]⟩
    p.Fits ∧ p.toJson.depth ≤ 127 ∧ readTree p.toJson.pretty = .ok p ∧
      readTree "[[]]" = .ok ⟨[]⟩ ∧ readTree (Program.mk []).toJson.compact = .ok ⟨[]⟩ := by
  intro p
  have hfits : p.Fits := by
    intro n hn
    rcases List.mem_cons.1 hn with rfl | hn
    · exact ⟨by decide, by decide, by decide⟩
    · rw [List.mem_singleton.1 hn]
      exact ⟨by decide, by decide, by decide⟩
  have hdepth : p.toJson.depth ≤ 127 := by cbv
  have harray : readTree "[[]]" = .ok ⟨[]⟩ := by cbv
  exact ⟨hfits, hdepth, ((readTree_printed.1 p hfits).1 hdepth).2, harray,
    (readTree_printed.2 _ _ harray).1⟩

/-! ## All texts of a tree -/

/-- A text is read as a program if and only if it writes a form of it in which no more
than 127 containers nest outside of ignored fields. The form may give the fields of its
records in any order, with others between them or as an array, leave out the field for an
`else` that is not there, and name an operator by a string or by a field of null; the text
may put blanks between tokens and escape the characters of a string. The printed form is
one of the forms, wherever it may nest as deep as it does. -/
theorem readTree_eq_ok_iff_forms (source : String) (p : Program) :
    (readTree source = .ok p ↔
      ∃ j, p.forms 127 j ∧ Json.Written j.tokens source.toList) ∧
    ∀ n, p.forms n p.toJson ↔ p.Fits ∧ p.toJson.depth ≤ n := by
  constructor
  · simp only [readTree_eq_ok_iff, ofJson?_eq_some_iff, Json.parse?_eq_some_iff]
  · exact fun n => ⟨p.least_forms.le, fun h => p.least_forms.mem h.1 h.2⟩

example : readTree "\x7b\"seen\": [[1.5]], \"stmt\\u0073\" : []\x7d" = .ok ⟨[]⟩ := by cbv

end Scriptlet
