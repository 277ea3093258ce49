-- Reading a document back. The tokens of a document take the parser from where it waits
-- for a value to where it has that value, and no other tokens take it there: what it has
-- and still waits for tells the tokens that it took. So a document is read from exactly the
-- texts that write its tokens, and both printed forms are among them.
import Scriptlet.Json.Parser
import Scriptlet.Proofs.Json.Lexing

namespace Scriptlet.Json

/-! ## The tokens of a document -/

/-- A document does not start with the end of an array. -/
theorem exists_tokensTo (j : Json) (ts : List Token) :
    ∃ t us, j.tokensTo ts = t :: us ∧ t ≠ .closeArr := by
  rcases j with _ | _ | _ | _ | _ | ⟨_ | _⟩ | ⟨_ | _⟩ <;>
    exact ⟨_, _, by rw [tokensTo], by simp⟩

namespace Parser

/-- Where the first item of an array may come, it is read as in an array without one. -/
theorem run_firstItem (frames : List Frame) (j : Json) (ts : List Token) :
    run ⟨frames, .firstItem⟩ (j.tokensTo ts) =
      run ⟨.items [] :: frames, .value⟩ (j.tokensTo ts) := by
  obtain ⟨t, us, htokens, ht⟩ := exists_tokensTo j ts
  have hstep : step ⟨frames, .firstItem⟩ t = step ⟨.items [] :: frames, .value⟩ t := by
    cases t with
    | closeArr => exact absurd rfl ht
    | _ => rfl
  rw [htokens, run, run, hstep]

mutual

theorem run_tokensTo (frames : List Frame) : (j : Json) → (ts : List Token) →
    run ⟨frames, .value⟩ (j.tokensTo ts) = run ⟨frames, .next j⟩ ts
  | .null, ts | .bool _, ts | .int _, ts | .real _, ts | .str _, ts => by rw [tokensTo]; rfl
  | .arr [], ts | .obj [], ts => by rw [tokensTo]; rfl
  | .arr (v :: vs), ts => by
    rw [tokensTo]
    calc run ⟨frames, .firstItem⟩ (v.tokensTo (itemsTo vs (.closeArr :: ts)))
      _ = run ⟨.items [] :: frames, .value⟩ (v.tokensTo (itemsTo vs (.closeArr :: ts))) :=
        run_firstItem ..
      _ = run ⟨.items [] :: frames, .next v⟩ (itemsTo vs (.closeArr :: ts)) := run_tokensTo ..
      _ = run ⟨frames, .next (.arr (v :: vs))⟩ ts := run_itemsTo ..
  | .obj ((k, v) :: fs), ts => by
    rw [tokensTo]
    calc run ⟨.field [] k :: frames, .value⟩ (v.tokensTo (fieldsTo fs (.closeObj :: ts)))
      _ = run ⟨.field [] k :: frames, .next v⟩ (fieldsTo fs (.closeObj :: ts)) := run_tokensTo ..
      _ = run ⟨frames, .next (.obj ((k, v) :: fs))⟩ ts := run_fieldsTo ..

theorem run_itemsTo (frames : List Frame) (done : List Json) (v : Json) : (vs : List Json) →
    (ts : List Token) → run ⟨.items done :: frames, .next v⟩ (itemsTo vs (.closeArr :: ts)) =
      run ⟨frames, .next (.arr (done.reverse ++ v :: vs))⟩ ts
  | [], ts => by
    rw [itemsTo]
    calc run ⟨frames, .next (.arr (v :: done).reverse)⟩ ts
      _ = run ⟨frames, .next (.arr (done.reverse ++ [v]))⟩ ts := by rw [List.reverse_cons]
  | w :: ws, ts => by
    rw [itemsTo]
    calc run ⟨.items (v :: done) :: frames, .value⟩ (w.tokensTo (itemsTo ws (.closeArr :: ts)))
      _ = run ⟨.items (v :: done) :: frames, .next w⟩ (itemsTo ws (.closeArr :: ts)) :=
        run_tokensTo ..
      _ = run ⟨frames, .next (.arr ((v :: done).reverse ++ w :: ws))⟩ ts := run_itemsTo ..
      _ = run ⟨frames, .next (.arr (done.reverse ++ v :: w :: ws))⟩ ts := by
        rw [List.reverse_cons, List.append_assoc, List.singleton_append]

theorem run_fieldsTo (frames : List Frame) (done : List (Text × Json)) (k : Text) (v : Json) :
    (fs : List (Text × Json)) → (ts : List Token) →
    run ⟨.field done k :: frames, .next v⟩ (fieldsTo fs (.closeObj :: ts)) =
      run ⟨frames, .next (.obj (done.reverse ++ (k, v) :: fs))⟩ ts
  | [], ts => by
    rw [fieldsTo]
    calc run ⟨frames, .next (.obj ((k, v) :: done).reverse)⟩ ts
      _ = run ⟨frames, .next (.obj (done.reverse ++ [(k, v)]))⟩ ts := by rw [List.reverse_cons]
  | (l, w) :: fs, ts => by
    rw [fieldsTo]
    calc run ⟨.field ((k, v) :: done) l :: frames, .value⟩
          (w.tokensTo (fieldsTo fs (.closeObj :: ts)))
      _ = run ⟨.field ((k, v) :: done) l :: frames, .next w⟩ (fieldsTo fs (.closeObj :: ts)) :=
        run_tokensTo ..
      _ = run ⟨frames, .next (.obj (((k, v) :: done).reverse ++ (l, w) :: fs))⟩ ts :=
        run_fieldsTo ..
      _ = run ⟨frames, .next (.obj (done.reverse ++ (k, v) :: (l, w) :: fs))⟩ ts := by
        rw [List.reverse_cons, List.append_assoc, List.singleton_append]

end

end Parser

/-! ## The tokens that the parser took -/

/-- The tokens of items that are done, the last one first, each with the comma after it. -/
def heldItemsTo : List Json → List Token → List Token
  | [], ts => ts
  | v :: done, ts => heldItemsTo done (v.tokensTo (.comma :: ts))

/-- The tokens of fields that are done, the last one first, each with the comma after it. -/
def heldFieldsTo : List (Text × Json) → List Token → List Token
  | [], ts => ts
  | (k, v) :: done, ts => heldFieldsTo done (.str k :: .colon :: v.tokensTo (.comma :: ts))

theorem tokensTo_arr_reverse (done : List Json) (v : Json) (vs : List Json) (ts : List Token) :
    (arr (done.reverse ++ v :: vs)).tokensTo ts =
      .openArr :: heldItemsTo done (v.tokensTo (itemsTo vs (.closeArr :: ts))) := by
  induction done generalizing v vs with
  | nil => rw [List.reverse_nil, List.nil_append, tokensTo, heldItemsTo]
  | cons u done ih =>
    rw [List.reverse_cons, List.append_assoc, List.singleton_append, ih, itemsTo, heldItemsTo]

theorem tokensTo_obj_reverse (done : List (Text × Json)) (k : Text) (v : Json)
    (fs : List (Text × Json)) (ts : List Token) :
    (obj (done.reverse ++ (k, v) :: fs)).tokensTo ts = .openObj :: heldFieldsTo done
      (.str k :: .colon :: v.tokensTo (fieldsTo fs (.closeObj :: ts))) := by
  induction done generalizing k v fs with
  | nil => rw [List.reverse_nil, List.nil_append, tokensTo, heldFieldsTo]
  | cons f done ih =>
    rw [List.reverse_cons, List.append_assoc, List.singleton_append, ih, fieldsTo, heldFieldsTo]

namespace Parser

/-- The tokens of open containers, the innermost first, in front of further tokens. -/
def framesTo : List Frame → List Token → List Token
  | [], ts => ts
  | .items done :: frames, ts => framesTo frames (.openArr :: heldItemsTo done ts)
  | .field done k :: frames, ts =>
    framesTo frames (.openObj :: heldFieldsTo done (.str k :: .colon :: ts))

/-- The tokens that a parser has taken, in front of further tokens. -/
def takenTo (p : Parser) (ts : List Token) : List Token :=
  match p.await with
  | .value => framesTo p.frames ts
  | .firstItem => framesTo p.frames (.openArr :: ts)
  | .firstKey => framesTo p.frames (.openObj :: ts)
  | .key done => framesTo p.frames (.openObj :: heldFieldsTo done ts)
  | .colon done k => framesTo p.frames (.openObj :: heldFieldsTo done (.str k :: ts))
  | .next v => framesTo p.frames (v.tokensTo ts)

theorem takenTo_beginValue {frames : List Frame} {t : Token} {p : Parser}
    (h : beginValue frames t = some p) (ts : List Token) :
    p.takenTo ts = framesTo frames (t :: ts) := by
  unfold beginValue at h
  split at h
  · cases h
    rfl
  · cases h
    rfl
  · obtain ⟨v, hv, rfl⟩ := Option.map_eq_some_iff.1 h
    unfold scalar? at hv
    split at hv
    iterate 5
      · cases hv
        simp only [takenTo, tokensTo]
    · cases hv

theorem takenTo_afterValue {frames : List Frame} {v : Json} {t : Token} {p : Parser}
    (h : afterValue frames v t = some p) (ts : List Token) :
    p.takenTo ts = framesTo frames (v.tokensTo (t :: ts)) := by
  unfold afterValue at h
  split at h
  · cases h
    rfl
  · cases h
    simp only [takenTo, List.reverse_cons, tokensTo_arr_reverse, itemsTo, framesTo]
  · cases h
    rfl
  · cases h
    simp only [takenTo, List.reverse_cons, tokensTo_obj_reverse, fieldsTo, framesTo]
  · cases h

/-- A step takes one token. -/
theorem takenTo_step {p q : Parser} {t : Token} (h : p.step t = some q) (ts : List Token) :
    q.takenTo ts = p.takenTo (t :: ts) := by
  unfold step at h
  split at h
  · next hawait => rw [takenTo_beginValue h, takenTo, hawait]
  · next hawait =>
    cases h
    simp only [takenTo, hawait, tokensTo]
  · next hawait _ => rw [takenTo_beginValue h, takenTo, hawait, framesTo, heldItemsTo]
  · next hawait =>
    cases h
    simp only [takenTo, hawait, tokensTo]
  · next hawait =>
    cases h
    simp only [takenTo, hawait, heldFieldsTo]
  · next hawait =>
    cases h
    simp only [takenTo, hawait]
  · next hawait =>
    cases h
    simp only [takenTo, hawait, framesTo]
  · next hawait => rw [takenTo_afterValue h, takenTo, hawait]
  · cases h

/-- A parser that gives a document took the tokens of the document. -/
theorem takenTo_run {p : Parser} {ts : List Token} {j : Json} (h : p.run ts = some j) :
    p.takenTo ts = j.tokens := by
  induction ts generalizing p with
  | nil =>
    rw [run, done?] at h
    split at h
    · next hframes hawait =>
      cases h
      simp only [takenTo, hawait, hframes, framesTo, tokens]
    · cases h
  | cons t ts ih =>
    rw [run] at h
    split at h
    · next q hstep => rw [← takenTo_step hstep, ih h]
    · cases h

end Parser

theorem ofTokens?_eq_some_iff {ts : List Token} {j : Json} :
    ofTokens? ts = some j ↔ ts = j.tokens := by
  constructor
  · exact Parser.takenTo_run
  · rintro rfl
    exact Parser.run_tokensTo [] j []

/-! ## The texts of a document -/

theorem separated_cons {t : Token} {ts : List Token} (ht : ¬t.IsNumber) (hts : Separated ts) :
    Separated (t :: ts) :=
  ⟨fun h => absurd h ht, hts⟩

/-- Tokens that can come after a document. -/
def Closing (ts : List Token) : Prop := Separated ts ∧ ∀ t ∈ ts.head?, t.Ends

theorem closing_cons {t : Token} {ts : List Token} (ht : t.Ends) (hts : Separated ts) :
    Closing (t :: ts) := by
  refine ⟨separated_cons ?_ hts, by simpa using ht⟩
  cases t <;> first | exact id | exact ht.elim

mutual

theorem separated_tokensTo : (j : Json) → {ts : List Token} → Closing ts →
    Separated (j.tokensTo ts)
  | .int _, ts, h | .real _, ts, h => by
    rw [tokensTo]
    exact ⟨fun _ => h.2, h.1⟩
  | .null, ts, h | .bool _, ts, h | .str _, ts, h => by
    rw [tokensTo]
    exact separated_cons id h.1
  | .arr [], ts, h | .obj [], ts, h => by
    rw [tokensTo]
    exact separated_cons id (separated_cons id h.1)
  | .arr (v :: vs), ts, h => by
    rw [tokensTo]
    exact separated_cons id (separated_tokensTo v (closing_itemsTo vs (closing_cons trivial h.1)))
  | .obj ((k, v) :: fs), ts, h => by
    rw [tokensTo]
    exact separated_cons id (separated_cons id (separated_cons id
      (separated_tokensTo v (closing_fieldsTo fs (closing_cons trivial h.1)))))

theorem closing_itemsTo : (vs : List Json) → {ts : List Token} → Closing ts →
    Closing (itemsTo vs ts)
  | [], ts, h => by rwa [itemsTo]
  | v :: vs, ts, h => by
    rw [itemsTo]
    exact closing_cons trivial (separated_tokensTo v (closing_itemsTo vs h))

theorem closing_fieldsTo : (fs : List (Text × Json)) → {ts : List Token} → Closing ts →
    Closing (fieldsTo fs ts)
  | [], ts, h => by rwa [fieldsTo]
  | (k, v) :: fs, ts, h => by
    rw [fieldsTo]
    exact closing_cons trivial (separated_cons id (separated_cons id
      (separated_tokensTo v (closing_fieldsTo fs h))))

end

theorem separated_tokens (j : Json) : Separated j.tokens :=
  separated_tokensTo j ⟨trivial, by simp⟩

/-- A document is read from exactly the texts that write its tokens. -/
theorem parse?_eq_some_iff {source : String} {j : Json} :
    parse? source = some j ↔ Written j.tokens source.toList := by
  unfold parse?
  constructor
  · intro h
    obtain ⟨ts, hts, hj⟩ := Option.bind_eq_some_iff.1 h
    rw [← ofTokens?_eq_some_iff.1 hj]
    exact written_of_lex hts
  · intro h
    rw [h.lex_eq (separated_tokens j), Option.bind_some]
    exact ofTokens?_eq_some_iff.2 rfl

/-! ## Documents that have texts of their own -/

def Text.IsWhole : Text → Prop
  | whole _ => True
  | broken _ => False

mutual

/-- Whether every string is a text and every number an integer. -/
def Plain : Json → Prop
  | real _ => False
  | str t => t.IsWhole
  | arr items => AllPlain items
  | obj fields => FieldsPlain fields
  | _ => True

def AllPlain : List Json → Prop
  | [] => True
  | v :: vs => v.Plain ∧ AllPlain vs

def FieldsPlain : List (Text × Json) → Prop
  | [] => True
  | (k, v) :: fs => k.IsWhole ∧ v.Plain ∧ FieldsPlain fs

end

theorem plain_str {t : Text} (h : t.IsWhole) : (Token.str t).Plain := by
  cases t with
  | whole s => trivial
  | broken literal => exact h

theorem plain_cons {t : Token} {ts : List Token} (ht : t.Plain) (hts : ∀ t ∈ ts, t.Plain) :
    ∀ u ∈ t :: ts, u.Plain :=
  List.forall_mem_cons.2 ⟨ht, hts⟩

mutual

theorem plain_tokensTo : (j : Json) → j.Plain → {ts : List Token} → (∀ t ∈ ts, t.Plain) →
    ∀ t ∈ j.tokensTo ts, t.Plain
  | .null, _, ts, h | .bool _, _, ts, h | .int _, _, ts, h => by
    rw [tokensTo]
    exact plain_cons trivial h
  | .real _, hj, ts, h => hj.elim
  | .str t, hj, ts, h => by
    rw [tokensTo]
    exact plain_cons (plain_str hj) h
  | .arr [], _, ts, h | .obj [], _, ts, h => by
    rw [tokensTo]
    exact plain_cons trivial (plain_cons trivial h)
  | .arr (v :: vs), hj, ts, h => by
    rw [tokensTo]
    exact plain_cons trivial
      (plain_tokensTo v hj.1 (plain_itemsTo vs hj.2 (plain_cons trivial h)))
  | .obj ((k, v) :: fs), hj, ts, h => by
    rw [tokensTo]
    exact plain_cons trivial (plain_cons (plain_str hj.1) (plain_cons trivial
      (plain_tokensTo v hj.2.1 (plain_fieldsTo fs hj.2.2 (plain_cons trivial h)))))

theorem plain_itemsTo : (vs : List Json) → AllPlain vs → {ts : List Token} →
    (∀ t ∈ ts, t.Plain) → ∀ t ∈ itemsTo vs ts, t.Plain
  | [], _, ts, h => by rwa [itemsTo]
  | v :: vs, hvs, ts, h => by
    rw [itemsTo]
    exact plain_cons trivial (plain_tokensTo v hvs.1 (plain_itemsTo vs hvs.2 h))

theorem plain_fieldsTo : (fs : List (Text × Json)) → FieldsPlain fs → {ts : List Token} →
    (∀ t ∈ ts, t.Plain) → ∀ t ∈ fieldsTo fs ts, t.Plain
  | [], _, ts, h => by rwa [fieldsTo]
  | (k, v) :: fs, hfs, ts, h => by
    rw [fieldsTo]
    exact plain_cons trivial (plain_cons (plain_str hfs.1) (plain_cons trivial
      (plain_tokensTo v hfs.2.1 (plain_fieldsTo fs hfs.2.2 h))))

end

theorem plain_tokens {j : Json} (h : j.Plain) : ∀ t ∈ j.tokens, t.Plain :=
  plain_tokensTo j h (by simp)

/-! ## Reading a printed document -/

theorem parse?_compact {j : Json} (h : j.Plain) : parse? j.compact = some j := by
  rw [parse?_eq_some_iff, compact, String.toList_ofList]
  exact written_compact (plain_tokens h)

theorem written_pretty {j : Json} (h : j.Plain) : Written j.tokens j.pretty.toList := by
  have hplain := plain_tokens h
  unfold pretty
  generalize j.tokens = ts at hplain ⊢
  cases ts with
  | nil => exact .nil
  | cons t ts =>
    obtain ⟨ht, hts⟩ := List.forall_mem_cons.1 hplain
    simp only [String.toList_ofList]
    exact .token ht.written (written_spaced hts)

theorem parse?_pretty {j : Json} (h : j.Plain) : parse? j.pretty = some j :=
  parse?_eq_some_iff.2 (written_pretty h)

/-- The indented form as a line of its own. -/
theorem parse?_pretty_lineFeed {j : Json} (h : j.Plain) : parse? (j.pretty ++ "\n") = some j := by
  rw [parse?_eq_some_iff, String.toList_append]
  exact (written_pretty h).concat_lineFeed

end Scriptlet.Json
