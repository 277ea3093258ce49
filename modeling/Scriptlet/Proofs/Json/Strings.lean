-- How a string of a document is written. Each character may stand for itself or be
-- written by any escape for it. The lexer cuts a string into parts, one for each escape,
-- and puts them together to its characters.
import Scriptlet.Json.Printer
import Scriptlet.Proofs.Json.Numbers

namespace Scriptlet.Json

/-! ## The texts of a string -/

/-- The number that four hexadecimal digits write. -/
def hexNumber? (a b c d : Char) : Option Nat := do
  let a ← hexValue? a
  let b ← hexValue? b
  let c ← hexValue? c
  let d ← hexValue? d
  return ((a * 16 + b) * 16 + c) * 16 + d

/-- A number of sixteen bits as an escape. -/
inductive Numbered (n : Nat) : List Char → Prop
  | mk {a b c d : Char} : hexNumber? a b c d = some n → Numbered n ['\\', 'u', a, b, c, d]

/-- A text of a part of a string. A half of a character has only its number. -/
inductive Piece.Written : Piece → List Char → Prop
  | plain {c : Char} : 0x20 ≤ c.toNat → c ≠ '"' → c ≠ '\\' → Written (.char c) [c]
  | short {c e : Char} : shortEscape? e = some c → Written (.char c) ['\\', e]
  | numbered {c : Char} {cs : List Char} : Numbered c.toNat cs → Written (.char c) cs
  | high {n : Nat} {cs : List Char} : n < 0x400 → Numbered (0xd800 + n) cs → Written (.high n) cs
  | low {n : Nat} {cs : List Char} : n < 0x400 → Numbered (0xdc00 + n) cs → Written (.low n) cs

/-- A text of the parts of a string, one after another. -/
inductive PiecesWritten : List Piece → List Char → Prop
  | nil : PiecesWritten [] []
  | cons {p ps cs inside} : p.Written cs → PiecesWritten ps inside →
    PiecesWritten (p :: ps) (cs ++ inside)

/-- A text of the characters of a string. A character beyond sixteen bits may be written by
the numbers of its two halves. -/
inductive CharsWritten : List Char → List Char → Prop
  | nil : CharsWritten [] []
  | char {c text cs inside} : (Piece.char c).Written cs → CharsWritten text inside →
    CharsWritten (c :: text) (cs ++ inside)
  | halves {c h l text high low inside} : (Piece.high h).Written high → (Piece.low l).Written low →
    c.toNat = 0x10000 + h * 0x400 + l → CharsWritten text inside →
    CharsWritten (c :: text) (high ++ (low ++ inside))

theorem toNat_charOfNat {n : Nat} (h : n.isValidChar) : (Char.ofNat n).toNat = n := by
  rw [Char.ofNat, dif_pos h]
  rfl

theorem numbered?_eq (a b c d : Char) :
    numbered? a b c d = (hexNumber? a b c d).map Piece.ofNat := by
  unfold numbered? hexNumber?
  simp only [Option.bind_eq_bind, Option.pure_def, Option.map_bind, Function.comp_def,
    Option.map_some]

theorem hexValue?_lt {c : Char} {n : Nat} (h : hexValue? c = some n) : n < 16 := by
  unfold hexValue? at h
  split at h
  · next hc =>
    cases h
    exact Nat.lt_trans (digitChar_sub hc).1 (by decide)
  split at h
  · next hc =>
    cases h
    have hhi : c.toNat ≤ 'f'.toNat := hc.2
    have : 'f'.toNat = 'a'.toNat + 5 := rfl
    omega
  split at h
  · next hc =>
    cases h
    have hhi : c.toNat ≤ 'F'.toNat := hc.2
    have : 'F'.toNat = 'A'.toNat + 5 := rfl
    omega
  · cases h

theorem hexNumber?_lt {a b c d : Char} {n : Nat} (h : hexNumber? a b c d = some n) :
    n < 0x10000 := by
  simp only [hexNumber?, Option.bind_eq_bind, Option.bind_eq_some_iff, Option.pure_def,
    Option.some.injEq] at h
  obtain ⟨a, ha, b, hb, c, hc, d, hd, rfl⟩ := h
  have := hexValue?_lt ha
  have := hexValue?_lt hb
  have := hexValue?_lt hc
  have := hexValue?_lt hd
  omega

/-- The three ranges of sixteen bits: the two of the halves and the rest. -/
theorem Piece.written_ofNat {n : Nat} {cs : List Char} (h : Numbered n cs) :
    (Piece.ofNat n).Written cs := by
  have hlt : n < 0x10000 := by
    cases h with
    | mk h => exact hexNumber?_lt h
  unfold Piece.ofNat
  split
  · exact .high (by omega) (by rwa [Nat.add_sub_cancel' (by omega)])
  split
  · exact .low (by omega) (by rwa [Nat.add_sub_cancel' (by omega)])
  · have hvalid : n.isValidChar := by
      unfold Nat.isValidChar
      omega
    refine .numbered ?_
    rwa [toNat_charOfNat hvalid]

/-- What comes after an opening quote is parts of a string and the closing quote. -/
theorem written_of_scanString {cs : List Char} {s : Scanned} (h : scanString cs = some s) :
    ∃ inside, PiecesWritten s.pieces inside ∧ s.text = inside ++ ['"'] ∧
      cs = s.text ++ s.rest := by
  fun_induction scanString cs generalizing s with
  | case1 => cases h
  | case2 rest =>
    cases h
    exact ⟨[], .nil, rfl, rfl⟩
  | case3 a b c d rest p hp ih =>
    obtain ⟨s, hs, rfl⟩ := Option.map_eq_some_iff.1 h
    obtain ⟨inside, hinside, htext, rfl⟩ := ih hs
    rw [numbered?_eq] at hp
    obtain ⟨n, hn, rfl⟩ := Option.map_eq_some_iff.1 hp
    exact ⟨_, .cons (Piece.written_ofNat (.mk hn)) hinside, by simp [Scanned.cons, htext], rfl⟩
  | case4 => cases h
  | case5 e rest _ c hc ih =>
    obtain ⟨s, hs, rfl⟩ := Option.map_eq_some_iff.1 h
    obtain ⟨inside, hinside, htext, rfl⟩ := ih hs
    exact ⟨_, .cons (.short hc) hinside, by simp [Scanned.cons, htext], rfl⟩
  | case6 => cases h
  | case7 => cases h
  | case8 c rest hquote _ _ hplain ih =>
    obtain ⟨s, hs, rfl⟩ := Option.map_eq_some_iff.1 h
    obtain ⟨inside, hinside, htext, rfl⟩ := ih hs
    obtain ⟨hcontrol, hslash⟩ := not_or.1 hplain
    exact ⟨_, .cons (.plain (Nat.le_of_not_lt hcontrol) hquote hslash) hinside,
      by simp [Scanned.cons, htext], rfl⟩

theorem Piece.ofNat_toNat (c : Char) : Piece.ofNat c.toNat = .char c := by
  have hvalid : c.toNat < 0xd800 ∨ 0xdfff < c.toNat ∧ c.toNat < 0x110000 := c.valid
  unfold Piece.ofNat
  rw [if_neg (by omega), if_neg (by omega), Char.ofNat_toNat]

theorem scanString_numbered {n : Nat} {cs : List Char} (h : Numbered n cs) (rest : List Char) :
    scanString (cs ++ rest) = (scanString rest).map (.cons (.ofNat n) cs) := by
  cases h with
  | mk h =>
    simp only [List.cons_append, List.nil_append]
    rw [scanString, numbered?_eq, h]
    rfl

/-- One part of a string is scanned as it is. -/
theorem Piece.Written.scanString_eq {p : Piece} {cs : List Char} (h : p.Written cs)
    (rest : List Char) : scanString (cs ++ rest) = (scanString rest).map (.cons p cs) := by
  cases h with
  | @plain c hcontrol hquote hslash =>
    have hplain : ¬(c.toNat < 0x20 ∨ c = '\\') := not_or.2 ⟨Nat.not_lt.2 hcontrol, hslash⟩
    rw [List.singleton_append, scanString, if_neg hplain]
    · exact hquote
    · intro _ _ _ _ _ hc
      exact absurd hc hslash
    · intro _ _ hc
      exact absurd hc hslash
  | @short c e h =>
    simp only [List.cons_append, List.nil_append]
    rw [scanString, h]
    intro _ _ _ _ _ he
    subst he
    cases h
  | numbered h => rw [scanString_numbered h, Piece.ofNat_toNat]
  | @high n cs hlt h =>
    have hhigh : Piece.ofNat (0xd800 + n) = .high n := by
      unfold Piece.ofNat
      rw [if_pos (by omega), Nat.add_sub_cancel_left]
    rw [scanString_numbered h, hhigh]
  | @low n cs hlt h =>
    have hlow : Piece.ofNat (0xdc00 + n) = .low n := by
      unfold Piece.ofNat
      rw [if_neg (by omega), if_pos (by omega), Nat.add_sub_cancel_left]
    rw [scanString_numbered h, hlow]

theorem PiecesWritten.scanString_eq {ps : List Piece} {inside : List Char}
    (h : PiecesWritten ps inside) (rest : List Char) :
    scanString (inside ++ '"' :: rest) = some ⟨ps, inside ++ ['"'], rest⟩ := by
  induction h with
  | nil => rfl
  | cons hp _ ih =>
    rw [List.append_assoc, hp.scanString_eq, ih]
    simp [Scanned.cons]

/-- A text has only one cut into parts of a string. -/
theorem PiecesWritten.unique {ps qs : List Piece} {inside : List Char}
    (hps : PiecesWritten ps inside) (hqs : PiecesWritten qs inside) : ps = qs := by
  have heq := (hps.scanString_eq []).symm.trans (hqs.scanString_eq [])
  cases heq
  rfl

theorem Piece.Written.high_lt {n : Nat} {cs : List Char} (h : (Piece.high n).Written cs) :
    n < 0x400 := by
  cases h with
  | high hlt _ => exact hlt

theorem Piece.Written.low_lt {n : Nat} {cs : List Char} (h : (Piece.low n).Written cs) :
    n < 0x400 := by
  cases h with
  | low hlt _ => exact hlt

/-- Parts of a string that can be put together write the characters that they make. -/
theorem charsWritten_of_assemble {ps : List Piece} {text inside : List Char}
    (hps : PiecesWritten ps inside) (h : assemble ps = some text) : CharsWritten text inside := by
  fun_induction assemble ps generalizing text inside with
  | case1 =>
    cases h
    cases hps
    exact .nil
  | case2 c ps ih =>
    obtain ⟨text, htext, rfl⟩ := Option.map_eq_some_iff.1 h
    cases hps with
    | cons hc hps => exact .char hc (ih hps htext)
  | case3 high low ps ih =>
    obtain ⟨text, htext, rfl⟩ := Option.map_eq_some_iff.1 h
    obtain _ | ⟨hhigh, _ | ⟨hlow, hps⟩⟩ := hps
    have hvalid : (0x10000 + high * 0x400 + low).isValidChar := by
      have := hhigh.high_lt
      have := hlow.low_lt
      unfold Nat.isValidChar
      omega
    exact .halves hhigh hlow (by rw [toNat_charOfNat hvalid]) (ih hps htext)
  | case4 => cases h

theorem CharsWritten.exists_pieces {text inside : List Char} (h : CharsWritten text inside) :
    ∃ ps, PiecesWritten ps inside ∧ assemble ps = some text := by
  induction h with
  | nil => exact ⟨[], .nil, rfl⟩
  | @char c text cs inside hc _ ih =>
    obtain ⟨ps, hps, htext⟩ := ih
    exact ⟨.char c :: ps, .cons hc hps, by rw [assemble, htext]; rfl⟩
  | @halves c h l text high low inside hhigh hlow hc _ ih =>
    obtain ⟨ps, hps, htext⟩ := ih
    refine ⟨.high h :: .low l :: ps, .cons hhigh (.cons hlow hps), ?_⟩
    rw [assemble, htext, ← hc, Char.ofNat_toNat]
    rfl

/-! ## The text that a string is printed as -/

theorem hexValue?_hexDigit (n : Nat) : hexValue? (hexDigit n) = some (n % 16) := by
  have h : ∀ d < 16, hexValue? (Nat.digitChar d) = some d := by decide
  exact h (n % 16) (Nat.mod_lt n (by decide))

theorem numbered_control {n : Nat} (h : n < 0x20) :
    Numbered n ['\\', 'u', '0', '0', hexDigit (n / 16), hexDigit n] := by
  have hzero : hexValue? '0' = some 0 := rfl
  have hnumber : ((0 * 16 + 0) * 16 + n / 16 % 16) * 16 + n % 16 = n := by omega
  refine .mk ?_
  simp only [hexNumber?, hzero, hexValue?_hexDigit, Option.bind_eq_bind, Option.bind_some,
    Option.pure_def, hnumber]

theorem Piece.written_escape (c : Char) : (Piece.char c).Written (escape c) := by
  unfold escape
  split
  iterate 7 (· exact .short rfl)
  · next hquote hslash _ _ _ _ _ =>
    split
    · next hcontrol => exact .numbered (numbered_control hcontrol)
    · next hcontrol => exact .plain (Nat.le_of_not_lt hcontrol) hquote hslash

theorem charsWritten_escape (cs : List Char) : CharsWritten cs (cs.flatMap escape) := by
  induction cs with
  | nil => exact .nil
  | cons c cs ih => exact .char (Piece.written_escape c) ih

end Scriptlet.Json
