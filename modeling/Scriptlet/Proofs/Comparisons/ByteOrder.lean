-- The order of texts. Two texts stand to each other as the numbers of their characters do,
-- and also as the bytes of their UTF-8 forms do: a character with a greater number has a
-- greater byte where its bytes first differ from those of the other, and neither form runs
-- out before that.
import Mathlib.Data.String.Basic
import Scriptlet.Proofs.Lines

namespace Scriptlet

/-! ## Lexicographic orders -/

/-- Pieces that are made of characters keep the order of texts if they keep that of
single characters, whatever stands after those. -/
theorem flatMap_lt_flatMap {β : Type} [LinearOrder β] {piece : Char → List β}
    (hpiece : ∀ c d, c < d → ∀ us vs, piece c ++ us < piece d ++ vs)
    (hne : ∀ c, piece c ≠ []) {cs ds : List Char} (h : cs < ds) :
    cs.flatMap piece < ds.flatMap piece := by
  induction cs generalizing ds with
  | nil =>
    cases ds with
    | nil => exact absurd h (lt_irrefl _)
    | cons d ds =>
      obtain ⟨x, xs, hd⟩ := List.exists_cons_of_ne_nil (hne d)
      rw [List.flatMap_nil, List.flatMap_cons, hd]
      exact List.nil_lt_cons x _
  | cons c cs ih =>
    cases ds with
    | nil => exact absurd h (List.not_lt_nil _)
    | cons d ds =>
      rw [List.flatMap_cons, List.flatMap_cons]
      rcases List.cons_lt_cons_iff.1 h with hlt | ⟨rfl, hlt⟩
      · exact hpiece c d hlt _ _
      · exact List.append_left_lt (ih hlt)

theorem lt_iff_flatMap_lt {β : Type} [LinearOrder β] {piece : Char → List β}
    (hpiece : ∀ c d, c < d → ∀ us vs, piece c ++ us < piece d ++ vs)
    (hne : ∀ c, piece c ≠ []) {s t : String} :
    s < t ↔ s.toList.flatMap piece < t.toList.flatMap piece := by
  have hkeeps {s t : String} (h : s < t) :
      s.toList.flatMap piece < t.toList.flatMap piece :=
    flatMap_lt_flatMap hpiece hne (String.lt_iff_toList_lt.1 h)
  refine ⟨hkeeps, fun h => ?_⟩
  rcases lt_trichotomy s t with hlt | rfl | hlt
  · exact hlt
  · exact absurd h (lt_irrefl _)
  · exact absurd (hkeeps hlt) (lt_asymm h)

/-! ## Code points -/

/-- The numbers of the characters of a text. -/
def codePoints (s : String) : List Nat := s.toList.map Char.toNat

theorem lt_iff_codePoints_lt {s t : String} : s < t ↔ codePoints s < codePoints t := by
  have hmap (cs : List Char) : cs.map Char.toNat = cs.flatMap fun c => [c.toNat] := by
    induction cs with
    | nil => rfl
    | cons c cs ih => simp [ih]
  rw [codePoints, codePoints, hmap, hmap]
  apply lt_iff_flatMap_lt
  · intro c d h us vs
    exact List.cons_lt_cons_iff.2 (.inl h)
  · intro c
    simp

/-! ## Bytes -/

/-- The bytes of the UTF-8 form of a character, as numbers. -/
def charBytes (c : Char) : List Nat := (String.utf8EncodeChar c).map UInt8.toNat

/-- The bytes of the UTF-8 form of a text, as numbers. -/
def utf8Bytes (s : String) : List Nat := s.toUTF8.data.toList.map UInt8.toNat

theorem utf8Bytes_eq (s : String) : utf8Bytes s = s.toList.flatMap charBytes := by
  unfold utf8Bytes charBytes
  rw [utf8_eq_flatMap, List.map_flatMap]

theorem charBytes_ne_nil (c : Char) : charBytes c ≠ [] := by
  intro hnil
  have hlength := String.length_utf8EncodeChar c
  have hpos := c.utf8Size_pos
  rw [List.map_eq_nil_iff.1 hnil, List.length_nil] at hlength
  omega

theorem toNat_lt_of_char (c : Char) : c.toNat < 0x110000 := by
  rcases c.valid with h | ⟨-, h⟩
  · exact Nat.lt_trans h (by decide)
  · exact h

/-- The digits of a character's number in base 64, the first of them in a byte that tells
how many follow. -/
theorem charBytes_eq (c : Char) :
    charBytes c =
      let n := c.toNat
      if n ≤ 0x7f then [n]
      else if n ≤ 0x7ff then [n / 64 + 0xc0, n % 64 + 0x80]
      else if n ≤ 0xffff then [n / 4096 + 0xe0, n / 64 % 64 + 0x80, n % 64 + 0x80]
      else [n / 262144 + 0xf0, n / 4096 % 64 + 0x80, n / 64 % 64 + 0x80, n % 64 + 0x80] := by
  have hmax := toNat_lt_of_char c
  have hval : c.val.toNat = c.toNat := rfl
  unfold charBytes String.utf8EncodeChar
  rw [hval]
  generalize c.toNat = n at *
  dsimp only
  split_ifs
  all_goals
    simp
    omega

/-- More bytes start with a greater one, and of as many bytes the greater number has the
greater digits. -/
theorem charBytes_append_lt {c d : Char} (h : c < d) (us vs : List Nat) :
    charBytes c ++ us < charBytes d ++ vs := by
  have hlt : c.toNat < d.toNat := h
  have hmax := toNat_lt_of_char d
  rw [charBytes_eq, charBytes_eq]
  generalize c.toNat = m at *
  generalize d.toNat = n at *
  dsimp only
  split_ifs
  all_goals
    simp only [List.cons_append, List.nil_append, List.cons_lt_cons_iff]
  all_goals omega

theorem lt_iff_utf8Bytes_lt {s t : String} : s < t ↔ utf8Bytes s < utf8Bytes t := by
  rw [utf8Bytes_eq, utf8Bytes_eq]
  apply lt_iff_flatMap_lt
  · intro c d h us vs
    exact charBytes_append_lt h us vs
  · exact charBytes_ne_nil

end Scriptlet
