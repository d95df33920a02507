import Highlighting.Json.Parser
import Highlighting.Json.Printer

/-!
# JSON strings

Scanning a printed string gives the string back, whatever stands behind it. A character is printed
as itself, as a short escape, as the escape of one UTF-16 unit or as the escapes of a surrogate
pair; in each form the scanner finds a single part, which stands for the character.
-/

namespace Highlighting
namespace Json

theorem scanPieces_unit (opening : List Char) {a b c d : Char} {n : Nat}
    (hunit : unit? a b c d = some n) {rest : List Char} (hrest : rest ≠ []) :
    scanPieces opening ('\\' :: 'u' :: a :: b :: c :: d :: rest) =
      (scanPieces opening rest).cons (.unit n) := by
  cases rest with
  | nil =>
      exact absurd rfl hrest
  | cons e rest =>
      simp [scanPieces, hunit]

theorem scanPieces_escapeUnit_append (opening : List Char) {n : Nat} (hn : n < 0x10000)
    {rest : List Char} (hrest : rest ≠ []) :
    scanPieces opening (escapeUnit n ++ rest) = (scanPieces opening rest).cons (.unit n) := by
  have hunit : unit? (Nat.digitChar (n / 16 / 16 / 16 % 16)) (Nat.digitChar (n / 16 / 16 % 16))
      (Nat.digitChar (n / 16 % 16)) (Nat.digitChar (n % 16)) = some n := by
    simp only [unit?, Numeral.hexDigit?_digitChar _ (Nat.mod_lt _ (by decide : 0 < 16))]
    congr 1
    omega
  exact scanPieces_unit opening hunit hrest

theorem scanPieces_shortEscape (opening : List Char) {c escaped : Char} (hu : c ≠ 'u')
    (hescape : shortEscape? c = some escaped) (rest : List Char) :
    scanPieces opening ('\\' :: c :: rest) = (scanPieces opening rest).cons (.char escaped) := by
  simp [scanPieces, hu, hescape]

def pieceOf (c : Char) : Piece :=
  if 0x10000 ≤ c.toNat ∨ 0x20 ≤ c.toNat ∧ c.toNat < 0x7f ∨
      c ∈ ['\n', '\r', '\t', '\x08', '\x0c'] then .char c
  else .unit c.toNat

theorem not_surrogate (c : Char) : isHigh c.toNat = false ∧ isLow c.toNat = false := by
  have hvalid : c.toNat < 0xd800 ∨ 0xdfff < c.toNat ∧ c.toNat < 0x110000 := c.valid
  simp only [isHigh, isLow, decide_eq_false_iff_not]
  omega

theorem toChar_pieceOf (c : Char) : (pieceOf c).toChar = c := by
  unfold pieceOf
  split
  · rfl
  · rcases not_surrogate c with ⟨hhigh, hlow⟩
    simp [Piece.toChar, hhigh, hlow]

theorem scanPieces_cons (opening : List Char) {c : Char} (hquote : c ≠ '"') (hbackslash : c ≠ '\\')
    (hvisible : 0x20 ≤ c.toNat) (rest : List Char) :
    scanPieces opening (c :: rest) = (scanPieces opening rest).cons (.char c) := by
  have hcontrol : ¬ c.toNat < 0x20 := by
    omega
  simp [scanPieces, hbackslash, hcontrol]

theorem cons_eq_map {piece : Piece} (h : ∀ pieces, piece.cons pieces = piece :: pieces)
    (scanned : Scanned (List Piece)) :
    scanned.cons piece = scanned.map fun read => (piece :: read.1, read.2) := by
  simp only [Scanned.cons, h]

theorem cons_char (c : Char) (scanned : Scanned (List Piece)) :
    scanned.cons (.char c) = scanned.map fun read => (.char c :: read.1, read.2) :=
  cons_eq_map (fun _ => rfl) scanned

theorem cons_unit {n : Nat} (h : isHigh n = false) (scanned : Scanned (List Piece)) :
    scanned.cons (.unit n) = scanned.map fun read => (.unit n :: read.1, read.2) := by
  apply cons_eq_map
  intro pieces
  unfold Piece.cons
  split
  · rename_i heq
    cases heq
    simp [h]
  · rfl

theorem cons_surrogates {c : Char} (h : 0x10000 ≤ c.toNat) (scanned : Scanned (List Piece)) :
    (scanned.cons (.unit (lowSurrogate c.toNat))).cons (.unit (highSurrogate c.toNat)) =
      scanned.map fun read => (.char c :: read.1, read.2) := by
  have hvalid : c.toNat < 0xd800 ∨ 0xdfff < c.toNat ∧ c.toNat < 0x110000 := c.valid
  have hhigh : isHigh (highSurrogate c.toNat) = true := by
    apply decide_eq_true
    unfold highSurrogate
    omega
  have hlow : isLow (lowSurrogate c.toNat) = true := by
    apply decide_eq_true
    unfold lowSurrogate
    omega
  have hnot : isHigh (lowSurrogate c.toNat) = false := by
    apply decide_eq_false
    unfold lowSurrogate
    omega
  have hchar : Char.ofNat (0x10000 + (highSurrogate c.toNat - 0xd800) * 0x400 +
      (lowSurrogate c.toNat - 0xdc00)) = c := by
    have hsum : 0x10000 + (highSurrogate c.toNat - 0xd800) * 0x400 +
        (lowSurrogate c.toNat - 0xdc00) = c.toNat := by
      simp only [highSurrogate, lowSurrogate]
      omega
    rw [hsum, Char.ofNat_toNat]
  rw [cons_unit hnot]
  cases scanned with
  | error fault =>
      rfl
  | ok read =>
      simp [Scanned.cons, Except.map, Piece.cons, hhigh, hlow, hchar]

theorem scanPieces_escapeChar_append (opening : List Char) (c : Char) {rest : List Char}
    (hrest : rest ≠ []) :
    scanPieces opening (escapeChar c ++ rest) =
      (scanPieces opening rest).map fun read => (pieceOf c :: read.1, read.2) := by
  by_cases hquote : c = '"'
  · subst hquote
    exact cons_char '"' _
  by_cases hbackslash : c = '\\'
  · subst hbackslash
    exact cons_char '\\' _
  by_cases hnewline : c = '\n'
  · subst hnewline
    exact cons_char '\n' _
  by_cases hreturn : c = '\r'
  · subst hreturn
    exact cons_char '\r' _
  by_cases htab : c = '\t'
  · subst htab
    exact cons_char '\t' _
  by_cases hbackspace : c = '\x08'
  · subst hbackspace
    exact cons_char '\x08' _
  by_cases hfeed : c = '\x0c'
  · subst hfeed
    exact cons_char '\x0c' _
  have hnamed : c ∉ ['\n', '\r', '\t', '\x08', '\x0c'] := by
    simp [hnewline, hreturn, htab, hbackspace, hfeed]
  simp only [escapeChar, hquote, hbackslash, hnewline, hreturn, htab, hbackspace, hfeed, if_false]
  split
  · rename_i hvisible
    have hpiece : pieceOf c = .char c := if_pos (Or.inr (Or.inl hvisible))
    rw [hpiece, ← cons_char]
    exact scanPieces_cons opening hquote hbackslash hvisible.1 rest
  rename_i hhidden
  split
  · rename_i hunit
    have hpiece : pieceOf c = .unit c.toNat := by
      apply if_neg
      intro h
      rcases h with (hwide | hvisible | hmem)
      · omega
      · exact hhidden hvisible
      · exact hnamed hmem
    rw [hpiece, ← cons_unit (not_surrogate c).1]
    exact scanPieces_escapeUnit_append opening hunit hrest
  · rename_i hwide
    have hwide : 0x10000 ≤ c.toNat := by
      omega
    have hvalid : c.toNat < 0xd800 ∨ 0xdfff < c.toNat ∧ c.toNat < 0x110000 := c.valid
    have hhigh : highSurrogate c.toNat < 0x10000 := by
      unfold highSurrogate
      omega
    have hlow : lowSurrogate c.toNat < 0x10000 := by
      unfold lowSurrogate
      omega
    have hpiece : pieceOf c = .char c := if_pos (Or.inl hwide)
    rw [hpiece, ← cons_surrogates hwide, List.append_assoc,
      scanPieces_escapeUnit_append opening hhigh (by simp [escapeUnit]),
      scanPieces_escapeUnit_append opening hlow hrest]

theorem scanPieces_escapeChars_append (opening : List Char) (cs rest : List Char) :
    scanPieces opening (cs.flatMap escapeChar ++ '"' :: rest) = .ok (cs.map pieceOf, rest) := by
  induction cs with
  | nil =>
      rfl
  | cons c cs ih =>
      have hne : cs.flatMap escapeChar ++ '"' :: rest ≠ [] := by
        simp
      rw [List.flatMap_cons, List.append_assoc, scanPieces_escapeChar_append opening c hne, ih]
      rfl

/-- A printed string is read back, up to and with its closing quote. -/
theorem scanString_escapeChars_append (opening : List Char) (text : String) (rest : List Char) :
    scanString opening (text.toList.flatMap escapeChar ++ '"' :: rest) = .ok (text, rest) := by
  have hpieces : Piece.toChar ∘ pieceOf = id := by
    funext c
    exact toChar_pieceOf c
  rw [scanString, scanPieces_escapeChars_append]
  simp [Except.map, hpieces]

end Json
end Highlighting
