import Highlighting.Text.Quoted
import Mathlib.Algebra.GroupWithZero.Nat

/-!
# Reading quoted texts

A text is read back from its quoted form: the quotes go, and every escape stands for one character.
The letter behind the backslash says how many digits belong to an escape, so the reader has to know
neither which quote is in use nor which characters count as printable. Quoted texts are therefore
unambiguous, whatever characters are written as themselves.
-/

namespace Highlighting

/-! ## Hexadecimal numbers of a fixed width -/

namespace Numeral

def hexValue (digits : List Char) : Nat :=
  digits.foldl (fun n c => 16 * n + (hexDigit? c).getD 0) 0

theorem hexValue_concat (digits : List Char) (c : Char) :
    hexValue (digits ++ [c]) = 16 * hexValue digits + (hexDigit? c).getD 0 := by
  rw [hexValue, List.foldl_append]
  rfl

theorem hexValue_hex (width n : Nat) : hexValue (hex width n) = n % 16 ^ width := by
  induction width generalizing n with
  | zero =>
      rw [Nat.pow_zero, Nat.mod_one]
      rfl
  | succ width ih =>
      have hlast : hexDigit? (Nat.digitChar (n % 16)) = some (n % 16) :=
        hexDigit?_digitChar (n % 16) (Nat.mod_lt n (by decide))
      rw [hex, hexValue_concat, ih, hlast, Nat.pow_succ', Nat.mod_mul, Nat.add_comm]
      rfl

end Numeral

namespace Quoted

/-! ## Writing, whatever is printable -/

def encodeCharBy (printable : Char → Bool) (quote c : Char) : List Char :=
  if c = quote ∨ c = '\\' then ['\\', c]
  else if c = '\t' then ['\\', 't']
  else if c = '\n' then ['\\', 'n']
  else if c = '\r' then ['\\', 'r']
  else if printable c then [c]
  else escapeCode c

def encodeBy (printable : Char → Bool) (cs : List Char) : List Char :=
  let quote := quoteFor cs
  quote :: (cs.flatMap (encodeCharBy printable quote) ++ [quote])

theorem encode_eq_encodeBy : encode = encodeBy isPrintable :=
  rfl

/-! ## Reading -/

/-- Number of the digits that follow the letter of an escape by code point. -/
def codeWidth? : Char → Option Nat
  | 'x' => some 2
  | 'u' => some 4
  | 'U' => some 8
  | _ => none

def namedChar : Char → Char
  | 't' => '\t'
  | 'n' => '\n'
  | 'r' => '\r'
  | c => c

def decodeChars : List Char → List Char
  | [] => []
  | [c] => [c]
  | c :: mark :: rest =>
      if c = '\\' then
        match codeWidth? mark with
        | some width => Char.ofNat (Numeral.hexValue (rest.take width)) ::
            decodeChars (rest.drop width)
        | none => namedChar mark :: decodeChars rest
      else c :: decodeChars (mark :: rest)
termination_by cs => cs.length
decreasing_by
  all_goals
    simp only [List.length_drop, List.length_cons]
    omega

def decode (cs : List Char) : List Char :=
  decodeChars cs.tail.dropLast

theorem decodeChars_cons {c : Char} (h : c ≠ '\\') (rest : List Char) :
    decodeChars (c :: rest) = c :: decodeChars rest := by
  cases rest with
  | nil =>
      rw [decodeChars, decodeChars]
  | cons mark rest =>
      rw [decodeChars, if_neg h]

theorem decodeChars_named {mark : Char} (h : codeWidth? mark = none) (rest : List Char) :
    decodeChars ('\\' :: mark :: rest) = namedChar mark :: decodeChars rest := by
  rw [decodeChars, if_pos rfl, h]

theorem decodeChars_code {mark : Char} {width : Nat} (h : codeWidth? mark = some width) (c : Char)
    (hwide : c.toNat < 16 ^ width) (rest : List Char) :
    decodeChars ('\\' :: mark :: (Numeral.hex width c.toNat ++ rest)) = c :: decodeChars rest := by
  have hlength : (Numeral.hex width c.toNat).length = width :=
    Numeral.length_hex width c.toNat
  rw [decodeChars, if_pos rfl, h]
  simp only [List.take_left' hlength, List.drop_left' hlength]
  rw [Numeral.hexValue_hex, Nat.mod_eq_of_lt hwide, Char.ofNat_toNat]

/-- The width of an escape by code point is chosen so that it holds the code point. -/
theorem decodeChars_escapeCode_append (c : Char) (rest : List Char) :
    decodeChars (escapeCode c ++ rest) = c :: decodeChars rest := by
  have hvalid : c.toNat < 0xd800 ∨ 0xdfff < c.toNat ∧ c.toNat < 0x110000 := c.valid
  simp only [escapeCode]
  split
  · rename_i hbyte
    exact decodeChars_code rfl c hbyte rest
  split
  · rename_i hunit
    exact decodeChars_code rfl c hunit rest
  · have hwide : c.toNat < 16 ^ 8 := by
      omega
    exact decodeChars_code rfl c hwide rest

theorem quoteFor_cases (cs : List Char) : quoteFor cs = '\'' ∨ quoteFor cs = '"' := by
  unfold quoteFor
  split
  · exact Or.inr rfl
  · exact Or.inl rfl

theorem namedChar_of_special {quote c : Char} (hquote : quote = '\'' ∨ quote = '"')
    (h : c = quote ∨ c = '\\') : codeWidth? c = none ∧ namedChar c = c := by
  rcases h with rfl | rfl
  · rcases hquote with rfl | rfl
    · exact ⟨rfl, rfl⟩
    · exact ⟨rfl, rfl⟩
  · exact ⟨rfl, rfl⟩

theorem decodeChars_encodeCharBy_append (printable : Char → Bool) {quote : Char}
    (hquote : quote = '\'' ∨ quote = '"') (c : Char) (rest : List Char) :
    decodeChars (encodeCharBy printable quote c ++ rest) = c :: decodeChars rest := by
  by_cases hspecial : c = quote ∨ c = '\\'
  · rcases namedChar_of_special hquote hspecial with ⟨hwidth, hnamed⟩
    rw [encodeCharBy, if_pos hspecial]
    exact (decodeChars_named hwidth rest).trans (by rw [hnamed])
  -- Every other escape has a letter behind its backslash, which alone says how it is read.
  rw [encodeCharBy, if_neg hspecial]
  split
  · rename_i htab
    rw [htab]
    exact decodeChars_named rfl rest
  split
  · rename_i hnewline
    rw [hnewline]
    exact decodeChars_named rfl rest
  split
  · rename_i hreturn
    rw [hreturn]
    exact decodeChars_named rfl rest
  split
  · exact decodeChars_cons (fun heq => hspecial (Or.inr heq)) rest
  · exact decodeChars_escapeCode_append c rest

theorem decodeChars_flatMap (printable : Char → Bool) {quote : Char}
    (hquote : quote = '\'' ∨ quote = '"') (cs : List Char) :
    decodeChars (cs.flatMap (encodeCharBy printable quote)) = cs := by
  induction cs with
  | nil =>
      rw [List.flatMap_nil, decodeChars]
  | cons c cs ih =>
      rw [List.flatMap_cons, decodeChars_encodeCharBy_append printable hquote, ih]

theorem decode_encodeBy (printable : Char → Bool) (cs : List Char) :
    decode (encodeBy printable cs) = cs := by
  have hbody : (encodeBy printable cs).tail.dropLast =
      cs.flatMap (encodeCharBy printable (quoteFor cs)) := by
    simp only [encodeBy, List.tail_cons, List.dropLast_concat]
  rw [decode, hbody, decodeChars_flatMap printable (quoteFor_cases cs)]

theorem encodeBy_inj {printable : Char → Bool} {first second : List Char} :
    encodeBy printable first = encodeBy printable second ↔ first = second := by
  constructor
  · intro h
    rw [← decode_encodeBy printable first, h, decode_encodeBy]
  · intro h
    rw [h]

end Quoted
end Highlighting
